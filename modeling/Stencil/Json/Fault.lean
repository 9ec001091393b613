import Stencil.Text.Ascii

/-! What can be wrong with the text of a document, and where. -/
namespace Stencil

inductive Cause where
  | eofList
  | eofObject
  | eofString
  | eofValue
  | expectedColon
  | expectedListEnd
  | expectedObjectEnd
  | expectedWord
  | expectedValue
  | keyNotString
  | invalidEscape
  | invalidNumber
  | numberOutOfRange
  | invalidCodePoint
  | controlCharacter
  | loneSurrogate
  | unfinishedSurrogate
  | trailingComma
  | trailingCharacters
  | recursionLimit
  | wrongKind (found expected : String)
  | unknownField (name expected : String)
  | repeatedField (name : String)
deriving DecidableEq

def Cause.text : Cause → String
  | eofList => "EOF while parsing a list"
  | eofObject => "EOF while parsing an object"
  | eofString => "EOF while parsing a string"
  | eofValue => "EOF while parsing a value"
  | expectedColon => "expected `:`"
  | expectedListEnd => "expected `,` or `]`"
  | expectedObjectEnd => "expected `,` or `\x7d`"
  | expectedWord => "expected ident"
  | expectedValue => "expected value"
  | keyNotString => "key must be a string"
  | invalidEscape => "invalid escape"
  | invalidNumber => "invalid number"
  | numberOutOfRange => "number out of range"
  | invalidCodePoint => "invalid unicode code point"
  | controlCharacter => "control character (\\u0000-\\u001F) found while parsing a string"
  | loneSurrogate => "lone leading surrogate in hex escape"
  | unfinishedSurrogate => "unexpected end of hex escape"
  | trailingComma => "trailing comma"
  | trailingCharacters => "trailing characters"
  | recursionLimit => "recursion limit exceeded"
  | wrongKind found expected => "invalid type: " ++ found ++ ", expected " ++ expected
  | unknownField name expected => "unknown field `" ++ name ++ "`, expected " ++ expected
  | repeatedField name => "duplicate field `" ++ name ++ "`"

/-- One step from a value to a value inside it; `unknown` stands for a key that was not read. -/
inductive Step where
  | index (i : Nat)
  | key (k : String)
  | unknown
deriving DecidableEq

namespace Step

def text : Step → String
  | index i => "[" ++ toString i ++ "]"
  | key k => k
  | unknown => "?"

/-- Steps one after the other, with a dot before every step but the first and the indices. -/
def pathText : List Step → String
  | [] => "."
  | s :: ss => s.text ++ String.join (ss.map fun
    | index i => (index i).text
    | t => "." ++ t.text)

end Step

/-- A refusal while reading: what was left of the text behind the place of the fault, and the steps
to the value that was being read. -/
structure Failure where
  cause : Cause
  rest : Bytes
  path : List Step := []
deriving DecidableEq

/-- The same failure, seen from a value around it. -/
def Failure.inside (f : Failure) (s : Step) : Failure := { f with path := s :: f.path }

/-- A line, counted from one, and a number of bytes in it. -/
structure Position where
  line : Nat
  column : Nat
deriving DecidableEq

def Position.behind (bs : Bytes) : Position where
  line := bs.count Ascii.newline + 1
  column := (bs.reverse.takeWhile (· != Ascii.newline)).length

structure ReadError where
  cause : Cause
  position : Position
  path : List Step
deriving DecidableEq

namespace ReadError

def ofFailure (source : Bytes) (f : Failure) : ReadError where
  cause := f.cause
  position := .behind (source.take (source.length - f.rest.length))
  path := f.path

def message (e : ReadError) : String :=
  e.cause.text ++ " at line " ++ toString e.position.line ++ " column " ++ toString e.position.column

/-- The message behind the place in the document. -/
def located (e : ReadError) : String :=
  "at JSON path " ++ Step.pathText e.path ++ " (line " ++ toString e.position.line ++ ", column " ++
    toString e.position.column ++ ") → " ++ e.message

end ReadError

end Stencil
