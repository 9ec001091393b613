/-! A line of text taken apart at its spaces, one word at a time. -/
namespace Stencil

/-- A line that is being read: the last word read, and what is left, from which the spaces around it have
been dropped. -/
structure Words where
  current : Option String
  rest : List Char
deriving DecidableEq

namespace Words

def isSpace (c : Char) : Bool := c == ' '

/-- Drops the spaces at both ends. Tabs and other blanks stay. -/
def strip (cs : List Char) : List Char := ((cs.dropWhile isSpace).reverse.dropWhile isSpace).reverse

def ofChars (cs : List Char) : Words := ⟨none, strip cs⟩

def ofString (s : String) : Words := ofChars s.toList

/-- Reads the next word; there is no current word at the end of the line. -/
def next (w : Words) : Words :=
  if w.rest.isEmpty then ⟨none, []⟩
  else ⟨some (String.ofList (w.rest.takeWhile (!isSpace ·))), strip (w.rest.dropWhile (!isSpace ·))⟩

def remainder? (w : Words) : Option String :=
  if w.rest.isEmpty then none else some (String.ofList w.rest)

/-- Gives up the rest of the line. -/
def done (_ : Words) : Words := ⟨none, []⟩

/-- Reads on behind the word `keyword`, and tells whether it was the current one. -/
def accept (w : Words) (keyword : String) : Bool × Words :=
  if w.current = some keyword then (true, w.next) else (false, w)

/-- The first word of `s`, empty when there is none. -/
def first (s : String) : String :=
  String.ofList ((s.toList.dropWhile isSpace).takeWhile (!isSpace ·))

end Words

end Stencil
