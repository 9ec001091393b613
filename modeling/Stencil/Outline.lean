import Stencil.Text.Invisible

/-! Values laid out for a reader: names, fields and items, on one line or one to a line. -/
namespace Stencil

/-- A character inside double quotes. Characters without a look of their own are given by number. -/
def quotedChar (c : Char) : String :=
  match c with
  | '\x00' => "\\0"
  | '\t' => "\\t"
  | '\r' => "\\r"
  | '\n' => "\\n"
  | '"' => "\\\""
  | '\\' => "\\\\"
  | c => if isInvisible c then "\\u\x7b" ++ String.ofList (Nat.toDigits 16 c.toNat) ++ "\x7d" else c.toString

def quotedText (s : String) : String := "\"" ++ String.join (s.toList.map quotedChar) ++ "\""

inductive Outline where
  | atom (text : String)
  | call (name : String) (arguments : List Outline)
  | record (name : String) (fields : List (String × Outline))
  /-- Items in brackets behind a label. -/
  | list (label : String) (items : List Outline)
  /-- Quoted keys with their values in braces behind a label. -/
  | map (label : String) (entries : List (String × Outline))

namespace Outline

def ofOption {α : Type} (f : α → Outline) : Option α → Outline
  | none => atom "None"
  | some a => call "Some" [f a]

def ofBool (b : Bool) : Outline := atom (toString b)

def ofText (s : String) : Outline := atom (quotedText s)

mutual

def line : Outline → String
  | atom s => s
  | call name args => name ++ "(" ++ ", ".intercalate (lines args) ++ ")"
  | record name fields => name ++ " \x7b " ++ ", ".intercalate (fieldLines fields) ++ " \x7d"
  | list label items => label ++ "[" ++ ", ".intercalate (lines items) ++ "]"
  | map label entries => label ++ "\x7b" ++ ", ".intercalate (entryLines entries) ++ "\x7d"

def lines : List Outline → List String
  | [] => []
  | o :: os => o.line :: lines os

def fieldLines : List (String × Outline) → List String
  | [] => []
  | (name, o) :: fs => (name ++ ": " ++ o.line) :: fieldLines fs

def entryLines : List (String × Outline) → List String
  | [] => []
  | (k, o) :: es => (quotedText k ++ ": " ++ o.line) :: entryLines es

end

/-- The start of a line, four spaces for each level. -/
def indent (depth : Nat) : String := "\n" ++ String.ofList (List.replicate (4 * depth) ' ')

/-- Parts between two marks, each on a line of its own with a comma behind it. -/
def block (depth : Nat) (opening closing : String) : List String → String
  | [] => opening ++ closing
  | parts =>
    opening ++ String.join (parts.map fun p => indent (depth + 1) ++ p ++ ",") ++ indent depth ++ closing

mutual

/-- Every part on a line of its own, inside `depth` others. -/
def tall (depth : Nat) : Outline → String
  | atom s => s
  | call name args => name ++ block depth "(" ")" (tallItems (depth + 1) args)
  | record name fields => name ++ block depth " \x7b" "\x7d" (tallFields (depth + 1) fields)
  | list label items => label ++ block depth "[" "]" (tallItems (depth + 1) items)
  | map label entries => label ++ block depth "\x7b" "\x7d" (tallEntries (depth + 1) entries)

def tallItems (depth : Nat) : List Outline → List String
  | [] => []
  | o :: os => o.tall depth :: tallItems depth os

def tallFields (depth : Nat) : List (String × Outline) → List String
  | [] => []
  | (name, o) :: fs => (name ++ ": " ++ o.tall depth) :: tallFields depth fs

def tallEntries (depth : Nat) : List (String × Outline) → List String
  | [] => []
  | (k, o) :: es => (quotedText k ++ ": " ++ o.tall depth) :: tallEntries depth es

end

end Outline

end Stencil
