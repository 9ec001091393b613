import Stencil.Json.Basic

/-! Documents written out, on one line or with a line for every item. -/
namespace Stencil.Json

/-- Quotes, backslashes and the characters below the space are escaped; all others stand as they are. -/
def escapeChar (c : Char) : List Char :=
  match c with
  | '"' => ['\\', '"']
  | '\\' => ['\\', '\\']
  | '\x08' => ['\\', 'b']
  | '\x0c' => ['\\', 'f']
  | '\n' => ['\\', 'n']
  | '\r' => ['\\', 'r']
  | '\t' => ['\\', 't']
  | c =>
    if c.toNat < 0x20 then
      ['\\', 'u', '0', '0', Nat.digitChar (c.toNat / 16), Nat.digitChar (c.toNat % 16)]
    else [c]

def quoted (s : String) : List Char := '"' :: s.toList.flatMap escapeChar ++ ['"']

/-- Where white space goes: nowhere, or a line for every item with two spaces for each level. -/
inductive Layout where
  | compact
  | pretty
deriving DecidableEq

namespace Layout

def lineBreak : Layout → Nat → List Char
  | compact, _ => []
  | pretty, depth => '\n' :: List.replicate (2 * depth) ' '

def colon : Layout → List Char
  | compact => [':']
  | pretty => [':', ' ']

end Layout

mutual

/-- The characters of a document that stands inside `depth` others, in front of `rest`. -/
def write (l : Layout) (depth : Nat) : Json → List Char → List Char
  | null, rest => "null".toList ++ rest
  | bool true, rest => "true".toList ++ rest
  | bool false, rest => "false".toList ++ rest
  | number n, rest => n.text.toList ++ rest
  | string s, rest => quoted s ++ rest
  | array [], rest => '[' :: ']' :: rest
  | array (x :: xs), rest =>
    '[' :: (l.lineBreak (depth + 1) ++ write l (depth + 1) x
      (writeItems l (depth + 1) xs (l.lineBreak depth ++ ']' :: rest)))
  | object [], rest => '\x7b' :: '\x7d' :: rest
  | object ((k, v) :: ms), rest =>
    '\x7b' :: (l.lineBreak (depth + 1) ++ (quoted k ++ (l.colon ++ write l (depth + 1) v
      (writeMembers l (depth + 1) ms (l.lineBreak depth ++ '\x7d' :: rest)))))

def writeItems (l : Layout) (depth : Nat) : List Json → List Char → List Char
  | [], rest => rest
  | x :: xs, rest => ',' :: (l.lineBreak depth ++ write l depth x (writeItems l depth xs rest))

def writeMembers (l : Layout) (depth : Nat) : List (String × Json) → List Char → List Char
  | [], rest => rest
  | (k, v) :: ms, rest =>
    ',' :: (l.lineBreak depth ++ (quoted k ++ (l.colon ++ write l depth v (writeMembers l depth ms rest))))

end

def compact (v : Json) : String := String.ofList (v.write .compact 0 [])

def pretty (v : Json) : String := String.ofList (v.write .pretty 0 [])

end Stencil.Json
