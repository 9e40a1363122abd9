import FlatAssoc.Text.Glyphless

/-!
# Debug text

Values are put into words as a tree of groups, which is laid out either on one line or with each
item on a line of its own, four spaces deeper than the group.
-/

namespace FlatAssoc

/-- The words for a value, before they are laid out. -/
inductive Debug where
  /-- One word. -/
  | atom (text : String)
  /-- Items between an opening and a closing word. -/
  | group (opening closing : String) (items : List Debug)
  /-- An item that is named by another one. -/
  | field (name item : Debug)

namespace Debug

def list (items : List Debug) : Debug := .group "[" "]" items

/-- Items in parentheses, after the name of their kind if it has one. -/
def tuple (kind : String) (items : List Debug) : Debug := .group (kind ++ "(") ")" items

/-- Items in braces. -/
def braces (items : List Debug) : Debug := .group "\x7b" "\x7d" items

mutual

/-- The layout on one line. -/
def compact : Debug → String
  | .atom text => text
  | .group opening closing items => opening ++ ", ".intercalate (compactAll items) ++ closing
  | .field name item => name.compact ++ ": " ++ item.compact

/-- The items of a group on one line each. -/
def compactAll : List Debug → List String
  | [] => []
  | d :: ds => d.compact :: compactAll ds

end

def indent (depth : Nat) : String := "".pushn ' ' (4 * depth)

mutual

/-- The layout with each item on a line of its own, inside `depth` groups. -/
def prettyAt (depth : Nat) : Debug → String
  | .atom text => text
  | .group opening closing [] => opening ++ closing
  | .group opening closing (d :: ds) =>
    opening ++ "\n" ++ String.join (prettyItems (depth + 1) (d :: ds)) ++ indent depth ++ closing
  | .field name item => name.prettyAt depth ++ ": " ++ item.prettyAt depth

/-- The lines of the items of a group. -/
def prettyItems (depth : Nat) : List Debug → List String
  | [] => []
  | d :: ds => (indent depth ++ d.prettyAt depth ++ ",\n") :: prettyItems depth ds

end

/-- The layout with each item on a line of its own. -/
def pretty (d : Debug) : String := d.prettyAt 0

end Debug

namespace Text

/-- A code point in lower-case hexadecimal digits. -/
def hex (n : Nat) : List Char := Nat.toDigits 16 n

/-- How a character stands in quoted debug text. -/
def escape (c : Char) : List Char :=
  match c with
  | '\x00' => ['\\', '0']
  | '\t' => ['\\', 't']
  | '\n' => ['\\', 'n']
  | '\r' => ['\\', 'r']
  | '"' => ['\\', '"']
  | '\\' => ['\\', '\\']
  | c => if glyphless c then ['\\', 'u', '\x7b'] ++ hex c.toNat ++ ['\x7d'] else [c]

/-- A text between quotes, as debug text shows it. -/
def quote (s : String) : String := String.ofList ('"' :: s.toList.flatMap escape ++ ['"'])

end Text

end FlatAssoc
