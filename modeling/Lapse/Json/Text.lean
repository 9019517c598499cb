import Lapse.Data
import Lapse.Text.Utf8
import Lapse.Text.Decimal

/-!
# JSON text

Data is written as JSON in two layouts: compact, without any white space, and spread, with one
member or item a line and two blanks of indentation a level.  Characters other than quotes,
backslashes and the controls below U+0020 stand for themselves.
-/

namespace Lapse.Json

/-- A character inside a string. -/
def escape (c : Char) : List Char :=
  match c with
  | '"' => ['\\', '"']
  | '\\' => ['\\', '\\']
  | '\x08' => ['\\', 'b']
  | '\x0c' => ['\\', 'f']
  | '\n' => ['\\', 'n']
  | '\r' => ['\\', 'r']
  | '\t' => ['\\', 't']
  | c =>
    if c.toNat < 0x20 then
      ['\\', 'u', '0', '0', Decimal.digitChar (c.toNat / 16), Decimal.digitChar (c.toNat % 16)]
    else [c]

/-- A string with its quotes. -/
def quote (s : String) : List Char := '"' :: s.toList.flatMap escape ++ ['"']

mutual

/-- Data without white space. -/
def compact : Data → List Char
  | .null => "null".toList
  | .bool true => "true".toList
  | .bool false => "false".toList
  | .int n => Decimal.ofInt n
  | .str s => quote s
  | .list items => '[' :: compactItems items ++ [']']
  | .record members => '{' :: compactMembers members ++ ['}']

/-- Items with commas between them. -/
def compactItems : List Data → List Char
  | [] => []
  | [item] => compact item
  | item :: rest => compact item ++ ',' :: compactItems rest

/-- Members with commas between them. -/
def compactMembers : List (String × Data) → List Char
  | [] => []
  | [(name, value)] => quote name ++ ':' :: compact value
  | (name, value) :: rest => quote name ++ ':' :: compact value ++ ',' :: compactMembers rest

end

/-- A new line at a level of indentation. -/
def newLine (level : Nat) : List Char := '\n' :: List.replicate (2 * level) ' '

mutual

/-- Data spread over lines, from a level of indentation. -/
def spread (level : Nat) : Data → List Char
  | .null => "null".toList
  | .bool true => "true".toList
  | .bool false => "false".toList
  | .int n => Decimal.ofInt n
  | .str s => quote s
  | .list [] => ['[', ']']
  | .list items => '[' :: spreadItems (level + 1) items ++ newLine level ++ [']']
  | .record [] => ['{', '}']
  | .record members => '{' :: spreadMembers (level + 1) members ++ newLine level ++ ['}']

/-- One item a line. -/
def spreadItems (level : Nat) : List Data → List Char
  | [] => []
  | [item] => newLine level ++ spread level item
  | item :: rest => newLine level ++ spread level item ++ ',' :: spreadItems level rest

/-- One member a line. -/
def spreadMembers (level : Nat) : List (String × Data) → List Char
  | [] => []
  | [(name, value)] => newLine level ++ quote name ++ ':' :: ' ' :: spread level value
  | (name, value) :: rest =>
    newLine level ++ quote name ++ ':' :: ' ' :: spread level value
      ++ ',' :: spreadMembers level rest

end

/-- The compact text of a value. -/
def text {α : Type} [ToData α] (a : α) : String := String.ofList (compact (toData a))

/-- The bytes of the compact text of a value. -/
def encode {α : Type} [ToData α] (a : α) : Bytes := Utf8.encodeChars (compact (toData a))

/-- The spread text of a value. -/
def prettyText {α : Type} [ToData α] (a : α) : String := String.ofList (spread 0 (toData a))

end Lapse.Json
