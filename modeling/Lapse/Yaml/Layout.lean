import Lapse.Data
import Lapse.Yaml.Scalar

/-!
# Data as YAML

Data is laid out over lines.  An entry of a record stands on a line of its own, with its value on
the same line, or below it at a deeper margin; the items of a list stand at the margin of the record
around it, each after a dash.  A key that is long or has several lines is set off by a question mark,
and its value by a colon on the next line.
-/

namespace Lapse.Yaml

/-- The words of truth values. -/
def flagWord (b : Bool) : List Char := if b then "true".toList else "false".toList

/-- A scalar and the end of its line, where that is not part of it. -/
def textLine (margin : Nat) (text : List Char) : List Char :=
  let written := writeText margin text
  if (Style.ofText text = .literal) && (text.getLast?.any isBreak) then written
  else written ++ ['\n']

/-- A word and the end of its line. -/
def wordLine (word : List Char) : List Char := word ++ ['\n']

/-- Data without parts, and the end of its line. -/
def wholeLine (margin : Nat) : Data → List Char
  | .null => wordLine "null".toList
  | .bool b => wordLine (flagWord b)
  | .int n => wordLine (Decimal.ofInt n)
  | .str s => textLine margin s.toList
  | .list _ => wordLine ['[', ']']
  | .record _ => wordLine ['\x7b', '\x7d']

mutual

/-- Data that begins here, at the column `margin`. -/
def inline (margin : Nat) : Data → List Char
  | .list (item :: rest) => '-' :: ' ' :: inline (margin + 2) item ++ items margin rest
  | .record (entry :: rest) => inlineEntry margin entry ++ entries margin rest
  | d => wholeLine margin d

/-- The value of a key that stands at the column `margin`, after the colon. -/
def value (margin : Nat) : Data → List Char
  | .list (item :: rest) => '\n' :: items margin (item :: rest)
  | .record (entry :: rest) => '\n' :: entries (margin + 2) (entry :: rest)
  | d => ' ' :: wholeLine (margin + 2) d

/-- An entry that begins here, at the column `margin`. -/
def inlineEntry (margin : Nat) : String × Data → List Char
  | (key, d) =>
    if isShortKey key.toList then writeText (margin + 2) key.toList ++ ':' :: value margin d
    else
      '?' :: ' ' :: textLine (margin + 2) key.toList ++ spaces margin ++
        ':' :: ' ' :: inline (margin + 2) d

/-- Items on lines of their own. -/
def items (margin : Nat) : List Data → List Char
  | [] => []
  | item :: rest => spaces margin ++ '-' :: ' ' :: inline (margin + 2) item ++ items margin rest

/-- Entries on lines of their own. -/
def entries (margin : Nat) : List (String × Data) → List Char
  | [] => []
  | entry :: rest => spaces margin ++ inlineEntry margin entry ++ entries margin rest

end

/-- Data as a YAML text; a text alone is set off from the margin. -/
def layout (d : Data) : List Char :=
  match d with
  | .str s => textLine 2 s.toList
  | d => inline 0 d

/-- The YAML text of a value. -/
def encode {α : Type} [ToData α] (a : α) : Bytes := Utf8.encodeChars (layout (toData a))

end Lapse.Yaml
