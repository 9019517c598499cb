import Lapse.Data
import Lapse.Yaml.Node

/-!
# Reading from YAML

A node answers the questions of a `Source`.  Every scalar is a text; only a plain one may also spell
a number, a truth value or nothing, though a tag may let a literal block scalar do so too.  A plain
scalar without text is a list and a map without contents.  A name stands for the node that has it.
-/

namespace Lapse.Yaml

/-- A node, and the whole document, where the names are looked up. -/
structure Cursor where
  root : Node
  node : Node

namespace Cursor

/-- The node that is meant. -/
def target (c : Cursor) : Option Node :=
  match c.node with
  | .reference id => c.root.named id
  | node => some node

/-- Another node of the same document. -/
def move (c : Cursor) (node : Node) : Cursor := { c with node }

/-- The text of a scalar. -/
def text? (c : Cursor) : Option String := do
  match ← c.target with
  | .scalar _ _ _ text => some (String.ofList text)
  | _ => none

/-- What the tags of the basic types begin with. -/
def basicTag (name : String) : List Char := "tag:yaml.org,2002:".toList ++ name.toList

/-- The text of a scalar that may spell a value of a basic type. -/
def word? (c : Cursor) (type : String) : Option (List Char) := do
  match ← c.target with
  | .scalar _ _ .plain text => some text
  | .scalar _ tag .literal text => if tag = some (basicTag type) then some text else none
  | _ => none

/-- The name of a case: the tag of a scalar that spells nothing, or the text of a scalar without
such a tag. -/
def case? (c : Cursor) : Option String := do
  match ← c.target with
  | .scalar _ (some ('!' :: name)) style text =>
    if style = .plain && (text.isEmpty || Word.isNull text) then some (String.ofList name) else none
  | .scalar _ _ _ text => some (String.ofList text)
  | _ => none

/-- The value itself, unless a plain scalar spells nothing.  A tag that says so must tell the
truth, and any other tag makes it a value. -/
def optional? (c : Cursor) : Option (Option Cursor) := do
  match ← c.target with
  | .scalar _ (some tag) .plain text =>
    if tag ≠ basicTag "null" then some (some c)
    else if Word.isNull text then some none
    else none
  | .scalar _ none .plain text =>
    if text.isEmpty || Word.isNull text then some none else some (some c)
  | _ => some (some c)

/-- The items of a list. -/
def items? (c : Cursor) : Option (List Cursor) := do
  match ← c.target with
  | .list _ items => some (items.map c.move)
  | .scalar _ _ .plain [] => some []
  | _ => none

/-- The entries of a map, whose keys are texts. -/
def entries? (c : Cursor) : Option (List (String × Cursor)) := do
  match ← c.target with
  | .map _ entries => entries.mapM fun e => (c.move e.1).text?.map fun key => (key, c.move e.2)
  | .scalar _ _ .plain [] => some []
  | _ => none

instance : Source Cursor where
  text? := text?
  case? := case?
  natural? c := (c.word? "int").bind Word.natural?
  integer? c := (c.word? "int").bind Word.integer?
  flag? c := (c.word? "bool").bind Word.flag?
  optional? := optional?
  items? := items?
  entries? := entries?
  fields? names c := do
    let entries ← c.entries?
    if names.all fun name => (entries.filter (·.1 == name)).length ≤ 1 then
      some (.named entries)
    else none

end Cursor

/-- Read a type from a YAML text; a text without a document is as good as one without contents. -/
def decode {α : Type} [Readable α] (text : List Char) : Option α := do
  let input ← glyphs text
  let document ← Node.ofTokens (← tokens input)
  let root := document.getD .missing
  read ({ root, node := root } : Cursor)

end Lapse.Yaml
