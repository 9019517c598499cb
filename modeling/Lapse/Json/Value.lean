import Lapse.Data
import Lapse.Json.Token

/-!
# JSON values

A JSON text is read into a tree that keeps the members of objects in order, repeated ones too: what
a repeated member means is for the type that is read from it.  Three things are sound as text but
have no value: strings that are not text, numbers beyond the doubles, and lists or objects nested
more than 127 deep.  They stand in the tree as `unusable`, and a reader may pass over them.
-/

namespace Lapse

/-- A JSON value as read. -/
inductive Json where
  | null
  | bool (b : Bool)
  | int (n : Int)
  /-- A number that is not written as a whole number. -/
  | real
  | str (s : String)
  | array (items : List Json)
  | object (members : List (String × Json))
  /-- Something that can only be passed over. -/
  | unusable

namespace Json

/-- How deep lists and objects that are used may be nested. -/
def maxDepth : Nat := 127

/-- An object whose keys are all text. -/
def ofMembers (members : List (Option String × Json)) : Json :=
  match members.mapM fun m => m.1.map fun key => (key, m.2) with
  | some members => .object members
  | none => .unusable

/-- A list or an object, unless it lies too deep. -/
def atDepth (depth : Nat) (value : Json) : Json :=
  if depth < maxDepth then value else .unusable

mutual

/-- The value at the head of the input, inside `depth` lists and objects. -/
def readValue : (fuel : Nat) → (depth : Nat) → List Token → Option (Json × List Token)
  | 0, _, _ => none
  | fuel + 1, depth, input =>
    match input with
    | .null :: rest => some (.null, rest)
    | .bool b :: rest => some (.bool b, rest)
    | .int n :: rest => some (.int n, rest)
    | .real :: rest => some (.real, rest)
    | .excessive :: rest => some (.unusable, rest)
    | .str (some s) :: rest => some (.str s, rest)
    | .str none :: rest => some (.unusable, rest)
    | .leftBracket :: .rightBracket :: rest => some (atDepth depth (.array []), rest)
    | .leftBracket :: rest => do
      let (items, rest) ← readItems fuel (depth + 1) rest
      some (atDepth depth (.array items), rest)
    | .leftBrace :: .rightBrace :: rest => some (atDepth depth (.object []), rest)
    | .leftBrace :: rest => do
      let (members, rest) ← readMembers fuel (depth + 1) rest
      some (atDepth depth (ofMembers members), rest)
    | _ => none

/-- At least one item of a list, and its closing bracket. -/
def readItems : (fuel : Nat) → (depth : Nat) → List Token → Option (List Json × List Token)
  | 0, _, _ => none
  | fuel + 1, depth, input => do
    let (value, rest) ← readValue fuel depth input
    match rest with
    | .rightBracket :: rest => some ([value], rest)
    | .comma :: rest => do
      let (values, rest) ← readItems fuel depth rest
      some (value :: values, rest)
    | _ => none

/-- At least one member of an object, and its closing brace. -/
def readMembers : (fuel : Nat) → (depth : Nat) → List Token →
    Option (List (Option String × Json) × List Token)
  | 0, _, _ => none
  | fuel + 1, depth, input =>
    match input with
    | .str key :: .colon :: rest => do
      let (value, rest) ← readValue fuel depth rest
      match rest with
      | .rightBrace :: rest => some ([(key, value)], rest)
      | .comma :: rest => do
        let (members, rest) ← readMembers fuel depth rest
        some ((key, value) :: members, rest)
      | _ => none
    | _ => none

end

/-- The one value that a token sequence spells. -/
def ofTokens (input : List Token) : Option Json :=
  match readValue (2 * input.length + 2) 0 input with
  | some (value, []) => some value
  | _ => none

/-- Read a JSON text. -/
def parse (bytes : Bytes) : Option Json := (tokens (Utf8.decode bytes)).bind ofTokens

mutual

/-- Whether nothing in a value is unusable. -/
def isUsable : Json → Bool
  | .unusable => false
  | .array items => areUsable items
  | .object members => haveUsable members
  | _ => true

/-- Whether nothing in a list of values is unusable. -/
def areUsable : List Json → Bool
  | [] => true
  | value :: rest => value.isUsable && areUsable rest

/-- Whether nothing in the members of an object is unusable. -/
def haveUsable : List (String × Json) → Bool
  | [] => true
  | (_, value) :: rest => value.isUsable && haveUsable rest

end

/-- Whether none of these names is the key of two members. -/
def namedOnce (names : List String) (members : List (String × Json)) : Bool :=
  names.all fun name => decide ((members.filter (·.1 == name)).length ≤ 1)

/-- The fields of an object, or of a list that gives them in order. -/
def fields? (names : List String) : Json → Option (Fields Json)
  | .object members => if namedOnce names members then some (.named members) else none
  | .array items => if items.length ≤ names.length then some (.placed items) else none
  | _ => none

instance : Source Json where
  text?
    | .str s => some s
    | _ => none
  case?
    | .str s => some s
    | .object [(key, .null)] => some key
    | _ => none
  natural?
    | .int n => if 0 ≤ n then some n.toNat else none
    | _ => none
  integer?
    | .int n => some n
    | _ => none
  flag?
    | .bool b => some b
    | _ => none
  optional?
    | .null => some none
    | value => some (some value)
  items?
    | .array items => some items
    | _ => none
  entries?
    | .object members => some members
    | _ => none
  fields? := fields?

/-- A value that names a case by its member `tag` and gives the fields of that case beside it, or
by its first item and gives them after it. -/
def tagged? (tag : String) (value : Json) : Option (String × Json) :=
  if value.isUsable then
    match value with
    | .object members =>
      match members.filter (·.1 == tag) with
      | [(_, .str name)] => some (name, .object (members.filter (·.1 != tag)))
      | _ => none
    | .array (.str name :: items) => some (name, .array items)
    | _ => none
  else none

/-- Read a type from a JSON text. -/
def decode {α : Type} [Readable α] (bytes : Bytes) : Option α := (parse bytes).bind read

end Json

end Lapse
