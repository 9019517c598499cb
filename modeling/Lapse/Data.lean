import Lapse.OrderedMap

/-!
# Plain data, and sources to read it from

Everything that is kept or shown passes through `Data`: truth values, whole numbers, texts, lists
and records whose members have an order.  `ToData` says how a type is laid out as data; the text
formats print it.

Reading goes the other way through `Source`, the questions a reader may put to a value of a text
format: is this a text, a number, a list, a record with these fields?  A type states once, as an
instance of `Readable`, which questions it asks; every format that answers them can hold it.
-/

namespace Lapse

/-- Plain data. -/
inductive Data where
  | null
  | bool (b : Bool)
  | int (n : Int)
  | str (s : String)
  | list (items : List Data)
  | record (members : List (String × Data))

/-- Types with a layout as plain data. -/
class ToData (α : Type) where
  toData : α → Data

export ToData (toData)

instance : ToData String := ⟨.str⟩
instance : ToData Bool := ⟨.bool⟩
instance : ToData UInt32 := ⟨fun n => .int n.toNat⟩
instance : ToData UInt64 := ⟨fun n => .int n.toNat⟩
instance : ToData Int64 := ⟨fun n => .int n.toInt⟩
instance : ToData Nat := ⟨fun n => .int n⟩

instance {α : Type} [ToData α] : ToData (Option α) where
  toData
    | none => .null
    | some a => toData a

instance {α : Type} [ToData α] : ToData (List α) := ⟨fun as => .list (as.map toData)⟩

instance {α : Type} [ToData α] : ToData (OrderedMap String α) where
  toData m := .record (m.entries.map fun e => (e.1, toData e.2))

namespace Data

/-- A member that is always written. -/
def member {α : Type} [ToData α] (name : String) (a : α) : List (String × Data) :=
  [(name, toData a)]

/-- A member that is left out when there is nothing to write. -/
def memberIfAny {α : Type} [ToData α] (name : String) : Option α → List (String × Data)
  | none => []
  | some a => [(name, toData a)]

/-- The members of a record; other data has none. -/
def members : Data → List (String × Data)
  | .record ms => ms
  | _ => []

end Data

/-- The fields of a record as a source gives them: by name, or by their places alone. -/
inductive Fields (σ : Type) where
  | named (members : List (String × σ))
  | placed (items : List σ)

/-- What a reader may ask of a value of a text format; a question that does not fit has no answer. -/
class Source (σ : Type) where
  /-- The text of a text value. -/
  text? : σ → Option String
  /-- The name, where a named case without contents is meant. -/
  case? : σ → Option String
  /-- A whole number without sign. -/
  natural? : σ → Option Nat
  /-- A whole number that may have a sign. -/
  integer? : σ → Option Int
  /-- A truth value. -/
  flag? : σ → Option Bool
  /-- The value itself, unless it stands for the absence of one. -/
  optional? : σ → Option (Option σ)
  /-- The items of a list. -/
  items? : σ → Option (List σ)
  /-- The entries of a map, in order. -/
  entries? : σ → Option (List (String × σ))
  /-- The fields of a record with these names, none of which is given twice. -/
  fields? : List String → σ → Option (Fields σ)

/-- Types that can be read from every source. -/
class Readable (α : Type) where
  read : {σ : Type} → [Source σ] → σ → Option α

export Readable (read)

instance : Readable String := ⟨Source.text?⟩
instance : Readable Bool := ⟨Source.flag?⟩

instance : Readable UInt32 where
  read v := do
    let n ← Source.natural? v
    if n < UInt32.size then some (UInt32.ofNat n) else none

instance : Readable UInt64 where
  read v := do
    let n ← Source.natural? v
    if n < UInt64.size then some (UInt64.ofNat n) else none

instance : Readable Int64 where
  read v := do
    let n ← Source.integer? v
    if Int64.minValue.toInt ≤ n ∧ n ≤ Int64.maxValue.toInt then some (Int64.ofInt n) else none

instance {α : Type} [Readable α] : Readable (Option α) where
  read v := do
    match ← Source.optional? v with
    | none => some none
    | some w => (read w).map some

instance {α : Type} [Readable α] : Readable (List α) where
  read v := do (← Source.items? v).mapM read

/-- Of two entries with one key the later counts. -/
instance {α : Type} [Readable α] : Readable (OrderedMap String α) where
  read v := do
    let entries ← Source.entries? v
    let pairs ← entries.mapM fun e => (read e.2).map fun a => (e.1, a)
    some (OrderedMap.ofList pairs)

namespace Fields

variable {σ α : Type} [Source σ] [Readable α]

/-- The value of a field, by its name or its place. -/
def at? (fs : Fields σ) (place : Nat) (name : String) : Option σ :=
  match fs with
  | .named members => members.lookup name
  | .placed items => items[place]?

/-- A field that must be given. -/
def required (fs : Fields σ) (place : Nat) (name : String) : Option α :=
  (fs.at? place name).bind read

/-- A field with a value to fall back on. -/
def orElse (fs : Fields σ) (place : Nat) (name : String) (fallback : α) : Option α :=
  match fs.at? place name with
  | none => some fallback
  | some v => read v

/-- A field that may be left out where fields have names. -/
def optional (fs : Fields σ) (place : Nat) (name : String) : Option (Option α) :=
  match fs with
  | .named _ => fs.orElse place name none
  | .placed _ => fs.required place name

end Fields

end Lapse
