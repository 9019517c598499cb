import Lapse.Data

/-!
# Named cases

An enumeration lists its cases in order and names each; the names are what every text format
writes, and a name that belongs to no case is refused.
-/

namespace Lapse

/-- Types with finitely many cases, each under a name. -/
class Cases (α : Type) where
  all : List α
  name : α → String

namespace Cases

variable {α : Type} [Cases α]

/-- The case with a name. -/
def ofName? (s : String) : Option α := all.find? fun a => name a == s

instance : ToData α := ⟨fun a => .str (name a)⟩

instance : Readable α := ⟨fun v => (Source.case? v).bind ofName?⟩

end Cases

end Lapse
