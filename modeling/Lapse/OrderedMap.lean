/-!
# Maps in key order

An ordered map is the list of its entries with strictly increasing keys, so two maps with the same
entries are equal and listing a map is reading the list.  The order is that of `compare` on the
keys; for strings it is the order of their UTF-8 bytes.
-/

namespace Lapse

/-- Entries with strictly increasing keys. -/
structure OrderedMap (κ β : Type) [Ord κ] where
  entries : List (κ × β)
  sorted : entries.Pairwise (fun a b => compare a.1 b.1 = .lt)

namespace OrderedMap

variable {κ β γ : Type} [Ord κ]

instance [DecidableEq κ] [DecidableEq β] : DecidableEq (OrderedMap κ β) := fun a b =>
  if h : a.entries = b.entries then
    isTrue (by cases a; cases b; cases h; rfl)
  else
    isFalse (fun hab => h (congrArg entries hab))

@[ext] theorem ext {a b : OrderedMap κ β} (h : a.entries = b.entries) : a = b := by
  cases a; cases b; cases h; rfl

/-- The map without entries. -/
def empty : OrderedMap κ β := ⟨[], .nil⟩

instance : Inhabited (OrderedMap κ β) := ⟨empty⟩

/-- The keys, in order. -/
def keys (m : OrderedMap κ β) : List κ := m.entries.map Prod.fst

/-- The values, in the order of their keys. -/
def values (m : OrderedMap κ β) : List β := m.entries.map Prod.snd

/-- The value of the first entry with this key. -/
def find? (k : κ) : List (κ × β) → Option β
  | [] => none
  | (k', v) :: rest => if compare k k' = .eq then some v else find? k rest

/-- The value stored under a key. -/
def get? (m : OrderedMap κ β) (k : κ) : Option β := find? k m.entries

/-- Whether a key is present. -/
def contains (m : OrderedMap κ β) (k : κ) : Bool := (m.get? k).isSome

/-- Put an entry into a list in key order, in place of an entry with the same key. -/
def insertEntry (k : κ) (v : β) : List (κ × β) → List (κ × β)
  | [] => [(k, v)]
  | (k', v') :: rest =>
    match compare k k' with
    | .lt => (k, v) :: (k', v') :: rest
    | .eq => (k, v) :: rest
    | .gt => (k', v') :: insertEntry k v rest

theorem mem_insertEntry {k : κ} {v : β} {l : List (κ × β)} {e : κ × β}
    (h : e ∈ insertEntry k v l) : e = (k, v) ∨ e ∈ l := by
  induction l with
  | nil => exact .inl (List.mem_singleton.mp h)
  | cons head rest ih =>
    obtain ⟨k', v'⟩ := head
    rw [insertEntry] at h
    split at h
    · exact List.mem_cons.mp h
    · rcases List.mem_cons.mp h with h | h
      · exact .inl h
      · exact .inr (List.mem_cons_of_mem _ h)
    · rcases List.mem_cons.mp h with h | h
      · exact .inr (h ▸ List.mem_cons_self)
      · exact (ih h).imp id (List.mem_cons_of_mem _)

theorem pairwise_insertEntry [Std.TransOrd κ] (k : κ) (v : β) {l : List (κ × β)}
    (h : l.Pairwise (fun a b => compare a.1 b.1 = .lt)) :
    (insertEntry k v l).Pairwise (fun a b => compare a.1 b.1 = .lt) := by
  induction l with
  | nil => exact List.pairwise_singleton _ _
  | cons head rest ih =>
    obtain ⟨k', v'⟩ := head
    have hhead := (List.pairwise_cons.mp h).1
    have hrest := (List.pairwise_cons.mp h).2
    rw [insertEntry]
    split
    · next hlt =>
      refine List.pairwise_cons.mpr ⟨fun e he => ?_, h⟩
      rcases List.mem_cons.mp he with rfl | he
      · exact hlt
      · exact Std.TransCmp.lt_trans hlt (hhead e he)
    · next heq =>
      exact List.pairwise_cons.mpr
        ⟨fun e he => Std.TransCmp.lt_of_eq_of_lt heq (hhead e he), hrest⟩
    · next hgt =>
      refine List.pairwise_cons.mpr ⟨fun e he => ?_, ih hrest⟩
      rcases mem_insertEntry he with rfl | he
      · exact Std.OrientedCmp.lt_of_gt hgt
      · exact hhead e he

/-- Store a value under a key, in place of any earlier one. -/
def insert [Std.TransOrd κ] (m : OrderedMap κ β) (k : κ) (v : β) : OrderedMap κ β :=
  ⟨insertEntry k v m.entries, pairwise_insertEntry k v m.sorted⟩

/-- Keep the entries that satisfy a test. -/
def filter (m : OrderedMap κ β) (keep : κ → β → Bool) : OrderedMap κ β :=
  ⟨m.entries.filter (fun e => keep e.1 e.2), m.sorted.filter _⟩

/-- Remove a key and its value; a key that is absent is no fault. -/
def erase (m : OrderedMap κ β) (k : κ) : OrderedMap κ β :=
  m.filter (fun k' _ => compare k k' != .eq)

/-- Apply a function to every value, with its key. -/
def map (f : κ → β → γ) (m : OrderedMap κ β) : OrderedMap κ γ :=
  ⟨m.entries.map (fun e => (e.1, f e.1 e.2)), List.pairwise_map.mpr m.sorted⟩

/-- Store each entry of a list in turn: of two with one key the later stays. -/
def ofList [Std.TransOrd κ] (l : List (κ × β)) : OrderedMap κ β :=
  l.foldl (fun m e => m.insert e.1 e.2) empty

end OrderedMap

end Lapse
