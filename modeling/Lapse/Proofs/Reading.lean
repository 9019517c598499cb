import Lapse.Cases
import Lapse.Proofs.OrderedMap
import Mathlib.Data.List.Forall2
import Mathlib.Data.List.Nodup

/-!
# Reading back what was laid out

A value of a text format stands for data.  Where the format answers every question about it as the data
would, what a type is laid out as is read as what it was, whichever format it is: basic types, optional
values, lists and maps, and the fields of a record, however they are arranged.
-/

namespace Lapse

/-- Induction over data: a property of data follows from that of its items, or of its members. -/
theorem Data.induct {P : Data → Prop} (null : P .null) (bool : ∀ b, P (.bool b))
    (int : ∀ n, P (.int n)) (str : ∀ s, P (.str s))
    (list : ∀ items, (∀ d ∈ items, P d) → P (.list items))
    (record : ∀ members, (∀ e ∈ members, P e.2) → P (.record members)) (d : Data) : P d :=
  @Data.rec P (fun items => ∀ d ∈ items, P d) (fun members => ∀ e ∈ members, P e.2)
    (fun e => P e.2) null bool int str list record nofun
    (fun _ _ head tail => List.forall_mem_cons.mpr ⟨head, tail⟩) nofun
    (fun _ _ head tail => List.forall_mem_cons.mpr ⟨head, tail⟩) (fun _ _ snd => snd) d

/-! ## Members in any order -/

/-- Members with values that stand for their data; each is put anywhere among those that follow it. -/
inductive Arranged {σ : Type} (R : Data → σ → Prop) :
    List (String × Data) → List (String × σ) → Prop
  | nil : Arranged R [] []
  | put {name d v ms before after} (value : R d v) (others : Arranged R ms (before ++ after)) :
      Arranged R ((name, d) :: ms) (before ++ (name, v) :: after)

namespace Arranged

variable {σ τ : Type} {R : Data → σ → Prop} {S : Data → τ → Prop} {ms : List (String × Data)}
  {es : List (String × σ)}

/-- A member that stays before those that follow it. -/
theorem cons {name : String} {d : Data} {v : σ} (value : R d v) (others : Arranged R ms es) :
    Arranged R ((name, d) :: ms) ((name, v) :: es) :=
  show Arranged R _ ([] ++ (name, v) :: es) from .put value others

/-- Members in their own order. -/
theorem of_map {f : Data → σ} (h : ∀ m ∈ ms, R m.2 (f m.2)) :
    Arranged R ms (ms.map fun m => (m.1, f m.2)) := by
  induction ms with
  | nil => exact .nil
  | cons m ms ih =>
      have hothers := ih fun m' hm' => h m' (List.mem_cons_of_mem m hm')
      exact .cons (h m List.mem_cons_self) hothers

theorem map (h : Arranged R ms es) {f : σ → τ} (hf : ∀ m ∈ ms, ∀ v, R m.2 v → S m.2 (f v)) :
    Arranged S ms (es.map fun e => (e.1, f e.2)) := by
  induction h with
  | nil => exact .nil
  | @put name d v ms before after value _ ih =>
      have hothers := ih fun m hm => hf m (List.mem_cons_of_mem _ hm)
      rw [List.map_append] at hothers
      rw [List.map_append, List.map_cons]
      exact .put (hf (name, d) List.mem_cons_self v value) hothers

theorem keys_perm (h : Arranged R ms es) : (ms.map Prod.fst).Perm (es.map Prod.fst) := by
  induction h with
  | nil => exact .nil
  | @put name d v ms before after _ _ ih =>
      rw [List.map_append] at ih
      rw [List.map_append, List.map_cons, List.map_cons]
      exact (ih.cons name).trans List.perm_middle.symm

theorem exists_of_mem_left (h : Arranged R ms es) {m : String × Data} (hm : m ∈ ms) :
    ∃ v, (m.1, v) ∈ es ∧ R m.2 v := by
  induction h with
  | nil => exact nomatch hm
  | @put name d v ms before after value _ ih =>
      rcases List.mem_cons.mp hm with rfl | hm
      · exact ⟨v, List.mem_append_right _ List.mem_cons_self, value⟩
      · obtain ⟨w, hw, hR⟩ := ih hm
        refine ⟨w, ?_, hR⟩
        rcases List.mem_append.mp hw with hw | hw
        · exact List.mem_append_left _ hw
        · exact List.mem_append_right _ (List.mem_cons_of_mem _ hw)

theorem exists_of_mem_right (h : Arranged R ms es) {e : String × σ} (he : e ∈ es) :
    ∃ d, (e.1, d) ∈ ms ∧ R d e.2 := by
  induction h with
  | nil => exact nomatch he
  | @put name d v ms before after value _ ih =>
      rcases List.mem_append.mp he with he | he
      · obtain ⟨d', hd', hR⟩ := ih (List.mem_append_left _ he)
        exact ⟨d', List.mem_cons_of_mem _ hd', hR⟩
      rcases List.mem_cons.mp he with rfl | he
      · exact ⟨d, List.mem_cons_self, value⟩
      · obtain ⟨d', hd', hR⟩ := ih (List.mem_append_right _ he)
        exact ⟨d', List.mem_cons_of_mem _ hd', hR⟩

/-- The members with some of the names. -/
theorem filter (h : Arranged R ms es) (p : String → Bool) :
    Arranged R (ms.filter fun m => p m.1) (es.filter fun e => p e.1) := by
  induction h with
  | nil => exact .nil
  | @put name d v ms before after value _ ih =>
      rw [List.filter_append] at ih
      rw [List.filter_append]
      by_cases hp : p name = true
      · simp only [List.filter_cons, hp, if_true]
        exact .put value ih
      · simp only [List.filter_cons, hp]
        exact ih

theorem eq_singleton {name : String} {d : Data} (h : Arranged R [(name, d)] es) :
    ∃ v, es = [(name, v)] ∧ R d v := by
  cases h with
  | @put _ _ v _ before after value others =>
    have hlength := others.keys_perm.length_eq
    simp only [List.map_nil, List.length_nil, List.length_map] at hlength
    obtain ⟨rfl, rfl⟩ := List.append_eq_nil_iff.mp (List.length_eq_zero_iff.mp hlength.symm)
    exact ⟨v, rfl, value⟩

end Arranged

theorem lookup_of_mem {β : Type} {l : List (String × β)} {e : String × β}
    (hkeys : (l.map Prod.fst).Nodup) (he : e ∈ l) : l.lookup e.1 = some e.2 := by
  induction l with
  | nil => exact nomatch he
  | cons head rest ih =>
      rw [List.map_cons, List.nodup_cons] at hkeys
      rcases List.mem_cons.mp he with rfl | he
      · exact List.lookup_cons_self
      · have hne : e.1 ≠ head.1 := fun heq => hkeys.1 (heq ▸ List.mem_map_of_mem he)
        rw [List.lookup_cons, beq_false_of_ne hne]
        exact ih hkeys.2 he

/-- Of keys that are all different none is there twice. -/
theorem length_filter_key {β : Type} {l : List (String × β)} (hkeys : (l.map Prod.fst).Nodup)
    (name : String) : (l.filter (·.1 == name)).length ≤ 1 := by
  rw [← List.countP_eq_length_filter]
  have hcount := List.nodup_iff_count_le_one.mp hkeys name
  rwa [List.count, List.countP_map] at hcount

/-! ## Faithful sources -/

/-- A source answers every question about a value as the data would that the value stands for. -/
structure Faithful {σ : Type} [Source σ] (R : Data → σ → Prop) : Prop where
  text : ∀ {s v}, R (.str s) v → Source.text? v = some s
  named : ∀ {s v}, R (.str s) v → Source.case? v = some s
  natural : ∀ {n : Nat} {v}, R (.int n) v → Source.natural? v = some n
  integer : ∀ {n v}, R (.int n) v → Source.integer? v = some n
  flag : ∀ {b v}, R (.bool b) v → Source.flag? v = some b
  absent : ∀ {v}, R .null v → Source.optional? v = some none
  present : ∀ {d v}, R d v → d ≠ .null → Source.optional? v = some (some v)
  items : ∀ {ds v}, R (.list ds) v → ∃ vs, Source.items? v = some vs ∧ List.Forall₂ R ds vs
  entries : ∀ {ms v}, R (.record ms) v → ∃ es, Source.entries? v = some es ∧ Arranged R ms es
  fields : ∀ {ms v}, R (.record ms) v → (ms.map Prod.fst).Nodup → ∀ names,
    ∃ es, Source.fields? names v = some (.named es) ∧ Arranged R ms es

/-- The values of a type are read from what stands for their data. -/
def Restores {σ : Type} [Source σ] (R : Data → σ → Prop) (α : Type) [ToData α] [Readable α] : Prop :=
  ∀ (a : α) v, R (toData a) v → read v = some a

/-- No value of a type is laid out as nothing. -/
def Solid (α : Type) [ToData α] : Prop := ∀ a : α, toData a ≠ .null

theorem solid_string : Solid String := nofun

theorem solid_bool : Solid Bool := nofun

theorem solid_uint64 : Solid UInt64 := nofun

namespace Faithful

variable {σ : Type} [Source σ] {R : Data → σ → Prop} (hR : Faithful R)

include hR

/-! ### Basic types -/

theorem string : Restores R String := fun _ _ => hR.text

theorem bool : Restores R Bool := fun _ _ => hR.flag

theorem uint32 : Restores R UInt32 := by
  intro n v hv
  have hlt : n.toNat < UInt32.size := n.toNat_lt
  show (Source.natural? v).bind _ = _
  rw [hR.natural hv, Option.bind_some, if_pos hlt, UInt32.ofNat_toNat]

theorem uint64 : Restores R UInt64 := by
  intro n v hv
  have hlt : n.toNat < UInt64.size := n.toNat_lt
  show (Source.natural? v).bind _ = _
  rw [hR.natural hv, Option.bind_some, if_pos hlt, UInt64.ofNat_toNat]

theorem int64 : Restores R Int64 := by
  intro n v hv
  have hlo : Int64.minValue.toInt ≤ n.toInt := Int64.minValue_le_toInt n
  have hhi : n.toInt ≤ Int64.maxValue.toInt := n.toInt_le
  show (Source.integer? v).bind _ = _
  rw [hR.integer hv, Option.bind_some, if_pos ⟨hlo, hhi⟩, Int64.ofInt_toInt]

/-- Cases are read by their names. -/
theorem cases {α : Type} [Cases α] (h : ∀ a : α, Cases.ofName? (Cases.name a) = some a) :
    Restores R α := by
  intro a v hv
  show (Source.case? v).bind _ = _
  rw [hR.named hv, Option.bind_some, h]

/-! ### Optional values, lists and maps -/

variable {α : Type} [ToData α] [Readable α]

/-- **NOTHING AND SOMETHING**: an optional value is read back, and nothing as nothing. -/
theorem option (hsolid : Solid α) (h : Restores R α) : Restores R (Option α) := by
  intro a v hv
  show (Source.optional? v).bind _ = _
  cases a with
  | none =>
      rw [hR.absent hv]
      rfl
  | some a =>
      rw [hR.present hv (hsolid a), Option.bind_some]
      show (read v).map some = _
      rw [h a v hv]
      rfl

theorem list (h : Restores R α) : Restores R (List α) := by
  intro l v hv
  obtain ⟨vs, hitems, hvs⟩ := hR.items hv
  have hread : vs.mapM read = some l := by
    clear hv hitems
    induction l generalizing vs with
    | nil =>
        cases hvs
        rfl
    | cons a l ih =>
        cases hvs with
        | @cons _ w _ vs hw hvs =>
          rw [List.mapM_cons, h a w hw, ih vs hvs]
          rfl
  show (Source.items? v).bind _ = _
  rw [hitems, Option.bind_some, hread]

omit hR in
/-- The entries of a map, in whatever order, are read as the entries of the map. -/
theorem mapM_entries (h : Restores R α) {l : List (String × α)} {es : List (String × σ)}
    (hes : Arranged R (l.map fun e => (e.1, toData e.2)) es) :
    ∃ pairs, es.mapM (fun e => (read e.2 : Option α).map fun a => (e.1, a)) = some pairs ∧
      pairs.Perm l := by
  induction l generalizing es with
  | nil =>
      cases hes
      exact ⟨[], rfl, .nil⟩
  | cons e l ih =>
      cases hes with
      | @put _ _ v _ before after hv hothers =>
        obtain ⟨pairs, hpairs, hperm⟩ := ih hothers
        rw [List.mapM_append] at hpairs ⊢
        obtain ⟨first, hfirst, hrest⟩ := Option.bind_eq_some_iff.mp hpairs
        obtain ⟨last, hlast, hpairs⟩ := Option.bind_eq_some_iff.mp hrest
        obtain rfl : first ++ last = pairs := Option.some.inj hpairs
        refine ⟨first ++ e :: last, ?_, List.perm_middle.trans (hperm.cons e)⟩
        rw [List.mapM_cons, hfirst, hlast, h e.2 v hv]
        rfl

theorem map (h : Restores R α) : Restores R (OrderedMap String α) := by
  intro m v hv
  obtain ⟨es, hentries, hes⟩ := hR.entries hv
  obtain ⟨pairs, hpairs, hperm⟩ := mapM_entries h hes
  show (Source.entries? v).bind _ = _
  rw [hentries, Option.bind_some]
  show (es.mapM fun e => (read e.2 : Option α).map fun a => (e.1, a)).bind _ = _
  rw [hpairs, Option.bind_some, OrderedMap.ofList_of_perm hperm]

end Faithful

/-! ## Records -/

/-- The fields of a record are those of its members, by their names. -/
structure Holds {σ : Type} (R : Data → σ → Prop) (ms : List (String × Data))
    (es : List (String × σ)) : Prop where
  found : ∀ {name d}, ms.lookup name = some d → ∃ v, es.lookup name = some v ∧ R d v
  missing : ∀ {name}, ms.lookup name = none → es.lookup name = none

theorem Arranged.holds {σ : Type} {R : Data → σ → Prop} {ms : List (String × Data)}
    {es : List (String × σ)} (h : Arranged R ms es) (hkeys : (ms.map Prod.fst).Nodup) :
    Holds R ms es where
  found := by
    intro name d hname
    obtain ⟨before, after, rfl, -⟩ := List.lookup_eq_some_iff.mp hname
    obtain ⟨w, hw, hd⟩ := h.exists_of_mem_left (List.mem_append_right before List.mem_cons_self)
    exact ⟨w, lookup_of_mem (h.keys_perm.nodup_iff.mp hkeys) hw, hd⟩
  missing := by
    intro name hname
    rw [List.lookup_eq_none_iff] at hname ⊢
    intro e he
    obtain ⟨d, hd, -⟩ := h.exists_of_mem_right he
    exact hname _ hd

variable {σ : Type} [Source σ] {R : Data → σ → Prop} {ms : List (String × Data)}

theorem Faithful.record (hR : Faithful R) {v : σ} (hv : R (.record ms) v)
    (hkeys : (ms.map Prod.fst).Nodup) (names : List String) :
    ∃ es, Source.fields? names v = some (.named es) ∧ Holds R ms es := by
  obtain ⟨es, hfields, hes⟩ := hR.fields hv hkeys names
  exact ⟨es, hfields, hes.holds hkeys⟩

namespace Holds

variable {es : List (String × σ)} {α : Type} [ToData α] [Readable α] (h : Holds R ms es)

include h

theorem required (place : Nat) (name : String) (a : α) (hα : Restores R α)
    (hname : ms.lookup name = some (toData a)) :
    Fields.required (.named es) place name = some a := by
  obtain ⟨v, hv, hd⟩ := h.found hname
  rw [Fields.required, Fields.at?, hv, Option.bind_some, hα a v hd]

theorem orElse (place : Nat) (name : String) (a fallback : α) (hα : Restores R α)
    (hname : ms.lookup name = some (toData a)) :
    Fields.orElse (.named es) place name fallback = some a := by
  obtain ⟨v, hv, hd⟩ := h.found hname
  rw [Fields.orElse, Fields.at?, hv]
  exact hα a v hd

theorem optional (place : Nat) (name : String) (a : Option α) (hα : Restores R (Option α))
    (hname : ms.lookup name = some (toData a)) :
    Fields.optional (.named es) place name = some a :=
  h.orElse place name a none hα hname

/-- **FIELDS LEFT OUT**: a field that is left out when there is nothing to write is read back. -/
theorem ifAny (place : Nat) (name : String) (a : Option α) (hα : Restores R (Option α))
    (hname : ms.lookup name = a.map toData) :
    Fields.orElse (.named es) place name none = some a := by
  cases a with
  | none => rw [Fields.orElse, Fields.at?, h.missing hname]
  | some a => exact h.orElse place name (some a) none hα hname

end Holds

end Lapse
