import Lapse.OrderedMap
import Mathlib.Data.List.Pairwise

/-!
# Look-up in ordered maps

What every operation on an ordered map does to the look-up of a key, and that look-up is all there
is to a map: two maps in which every key finds the same are equal.  Everything later says about the
store and the requests is said through look-up.
-/

namespace Lapse.OrderedMap

variable {κ β γ : Type} [Ord κ] [Std.LawfulEqOrd κ]

/-! ## Look-up and membership -/

theorem ne_of_lt {k k' : κ} (h : compare k k' = .lt) : k ≠ k' := by
  rintro rfl
  have hself : compare k k = .eq := Std.ReflCmp.compare_self
  rw [hself] at h
  exact nomatch h

theorem find?_cons_self (k : κ) (v : β) (rest : List (κ × β)) :
    find? k ((k, v) :: rest) = some v := by
  rw [find?, if_pos Std.ReflCmp.compare_self]

theorem find?_cons_ne {k k' : κ} (h : k ≠ k') (v : β) (rest : List (κ × β)) :
    find? k ((k', v) :: rest) = find? k rest := by
  rw [find?, if_neg (fun heq => h (Std.LawfulEqCmp.eq_of_compare heq))]

theorem mem_of_find? {k : κ} {v : β} {l : List (κ × β)} (h : find? k l = some v) :
    (k, v) ∈ l := by
  induction l with
  | nil => exact nomatch h
  | cons head rest ih =>
      obtain ⟨k', v'⟩ := head
      rw [find?] at h
      split at h
      · next heq =>
        rw [Std.LawfulEqCmp.eq_of_compare heq, ← Option.some.inj h]
        exact List.mem_cons_self
      · exact List.mem_cons_of_mem _ (ih h)

/-- In a list with increasing keys a key finds the value of its one entry. -/
theorem find?_of_mem {k : κ} {v : β} {l : List (κ × β)}
    (hl : l.Pairwise (fun a b => compare a.1 b.1 = .lt)) (h : (k, v) ∈ l) :
    find? k l = some v := by
  induction l with
  | nil => exact nomatch h
  | cons head rest ih =>
      obtain ⟨k', v'⟩ := head
      rcases List.mem_cons.mp h with heq | hmem
      · cases heq
        exact find?_cons_self k v rest
      · have hlt : compare k' k = .lt := (List.pairwise_cons.mp hl).1 _ hmem
        rw [find?_cons_ne (ne_of_lt hlt).symm]
        exact ih (List.pairwise_cons.mp hl).2 hmem

/-- A key finds a value exactly when the map has the two as an entry. -/
theorem get?_eq_some_iff {m : OrderedMap κ β} {k : κ} {v : β} :
    m.get? k = some v ↔ (k, v) ∈ m.entries :=
  ⟨mem_of_find?, find?_of_mem m.sorted⟩

omit [Std.LawfulEqOrd κ] in
theorem contains_iff {m : OrderedMap κ β} {k : κ} :
    m.contains k = true ↔ ∃ v, m.get? k = some v := by
  rw [contains, Option.isSome_iff_exists]

/-- The entries with a given key: the one it finds, or none. -/
theorem filter_key [DecidableEq κ] (m : OrderedMap κ β) (k : κ) :
    m.entries.filter (fun e => e.1 = k) = ((m.get? k).map fun v => (k, v)).toList := by
  have key : ∀ l : List (κ × β), l.Pairwise (fun a b => compare a.1 b.1 = .lt) →
      l.filter (fun e => e.1 = k) = ((find? k l).map fun v => (k, v)).toList := by
    intro l hl
    induction l with
    | nil => rfl
    | cons head rest ih =>
        obtain ⟨k', v'⟩ := head
        have hrest := ih (List.pairwise_cons.mp hl).2
        by_cases heq : k' = k
        · subst heq
          -- the keys increase, so this one does not come again
          have hnone : rest.filter (fun e => e.1 = k') = [] := by
            rw [List.filter_eq_nil_iff]
            intro e he h
            exact ne_of_lt ((List.pairwise_cons.mp hl).1 e he) (of_decide_eq_true h).symm
          rw [find?_cons_self, List.filter_cons_of_pos (by simp), hnone]
          rfl
        · rw [find?_cons_ne (Ne.symm heq), List.filter_cons_of_neg (by simpa using heq), hrest]
  exact key m.entries m.sorted

/-! ## What the operations do to look-up -/

theorem get?_filter (m : OrderedMap κ β) (keep : κ → β → Bool) (k : κ) :
    (m.filter keep).get? k = (m.get? k).filter (keep k) := by
  ext v
  rw [get?_eq_some_iff, Option.filter_eq_some_iff, get?_eq_some_iff]
  exact List.mem_filter

theorem get?_erase [DecidableEq κ] (m : OrderedMap κ β) (k k' : κ) :
    (m.erase k).get? k' = if k' = k then none else m.get? k' := by
  rw [erase, get?_filter]
  by_cases h : k' = k
  · subst h
    rw [if_pos rfl]
    exact Option.filter_eq_none_iff.mpr fun _ _ => by simp
  · rw [if_neg h]
    have hne : compare k k' ≠ .eq := fun heq => h (Std.LawfulEqCmp.eq_of_compare heq).symm
    cases m.get? k' with
    | none => rfl
    | some v => exact Option.filter_some_pos (by simpa using hne)

theorem find?_map (k : κ) (f : κ → β → γ) (l : List (κ × β)) :
    find? k (l.map fun e => (e.1, f e.1 e.2)) = (find? k l).map (f k) := by
  induction l with
  | nil => rfl
  | cons head rest ih =>
      obtain ⟨k', v⟩ := head
      rw [List.map_cons]
      by_cases h : k = k'
      · rw [← h, find?_cons_self, find?_cons_self]
        rfl
      · rw [find?_cons_ne h, find?_cons_ne h, ih]

theorem get?_map (m : OrderedMap κ β) (f : κ → β → γ) (k : κ) :
    (m.map f).get? k = (m.get? k).map (f k) :=
  find?_map k f m.entries

variable [Std.TransOrd κ]

/-- **EXTENSIONALITY**: look-up determines the map. -/
theorem ext_get? {a b : OrderedMap κ β} (h : ∀ k, a.get? k = b.get? k) : a = b := by
  apply OrderedMap.ext
  -- strictly increasing keys leave one order for one set of entries
  have anti : ∀ x y : κ × β, compare x.1 y.1 = .lt → compare y.1 x.1 = .lt → x = y := by
    intro x y hxy hyx
    exact absurd rfl (ne_of_lt (Std.TransCmp.lt_trans hxy hyx))
  refine List.Perm.eq_of_pairwise (fun x y _ _ => anti x y) a.sorted b.sorted ?_
  have nodup : ∀ m : OrderedMap κ β, m.entries.Nodup := by
    intro m
    refine m.sorted.imp ?_
    rintro x y hxy rfl
    exact ne_of_lt hxy rfl
  refine (List.perm_ext_iff_of_nodup (nodup a) (nodup b)).mpr ?_
  rintro ⟨k, v⟩
  rw [← get?_eq_some_iff, ← get?_eq_some_iff, h k]

theorem find?_insertEntry [DecidableEq κ] (k k' : κ) (v : β) (l : List (κ × β)) :
    find? k' (insertEntry k v l) = if k' = k then some v else find? k' l := by
  induction l with
  | nil =>
      by_cases h : k' = k
      · rw [if_pos h, h]
        exact find?_cons_self k v []
      · rw [if_neg h]
        exact find?_cons_ne h v []
  | cons head rest ih =>
      obtain ⟨k₁, v₁⟩ := head
      rw [insertEntry]
      -- the new entry goes before the first one, takes its place, or goes further down
      split
      · by_cases h : k' = k
        · rw [if_pos h, h, find?_cons_self]
        · rw [if_neg h, find?_cons_ne h]
      · next heq =>
        obtain rfl : k = k₁ := Std.LawfulEqCmp.eq_of_compare heq
        by_cases h : k' = k
        · rw [if_pos h, h, find?_cons_self]
        · rw [if_neg h, find?_cons_ne h, find?_cons_ne h]
      · next hgt =>
        by_cases h₁ : k' = k₁
        · have hne : k₁ ≠ k := ne_of_lt (Std.OrientedCmp.lt_of_gt hgt)
          rw [h₁, find?_cons_self, find?_cons_self, if_neg hne]
        · rw [find?_cons_ne h₁, find?_cons_ne h₁, ih]

theorem get?_insert [DecidableEq κ] (m : OrderedMap κ β) (k : κ) (v : β) (k' : κ) :
    (m.insert k v).get? k' = if k' = k then some v else m.get? k' :=
  find?_insertEntry k k' v m.entries

/-- Replacing the value of a key that is there changes no key. -/
theorem contains_insert [DecidableEq κ] {m : OrderedMap κ β} {k : κ} (h : m.contains k = true)
    (v : β) (k' : κ) : (m.insert k v).contains k' = m.contains k' := by
  rw [contains, get?_insert]
  by_cases hk : k' = k
  · rw [if_pos hk, hk, h]
    rfl
  · rw [if_neg hk]
    rfl

/-- Storing what is stored already. -/
theorem insert_of_get? [DecidableEq κ] {m : OrderedMap κ β} {k : κ} {v : β}
    (h : m.get? k = some v) : m.insert k v = m := by
  refine ext_get? fun k' => ?_
  rw [get?_insert]
  by_cases hk : k' = k
  · rw [if_pos hk, hk, h]
  · rw [if_neg hk]

/-- Replacing the value of a key that is there. -/
theorem insert_eq_map [DecidableEq κ] {m : OrderedMap κ β} {k : κ} {old : β}
    (h : m.get? k = some old) (v : β) :
    m.insert k v = m.map (fun k' v' => if k' = k then v else v') := by
  refine ext_get? fun k' => ?_
  rw [get?_insert, get?_map]
  by_cases hk : k' = k
  · subst hk
    rw [if_pos rfl, h]
    simp
  · rw [if_neg hk]
    simp [hk]

theorem map_map {δ : Type} (m : OrderedMap κ β) (f : κ → β → γ) (g : κ → γ → δ) :
    (m.map f).map g = m.map (fun k v => g k (f k v)) :=
  ext_get? fun k => by rw [get?_map, get?_map, get?_map, Option.map_map]; rfl

theorem map_congr {m : OrderedMap κ β} {f g : κ → β → γ}
    (h : ∀ k v, m.get? k = some v → f k v = g k v) : m.map f = m.map g := by
  refine ext_get? fun k => ?_
  rw [get?_map, get?_map]
  cases hm : m.get? k with
  | none => rfl
  | some v => rw [Option.map_some, Option.map_some, h k v hm]

theorem map_id (m : OrderedMap κ β) : m.map (fun _ v => v) = m :=
  ext_get? fun k => by rw [get?_map]; exact Option.map_id'

theorem filter_filter (m : OrderedMap κ β) (p q : κ → β → Bool) :
    (m.filter p).filter q = m.filter (fun k v => p k v && q k v) :=
  ext_get? fun k => by rw [get?_filter, get?_filter, get?_filter, Option.filter_filter]

theorem filter_true (m : OrderedMap κ β) : m.filter (fun _ _ => true) = m :=
  ext_get? fun k => by rw [get?_filter]; cases m.get? k <;> rfl

theorem filter_congr {m : OrderedMap κ β} {p q : κ → β → Bool}
    (h : ∀ k v, m.get? k = some v → p k v = q k v) : m.filter p = m.filter q := by
  refine ext_get? fun k => ?_
  rw [get?_filter, get?_filter]
  cases hm : m.get? k with
  | none => rfl
  | some v => rw [Option.filter_some, Option.filter_some, h k v hm]

/-! ## Lists in key order -/

omit [Std.LawfulEqOrd κ] in
/-- A key after all others goes to the end. -/
theorem insertEntry_of_lt {k : κ} {l : List (κ × β)} (h : ∀ e ∈ l, compare e.1 k = .lt) (v : β) :
    insertEntry k v l = l ++ [(k, v)] := by
  induction l with
  | nil => rfl
  | cons e rest ih =>
      obtain ⟨k', v'⟩ := e
      have hgt : compare k k' = .gt := Std.OrientedCmp.gt_of_lt (h (k', v') List.mem_cons_self)
      rw [insertEntry, hgt]
      exact congrArg _ (ih fun e he => h e (List.mem_cons_of_mem _ he))

omit [Std.LawfulEqOrd κ] in
/-- The entries of a map, stored in turn, make up the map. -/
theorem ofList_entries (m : OrderedMap κ β) : ofList m.entries = m := by
  have hgo : ∀ (l : List (κ × β)) (m' : OrderedMap κ β),
      (m'.entries ++ l).Pairwise (fun a b => compare a.1 b.1 = .lt) →
      (l.foldl (fun m e => m.insert e.1 e.2) m').entries = m'.entries ++ l := by
    intro l
    induction l with
    | nil => exact fun m' _ => (List.append_nil _).symm
    | cons e l ih =>
        intro m' hsorted
        have hlast : (m'.insert e.1 e.2).entries = m'.entries ++ [e] :=
          insertEntry_of_lt (fun e' he' =>
            (List.pairwise_append.mp hsorted).2.2 e' he' e List.mem_cons_self) e.2
        rw [List.append_cons, ← hlast] at hsorted ⊢
        exact ih _ hsorted
  exact ext (hgo m.entries empty m.sorted)

/-- Entries in whatever order make up one map. -/
theorem ofList_of_perm [DecidableEq κ] {m : OrderedMap κ β} {l : List (κ × β)}
    (h : l.Perm m.entries) : ofList l = m := by
  have hswap : ∀ x ∈ l, ∀ y ∈ l, ∀ m' : OrderedMap κ β,
      (m'.insert x.1 x.2).insert y.1 y.2 = (m'.insert y.1 y.2).insert x.1 x.2 := by
    intro x hx y hy m'
    by_cases hkey : x.1 = y.1
    · have hfind := get?_eq_some_iff.mpr (h.subset hx)
      rw [hkey, get?_eq_some_iff.mpr (h.subset hy)] at hfind
      rw [hkey, Option.some.inj hfind]
    · refine ext_get? fun k => ?_
      rw [get?_insert, get?_insert, get?_insert, get?_insert]
      by_cases hx : k = x.1
      · have hy : ¬k = y.1 := fun hy => hkey (hx.symm.trans hy)
        rw [if_neg hy, if_pos hx, if_pos hx]
      · rw [if_neg hx, if_neg hx]
  rw [ofList, h.foldl_eq' hswap]
  exact ofList_entries m

end Lapse.OrderedMap
