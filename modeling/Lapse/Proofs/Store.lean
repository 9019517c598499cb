import Lapse.Proofs.OrderedMap
import Lapse.Store
import Mathlib.Data.String.Basic

/-!
# Keys and records of the store

The range of a kind holds exactly the keys that begin with the kind's name and a slash, because
the slash and the character that ends the range are neighbours.  Names of kinds hold no slash, so a
key names one kind and one request, and an operation on one kind is not seen by another.

A store is well keyed when every record that still reads as an action stands under the key of that
action.  Then a kind has at most one action for a request: the one stored under their key.
-/

namespace Lapse.Store

/-! ## Keys -/

theorem compare_eq_lt_iff (a b : String) : compare a b = .lt ↔ a.toList < b.toList := by
  rw [← String.lt_iff_toList_lt]
  exact compareOfLessAndEq_eq_lt

theorem isLE_compare_iff (a b : String) :
    (compare a b).isLE = true ↔ ¬ b.toList < a.toList := by
  rw [← compare_eq_lt_iff]
  constructor
  · exact Std.OrientedCmp.not_lt_of_isLE
  · intro h
    by_contra hle
    exact h (Std.OrientedCmp.lt_of_not_isLE hle)

/-- No character lies between the slash and the zero. -/
theorem eq_slash_of_between {c : Char} (hlo : ¬ c < '/') (hhi : c < '0') : c = '/' := by
  rw [Char.lt_def, UInt32.lt_iff_toNat_lt] at hlo hhi
  have hval : c.val.toNat = 47 := by
    have h47 : ('/' : Char).val.toNat = 47 := rfl
    have h48 : ('0' : Char).val.toNat = 48 := rfl
    omega
  exact Char.ext (UInt32.toNat_inj.mp hval)

/-- The texts from `p/` to `p0` are those that begin with `p/`. -/
theorem between_iff (p l : List Char) :
    (¬ l < p ++ ['/'] ∧ l < p ++ ['0']) ↔ ∃ r, l = p ++ '/' :: r := by
  induction p generalizing l with
  | nil =>
      rw [List.nil_append, List.nil_append]
      constructor
      · rintro ⟨hlo, hhi⟩
        cases l with
        | nil => exact absurd (List.nil_lt_cons _ _) hlo
        | cons c r =>
            rw [List.cons_lt_cons_iff] at hlo hhi
            have hc : c < '0' := by
              rcases hhi with h | ⟨-, h⟩
              · exact h
              · exact absurd h (List.not_lt_nil r)
            exact ⟨r, by rw [eq_slash_of_between (fun h => hlo (.inl h)) hc]; rfl⟩
      · rintro ⟨r, rfl⟩
        refine ⟨fun h => ?_, List.cons_lt_cons_iff.mpr (.inl (by decide))⟩
        rcases List.cons_lt_cons_iff.mp h with h | ⟨-, h⟩
        · exact absurd h (by decide)
        · exact List.not_lt_nil r h
  | cons x p ih =>
      rw [List.cons_append, List.cons_append]
      constructor
      · rintro ⟨hlo, hhi⟩
        cases l with
        | nil => exact absurd (List.nil_lt_cons _ _) hlo
        | cons c r =>
            rw [List.cons_lt_cons_iff] at hlo hhi
            -- a first character other than `x` puts the text outside at one end
            have hc : c = x ∧ r < p ++ ['0'] := by
              rcases hhi with h | h
              · exact absurd (.inl h) hlo
              · exact h
            obtain ⟨rest, hrest⟩ := (ih r).mp ⟨fun h => hlo (.inr ⟨hc.1, h⟩), hc.2⟩
            exact ⟨rest, by rw [hc.1, hrest]; rfl⟩
      · rintro ⟨r, rfl⟩
        have hr := (ih (p ++ '/' :: r)).mpr ⟨r, rfl⟩
        refine ⟨fun h => ?_, List.cons_lt_cons_iff.mpr (.inr ⟨rfl, hr.2⟩)⟩
        rcases List.cons_lt_cons_iff.mp h with h | h
        · exact absurd h (lt_irrefl x)
        · exact hr.1 h.2

/-- **RANGES**: the keys of a kind are those that begin with its name and a slash. -/
theorem isKeyOf_iff {kind : Kind} {k : String} :
    isKeyOf kind k = true ↔ ∃ r, k = key kind r := by
  rw [isKeyOf, Bool.and_eq_true, beq_iff_eq, isLE_compare_iff, compare_eq_lt_iff,
    String.toList_append, String.toList_append]
  rw [show ("/" : String).toList = ['/'] from rfl, show ("0" : String).toList = ['0'] from rfl,
    between_iff]
  constructor
  · rintro ⟨r, hr⟩
    refine ⟨String.ofList r, String.toList_inj.mp ?_⟩
    rw [hr, key, keyHead, String.toList_append, String.toList_append]
    simp only [String.toList_ofList]
    exact List.append_cons kind.name.toList '/' r
  · rintro ⟨r, rfl⟩
    refine ⟨r.toList, ?_⟩
    rw [key, keyHead, String.toList_append, String.toList_append]
    exact (List.append_cons kind.name.toList '/' r.toList).symm

theorem slash_not_mem_name (kind : Kind) : '/' ∉ kind.name.toList := by
  cases kind <;> decide

theorem name_inj {kind kind' : Kind} (h : kind.name = kind'.name) : kind = kind' := by
  cases kind <;> cases kind' <;> first | rfl | exact absurd h (by decide)

/-- A text is cut in one way at its first slash. -/
theorem append_slash_inj {p q l l' : List Char} (hp : '/' ∉ p) (hq : '/' ∉ q)
    (h : p ++ '/' :: l = q ++ '/' :: l') : p = q ∧ l = l' := by
  induction p generalizing q with
  | nil =>
      cases q with
      | nil => exact ⟨rfl, (List.cons.inj h).2⟩
      | cons c q => exact absurd ((List.cons.inj h).1 ▸ List.mem_cons_self) hq
  | cons x p ih =>
      cases q with
      | nil => exact absurd ((List.cons.inj h).1 ▸ List.mem_cons_self) hp
      | cons c q =>
          obtain ⟨rfl, htail⟩ := List.cons.inj h
          obtain ⟨rfl, hl⟩ := ih (fun hm => hp (List.mem_cons_of_mem _ hm))
            (fun hm => hq (List.mem_cons_of_mem _ hm)) htail
          exact ⟨rfl, hl⟩

/-- A key names its kind and its request. -/
theorem key_inj {kind kind' : Kind} {r r' : String} :
    key kind r = key kind' r' ↔ kind = kind' ∧ r = r' := by
  constructor
  · intro h
    have hl := congrArg String.toList h
    rw [key, key, keyHead, keyHead] at hl
    simp only [String.toList_append, List.append_assoc] at hl
    obtain ⟨hname, hrest⟩ :=
      append_slash_inj (slash_not_mem_name kind) (slash_not_mem_name kind') hl
    exact ⟨name_inj (String.toList_inj.mp hname), String.toList_inj.mp hrest⟩
  · rintro ⟨rfl, rfl⟩
    rfl

theorem isKeyOf_key {kind kind' : Kind} {r : String} :
    isKeyOf kind (key kind' r) = true ↔ kind' = kind := by
  rw [isKeyOf_iff]
  constructor
  · rintro ⟨r', h⟩
    exact (key_inj.mp h).1
  · rintro rfl
    exact ⟨r, rfl⟩

/-! ## What the operations do to the record of a key -/

theorem get?_save (st : Store) (a : Action) (k : String) :
    (st.save a).get? k = if k = key a.kind a.requestId then some a.encode else st.get? k :=
  OrderedMap.get?_insert st _ _ k

theorem get?_remove (st : Store) (kind : Kind) (r k : String) :
    (st.remove kind r).get? k = if k = key kind r then none else st.get? k :=
  OrderedMap.get?_erase st _ k

theorem get?_healed_key (st : Store) {kind kind' : Kind} (h : kind ≠ kind') (r : String) :
    (st.healed kind').get? (key kind r) = st.get? (key kind r) := by
  have hkey : isKeyOf kind' (key kind r) = false := by
    rw [Bool.eq_false_iff]
    exact fun hk => h (isKeyOf_key.mp hk)
  rw [healed, OrderedMap.get?_filter]
  cases st.get? (key kind r) with
  | none => rfl
  | some bytes => exact Option.filter_some_pos (by rw [hkey]; rfl)

/-! ## The actions of a kind -/

/-- The actions of a kind depend on the records under its keys only. -/
theorem actions_congr {st st' : Store} {kind : Kind}
    (h : ∀ r, st.get? (key kind r) = st'.get? (key kind r)) :
    st.actions kind = st'.actions kind := by
  have hmap : OrderedMap.filter st (fun k _ => isKeyOf kind k) =
      OrderedMap.filter st' (fun k _ => isKeyOf kind k) := by
    refine OrderedMap.ext_get? fun k => ?_
    rw [OrderedMap.get?_filter, OrderedMap.get?_filter]
    -- what stands under no key of the kind is in neither
    cases hk : isKeyOf kind k with
    | false => simp
    | true =>
        obtain ⟨r, rfl⟩ := isKeyOf_iff.mp hk
        rw [h r]
  have hentries : st.ofKind kind = st'.ofKind kind := congrArg OrderedMap.entries hmap
  rw [actions, actions, hentries]

/-- The action stored under a kind and a request. -/
def action? (st : Store) (kind : Kind) (r : String) : Option Action :=
  (st.get? (key kind r)).bind Action.decode

theorem mem_actions_iff {st : Store} {kind : Kind} {a : Action} :
    a ∈ st.actions kind ↔ ∃ r, st.action? kind r = some a := by
  rw [actions, List.mem_filterMap]
  constructor
  · rintro ⟨⟨k, bytes⟩, he, hdec⟩
    obtain ⟨hmem, hkey⟩ := List.mem_filter.mp he
    obtain ⟨r, rfl⟩ := isKeyOf_iff.mp hkey
    refine ⟨r, ?_⟩
    rw [action?, OrderedMap.get?_eq_some_iff.mpr hmem]
    exact hdec
  · rintro ⟨r, h⟩
    obtain ⟨bytes, hget, hdec⟩ := Option.bind_eq_some_iff.mp h
    refine ⟨(key kind r, bytes), List.mem_filter.mpr ⟨?_, isKeyOf_key.mpr rfl⟩, hdec⟩
    exact OrderedMap.get?_eq_some_iff.mp hget

/-- Every record in the range of a kind that reads as an action stands under that action's key. -/
def WellKeyed (st : Store) : Prop :=
  ∀ kind k bytes a, isKeyOf kind k = true → st.get? k = some bytes →
    Action.decode bytes = some a → k = key a.kind a.requestId

variable {st : Store} {kind : Kind} {r : String} {a : Action}

theorem WellKeyed.of_action? (hst : st.WellKeyed) (h : st.action? kind r = some a) :
    a.kind = kind ∧ a.requestId = r := by
  obtain ⟨bytes, hget, hdec⟩ := Option.bind_eq_some_iff.mp h
  have hkey := hst kind _ bytes a (isKeyOf_key.mpr rfl) hget hdec
  obtain ⟨hkind, hr⟩ := key_inj.mp hkey
  exact ⟨hkind.symm, hr.symm⟩

theorem WellKeyed.of_mem_actions (hst : st.WellKeyed) (h : a ∈ st.actions kind) :
    a.kind = kind ∧ st.action? kind a.requestId = some a := by
  obtain ⟨r, hr⟩ := mem_actions_iff.mp h
  obtain ⟨hkind, hreq⟩ := hst.of_action? hr
  exact ⟨hkind, hreq ▸ hr⟩

/-- The actions of a kind are for different requests. -/
theorem WellKeyed.actions_pairwise (hst : st.WellKeyed) (kind : Kind) :
    (st.actions kind).Pairwise fun a b => a.requestId ≠ b.requestId := by
  rw [actions, List.pairwise_filterMap]
  refine List.Pairwise.imp_of_mem ?_ (st.sorted.filter _)
  rintro ⟨k, bytes⟩ ⟨k', bytes'⟩ hmem hmem' hlt a hdec b hdec' hreq
  obtain ⟨he, hkey⟩ := List.mem_filter.mp hmem
  obtain ⟨he', hkey'⟩ := List.mem_filter.mp hmem'
  have hk := hst kind k bytes a hkey (OrderedMap.get?_eq_some_iff.mpr he) hdec
  have hk' := hst kind k' bytes' b hkey' (OrderedMap.get?_eq_some_iff.mpr he') hdec'
  -- one request would give the two records one key
  have hkind : a.kind = b.kind :=
    (isKeyOf_key.mp (hk ▸ hkey)).trans (isKeyOf_key.mp (hk' ▸ hkey')).symm
  exact OrderedMap.ne_of_lt hlt (by rw [hk, hk', hkind, hreq])

/-- Removing records by a test that all stored actions pass may come before storing them. -/
theorem filter_foldl_save (keep : String → Bytes → Bool) (stored : List Action)
    (h : ∀ b ∈ stored, keep (key b.kind b.requestId) b.encode = true) (st : Store) :
    OrderedMap.filter (stored.foldl save st) keep =
      stored.foldl save (OrderedMap.filter st keep) := by
  induction stored generalizing st with
  | nil => rfl
  | cons b rest ih =>
      rw [List.foldl_cons, List.foldl_cons, ih fun c hc => h c (List.mem_cons_of_mem _ hc)]
      congr 1
      refine OrderedMap.ext_get? fun k => ?_
      rw [OrderedMap.get?_filter, get?_save, get?_save, OrderedMap.get?_filter]
      by_cases hk : k = key b.kind b.requestId
      · rw [if_pos hk, if_pos hk, hk]
        exact Option.filter_some_pos (h b List.mem_cons_self)
      · rw [if_neg hk, if_neg hk]

theorem wellKeyed_empty : WellKeyed (.empty : Store) :=
  fun _ _ _ _ _ hget _ => nomatch hget

/-- Storing an action that is read back keeps a store well keyed. -/
theorem WellKeyed.save (hst : st.WellKeyed) (ha : Action.decode a.encode = some a) :
    (st.save a).WellKeyed := by
  intro kind k bytes b hk hget hdec
  rw [get?_save] at hget
  by_cases heq : k = key a.kind a.requestId
  · rw [if_pos heq] at hget
    rw [← Option.some.inj hget, ha] at hdec
    rw [← Option.some.inj hdec]
    exact heq
  · rw [if_neg heq] at hget
    exact hst kind k bytes b hk hget hdec

/-- Removing records keeps a store well keyed. -/
theorem WellKeyed.filter (hst : st.WellKeyed) (keep : String → Bytes → Bool) :
    WellKeyed (OrderedMap.filter st keep) := by
  intro kind k bytes b hk hget hdec
  rw [OrderedMap.get?_filter] at hget
  exact hst kind k bytes b hk (Option.eq_some_of_filter_eq_some hget) hdec

/-- A record of a kind reads as an action for a request only under their key. -/
theorem WellKeyed.filter_decode (hst : st.WellKeyed) {k : String} {bytes : Bytes}
    (hkey : isKeyOf kind k = true) (hget : st.get? k = some bytes) (r : String) :
    (Action.decode bytes).filter (fun a => a.requestId = r) =
      if k = key kind r then Action.decode bytes else none := by
  cases hdec : Action.decode bytes with
  | none => rw [Option.filter_none, ite_self]
  | some a =>
      have hk : k = key a.kind a.requestId := hst kind k bytes a hkey hget hdec
      have hkind : a.kind = kind := isKeyOf_key.mp (hk ▸ hkey)
      by_cases hr : a.requestId = r
      · rw [if_pos (by rw [hk, hkind, hr])]
        exact Option.filter_some_pos (decide_eq_true hr)
      · have hne : k ≠ key kind r := fun h => hr (key_inj.mp (hk.symm.trans h)).2
        rw [if_neg hne]
        exact Option.filter_some_neg (decide_eq_false hr)

/-- A well-keyed store has one action at most of a kind for a request. -/
theorem WellKeyed.filter_actions (hst : st.WellKeyed) (kind : Kind) (r : String) :
    (st.actions kind).filter (fun a => a.requestId = r) = (st.action? kind r).toList := by
  have hfilter : (st.actions kind).filter (fun a => a.requestId = r) =
      (st.entries.filter (fun e => e.1 = key kind r)).filterMap (fun e => Action.decode e.2) := by
    rw [actions, ofKind, List.filter_filterMap, List.filterMap_filter, List.filterMap_filter]
    refine List.filterMap_congr ?_
    rintro ⟨k, bytes⟩ hmem
    have hget : st.get? k = some bytes := OrderedMap.get?_eq_some_iff.mpr hmem
    cases hkey : isKeyOf kind k with
    | true => simpa using hst.filter_decode hkey hget r
    | false =>
        -- the key of the request is one of the kind, so it is another one
        have hne : k ≠ key kind r := by
          rintro rfl
          exact Bool.false_ne_true (hkey.symm.trans (isKeyOf_key.mpr rfl))
        simp [hne]
  rw [hfilter, OrderedMap.filter_key, action?]
  cases st.get? (key kind r) with
  | none => rfl
  | some bytes =>
      cases hdec : Action.decode bytes with
      | none => simp [hdec]
      | some a => simp [hdec]

/-- Every record that reads as an action stands under that action's key. -/
def Keyed (st : Store) : Prop :=
  ∀ k bytes a, st.get? k = some bytes → Action.decode bytes = some a →
    k = key a.kind a.requestId

theorem keyed_empty : Keyed (.empty : Store) := fun _ _ _ hget _ => nomatch hget

theorem Keyed.save (hst : st.Keyed) (ha : Action.decode a.encode = some a) :
    (st.save a).Keyed := by
  intro k bytes b hget hdec
  rw [get?_save] at hget
  by_cases heq : k = key a.kind a.requestId
  · rw [if_pos heq] at hget
    rw [← Option.some.inj hget, ha] at hdec
    rw [← Option.some.inj hdec]
    exact heq
  · rw [if_neg heq] at hget
    exact hst k bytes b hget hdec

/-- Of all actions, those of a kind are the ones that are listed under it. -/
theorem Keyed.filter_all (hst : st.Keyed) (kind : Kind) :
    st.all.filter (fun a => a.kind = kind) = st.actions kind := by
  rw [all, actions, ofKind, List.filter_filterMap, List.filterMap_filter]
  refine List.filterMap_congr ?_
  rintro ⟨k, bytes⟩ hmem
  cases hdec : Action.decode bytes with
  | none => simp
  | some a =>
      have hk := hst k bytes a (OrderedMap.get?_eq_some_iff.mpr hmem) hdec
      have hkey : isKeyOf kind k = decide (a.kind = kind) := by
        rw [Bool.eq_iff_iff, hk, isKeyOf_key, decide_eq_true_iff]
      rw [hkey, Option.filter_some]

end Lapse.Store
