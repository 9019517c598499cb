import Lapse.Proofs.Action
import Lapse.Proofs.Store
import Lapse.Proofs.Text.ByteOrder
import Mathlib.Logic.Function.Basic

/-!
# The store as a ledger

A store that is only changed by saving and removing actions is a ledger that tells for each kind and
request which action was last saved and not removed since.  Keys of one kind are in the order of
the requests, and keys of different kinds are in the order of the kinds, so that the table in the
byte order of its keys lists the ledger.
-/

namespace Lapse.Store

/-- The action that was last saved of each kind for each request. -/
abbrev Ledger := Kind → OrderedMap String Action

namespace Ledger

/-- Nothing was saved. -/
def empty : Ledger := fun _ => .empty

/-- An action takes the place of the one of its kind and request. -/
def save (l : Ledger) (a : Action) : Ledger :=
  Function.update l a.kind ((l a.kind).insert a.requestId a)

/-- The action of one kind for one request is taken out. -/
def remove (l : Ledger) (kind : Kind) (r : String) : Ledger :=
  Function.update l kind ((l kind).erase r)

theorem get?_save (l : Ledger) (a : Action) (kind : Kind) (r : String) :
    (l.save a kind).get? r =
      if kind = a.kind ∧ r = a.requestId then some a else (l kind).get? r := by
  rw [save]
  by_cases hkind : kind = a.kind
  · subst hkind
    rw [Function.update_self, OrderedMap.get?_insert]
    exact if_congr (by rw [eq_self, true_and]) rfl rfl
  · rw [Function.update_of_ne hkind, if_neg fun h => hkind h.1]

theorem get?_remove (l : Ledger) (kind kind' : Kind) (r r' : String) :
    (l.remove kind r kind').get? r' =
      if kind' = kind ∧ r' = r then none else (l kind').get? r' := by
  rw [remove]
  by_cases hkind : kind' = kind
  · subst hkind
    rw [Function.update_self, OrderedMap.get?_erase]
    exact if_congr (by rw [eq_self, true_and]) rfl rfl
  · rw [Function.update_of_ne hkind, if_neg fun h => hkind h.1]

end Ledger

/-! ## The order of keys -/

/-- The order of keys is the order of their bytes. -/
theorem encode_lt_encode_iff {k k' : String} :
    Utf8.encode k < Utf8.encode k' ↔ compare k k' = .lt := by
  rw [Utf8.encode_lt_iff, String.lt_iff_toList_lt, compare_eq_lt_iff]

/-- Texts that differ before one of them ends are in order whatever follows. -/
theorem append_lt_append {p q : List Char} (h : p < q) (hbegins : ¬ p <+: q) (x y : List Char) :
    p ++ x < q ++ y := by
  induction p generalizing q with
  | nil => exact absurd List.nil_prefix hbegins
  | cons c p ih =>
      cases q with
      | nil => exact absurd h (List.not_lt_nil _)
      | cons d q =>
          rw [List.cons_append, List.cons_append, List.cons_lt_cons_iff]
          rcases List.cons_lt_cons_iff.mp h with hlt | ⟨rfl, hrest⟩
          · exact .inl hlt
          · exact .inr ⟨rfl, ih hrest fun hp => hbegins (List.cons_prefix_cons.mpr ⟨rfl, hp⟩)⟩

/-- The kinds are in the order of their names, and no name begins with another. -/
theorem keyHead_lt : Kind.all.Pairwise fun kind kind' =>
    (keyHead kind).toList < (keyHead kind').toList ∧
      ¬ (keyHead kind).toList <+: (keyHead kind').toList := by
  decide

/-- The keys of an earlier kind come before those of a later one. -/
theorem key_lt_key : Kind.all.Pairwise fun kind kind' =>
    ∀ r r', compare (key kind r) (key kind' r') = .lt := by
  refine keyHead_lt.imp ?_
  rintro kind kind' ⟨hlt, hbegins⟩ r r'
  rw [compare_eq_lt_iff, key, key, String.toList_append, String.toList_append]
  exact append_lt_append hlt hbegins _ _

/-- The keys of one kind are in the order of the requests. -/
theorem key_lt_key_iff {kind : Kind} {r r' : String} :
    compare (key kind r) (key kind r') = .lt ↔ compare r r' = .lt := by
  rw [compare_eq_lt_iff, compare_eq_lt_iff, key, key, String.toList_append, String.toList_append]
  have hhead : ∀ p : List Char, p ++ r.toList < p ++ r'.toList ↔ r.toList < r'.toList := by
    intro p
    induction p with
    | nil => rfl
    | cons c p ih =>
        rw [List.cons_append, List.cons_append, List.cons_lt_cons_iff, ih]
        exact ⟨fun h => h.elim (fun hc => absurd hc (lt_irrefl c)) (·.2), fun h => .inr ⟨rfl, h⟩⟩
  exact hhead _

/-- The actions of a kind are in the byte order of their requests. -/
theorem WellKeyed.actions_byteOrder {st : Store} (hst : st.WellKeyed) (kind : Kind) :
    (st.actions kind).Pairwise fun a b => Utf8.encode a.requestId < Utf8.encode b.requestId := by
  rw [actions, List.pairwise_filterMap]
  refine List.Pairwise.imp_of_mem ?_ (st.sorted.filter _)
  rintro ⟨k, bytes⟩ ⟨k', bytes'⟩ hmem hmem' hlt a hdec b hdec'
  obtain ⟨he, hkey⟩ := List.mem_filter.mp hmem
  obtain ⟨he', hkey'⟩ := List.mem_filter.mp hmem'
  obtain rfl := hst kind k bytes a hkey (OrderedMap.get?_eq_some_iff.mpr he) hdec
  obtain rfl := hst kind k' bytes' b hkey' (OrderedMap.get?_eq_some_iff.mpr he') hdec'
  have hkind : b.kind = a.kind := (isKeyOf_key.mp hkey').trans (isKeyOf_key.mp hkey).symm
  dsimp only at hlt
  rw [hkind, key_lt_key_iff] at hlt
  exact encode_lt_encode_iff.mpr hlt

/-! ## Tables that represent a ledger -/

/-- The table has the record of each action of the ledger under its key, and no other record. -/
structure Represents (st : Store) (l : Ledger) : Prop where
  record : ∀ kind r, st.get? (key kind r) = ((l kind).get? r).map Action.encode
  keyed : ∀ k bytes, st.get? k = some bytes → ∃ kind r, k = key kind r
  named : ∀ kind r a, (l kind).get? r = some a → a.kind = kind ∧ a.requestId = r

namespace Represents

variable {st : Store} {l : Ledger}

theorem empty : Represents .empty .empty where
  record _ _ := rfl
  keyed _ _ h := nomatch h
  named _ _ _ h := nomatch h

theorem save (h : Represents st l) (a : Action) : Represents (st.save a) (l.save a) where
  record kind r := by
    rw [get?_save, Ledger.get?_save, apply_ite (Option.map Action.encode), h.record]
    exact if_congr key_inj rfl rfl
  keyed k bytes hget := by
    rw [get?_save] at hget
    split at hget
    · next hk => exact ⟨_, _, hk⟩
    · exact h.keyed k bytes hget
  named kind r b hb := by
    rw [Ledger.get?_save] at hb
    split at hb
    · next hsame =>
      obtain ⟨rfl, rfl⟩ := hsame
      rw [← Option.some.inj hb]
      exact ⟨rfl, rfl⟩
    · exact h.named kind r b hb

theorem remove (h : Represents st l) (kind : Kind) (r : String) :
    Represents (st.remove kind r) (l.remove kind r) where
  record kind' r' := by
    rw [get?_remove, Ledger.get?_remove, apply_ite (Option.map Action.encode), h.record]
    exact if_congr key_inj rfl rfl
  keyed k bytes hget := by
    rw [get?_remove] at hget
    split at hget
    · exact nomatch hget
    · exact h.keyed k bytes hget
  named kind' r' b hb := by
    rw [Ledger.get?_remove] at hb
    split at hb
    · exact nomatch hb
    · exact h.named kind' r' b hb

/-- Every record reads as an action, so that listing a kind removes nothing. -/
theorem healed_eq (h : Represents st l) (kind : Kind) : st.healed kind = st := by
  refine Eq.trans (OrderedMap.filter_congr fun k bytes hget => ?_) (OrderedMap.filter_true st)
  obtain ⟨kind', r, rfl⟩ := h.keyed k bytes hget
  rw [h.record] at hget
  obtain ⟨a, -, rfl⟩ := Option.map_eq_some_iff.mp hget
  rw [Action.decode_encode]
  exact Bool.or_true _

/-- The records of a kind are those of its actions, in the order of the requests. -/
theorem ofKind_eq (h : Represents st l) (kind : Kind) :
    st.ofKind kind = (l kind).entries.map fun e => (key kind e.1, e.2.encode) := by
  have hsorted : ((l kind).entries.map fun e => (key kind e.1, e.2.encode)).Pairwise
      fun a b => compare a.1 b.1 = .lt :=
    List.pairwise_map.mpr ((l kind).sorted.imp key_lt_key_iff.mpr)
  have hmaps : OrderedMap.filter st (fun k _ => isKeyOf kind k) = ⟨_, hsorted⟩ := by
    refine OrderedMap.ext_get? fun k => Option.ext fun bytes => ?_
    rw [OrderedMap.get?_filter, OrderedMap.get?_eq_some_iff, Option.filter_eq_some_iff,
      List.mem_map, isKeyOf_iff]
    constructor
    · rintro ⟨hget, r, rfl⟩
      rw [h.record] at hget
      obtain ⟨a, ha, rfl⟩ := Option.map_eq_some_iff.mp hget
      exact ⟨(r, a), OrderedMap.get?_eq_some_iff.mp ha, rfl⟩
    · rintro ⟨⟨r, a⟩, hmem, heq⟩
      obtain ⟨rfl, rfl⟩ := Prod.mk.inj heq
      refine ⟨?_, r, rfl⟩
      rw [h.record, OrderedMap.get?_eq_some_iff.mpr hmem]
      rfl
  exact congrArg OrderedMap.entries hmaps

/-- **LISTING**: a kind lists its actions, each as it was saved, in the order of the requests. -/
theorem actions_eq (h : Represents st l) (kind : Kind) : st.actions kind = (l kind).values := by
  rw [actions, h.ofKind_eq, List.filterMap_map]
  have hdecode : ((fun e => Action.decode e.2) ∘ fun e : String × Action =>
      (key kind e.1, e.2.encode)) = some ∘ Prod.snd :=
    funext fun e => Action.decode_encode e.2
  rw [hdecode, OrderedMap.values]
  exact List.filterMap_eq_map ▸ rfl

/-- Every record is one of a kind, and the kinds follow each other. -/
theorem entries_eq (h : Represents st l) : st.entries = Kind.all.flatMap st.ofKind := by
  have hsorted : (Kind.all.flatMap st.ofKind).Pairwise fun a b => compare a.1 b.1 = .lt := by
    refine List.pairwise_flatMap.mpr ⟨fun kind _ => st.sorted.filter _, key_lt_key.imp ?_⟩
    rintro kind kind' hlt ⟨k, bytes⟩ hmem ⟨k', bytes'⟩ hmem'
    obtain ⟨r, rfl⟩ := isKeyOf_iff.mp (List.mem_filter.mp hmem).2
    obtain ⟨r', rfl⟩ := isKeyOf_iff.mp (List.mem_filter.mp hmem').2
    exact hlt r r'
  have hmaps : st = ⟨_, hsorted⟩ := by
    refine OrderedMap.ext_get? fun k => Option.ext fun bytes => ?_
    rw [OrderedMap.get?_eq_some_iff, OrderedMap.get?_eq_some_iff, List.mem_flatMap]
    constructor
    · intro hmem
      obtain ⟨kind, r, rfl⟩ := h.keyed k bytes (OrderedMap.get?_eq_some_iff.mpr hmem)
      exact ⟨kind, by cases kind <;> decide, List.mem_filter.mpr ⟨hmem, isKeyOf_key.mpr rfl⟩⟩
    · rintro ⟨kind, -, hmem⟩
      exact (List.mem_filter.mp hmem).1
  exact congrArg OrderedMap.entries hmaps

/-- Listing everything lists the kinds one after another. -/
theorem all_eq (h : Represents st l) : st.all = Kind.all.flatMap fun kind => (l kind).values := by
  rw [all, h.entries_eq, List.filterMap_flatMap]
  exact List.flatMap_congr fun kind _ => h.actions_eq kind

/-- The actions of a kind are in the byte order of their requests. -/
theorem byteOrder (h : Represents st l) (kind : Kind) : (l kind).values.Pairwise fun a b =>
    Utf8.encode a.requestId < Utf8.encode b.requestId := by
  rw [OrderedMap.values, List.pairwise_map]
  refine (l kind).sorted.imp_of_mem ?_
  rintro ⟨r, a⟩ ⟨r', b⟩ hmem hmem' hlt
  rw [(h.named kind r a (OrderedMap.get?_eq_some_iff.mpr hmem)).2,
    (h.named kind r' b (OrderedMap.get?_eq_some_iff.mpr hmem')).2]
  exact encode_lt_encode_iff.mpr hlt

end Represents

end Lapse.Store
