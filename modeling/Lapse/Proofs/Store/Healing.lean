import Lapse.Proofs.Store.Reopen

/-!
# Listing a kind heals the store

Whatever stands in the table, listing a kind succeeds: it answers the records of the kind that read
as actions and takes out those that do not.  No other record is touched, whether it reads as an
action or not, so that listing the kind once more, or listing everything, answers the same.
-/

namespace Lapse.OrderedMap

variable {κ β : Type} [Ord κ] [Std.LawfulEqOrd κ] [DecidableEq κ]

/-- Removing keys one after another removes these keys. -/
theorem get?_foldl_erase (ks : List κ) (m : OrderedMap κ β) (k : κ) :
    (ks.foldl erase m).get? k = if k ∈ ks then none else m.get? k := by
  induction ks generalizing m with
  | nil => rfl
  | cons k₀ rest ih =>
      rw [List.foldl_cons, ih, get?_erase]
      by_cases hk : k = k₀
      · rw [if_pos hk, if_pos (List.mem_cons.mpr (.inl hk)), ite_self]
      · rw [if_neg hk]
        exact if_congr (by rw [List.mem_cons, or_iff_right hk]) rfl rfl

end Lapse.OrderedMap

namespace Lapse.Store

open Lapse.Files

variable {kind : Kind} {k : String} {st : Store}

/-! ## The records of a kind -/

/-- A key begins with the name of the kind and a slash. -/
def Begins (kind : Kind) (k : String) : Prop := (kind.name ++ "/").toList <+: k.toList

instance : Decidable (Begins kind k) := inferInstanceAs (Decidable (_ <+: _))

theorem begins_iff : Begins kind k ↔ ∃ r, k = key kind r := by
  constructor
  · rintro ⟨l, hl⟩
    refine ⟨String.ofList l, String.toList_inj.mp ?_⟩
    rw [key, keyHead, String.toList_append, String.toList_ofList, hl]
  · rintro ⟨r, rfl⟩
    exact ⟨r.toList, String.toList_append.symm⟩

theorem isKeyOf_eq : isKeyOf kind k = decide (Begins kind k) := by
  rw [Bool.eq_iff_iff, isKeyOf_iff, decide_eq_true_iff, begins_iff]

theorem ofKind_eq_begins (st : Store) (kind : Kind) :
    st.ofKind kind = st.entries.filter fun e => Begins kind e.1 :=
  List.filter_congr fun _ _ => isKeyOf_eq

/-- The record stands under a key of the kind and does not read as an action. -/
def Lost (kind : Kind) (e : String × Bytes) : Prop :=
  Begins kind e.1 ∧ Action.decode e.2 = none

instance {e : String × Bytes} : Decidable (Lost kind e) := inferInstanceAs (Decidable (_ ∧ _))

/-- The keys of the records of a kind that do not read as actions. -/
def lostKeys (st : Store) (kind : Kind) : List String :=
  (st.entries.filter fun e => Lost kind e).map Prod.fst

theorem keep_eq (kind : Kind) (e : String × Bytes) :
    (!isKeyOf kind e.1 || (Action.decode e.2).isSome) = decide (¬ Lost kind e) := by
  rw [isKeyOf_eq]
  cases hdec : Action.decode e.2 with
  | none => simp [Lost, hdec]
  | some a => simp [Lost, hdec]

/-- Healing takes out the lost records of the kind. -/
theorem entries_healed (st : Store) (kind : Kind) :
    (st.healed kind).entries = st.entries.filter fun e => ¬ Lost kind e :=
  List.filter_congr fun e _ => keep_eq kind e

/-- Healing is removing the lost records one after another. -/
theorem healed_eq_foldl_erase (st : Store) (kind : Kind) :
    st.healed kind = (st.lostKeys kind).foldl OrderedMap.erase st := by
  refine OrderedMap.ext_get? fun k => ?_
  rw [healed, OrderedMap.get?_filter, OrderedMap.get?_foldl_erase]
  cases hget : st.get? k with
  | none => exact (ite_self _).symm
  | some bytes =>
      have hmem : k ∈ st.lostKeys kind ↔ Lost kind (k, bytes) := by
        rw [lostKeys, List.mem_map]
        constructor
        · rintro ⟨⟨k', bytes'⟩, he, rfl⟩
          obtain ⟨hentry, hlost⟩ := List.mem_filter.mp he
          have hsame : some bytes' = some bytes :=
            (OrderedMap.get?_eq_some_iff.mpr hentry).symm.trans hget
          rw [← Option.some.inj hsame]
          exact of_decide_eq_true hlost
        · intro hlost
          exact ⟨(k, bytes), List.mem_filter.mpr
            ⟨OrderedMap.get?_eq_some_iff.mp hget, decide_eq_true hlost⟩, rfl⟩
      rw [Option.filter_some, keep_eq kind (k, bytes), if_congr hmem rfl rfl]
      by_cases hlost : Lost kind (k, bytes)
      · rw [if_pos hlost, if_neg (by simpa using hlost)]
      · rw [if_neg hlost, if_pos (by simpa using hlost)]

/-! ## Listing after healing -/

/-- What reads as an action is not lost, so that no list of actions misses it. -/
theorem filterMap_decode_not_lost (kind : Kind) (l : List (String × Bytes)) :
    (l.filter fun e => ¬ Lost kind e).filterMap (fun e => Action.decode e.2) =
      l.filterMap fun e => Action.decode e.2 := by
  rw [List.filterMap_filter]
  refine List.filterMap_congr fun e _ => ?_
  cases hdec : Action.decode e.2 with
  | none => exact ite_self _
  | some a => simp [Lost, hdec]

theorem all_healed (st : Store) (kind : Kind) : (st.healed kind).all = st.all := by
  rw [all, entries_healed]
  exact filterMap_decode_not_lost kind st.entries

theorem actions_healed (st : Store) (kind : Kind) :
    (st.healed kind).actions kind = st.actions kind := by
  rw [actions, actions, ofKind, ofKind, entries_healed, List.filter_filter]
  simp only [Bool.and_comm]
  rw [← List.filter_filter]
  exact filterMap_decode_not_lost kind _

theorem healed_healed (st : Store) (kind : Kind) :
    (st.healed kind).healed kind = st.healed kind := by
  refine OrderedMap.ext ?_
  rw [entries_healed, entries_healed, List.filter_filter]
  simp only [Bool.and_self]

/-- The records of a table are in the byte order of their keys. -/
theorem entries_byteOrder (st : Store) :
    st.entries.Pairwise fun e e' => Utf8.encode e.1 < Utf8.encode e'.1 :=
  st.sorted.imp encode_lt_encode_iff.mpr

/-! ## Listing an open store -/

section Use

variable {files : Tree} {parent : Location} {name : String}

theorem use_list (hget : files.get? (parent ++ [name]) = some (.table st)) (cwd : Location)
    (root : String) (kind : Kind) :
    Handle.use ⟨files, parent ++ [name]⟩ cwd root (.list kind) =
      .ok (st.actions kind,
        ⟨files.insert (parent ++ [name]) (.table (st.healed kind)), parent ++ [name]⟩) := by
  rw [Handle.use, Root.storeAt_of_get? hget]
  · rfl
  · rintro ⟨⟩

theorem use_all (hget : files.get? (parent ++ [name]) = some (.table st)) (cwd : Location)
    (root : String) :
    Handle.use ⟨files, parent ++ [name]⟩ cwd root .all =
      .ok (st.all, ⟨files, parent ++ [name]⟩) := by
  rw [Handle.use, Root.storeAt_of_get? hget]
  · show Except.ok (st.all, Handle.mk (files.insert _ _) _) = _
    rw [OrderedMap.insert_of_get? hget]
  · rintro ⟨⟩

/-- **HEALING**: whatever stands in the table of an open store, listing a kind answers what its
records read as, in the byte order of the keys, and takes out exactly the records of the kind that
do not read as actions, as removing them one after another does.  After that listing the kind once
more answers the same and changes nothing, and listing everything answers the same as before. -/
theorem use_list_heals (hget : files.get? (parent ++ [name]) = some (.table st))
    (cwd : Location) (root : String) (kind : Kind) :
    ∃ healed : Store,
      let h : Handle := ⟨files, parent ++ [name]⟩
      let h' : Handle := ⟨files.insert (parent ++ [name]) (.table healed), parent ++ [name]⟩
      let listed :=
        (st.entries.filter fun e => Begins kind e.1).filterMap fun e => Action.decode e.2
      let every := st.entries.filterMap fun e => Action.decode e.2
      h.use cwd root (.list kind) = .ok (listed, h') ∧
        st.entries.Pairwise (fun e e' => Utf8.encode e.1 < Utf8.encode e'.1) ∧
        healed.entries = st.entries.filter (fun e => ¬ Lost kind e) ∧
        healed = (st.lostKeys kind).foldl OrderedMap.erase st ∧
        h'.use cwd root (.list kind) = .ok (listed, h') ∧
        h.use cwd root .all = .ok (every, h) ∧ h'.use cwd root .all = .ok (every, h') := by
  have hget' : (files.insert (parent ++ [name]) (.table (st.healed kind))).get?
      (parent ++ [name]) = some (.table (st.healed kind)) := by
    rw [OrderedMap.get?_insert, if_pos rfl]
  refine ⟨st.healed kind, ?_, entries_byteOrder st, entries_healed st kind,
    healed_eq_foldl_erase st kind, ?_, use_all hget cwd root, ?_⟩
  · rw [← ofKind_eq_begins]
    exact use_list hget cwd root kind
  · rw [← ofKind_eq_begins, use_list hget' cwd root kind, actions_healed, healed_healed,
      OrderedMap.insert_of_get? hget']
    rfl
  · rw [use_all hget' cwd root, all_healed]
    rfl

end Use

/-- Two pauses, one of them under the key of another request, and bytes that are no action under a
key of the pauses, under one of the bounces and under one of no kind. -/
def mixedTable : Store :=
  .ofList [(key .pause "api", (pauseOf "web0").encode), (key .pause "db", [0xff]),
    (key .pause "web", (pauseOf "web").encode), (key .bounce "db", [0xff]), ("pause", [])]

theorem use_list_heals_mixedTable :
    ∃ healed, Handle.use ⟨.ofList [(["db"], .table mixedTable)], ["db"]⟩ [] "/" (.list .pause) =
        .ok ([pauseOf "web0", pauseOf "web"], healed) ∧
      ∃ st, healed.files.get? ["db"] = some (.table st) ∧
        st.keys = [key .bounce "db", "pause", key .pause "api", key .pause "web"] := by
  have hget : OrderedMap.get? (.ofList [(["db"], .table mixedTable)] : Tree) ([] ++ ["db"]) =
      some (.table mixedTable) := rfl
  obtain ⟨healed, hlist, -, hentries, -⟩ := use_list_heals hget [] "/" .pause
  have hlisted : (mixedTable.entries.filter fun e => Begins .pause e.1).filterMap
      (fun e => Action.decode e.2) = [pauseOf "web0", pauseOf "web"] := by decide +kernel
  have hkeys : (mixedTable.entries.filter fun e => ¬ Lost .pause e).map Prod.fst =
      [key .bounce "db", "pause", key .pause "api", key .pause "web"] := by decide +kernel
  rw [hlisted] at hlist
  refine ⟨_, hlist, healed, ?_, ?_⟩
  · exact (OrderedMap.get?_insert _ _ _ _).trans (if_pos rfl)
  · rw [OrderedMap.keys, hentries, hkeys]

end Lapse.Store
