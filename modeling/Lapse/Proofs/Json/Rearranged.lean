import Lapse.Proofs.Json.Value
import Lapse.Proofs.Reading

/-!
# JSON objects in any order

The members of an object may come in any order.  Whatever their order is, the tree of the data answers
every question as the data itself.
-/

namespace Lapse

/-- The same data, with the members of every record in any order. -/
inductive Rearranged : Data → Data → Prop
  | null : Rearranged .null .null
  | bool (b : Bool) : Rearranged (.bool b) (.bool b)
  | int (n : Int) : Rearranged (.int n) (.int n)
  | str (s : String) : Rearranged (.str s) (.str s)
  | list {ds ds'} (items : List.Forall₂ Rearranged ds ds') : Rearranged (.list ds) (.list ds')
  | record {ms ms'} (members : Arranged Rearranged ms ms') : Rearranged (.record ms) (.record ms')

theorem Rearranged.refl (d : Data) : Rearranged d d := by
  induction d using Data.induct with
  | null => exact .null
  | bool b => exact .bool b
  | int n => exact .int n
  | str s => exact .str s
  | list ds ih => exact .list (List.forall₂_same.mpr ih)
  | record ms ih =>
      have harranged := Arranged.of_map (R := Rearranged) (f := id) ih
      exact .record (by simpa using harranged)

namespace Json

/-! ## Trees -/

theorem ofItems_eq_map (ds : List Data) : ofItems ds = ds.map ofData := by
  induction ds with
  | nil => rfl
  | cons d ds ih => rw [ofItems, ih, List.map_cons]

theorem ofFields_eq_map (ms : List (String × Data)) :
    ofFields ms = ms.map fun m => (m.1, ofData m.2) := by
  induction ms with
  | nil => rfl
  | cons m ms ih => rw [ofFields, ih, List.map_cons]

/-- Nothing in the tree of data is unusable. -/
theorem isUsable_ofData (d : Data) : (ofData d).isUsable = true := by
  induction d using Data.induct with
  | null => rfl
  | bool b => rfl
  | int n => rfl
  | str s => rfl
  | list ds ih =>
      rw [ofData, isUsable]
      induction ds with
      | nil => rfl
      | cons d ds ihs =>
          rw [ofItems, areUsable, ih d List.mem_cons_self,
            ihs fun d' hd' => ih d' (List.mem_cons_of_mem d hd')]
          rfl
  | record ms ih =>
      rw [ofData, isUsable]
      induction ms with
      | nil => rfl
      | cons m ms ihs =>
          rw [ofFields, haveUsable, ih m List.mem_cons_self,
            ihs fun m' hm' => ih m' (List.mem_cons_of_mem m hm')]
          rfl

/-- The order of members changes nothing about depths and numbers. -/
theorem Fits.rearranged {room : Nat} {d d' : Data} (h : Rearranged d d') (hfits : Fits room d) :
    Fits room d' := by
  induction d using Data.induct generalizing room d' with
  | null | bool | int | str =>
      cases h
      exact hfits
  | list ds ih =>
      cases h with
      | list hitems =>
        refine ⟨hfits.1, ?_⟩
        have hall := hfits.2
        clear hfits
        induction hitems with
        | nil => exact trivial
        | cons hd _ ihs =>
          exact ⟨ih _ List.mem_cons_self hd hall.1,
            ihs (fun d hd => ih d (List.mem_cons_of_mem _ hd)) hall.2⟩
  | record ms ih =>
      cases h with
      | record hmembers =>
        refine ⟨hfits.1, membersFit_iff.mpr fun m' hm' => ?_⟩
        obtain ⟨d, hd, hdd'⟩ := hmembers.exists_of_mem_right hm'
        exact ih _ hd hdd' (membersFit_iff.mp hfits.2 _ hd)

/-! ## Reading -/

/-- A tree of data, with the members of every record in any order. -/
def Stands (d : Data) (v : Json) : Prop := ∃ d', Rearranged d d' ∧ v = ofData d'

theorem stands_members {ms ms' : List (String × Data)} (h : Arranged Rearranged ms ms') :
    Arranged Stands ms (ofFields ms') := by
  rw [ofFields_eq_map]
  exact h.map fun _ _ d' hd' => ⟨d', hd', rfl⟩

theorem fields?_object {es : List (String × Json)} (hkeys : (es.map Prod.fst).Nodup)
    (names : List String) : fields? names (.object es) = some (.named es) :=
  if_pos (List.all_eq_true.mpr fun name _ => decide_eq_true (length_filter_key hkeys name))

/-- **TREES**: the tree of data answers every question as the data would, whatever the order of the
members is. -/
theorem faithful : Faithful Stands where
  text := by
    rintro s _ ⟨_, h, rfl⟩
    cases h
    rfl
  named := by
    rintro s _ ⟨_, h, rfl⟩
    cases h
    rfl
  natural := by
    rintro n _ ⟨_, h, rfl⟩
    cases h
    show (if (0 : Int) ≤ n then some (n : Int).toNat else none) = _
    rw [if_pos (Int.natCast_nonneg n), Int.toNat_natCast]
  integer := by
    rintro n _ ⟨_, h, rfl⟩
    cases h
    rfl
  flag := by
    rintro b _ ⟨_, h, rfl⟩
    cases h
    rfl
  absent := by
    rintro _ ⟨_, h, rfl⟩
    cases h
    rfl
  present := by
    rintro d _ ⟨_, h, rfl⟩ hsolid
    cases h with
    | null => exact absurd rfl hsolid
    | bool | int | str | list | record => rfl
  items := by
    rintro ds _ ⟨_, h, rfl⟩
    cases h with
    | @list _ ds' hitems =>
      refine ⟨ofItems ds', rfl, ?_⟩
      rw [ofItems_eq_map]
      exact List.forall₂_map_right_iff.mpr (hitems.imp fun _ d' hd' => ⟨d', hd', rfl⟩)
  entries := by
    rintro ms _ ⟨_, h, rfl⟩
    cases h with
    | record hmembers => exact ⟨_, rfl, stands_members hmembers⟩
  fields := by
    rintro ms _ ⟨_, h, rfl⟩ hkeys names
    cases h with
    | record hmembers =>
      have hstands := stands_members hmembers
      exact ⟨_, fields?_object (hstands.keys_perm.nodup_iff.mp hkeys) names, hstands⟩

end Json

end Lapse
