import Lapse.Cluster
import Mathlib.Data.List.Basic
import Mathlib.Data.List.Nodup

/-!
# Rolling a history back

When the last cleanup of a task is withdrawn and cleaning is the last that the task was seen at,
every cleaning update goes and the update before the last becomes the latest.  The two halves
agree unless the update before the last is itself one that goes: a history whose pointer was sound
stays sound exactly if it does not end in two cleaning updates.
-/

namespace Lapse.Task

namespace Update

theorem place_perm (u : Update) (l : List Update) : (place u l).Perm (u :: l) := by
  induction l with
  | nil => exact List.Perm.refl _
  | cons v rest ih =>
      rw [place]
      by_cases h : (compare u v).isLE = true
      · rw [if_pos h]
      · rw [if_neg h]
        exact (ih.cons v).trans (List.Perm.swap u v rest)

theorem sort_perm (updates : List Update) : (sort updates).Perm updates := by
  induction updates with
  | nil => exact List.Perm.refl _
  | cons u rest ih =>
      show (place u (sort rest)).Perm (u :: rest)
      exact (place_perm u (sort rest)).trans (ih.cons u)

theorem isLE_compare_iff (u v : Update) : (compare u v).isLE = true ↔
    u.timestamp.toInt < v.timestamp.toInt ∨
      u.timestamp.toInt = v.timestamp.toInt ∧ u.state.rank ≤ v.state.rank := by
  show ((compare u.timestamp.toInt v.timestamp.toInt).then
    (compare u.state.rank v.state.rank)).isLE = true ↔ _
  rw [Ordering.isLE_then_iff_or, Nat.isLE_compare, Int.compare_eq_lt, Std.compare_eq_iff_eq]

/-- In the order of updates, equal ones included. -/
def Sorted (l : List Update) : Prop := l.Pairwise fun u v => (compare u v).isLE = true

theorem Sorted.place {l : List Update} (h : Sorted l) (u : Update) : Sorted (place u l) := by
  induction l with
  | nil => exact List.pairwise_singleton _ _
  | cons v rest ih =>
      obtain ⟨hv, hrest⟩ := List.pairwise_cons.mp h
      rw [Update.place]
      by_cases huv : (compare u v).isLE = true
      · rw [if_pos huv]
        refine List.pairwise_cons.mpr ⟨fun x hx => ?_, h⟩
        rcases List.mem_cons.mp hx with rfl | hx
        · exact huv
        · have hvx := hv x hx
          rw [isLE_compare_iff] at huv hvx ⊢
          omega
      · rw [if_neg huv]
        refine List.pairwise_cons.mpr ⟨fun x hx => ?_, ih hrest⟩
        rcases List.mem_cons.mp ((place_perm u rest).mem_iff.mp hx) with rfl | hx
        · rw [isLE_compare_iff] at huv ⊢
          omega
        · exact hv x hx

theorem sorted_sort (updates : List Update) : Sorted (sort updates) := by
  induction updates with
  | nil => exact List.Pairwise.nil
  | cons u rest ih => exact ih.place u

end Update

/-- A state is known by its place in the life of a task. -/
theorem State.eq_of_rank_eq {a b : State} (h : a.rank = b.rank) : a = b := by
  cases a <;> cases b <;> first | rfl | exact nomatch h

namespace History

/-- The pointer to the latest update is empty exactly if there are no updates, and points to one of
them otherwise. -/
structure Sound (h : History) : Prop where
  none_iff : h.latest = none ↔ h.updates = []
  mem : ∀ u, h.latest = some u → u ∈ h.updates

theorem sound_iff {h : History} : h.Sound ↔
    (h.latest = none → h.updates = []) ∧ ∀ u ∈ h.latest.toList, u ∈ h.updates := by
  constructor
  · intro hs
    exact ⟨hs.none_iff.mp, fun u hu => hs.mem u (Option.mem_toList.mp hu)⟩
  · rintro ⟨hnone, hmem⟩
    refine ⟨⟨hnone, fun hempty => ?_⟩, fun u hu => hmem u (Option.mem_toList.mpr hu)⟩
    cases hlatest : h.latest with
    | none => rfl
    | some u =>
        have hu := hmem u (Option.mem_toList.mpr hlatest)
        rw [hempty] at hu
        exact nomatch hu

instance (h : History) : Decidable h.Sound := decidable_of_iff _ sound_iff.symm

/-- Cleaning is the state of the greatest update, and of the one before it. -/
def EndsCleaningTwice (h : History) : Prop :=
  ∃ last previous earlier, (Update.sort h.updates).reverse = last :: previous :: earlier ∧
    last.state = .cleaning ∧ previous.state = .cleaning

/-- A history after the last cleanup of its task was withdrawn. -/
def rolledBack (h : History) : History :=
  match (Update.sort h.updates).reverse with
  | [] => h
  | last :: earlier =>
    if last.state = .cleaning then
      { h with updates := h.updates.filter (·.state ≠ .cleaning), latest := earlier.head? }
    else h

theorem rolledBack_taskId (h : History) : h.rolledBack.taskId = h.taskId := by
  rw [rolledBack]
  split
  · rfl
  · split <;> rfl

theorem perm_of_sort_reverse {h : History} {l : List Update}
    (hl : (Update.sort h.updates).reverse = l) : h.updates.Perm l :=
  ((List.reverse_perm _).trans (Update.sort_perm h.updates)).symm.trans (hl ▸ List.Perm.refl _)

/-- The greatest update is one of cleaning. -/
def EndsCleaning (h : History) : Prop :=
  ∃ u ∈ h.updates, u.state = .cleaning ∧ ∀ v ∈ h.updates, (compare v u).isLE = true

instance (h : History) : Decidable h.EndsCleaning :=
  inferInstanceAs (Decidable (∃ u ∈ h.updates, _ ∧ _))

/-- A history without its updates of cleaning, and with the last but one as its latest. -/
def cleaned (h : History) : History :=
  { h with
    updates := h.updates.filter (·.state ≠ .cleaning)
    latest := (Update.sort h.updates).dropLast.getLast? }

/-- The last of the sorted updates tells whether the greatest is one of cleaning. -/
theorem endsCleaning_iff {h : History} {last : Update} {earlier : List Update}
    (hrev : (Update.sort h.updates).reverse = last :: earlier) :
    h.EndsCleaning ↔ last.state = .cleaning := by
  have hperm := perm_of_sort_reverse hrev
  have hlast : last ∈ h.updates := hperm.mem_iff.mpr List.mem_cons_self
  have hgreatest : ∀ v ∈ h.updates, (compare v last).isLE = true := by
    have hsorted := List.pairwise_reverse.mpr (Update.sorted_sort h.updates)
    rw [hrev] at hsorted
    intro v hv
    rcases List.mem_cons.mp (hperm.mem_iff.mp hv) with rfl | hv
    · rw [Update.isLE_compare_iff]
      omega
    · exact (List.pairwise_cons.mp hsorted).1 v hv
  constructor
  · rintro ⟨u, hu, hcleaning, hall⟩
    have hle := hgreatest u hu
    have hge := hall last hlast
    rw [Update.isLE_compare_iff] at hle hge
    rw [← hcleaning]
    exact State.eq_of_rank_eq (by omega)
  · intro hcleaning
    exact ⟨last, hlast, hcleaning, hgreatest⟩

theorem rolledBack_eq (h : History) :
    h.rolledBack = if h.EndsCleaning then h.cleaned else h := by
  rcases hrev : (Update.sort h.updates).reverse with _ | ⟨last, earlier⟩
  · have hempty : h.updates = [] := List.perm_nil.mp (perm_of_sort_reverse hrev)
    rw [rolledBack, hrev, if_neg]
    rintro ⟨u, hu, -⟩
    rw [hempty] at hu
    exact nomatch hu
  · have hlatest : (Update.sort h.updates).dropLast.getLast? = earlier.head? := by
      rw [← List.reverse_reverse (Update.sort h.updates), hrev, List.reverse_cons,
        List.dropLast_concat, List.getLast?_reverse]
    rw [rolledBack, hrev, cleaned, hlatest]
    dsimp only
    exact if_congr (endsCleaning_iff hrev).symm rfl rfl

/-- **ROLLBACK**: rolling a sound history back leaves it sound unless it ends in two cleaning
updates. -/
theorem sound_rolledBack_iff {h : History} (hs : h.Sound) :
    h.rolledBack.Sound ↔ ¬ h.EndsCleaningTwice := by
  rcases hrev : (Update.sort h.updates).reverse with _ | ⟨last, earlier⟩
  · have hsame : h.rolledBack = h := by rw [rolledBack, hrev]
    rw [hsame]
    refine ⟨fun _ => ?_, fun _ => hs⟩
    rintro ⟨_, _, _, htwice, -⟩
    exact nomatch hrev.symm.trans htwice
  by_cases hlast : last.state = .cleaning
  · have hrolled : h.rolledBack =
        { h with updates := h.updates.filter (·.state ≠ .cleaning), latest := earlier.head? } := by
      rw [rolledBack, hrev]
      exact if_pos hlast
    rw [hrolled]
    have hperm := perm_of_sort_reverse hrev
    rcases earlier with _ | ⟨previous, earlier⟩
    · -- the one update goes, and the pointer with it
      rw [List.perm_singleton.mp hperm]
      constructor
      · rintro - ⟨_, _, _, htwice, -⟩
        exact nomatch hrev.symm.trans htwice
      · intro _
        refine ⟨⟨fun _ => ?_, fun _ => rfl⟩, fun u hu => nomatch hu⟩
        simp [hlast]
    · have hmem : previous ∈ h.updates :=
        hperm.mem_iff.mpr (List.mem_cons_of_mem _ List.mem_cons_self)
      constructor
      · -- the pointer moves to the update before the last, which goes as well
        rintro hsound ⟨_, _, _, htwice, -, hprevious⟩
        obtain ⟨-, htail⟩ := List.cons.inj (hrev.symm.trans htwice)
        obtain ⟨rfl, -⟩ := List.cons.inj htail
        have hkept := hsound.mem previous rfl
        exact of_decide_eq_true (List.mem_filter.mp hkept).2 hprevious
      · intro htwice
        have hstays : previous.state ≠ .cleaning :=
          fun hprevious => htwice ⟨last, previous, earlier, hrev, hlast, hprevious⟩
        have hkept : previous ∈ h.updates.filter (·.state ≠ .cleaning) :=
          List.mem_filter.mpr ⟨hmem, decide_eq_true hstays⟩
        refine ⟨⟨fun hnone => (nomatch hnone), fun hempty => ?_⟩, fun u hu => ?_⟩
        · exact absurd hkept (List.eq_nil_iff_forall_not_mem.mp hempty previous)
        · rw [← Option.some.inj hu]
          exact hkept
  · have hsame : h.rolledBack = h := by
      rw [rolledBack, hrev]
      exact if_neg hlast
    rw [hsame]
    refine ⟨fun _ => ?_, fun _ => hs⟩
    rintro ⟨_, _, _, htwice, hcleaning, -⟩
    obtain ⟨rfl, -⟩ := List.cons.inj (hrev.symm.trans htwice)
    exact hlast hcleaning

/-! ## The histories of a cluster -/

/-- Histories with the first one of a task rolled back. -/
def rollBack (histories : List History) (t : Id) : List History :=
  match histories with
  | [] => []
  | h :: rest => if h.taskId = t then h.rolledBack :: rest else h :: rollBack rest t

theorem rollBack_eq_self {histories : List History} {t : Id}
    (hsame : ∀ h, histories.find? (fun h => h.taskId = t) = some h → h.rolledBack = h) :
    rollBack histories t = histories := by
  induction histories with
  | nil => rfl
  | cons h rest ih =>
      rw [rollBack]
      by_cases ht : h.taskId = t
      · rw [if_pos ht, hsame h (List.find?_cons_of_pos (by simpa using ht))]
      · rw [List.find?_cons_of_neg (by simpa using ht)] at hsame
        rw [if_neg ht, ih hsame]

theorem rollBack_eq_change {histories : List History} {t : Id} {h : History} {f : History → History}
    (hfind : histories.find? (fun h => h.taskId = t) = some h) (hf : h.rolledBack = f h) :
    rollBack histories t = Cluster.changeHistory t f histories := by
  induction histories with
  | nil => exact nomatch hfind
  | cons h' rest ih =>
      rw [rollBack, Cluster.changeHistory]
      by_cases ht : h'.taskId = t
      · rw [List.find?_cons_of_pos (by simpa using ht)] at hfind
        rw [if_pos ht, if_pos ht, Option.some.inj hfind, hf]
      · rw [List.find?_cons_of_neg (by simpa using ht)] at hfind
        rw [if_neg ht, if_neg ht, ih hfind]

theorem foldl_rollBack_nil (ts : List Id) : ts.foldl rollBack [] = [] := by
  induction ts with
  | nil => rfl
  | cons t ts ih => exact ih

theorem foldl_rollBack_cons (h : History) (rest : List History) {ts : List Id} (hts : ts.Nodup) :
    ts.foldl rollBack (h :: rest) =
      (if h.taskId ∈ ts then h.rolledBack else h) :: (ts.erase h.taskId).foldl rollBack rest := by
  induction ts generalizing h rest with
  | nil => rfl
  | cons t ts ih =>
      obtain ⟨hnot, hrest⟩ := List.nodup_cons.mp hts
      rw [List.foldl_cons, rollBack]
      by_cases ht : h.taskId = t
      · -- no later task is this one again, so the head is rolled back once
        subst ht
        rw [if_pos rfl, ih _ _ hrest, rolledBack_taskId, if_neg hnot, List.erase_of_not_mem hnot,
          if_pos List.mem_cons_self, List.erase_cons_head]
      · rw [if_neg ht, ih _ _ hrest, List.erase_cons_tail (by simpa using Ne.symm ht)]
        simp only [List.mem_cons, ht, false_or, List.foldl_cons]

/-- Rolling tasks back rolls back the first history of each of them. -/
theorem getElem?_foldl_rollBack (histories : List History) {ts : List Id} (hts : ts.Nodup)
    (i : Nat) : (ts.foldl rollBack histories)[i]? = histories[i]?.map fun h =>
      if histories.findIdx? (fun g => g.taskId = h.taskId) = some i ∧ h.taskId ∈ ts then
        h.rolledBack
      else h := by
  induction histories generalizing ts i with
  | nil => rw [foldl_rollBack_nil]; rfl
  | cons g rest ih =>
      rw [foldl_rollBack_cons g rest hts]
      cases i with
      | zero =>
          simp [List.findIdx?_cons]
      | succ i =>
          rw [List.getElem?_cons_succ, List.getElem?_cons_succ, ih (hts.erase g.taskId)]
          cases rest[i]? with
          | none => rfl
          | some h =>
              refine congrArg some (if_congr ?_ rfl rfl)
              rw [List.findIdx?_cons]
              by_cases hg : g.taskId = h.taskId
              · simp [hg, hts.mem_erase_iff]
              · simp [hg, hts.mem_erase_iff, Ne.symm hg]

/-- Sound histories stay sound exactly if none of those that are rolled back ends in two cleaning
updates. -/
theorem sound_foldl_rollBack_iff {histories : List History} (hs : ∀ h ∈ histories, h.Sound)
    {ts : List Id} (hts : ts.Nodup) :
    (∀ h ∈ ts.foldl rollBack histories, h.Sound) ↔
      ∀ t ∈ ts, ∀ h, histories.find? (fun h => h.taskId = t) = some h → ¬ h.EndsCleaningTwice := by
  induction histories generalizing ts with
  | nil =>
      rw [foldl_rollBack_nil]
      exact ⟨fun _ t _ h hfind => (nomatch hfind), fun _ h hh => nomatch hh⟩
  | cons h rest ih =>
      have hhead : h.Sound := hs h List.mem_cons_self
      have hrest := ih (fun h' hh' => hs h' (List.mem_cons_of_mem _ hh')) (hts.erase h.taskId)
      rw [foldl_rollBack_cons h rest hts, List.forall_mem_cons, hrest]
      constructor
      · rintro ⟨hsound, hrolled⟩ t ht h' hfind
        by_cases heq : h.taskId = t
        · rw [List.find?_cons_of_pos (by simpa using heq)] at hfind
          rw [heq, if_pos ht] at hsound
          rw [← Option.some.inj hfind]
          exact (sound_rolledBack_iff hhead).mp hsound
        · rw [List.find?_cons_of_neg (by simpa using heq)] at hfind
          exact hrolled t ((hts.mem_erase_iff).mpr ⟨Ne.symm heq, ht⟩) h' hfind
      · intro hall
        refine ⟨?_, fun t ht h' hfind => ?_⟩
        · by_cases hmem : h.taskId ∈ ts
          · rw [if_pos hmem]
            refine (sound_rolledBack_iff hhead).mpr (hall _ hmem h ?_)
            exact List.find?_cons_of_pos (by simp)
          · rw [if_neg hmem]
            exact hhead
        · obtain ⟨hne, hmem⟩ := (hts.mem_erase_iff).mp ht
          refine hall t hmem h' ?_
          rw [List.find?_cons_of_neg (by simpa using Ne.symm hne)]
          exact hfind

end History

end Lapse.Task
