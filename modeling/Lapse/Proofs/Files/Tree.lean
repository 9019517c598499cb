import Lapse.Files.Tree
import Lapse.Proofs.OrderedMap

/-!
# Making directories again

Directories that were made once are found the next time, as long as nothing but a directory takes
their place.  In a tree in which everything stands in a directory, a path leads to the directories that
were made for it, and to the file that is written there.
-/

namespace Lapse.Files.Tree

/-- Every directory of one tree is a directory of another. -/
def Extends (t' t : Tree) : Prop :=
  ∀ d, t.get? d = some .directory → t'.get? d = some .directory

variable {t t₁ t₂ : Tree} {here place : Location} {parts : List String}

theorem Extends.refl (t : Tree) : t.Extends t := fun _ => id

theorem Extends.trans (h : t₂.Extends t₁) (h' : t₁.Extends t) : t₂.Extends t :=
  fun d hd => h d (h' d hd)

/-- What is put where no directory is takes no directory away. -/
theorem extends_insert {entry : Entry} (h : t.get? place ≠ some .directory) :
    Extends (t.insert place entry) t := by
  intro d hd
  rw [OrderedMap.get?_insert, if_neg, hd]
  rintro rfl
  exact h hd

theorem makeAll_extends (t : Tree) (here : Location) (parts : List String) :
    (t.makeAll here parts).1.Extends t := by
  induction parts generalizing t here with
  | nil => exact .refl t
  | cons part rest ih =>
      rw [makeAll]
      split
      · exact ih t here
      split
      · exact ih t here.dropLast
      dsimp only
      split
      · exact ih t _
      · exact .refl t
      · next hnone =>
        split
        · exact (ih _ _).trans (extends_insert (hnone ▸ nofun))
        · exact .refl t

theorem makeAll_stays {part : String} (h : stays part = true) (rest : List String) :
    t.makeAll here (part :: rest) = t.makeAll here rest := by
  rw [makeAll, if_pos h]

theorem makeAll_up {part : String} (hstays : ¬stays part = true) (h : part = "..")
    (rest : List String) : t.makeAll here (part :: rest) = t.makeAll here.dropLast rest := by
  rw [makeAll, if_neg hstays, if_pos h]

/-- A name on the way is a directory from then on: it was one, or it was free and is made one. -/
theorem makeAll_name {part : String} {rest : List String} (hstays : ¬stays part = true)
    (hup : ¬part = "..") (h : t.makeAll here (part :: rest) = (t₁, some place)) :
    ∃ t', (t' = t ∨ t.get? (here ++ [part]) = none ∧ t' = t.insert (here ++ [part]) .directory) ∧
      t'.get? (here ++ [part]) = some .directory ∧
      t'.makeAll (here ++ [part]) rest = (t₁, some place) := by
  rw [makeAll, if_neg hstays, if_neg hup] at h
  dsimp only at h
  split at h
  · next hdir => exact ⟨t, .inl rfl, hdir, h⟩
  · exact nomatch h
  · next hnone =>
    split at h
    · refine ⟨t.insert (here ++ [part]) .directory, .inr ⟨hnone, rfl⟩, ?_, h⟩
      rw [OrderedMap.get?_insert, if_pos rfl]
    · exact nomatch h

/-- Directories that were made are there, so making them again changes nothing. -/
theorem makeAll_again (h : t.makeAll here parts = (t₁, some place)) (hext : t₂.Extends t₁) :
    t₂.makeAll here parts = (t₂, some place) := by
  induction parts generalizing t here with
  | nil =>
      rw [makeAll] at h
      rw [makeAll, ← (Prod.mk.inj h).2]
  | cons part rest ih =>
      by_cases hstays : stays part = true
      · rw [makeAll_stays hstays] at h ⊢
        exact ih h
      by_cases hup : part = ".."
      · rw [makeAll_up hstays hup] at h ⊢
        exact ih h
      obtain ⟨t', -, hdir, hrest⟩ := makeAll_name hstays hup h
      have hkept := makeAll_extends t' (here ++ [part]) rest
      rw [hrest] at hkept
      rw [makeAll, if_neg hstays, if_neg hup]
      dsimp only
      rw [hext _ (hkept _ hdir)]
      exact ih hrest

theorem makeParts_again (h : t.makeParts here parts = (t₁, some place)) (hext : t₂.Extends t₁) :
    t₂.makeParts here parts = (t₂, some place) := by
  rw [makeParts] at h ⊢
  split at h
  · exact nomatch h
  · next hnames =>
    rw [if_neg hnames]
    exact makeAll_again h hext

/-! ## Following a path -/

/-- Everything in a tree stands in a directory. -/
def Sound (t : Tree) : Prop := ∀ d entry, t.get? d = some entry → t.isDirectory d.dropLast = true

theorem isDirectory_iff {d : Location} :
    t.isDirectory d = true ↔ d = [] ∨ t.get? d = some .directory := by
  cases d with
  | nil => simp [isDirectory, entry?]
  | cons name d => simp [isDirectory, entry?]

theorem entry?_concat (t : Tree) (here : Location) (name : String) :
    t.entry? (here ++ [name]) = t.get? (here ++ [name]) := if_neg (by simp)

theorem Extends.isDirectory (h : t₁.Extends t) {d : Location} (hd : t.isDirectory d = true) :
    t₁.isDirectory d = true :=
  isDirectory_iff.mpr ((isDirectory_iff.mp hd).imp_right (h d))

theorem Sound.dropLast (h : t.Sound) (hd : t.isDirectory here = true) :
    t.isDirectory here.dropLast = true := by
  rcases isDirectory_iff.mp hd with rfl | hget
  · exact hd
  · exact h _ _ hget

theorem Sound.insert (h : t.Sound) (hhere : t.isDirectory here = true) (part : String)
    {entry : Entry} (hfree : t.get? (here ++ [part]) ≠ some .directory) :
    Sound (t.insert (here ++ [part]) entry) := by
  have hext := @extends_insert t _ entry hfree
  intro d e hd
  by_cases hnext : d = here ++ [part]
  · rw [hnext, List.dropLast_concat]
    exact hext.isDirectory hhere
  · rw [OrderedMap.get?_insert, if_neg hnext] at hd
    exact hext.isDirectory (h d e hd)

theorem sound_empty : Sound .empty := by
  intro d entry h
  exact nomatch (show none = some entry from h)

theorem Sound.name (h : t.Sound) (hhere : t.isDirectory here = true) {part : String} {t' : Tree}
    (htree : t' = t ∨ t.get? (here ++ [part]) = none ∧
      t' = t.insert (here ++ [part]) .directory) : t'.Sound := by
  rcases htree with rfl | ⟨hnone, rfl⟩
  · exact h
  · exact h.insert hhere part (hnone ▸ nofun)

/-- Directories are made in directories. -/
theorem Sound.makeAll (hsound : t.Sound) (hhere : t.isDirectory here = true)
    (h : t.makeAll here parts = (t₁, some place)) : t₁.Sound ∧ t₁.isDirectory place = true := by
  induction parts generalizing t here with
  | nil =>
      obtain ⟨rfl, hplace⟩ := Prod.mk.inj h
      exact ⟨hsound, Option.some.inj hplace ▸ hhere⟩
  | cons part rest ih =>
      by_cases hstays : stays part = true
      · rw [makeAll_stays hstays] at h
        exact ih hsound hhere h
      by_cases hup : part = ".."
      · rw [makeAll_up hstays hup] at h
        exact ih hsound (hsound.dropLast hhere) h
      obtain ⟨t', htree, hdir, hrest⟩ := makeAll_name hstays hup h
      exact ih (hsound.name hhere htree) (isDirectory_iff.mpr (.inr hdir)) hrest

theorem follow_cons {part : String} (hhere : t.isDirectory here = true) (rest : List String) :
    t.follow here (part :: rest) =
      if stays part then t.follow here rest
      else if part = ".." then t.follow here.dropLast rest
      else t.follow (here ++ [part]) rest := by
  rw [follow, hhere]
  rfl

/-- A path leads to the directories that were made for it, also in every extension. -/
theorem follow_of_makeAll (hsound : t.Sound) (hhere : t.isDirectory here = true)
    (h : t.makeAll here parts = (t₁, some place)) (hext : t₂.Extends t₁) :
    t₂.follow here parts = some place := by
  have hkept := makeAll_extends t here parts
  rw [h] at hkept
  induction parts generalizing t here with
  | nil =>
      obtain ⟨rfl, hplace⟩ := Prod.mk.inj h
      have hdir := hext.isDirectory hhere
      rw [isDirectory, decide_eq_true_eq] at hdir
      rw [← Option.some.inj hplace, follow, hdir]
      rfl
  | cons part rest ih =>
      rw [follow_cons (hext.isDirectory (hkept.isDirectory hhere))]
      by_cases hstays : stays part = true
      · rw [makeAll_stays hstays] at h
        rw [if_pos hstays]
        exact ih hsound hhere h hkept
      by_cases hup : part = ".."
      · rw [makeAll_up hstays hup] at h
        rw [if_neg hstays, if_pos hup]
        exact ih hsound (hsound.dropLast hhere) h hkept
      obtain ⟨t', htree, hdir, hrest⟩ := makeAll_name hstays hup h
      have hkept' := makeAll_extends t' (here ++ [part]) rest
      rw [hrest] at hkept'
      rw [if_neg hstays, if_neg hup]
      exact ih (hsound.name hhere htree) (isDirectory_iff.mpr (.inr hdir)) hrest hkept'

theorem follow_append {more : List String} (h : t.follow here parts = some place) :
    t.follow here (parts ++ more) = t.follow place more := by
  induction parts generalizing here with
  | nil =>
      rw [follow] at h
      split at h
      · rw [List.nil_append, Option.some.inj h]
      · exact nomatch h
  | cons part rest ih =>
      rw [follow] at h
      rw [List.cons_append, follow]
      split at h
      · exact nomatch h
      next hdir =>
      rw [if_neg hdir]
      split at h
      · next hstays => rw [if_pos hstays, ih h]
      next hstays =>
      rw [if_neg hstays]
      split at h
      · next hup => rw [if_pos hup, ih h]
      · next hup => rw [if_neg hup, ih h]

/-! ## Writing and reading -/

/-- The last name of a path comes after those that lead to its directory. -/
theorem parts_of_lastName? {path name : String} (h : lastName? path = some name) :
    Tree.parts path = parentParts path ++ [name] ∧ stays name = false ∧ name ≠ ".." := by
  rw [lastName?, Option.filter_eq_some_iff] at h
  obtain ⟨hlast, htest⟩ := h
  simp only [Bool.and_eq_true, Bool.not_eq_true', decide_eq_true_eq] at htest
  refine ⟨?_, htest.1.1, htest.1.2⟩
  rw [← List.head?_reverse] at hlast
  obtain ⟨rest, hrest⟩ : ∃ rest, (Tree.parts path).reverse = name :: rest := by
    cases hrev : (Tree.parts path).reverse with
    | nil => rw [hrev] at hlast; exact nomatch hlast
    | cons head rest =>
        rw [hrev] at hlast
        exact ⟨rest, by rw [Option.some.inj hlast]⟩
  rw [parentParts, hrest, List.dropWhile_cons_of_neg (by simp [htest.1.1]), List.drop_one,
    List.tail_cons, ← List.reverse_cons, ← hrest, List.reverse_reverse]

theorem isDirectory_start {cwd : Location} (hcwd : t.isDirectory cwd = true) (path : String) :
    t.isDirectory (start cwd path) = true := by
  rw [start]
  split
  · rfl
  · exact hcwd

theorem makeAll_of_makeParts (h : t.makeParts here parts = (t₁, some place)) :
    t.makeAll here parts = (t₁, some place) := by
  rw [makeParts] at h
  split at h
  · exact nomatch h
  · exact h

/-- A path names a place in a directory that it leads to. -/
def Reaches (t : Tree) (cwd : Location) (path : String) (place : Location) : Prop :=
  ∃ parent name, lastName? path = some name ∧ place = parent ++ [name] ∧
    t.follow (start cwd path) (parentParts path) = some parent ∧ t.isDirectory parent = true

/-- A path finds what is at the place that it names. -/
theorem Reaches.find? {cwd : Location} {path : String} {entry : Entry}
    (h : t.Reaches cwd path place) (hentry : t.get? place = some entry) :
    t.find? cwd path = some entry := by
  obtain ⟨parent, name, hname, rfl, hfollow, hparent⟩ := h
  obtain ⟨hparts, hstays, hup⟩ := parts_of_lastName? hname
  have hfound : t.entry? (parent ++ [name]) = some entry := (entry?_concat t parent name).trans hentry
  have hnonempty : path.isEmpty = false := by
    refine Bool.eq_false_iff.mpr fun hempty => ?_
    rw [String.isEmpty_iff.mp hempty] at hname
    exact nomatch hname
  rw [Tree.find?, hnonempty, if_neg Bool.false_ne_true, hparts, follow_append hfollow,
    follow_cons hparent, hstays, if_neg Bool.false_ne_true, if_neg hup, follow, hfound]
  exact hfound

/-- A file can be written at a path: its directory is there or can be made, and no directory is in the
file's place. -/
def Writable (t : Tree) (cwd : Location) (path : String) : Prop :=
  ∃ t₁ parent name, t.makeParts (start cwd path) (parentParts path) = (t₁, some parent) ∧
    lastName? path = some name ∧ t₁.get? (parent ++ [name]) ≠ some .directory

/-- A path names the place in its directory once that was made, also in every extension. -/
theorem reaches_of_makeParts {cwd parent : Location} {path name : String} (hsound : t.Sound)
    (hcwd : t.isDirectory cwd = true)
    (hmake : t.makeParts (start cwd path) (parentParts path) = (t₁, some parent))
    (hname : lastName? path = some name) (hext : t₂.Extends t₁) :
    t₂.Reaches cwd path (parent ++ [name]) := by
  have hstart := isDirectory_start hcwd path
  have hmakeAll := makeAll_of_makeParts hmake
  exact ⟨parent, name, hname, rfl, follow_of_makeAll hsound hstart hmakeAll hext,
    hext.isDirectory (hsound.makeAll hstart hmakeAll).2⟩

/-- **WRITING**: where a file can be written, it is, the path then leads to it, and everything still
stands in a directory. -/
theorem find?_write {cwd : Location} {path : String} (hsound : t.Sound)
    (hcwd : t.isDirectory cwd = true) (h : t.Writable cwd path) (bytes : Bytes) :
    ∃ t', t.write cwd path bytes = (t', .ok ()) ∧ t'.find? cwd path = some (.file bytes) ∧
      t'.Sound := by
  obtain ⟨t₁, parent, name, hmake, hname, hfree⟩ := h
  obtain ⟨hsound₁, hparent⟩ :=
    hsound.makeAll (isDirectory_start hcwd path) (makeAll_of_makeParts hmake)
  have hext := @extends_insert t₁ _ (.file bytes) hfree
  refine ⟨t₁.insert (parent ++ [name]) (.file bytes), ?_, ?_, hsound₁.insert hparent name hfree⟩
  · rw [write, hmake]
    dsimp only
    rw [hname]
    exact if_neg hfree
  · exact (reaches_of_makeParts hsound hcwd hmake hname hext).find?
      (by rw [OrderedMap.get?_insert, if_pos rfl])

end Lapse.Files.Tree
