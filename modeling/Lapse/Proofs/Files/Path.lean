import Lapse.Proofs.Files.Tree

/-!
# Where paths lead

The parts of a path name one location in whatever tree.  In a tree in which everything stands in a
directory, a path that never goes up leads to what is at its location, and directories that are made on
its way change nothing below it.
-/

namespace Lapse.Files.Tree

/-! ## Parts -/

theorem pieces_ne_nil (text : List Char) : pieces text ≠ [] := by
  cases text with
  | nil => exact List.cons_ne_nil _ _
  | cons c rest =>
      rw [pieces]
      split
      · exact List.cons_ne_nil _ _
      · split <;> exact List.cons_ne_nil _ _

/-- A slash ends the pieces before it. -/
theorem pieces_append_slash (a b : List Char) : pieces (a ++ '/' :: b) = pieces a ++ pieces b := by
  induction a with
  | nil => rfl
  | cons c a ih =>
      rw [List.cons_append, pieces, pieces, ih]
      split
      · rfl
      · cases hp : pieces a with
        | nil => exact absurd hp (pieces_ne_nil a)
        | cons piece more => rfl

theorem pieces_of_not_mem {text : List Char} (h : '/' ∉ text) : pieces text = [text] := by
  induction text with
  | nil => rfl
  | cons c rest ih =>
      obtain ⟨hc, hrest⟩ : '/' ≠ c ∧ '/' ∉ rest := by simpa using h
      rw [pieces, if_neg (Ne.symm hc), ih hrest]

theorem parts_append_slash (a b : String) : parts (a ++ "/" ++ b) = parts a ++ parts b := by
  have htext : (a ++ "/" ++ b).toList = a.toList ++ '/' :: b.toList := by simp
  rw [parts, htext, pieces_append_slash, List.map_append]
  rfl

/-! ## Locations -/

/-- Where the parts of a path lead to, if they lead to anything. -/
def arrive : Location → List String → Location
  | here, [] => here
  | here, part :: rest =>
    if stays part then arrive here rest
    else if part = ".." then arrive here.dropLast rest
    else arrive (here ++ [part]) rest

variable {t t' : Tree} {here home place d : Location} {parts more : List String} {name : String}

theorem arrive_append (here : Location) (parts more : List String) :
    arrive here (parts ++ more) = arrive (arrive here parts) more := by
  induction parts generalizing here with
  | nil => rfl
  | cons part rest ih =>
      rw [List.cons_append, arrive, arrive]
      split
      · exact ih here
      split
      · exact ih here.dropLast
      · exact ih (here ++ [part])

/-- A path that never goes up leads below where it begins. -/
theorem prefix_arrive (hup : ".." ∉ parts) (here : Location) : here <+: arrive here parts := by
  induction parts generalizing here with
  | nil => exact List.prefix_refl here
  | cons part rest ih =>
      obtain ⟨hpart, hrest⟩ : ".." ≠ part ∧ ".." ∉ rest := by simpa using hup
      rw [arrive, if_neg (Ne.symm hpart)]
      split
      · exact ih hrest here
      · exact (List.prefix_append here [part]).trans (ih hrest _)

theorem follow_eq_arrive (h : t.follow here parts = some place) : place = arrive here parts := by
  induction parts generalizing here with
  | nil =>
      rw [follow] at h
      split at h
      · exact (Option.some.inj h).symm
      · cases h
  | cons part rest ih =>
      rw [follow] at h
      rw [arrive]
      split at h
      · cases h
      split at h
      · next hstays => rw [if_pos hstays]; exact ih h
      next hstays =>
      rw [if_neg hstays]
      split at h
      · next hup => rw [if_pos hup]; exact ih h
      · next hup => rw [if_neg hup]; exact ih h

/-- What is made is made where the path leads to. -/
theorem makeAll_eq_arrive (h : t.makeAll here parts = (t', some place)) :
    place = arrive here parts := by
  induction parts generalizing t here with
  | nil => exact (Option.some.inj (Prod.mk.inj h).2).symm
  | cons part rest ih =>
      rw [arrive]
      by_cases hstays : stays part = true
      · rw [makeAll_stays hstays] at h
        rw [if_pos hstays]
        exact ih h
      rw [if_neg hstays]
      by_cases hup : part = ".."
      · rw [makeAll_up hstays hup] at h
        rw [if_pos hup]
        exact ih h
      obtain ⟨_, -, -, hrest⟩ := makeAll_name hstays hup h
      rw [if_neg hup]
      exact ih hrest

/-! ## Directories that are there -/

/-- Whatever has something below it is a directory. -/
theorem Sound.isDirectory_of_below (hsound : t.Sound) {rest : List String} {entry : Entry}
    (h : t.get? (here ++ name :: rest) = some entry) : t.isDirectory here = true := by
  induction rest generalizing here name with
  | nil =>
      have hup := hsound _ _ h
      rwa [List.dropLast_concat] at hup
  | cons next rest ih =>
      have hbelow : t.get? (here ++ [name] ++ next :: rest) = some entry := by
        rw [List.append_assoc]
        exact h
      have hup := hsound.dropLast (ih hbelow)
      rwa [List.dropLast_concat] at hup

theorem isDirectory_of_follow (h : t.follow here parts = some home)
    (hhome : t.isDirectory home = true) : t.isDirectory here = true := by
  cases parts with
  | nil => rwa [show home = here from follow_eq_arrive h] at hhome
  | cons part rest =>
      rw [follow] at h
      split at h
      · cases h
      · next hhere => rwa [Bool.not_eq_true', Bool.not_eq_false] at hhere

/-- The next location on the way to a directory. -/
theorem follow_cons_of_home {part : String} {rest : List String}
    (h : t.follow here (part :: rest) = some home) (hhome : t.isDirectory home = true) :
    t.isDirectory here = true ∧
      (if stays part then t.follow here rest
       else if part = ".." then t.follow here.dropLast rest
       else t.follow (here ++ [part]) rest) = some home := by
  have hhere := isDirectory_of_follow h hhome
  exact ⟨hhere, follow_cons hhere rest ▸ h⟩

/-- A path to a directory leads there also in every extension. -/
theorem Extends.follow (hext : t'.Extends t) (h : t.follow here parts = some home)
    (hhome : t.isDirectory home = true) : t'.follow here parts = some home := by
  induction parts generalizing here with
  | nil =>
      have hplace : home = here := follow_eq_arrive h
      have hentry : t'.entry? here = some .directory :=
        of_decide_eq_true (hext.isDirectory (hplace ▸ hhome))
      rw [Tree.follow, hentry, hplace]
      rfl
  | cons part rest ih =>
      obtain ⟨hhere, hrest⟩ := follow_cons_of_home h hhome
      rw [follow_cons (hext.isDirectory hhere)]
      split at hrest
      · next hstays => rw [if_pos hstays]; exact ih hrest
      next hstays =>
      rw [if_neg hstays]
      split at hrest
      · next hup => rw [if_pos hup]; exact ih hrest
      · next hup => rw [if_neg hup]; exact ih hrest

theorem Reaches.mono {cwd : Location} {path : String} (h : t.Reaches cwd path place)
    (hext : t'.Extends t) : t'.Reaches cwd path place := by
  obtain ⟨parent, name, hname, hplace, hfollow, hparent⟩ := h
  exact ⟨parent, name, hname, hplace, hext.follow hfollow hparent, hext.isDirectory hparent⟩

/-- A path to a directory passes a directory at each of its parts. -/
theorem follow_of_append (h : t.follow here (parts ++ more) = some home)
    (hhome : t.isDirectory home = true) :
    ∃ q, t.follow here parts = some q ∧ t.isDirectory q = true ∧ t.follow q more = some home := by
  induction parts generalizing here with
  | nil =>
      have hhere := isDirectory_of_follow h hhome
      have hentry : t.entry? here = some .directory := of_decide_eq_true hhere
      exact ⟨here, by rw [follow, hentry]; rfl, hhere, h⟩
  | cons part rest ih =>
      obtain ⟨hhere, hrest⟩ := follow_cons_of_home h hhome
      rw [follow_cons hhere]
      split at hrest
      · next hstays => rw [if_pos hstays]; exact ih hrest
      next hstays =>
      rw [if_neg hstays]
      split at hrest
      · next hup => rw [if_pos hup]; exact ih hrest
      · next hup => rw [if_neg hup]; exact ih hrest

/-- Nothing is made on the way to a directory that is there. -/
theorem makeAll_of_follow (h : t.follow here parts = some home) (hhome : t.isDirectory home = true)
    (more : List String) : t.makeAll here (parts ++ more) = t.makeAll home more := by
  induction parts generalizing here with
  | nil => rw [List.nil_append, show home = here from follow_eq_arrive h]
  | cons part rest ih =>
      obtain ⟨-, hrest⟩ := follow_cons_of_home h hhome
      rw [List.cons_append, makeAll]
      split at hrest
      · next hstays => rw [if_pos hstays]; exact ih hrest
      next hstays =>
      rw [if_neg hstays]
      split at hrest
      · next hup => rw [if_pos hup]; exact ih hrest
      next hup =>
      have hnext : t.get? (here ++ [part]) = some .directory := by
        rcases isDirectory_iff.mp (isDirectory_of_follow hrest hhome) with hnil | hdir
        · exact absurd hnil (by simp)
        · exact hdir
      rw [if_neg hup]
      dsimp only
      rw [hnext]
      exact ih hrest

/-! ## Paths that never go up -/

/-- A name at the end of a path that never goes up leads to what is at the location of the path. -/
theorem Sound.find_below (hsound : t.Sound) (hhere : t.isDirectory here = true)
    (hup : ".." ∉ parts) (hstays : stays name = false) (hname : name ≠ "..") :
    (t.follow here (parts ++ [name])).bind t.entry? = t.entry? (arrive here parts ++ [name]) := by
  induction parts generalizing here with
  | nil =>
      rw [List.nil_append, follow_cons hhere, hstays, if_neg Bool.false_ne_true, if_neg hname, follow,
        arrive]
      cases hentry : t.entry? (here ++ [name]) with
      | none => rfl
      | some entry => exact hentry
  | cons part rest ih =>
      obtain ⟨hpart, hrest⟩ : ".." ≠ part ∧ ".." ∉ rest := by simpa using hup
      rw [List.cons_append, follow_cons hhere, arrive, if_neg (Ne.symm hpart),
        if_neg (Ne.symm hpart)]
      split
      · exact ih hhere hrest
      by_cases hnext : t.isDirectory (here ++ [part]) = true
      · exact ih hnext hrest
      -- where no directory is, nothing is below
      have hnone : t.follow (here ++ [part]) (rest ++ [name]) = none := by
        rw [Bool.not_eq_true] at hnext
        cases rest with
        | nil => rw [List.nil_append, follow, hnext]; rfl
        | cons next rest => rw [List.cons_append, follow, hnext]; rfl
      have habsent : t.get? (arrive (here ++ [part]) rest ++ [name]) = none := by
        obtain ⟨way, hway⟩ := prefix_arrive hrest (here ++ [part])
        cases hget : t.get? (arrive (here ++ [part]) rest ++ [name]) with
        | none => rfl
        | some entry =>
          rw [← hway, List.append_assoc] at hget
          cases way with
          | nil => exact absurd (hsound.isDirectory_of_below hget) hnext
          | cons next way => exact absurd (hsound.isDirectory_of_below hget) hnext
      rw [hnone, entry?_concat, habsent]
      rfl

/-- Making the directories of a path that never goes up changes nothing below the last one. -/
theorem get?_makeAll_below (hup : ".." ∉ parts) (hd : (arrive here parts).length < d.length) :
    (t.makeAll here parts).1.get? d = t.get? d := by
  induction parts generalizing t here with
  | nil => rfl
  | cons part rest ih =>
      obtain ⟨hpart, hrest⟩ : ".." ≠ part ∧ ".." ∉ rest := by simpa using hup
      rw [arrive, if_neg (Ne.symm hpart)] at hd
      rw [makeAll, if_neg (Ne.symm hpart)]
      split at hd
      · next hstays => rw [if_pos hstays]; exact ih hrest hd
      next hstays =>
      rw [if_neg hstays]
      dsimp only
      split
      · exact ih hrest hd
      · rfl
      split
      · have hlonger := (prefix_arrive hrest (here ++ [part])).length_le
        have hother : d ≠ here ++ [part] := by
          rintro rfl
          omega
        rw [ih hrest hd, OrderedMap.get?_insert, if_neg hother]
      · rfl

/-- Directories are made in directories, also when one cannot be made. -/
theorem Sound.makeAll_fst (hsound : t.Sound) (hhere : t.isDirectory here = true)
    (parts : List String) : (t.makeAll here parts).1.Sound := by
  induction parts generalizing t here with
  | nil => exact hsound
  | cons part rest ih =>
      rw [Tree.makeAll]
      split
      · exact ih hsound hhere
      split
      · exact ih hsound (hsound.dropLast hhere)
      dsimp only
      split
      · next hdir => exact ih hsound (isDirectory_iff.mpr (.inr hdir))
      · exact hsound
      · next hnone =>
        split
        · refine ih (hsound.insert hhere part (by simp [hnone])) (isDirectory_iff.mpr (.inr ?_))
          rw [OrderedMap.get?_insert, if_pos rfl]
        · exact hsound

end Lapse.Files.Tree
