import Lapse.Proofs.Yaml.Glyph

/-!
# Reading back plain scalars

A text that can be written as a plain scalar is read up to its last character: no colon in it stands
before white space and no number sign after it, so that the reader goes on through every gap.  It stops
at a colon that belongs to an entry, or at the end of the line.
-/

namespace Lapse.Yaml.Plain

variable {floor : Nat} {g : Glyph} {rest : List Glyph} {kept : List Char}

/-! ## One glyph -/

theorem read_space (h : g.char = ' ') :
    read false floor (.blanks kept) (g :: rest) =
      read false floor (.blanks (kept ++ [' '])) rest := by
  have hspace : isSpace g.char = true := by rw [h]; rfl
  rw [read, if_pos hspace, if_neg (by simp [Gap.isBroken]), h]
  rfl

/-- A character that ends neither the scalar nor its line. -/
theorem read_char (hdark : isSpace g.char = false)
    (hinside : kept ≠ [] → g.char ≠ '#' ∧ floor ≤ g.column ∧ 0 < g.column)
    (hcolon : g.char = ':' → atSpace rest = false) :
    read false floor (.blanks kept) (g :: rest) =
      (read false floor .none rest).map fun r => (kept ++ g.char :: r.1, r.2) := by
  have hstay : (Gap.blanks kept ≠ .none && (g.char = '#' || (!false && decide (g.column < floor)) ||
      atBoundary (g :: rest))) = false := by
    by_cases hkept : kept = []
    · simp [hkept, Gap.none]
    · obtain ⟨hmark, hfloor, hcolumn⟩ := hinside hkept
      simp [hmark, hfloor, atBoundary_of_column hcolumn]
  have hgoes : (g.char = ':' && atSpace rest) = false := by
    by_cases h : g.char = ':'
    · rw [hcolon h, Bool.and_false]
    · rw [decide_eq_false h, Bool.false_and]
  rw [read, if_neg (Bool.eq_false_iff.mp hdark), if_neg (Bool.eq_false_iff.mp hstay),
    if_neg (by simp), if_neg (by simp [hgoes])]
  cases read false floor .none rest with
  | none => rfl
  | some r => rfl

/-- The colon of an entry ends the scalar. -/
theorem read_colon (h : g.char = ':') (hspace : atSpace rest = true) :
    read false floor .none (g :: rest) = some ([], false, g :: rest) := by
  have hdark : isSpace g.char = false := by rw [h]; rfl
  rw [read, if_neg (Bool.eq_false_iff.mp hdark), if_neg (by simp), if_neg (by simp),
    if_pos (by simp [h, hspace])]
  rfl

/-- What follows the end of a line does not go on with the scalar. -/
theorem read_ends {first : Option Char} {more : List Char} (h : Ends floor rest) :
    read false floor (.breaks first more) rest = some ([], true, lead rest) := by
  induction h with
  | done => rfl
  | @space g rest char left _ ih =>
      have hspace : isSpace g.char = true := by rw [char]; rfl
      have htab : g.char ≠ '\t' := by rw [char]; decide
      rw [read, if_pos hspace, if_neg (by simp [htab]), lead_space char, char]
      exact ih
  | @word g rest begins left =>
      rw [read, if_neg (Bool.eq_false_iff.mp begins.dark),
        if_pos (by simp [Gap.none, left]), lead_word begins.dark]
      rfl

/-- The end of the line ends the scalar, unless the next line goes on with it. -/
theorem read_break (h : g.char = '\n') (hends : Ends floor rest) :
    read false floor .none (g :: rest) = some ([], true, lead rest) := by
  have hspace : isSpace g.char = true := by rw [h]; rfl
  rw [read, if_pos hspace, if_neg (by simp [Gap.none, Gap.isBroken]), h]
  exact read_ends hends

/-! ## A text -/

/-- The reader goes through a text, after blanks, and on to what follows it. -/
theorem read_append {text : List Char} (hne : text ≠ []) (hlast : text.getLast? ≠ some ' ')
    (hshown : ∀ x ∈ text, isPrintable x = true ∧ isBreak x = false)
    (hfree : isFree (!kept.isEmpty) text = true) (l : Nat) {c : Nat} (hfloor : floor ≤ c + 1)
    (hinside : kept ≠ [] → floor ≤ c ∧ 0 < c) (rest : List Glyph) :
    read false floor (.blanks kept) (place l c text ++ rest) =
      (read false floor .none rest).map fun r => (kept ++ text ++ r.1, r.2) := by
  induction text generalizing kept c with
  | nil => exact absurd rfl hne
  | cons x text ih =>
      obtain ⟨hprint, hbreak⟩ := hshown x List.mem_cons_self
      have hothers : ∀ y ∈ text, isPrintable y = true ∧ isBreak y = false :=
        fun y hy => hshown y (List.mem_cons_of_mem x hy)
      rw [isFree, Bool.and_eq_true, Bool.and_eq_true] at hfree
      obtain ⟨⟨hcolon, hmark⟩, hfree⟩ := hfree
      have hlast' : text ≠ [] → text.getLast? ≠ some ' ' := by
        intro hmore
        rwa [List.getLast?_cons_of_ne_nil hmore] at hlast
      rw [place_cons hbreak, List.cons_append]
      by_cases hx : x = ' '
      · -- a space is not the last character
        have hmore : text ≠ [] := by
          rintro rfl
          exact hlast (congrArg some hx)
        have hafter : (!(kept ++ [' ']).isEmpty) = decide (x = ' ') := by simp [hx]
        rw [← hafter] at hfree
        rw [hx, read_space rfl, ih hmore (hlast' hmore) hothers hfree (by omega)
          fun _ => ⟨hfloor, Nat.succ_pos c⟩]
        simp
      · have hdark : isSpace x = false := isSpace_eq_false hprint hbreak hx
        have hon : read false floor .none (place l (c + 1) text ++ rest) =
            (read false floor .none rest).map fun r => (text ++ r.1, r.2) := by
          by_cases hmore : text = []
          · subst hmore
            show read false floor .none rest = _
            simp
          · rw [decide_eq_false hx] at hfree
            exact @ih [] hmore (hlast' hmore) hothers hfree _ (by omega) fun h => absurd rfl h
        rw [read_char hdark, hon]
        · simp [Option.map_map, Function.comp_def]
        · intro hkept
          refine ⟨fun (h : x = '#') => ?_, hinside hkept⟩
          simp [h, hkept] at hmark
        · intro (h : x = ':')
          cases text with
          | nil => simp [h, isApart] at hcolon
          | cons y text =>
              obtain ⟨hy, hybreak⟩ := hothers y List.mem_cons_self
              rw [place_cons hybreak, List.cons_append]
              refine isSpace_eq_false hy hybreak ?_
              rintro rfl
              simp [h, isApart] at hcolon

/-- What a plain scalar consists of. -/
theorem of_isPlain {text : List Char} (h : isPlain text = true) :
    startsPlain text = true ∧ startsMarker text = false ∧ isFree false text = true ∧
      text.getLast? ≠ some ' ' ∧ ∀ x ∈ text, isPrintable x = true ∧ isBreak x = false := by
  simp only [isPlain, Bool.and_eq_true, Bool.not_eq_true', decide_eq_true_eq,
    List.all_eq_true] at h
  obtain ⟨⟨⟨⟨hstarts, hmarker⟩, hfree⟩, hlast⟩, hall⟩ := h
  exact ⟨hstarts, hmarker, hfree, hlast, fun x hx =>
    ⟨(hall x hx).1, isBreak_of_endsLine (hall x hx).2⟩⟩

section Text

variable {text : List Char} (h : isPlain text = true) (l : Nat) {c : Nat} (hfloor : floor ≤ c + 1)

include h hfloor

theorem read_text (rest : List Glyph) : read false floor .none (place l c text ++ rest) =
    (read false floor .none rest).map fun r => (text ++ r.1, r.2) := by
  obtain ⟨hstarts, -, hfree, hlast, hshown⟩ := of_isPlain h
  have hne : text ≠ [] := by
    rintro rfl
    exact nomatch hstarts
  exact @read_append floor [] text hne hlast hshown hfree l c hfloor (fun h => absurd rfl h) rest

/-- **KEYS**: a plain key is read up to its colon. -/
theorem read_key (hchar : g.char = ':') (hspace : atSpace rest = true) :
    read false floor .none (place l c text ++ g :: rest) = some (text, false, g :: rest) := by
  rw [read_text h l hfloor, read_colon hchar hspace]
  simp

/-- **LINES**: a plain scalar at the end of its line is read with the gap after it. -/
theorem read_line (hchar : g.char = '\n') (hends : Ends floor rest) :
    read false floor .none (place l c text ++ g :: rest) = some (text, true, lead rest) := by
  rw [read_text h l hfloor, read_break hchar hends]
  simp

end Text

end Lapse.Yaml.Plain
