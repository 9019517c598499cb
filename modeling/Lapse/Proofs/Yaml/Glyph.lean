import Lapse.Yaml.Token

/-!
# Texts with their places

Everything that is written is printable, so that it is read as it stands: no line end is unified with
another and no mark is dropped.  Texts that follow one another are placed one after another.  What may
follow the end of a line is described once for all readers: spaces and then a word, all of them left of
a floor, or the end of the text.
-/

namespace Lapse.Yaml

/-! ## Places -/

/-- The line on which a text ends. -/
def lineAfter (line : Nat) (text : List Char) : Nat := line + text.countP isBreak

/-- The column after a text. -/
def columnAfter : (column : Nat) → List Char → Nat
  | column, [] => column
  | column, c :: rest => columnAfter (if isBreak c then 0 else column + 1) rest

theorem place_append (l c : Nat) (t u : List Char) :
    place l c (t ++ u) = place l c t ++ place (lineAfter l t) (columnAfter c t) u := by
  induction t generalizing l c with
  | nil => rfl
  | cons x t ih =>
      cases h : isBreak x with
      | true =>
          have hline : lineAfter l (x :: t) = lineAfter (l + 1) t := by
            rw [lineAfter, lineAfter, List.countP_cons_of_pos h]
            omega
          simp [place, columnAfter, h, hline, ih]
      | false =>
          have hline : lineAfter l (x :: t) = lineAfter l t := by
            rw [lineAfter, lineAfter, List.countP_cons_of_neg (by simp [h])]
          simp [place, columnAfter, h, hline, ih]

theorem place_cons_break {x : Char} (h : isBreak x = true) (l c : Nat) (t : List Char) :
    place l c (x :: t) = ⟨x, l, c⟩ :: place (l + 1) 0 t := by
  rw [place, if_pos h]

theorem place_cons {x : Char} (h : isBreak x = false) (l c : Nat) (t : List Char) :
    place l c (x :: t) = ⟨x, l, c⟩ :: place l (c + 1) t := by
  rw [place, if_neg (Bool.eq_false_iff.mp h)]

@[simp] theorem chars_place (l c : Nat) (t : List Char) : chars (place l c t) = t := by
  induction t generalizing l c with
  | nil => rfl
  | cons x t ih =>
      show x :: chars _ = x :: t
      split
      · rw [ih]
      · rw [ih]

@[simp] theorem length_place (l c : Nat) (t : List Char) : (place l c t).length = t.length := by
  rw [← List.length_map Glyph.char]
  exact congrArg List.length (chars_place l c t)

theorem lineAfter_of_line (l : Nat) {t : List Char} (h : ∀ c ∈ t, isBreak c = false) :
    lineAfter l t = l := by
  rw [lineAfter, List.countP_eq_zero.mpr fun c hc => Bool.eq_false_iff.mp (h c hc)]
  rfl

theorem columnAfter_of_line (c : Nat) {t : List Char} (h : ∀ x ∈ t, isBreak x = false) :
    columnAfter c t = c + t.length := by
  induction t generalizing c with
  | nil => rfl
  | cons x t ih =>
      rw [columnAfter, if_neg (Bool.eq_false_iff.mp (h x List.mem_cons_self)),
        ih _ fun y hy => h y (List.mem_cons_of_mem x hy), List.length_cons]
      omega

/-- A text within one line, and what follows it on that line. -/
theorem place_append_of_line (l c : Nat) {t : List Char} (h : ∀ x ∈ t, isBreak x = false)
    (u : List Char) : place l c (t ++ u) = place l c t ++ place l (c + t.length) u := by
  rw [place_append, lineAfter_of_line l h, columnAfter_of_line c h]

theorem spaces_shown (n : Nat) : ∀ c ∈ spaces n, isPrintable c = true ∧ isBreak c = false := by
  intro c hc
  rw [List.eq_of_mem_replicate hc]
  exact ⟨rfl, rfl⟩

/-- Spaces, and what follows them on their line. -/
theorem place_spaces_append (l c k : Nat) (u : List Char) :
    place l c (spaces k ++ u) = place l c (spaces k) ++ place l (c + k) u := by
  rw [place_append_of_line l c fun x hx => (spaces_shown k x hx).2, spaces, List.length_replicate]

/-- The marker of a document stands at the beginning of a line. -/
theorem atBoundary_of_column {g : Glyph} (h : 0 < g.column) (rest : List Glyph) :
    atBoundary (g :: rest) = false := by
  have hmarker : ∀ c, atMarker c (g :: rest) = false := by
    intro c
    unfold atMarker
    split
    · next heq =>
      obtain ⟨rfl, -⟩ := List.cons.inj heq
      simp [Nat.ne_of_gt h]
    · rfl
  rw [atBoundary, hmarker, hmarker]
  rfl

theorem atMarker_of_char {c : Char} {g : Glyph} (h : g.char ≠ c) (rest : List Glyph) :
    atMarker c (g :: rest) = false := by
  unfold atMarker
  split
  · next heq =>
    obtain ⟨rfl, -⟩ := List.cons.inj heq
    simp [h]
  · rfl

/-- The marker of a document goes on with the same character. -/
theorem atMarker_of_second {c : Char} {g h : Glyph} (hh : h.char ≠ c) (rest : List Glyph) :
    atMarker c (g :: h :: rest) = false := by
  unfold atMarker
  split
  · next heq =>
    obtain ⟨-, heq⟩ := List.cons.inj heq
    obtain ⟨rfl, -⟩ := List.cons.inj heq
    simp [hh]
  · rfl

/-- The marker of a document consists of dashes or of dots. -/
theorem atBoundary_of_char {g : Glyph} (hdash : g.char ≠ '-') (hdot : g.char ≠ '.')
    (rest : List Glyph) : atBoundary (g :: rest) = false := by
  rw [atBoundary, atMarker_of_char hdash, atMarker_of_char hdot]
  rfl

/-! ## Characters -/

theorem isAllowed_of_isPrintable {c : Char} (h : isPrintable c = true) : isAllowed c = true := by
  simp only [isPrintable, isAllowed, Bool.or_eq_true, Bool.and_eq_true, decide_eq_true_eq] at h ⊢
  have hvalid := c.valid
  rw [show c.val.isValidChar = c.toNat.isValidChar from rfl, Nat.isValidChar] at hvalid
  omega

theorem isPrintable_ne {c d : Char} (h : isPrintable c = true) (hd : isPrintable d = false) :
    c ≠ d := by
  rintro rfl
  exact Bool.false_ne_true (hd.symm.trans h)

theorem isBreak_of_endsLine {c : Char} (h : endsLine c = false) : isBreak c = false := by
  rw [endsLine, Bool.or_eq_false_iff, Bool.or_eq_false_iff] at h
  exact h.1.1

/-- A printable character that ends a line is one of the line ends that stay. -/
theorem endsLine_eq_isBreak {c : Char} (h : isPrintable c = true) : endsLine c = isBreak c := by
  rw [endsLine, decide_eq_false (isPrintable_ne h (by decide)),
    decide_eq_false (isPrintable_ne h (by decide)), Bool.or_false, Bool.or_false]

/-- The only white space that is printable and ends no line is the space. -/
theorem isSpace_eq_false {c : Char} (h : isPrintable c = true) (hbreak : isBreak c = false)
    (hspace : c ≠ ' ') : isSpace c = false := by
  rw [isSpace, isBlank, hbreak, decide_eq_false hspace,
    decide_eq_false (isPrintable_ne h (by decide))]
  rfl

theorem unifyBreaks_of_isPrintable {text : List Char} (h : ∀ c ∈ text, isPrintable c = true) :
    unifyBreaks text = text := by
  induction text with
  | nil => rfl
  | cons c rest ih =>
      have hc := h c List.mem_cons_self
      have hr : c ≠ '\r' := isPrintable_ne hc (by decide)
      have hn : c ≠ '\u0085' := isPrintable_ne hc (by decide)
      rw [unifyBreaks, ih fun d hd => h d (List.mem_cons_of_mem c hd), decide_eq_false hr,
        decide_eq_false hn]
      · rfl
      · rintro rest' hcr
        exact absurd hcr hr

/-- **AS IT STANDS**: a printable text is read with each of its characters at its place. -/
theorem glyphs_of_isPrintable {text : List Char} (h : ∀ c ∈ text, isPrintable c = true) :
    glyphs text = some (place 0 0 text) := by
  have hmark : text.head? ≠ some byteOrderMark := by
    intro hhead
    have hmem := List.mem_of_head? hhead
    exact isPrintable_ne (h _ hmem) (by decide) rfl
  have hall : text.all isAllowed = true :=
    List.all_eq_true.mpr fun c hc => isAllowed_of_isPrintable (h c hc)
  simp only [glyphs, if_neg hmark, if_pos hall, unifyBreaks_of_isPrintable h]

/-! ## After the end of a line -/

/-- A character begins a word: it is no white space and begins no comment and is no mark. -/
structure Begins (c : Char) : Prop where
  dark : isSpace c = false
  plain : c ≠ '#'
  unmarked : c ≠ byteOrderMark

instance (c : Char) : Decidable (Begins c) :=
  decidable_of_iff (isSpace c = false ∧ c ≠ '#' ∧ c ≠ byteOrderMark)
    ⟨fun h => ⟨h.1, h.2.1, h.2.2⟩, fun h => ⟨h.dark, h.plain, h.unmarked⟩⟩

/-- What may follow the end of a line where a text must stand left of a floor to go on: spaces, and
then the first character of a word, or nothing. -/
inductive Ends (floor : Nat) : List Glyph → Prop
  | done : Ends floor []
  | space {g rest} (char : g.char = ' ') (left : g.column < floor) (others : Ends floor rest) :
      Ends floor (g :: rest)
  | word {g rest} (begins : Begins g.char) (left : g.column < floor) : Ends floor (g :: rest)

/-- What is left after spaces. -/
def lead (input : List Glyph) : List Glyph := input.dropWhile fun g => g.char = ' '

theorem lead_space {g : Glyph} (h : g.char = ' ') (rest : List Glyph) :
    lead (g :: rest) = lead rest := List.dropWhile_cons_of_pos (decide_eq_true h)

theorem lead_word {g : Glyph} (h : isSpace g.char = false) (rest : List Glyph) :
    lead (g :: rest) = g :: rest := by
  refine List.dropWhile_cons_of_neg ?_
  rw [decide_eq_true_eq]
  intro hg
  rw [hg] at h
  exact nomatch h

theorem Ends.mono {floor floor' : Nat} (hle : floor ≤ floor') {input : List Glyph}
    (h : Ends floor input) : Ends floor' input := by
  induction h with
  | done => exact .done
  | space char left _ ih => exact .space char (Nat.lt_of_lt_of_le left hle) ih
  | word begins left => exact .word begins (Nat.lt_of_lt_of_le left hle)

/-- A word left of a floor, after as many spaces as its column tells. -/
theorem ends_spaces {floor k : Nat} (hk : k < floor) {c : Char} (hbegins : Begins c) (l : Nat)
    (text : List Char) (rest : List Glyph) : Ends floor (place l 0 (spaces k ++ c :: text) ++ rest) := by
  have key : ∀ n column, column + n = k →
      Ends floor (place l column (spaces n ++ c :: text) ++ rest) := by
    intro n
    induction n with
    | zero =>
        intro column hcolumn
        exact .word hbegins (show column < floor by omega)
    | succ n ih =>
        intro column hcolumn
        rw [spaces, List.replicate_succ, List.cons_append, place_cons rfl, List.cons_append]
        exact .space rfl (show column < floor by omega) (ih (column + 1) (by omega))
  exact key k 0 (Nat.zero_add k)

/-- Spaces lead up to their word. -/
theorem lead_spaces {c : Char} (hbegins : Begins c) (l column k : Nat) (text : List Char)
    (rest : List Glyph) : lead (place l column (spaces k ++ c :: text) ++ rest) =
      place l (column + k) (c :: text) ++ rest := by
  induction k generalizing column with
  | zero => exact lead_word hbegins.dark _
  | succ k ih =>
      rw [spaces, List.replicate_succ, List.cons_append, place_cons rfl, List.cons_append,
        lead_space rfl, show column + (k + 1) = column + 1 + k by omega]
      exact ih (column + 1)

/-- After spaces there is a word, or nothing. -/
theorem Ends.lead_cases {floor : Nat} {input : List Glyph} (h : Ends floor input) :
    lead input = [] ∨
      ∃ g rest, lead input = g :: rest ∧ Begins g.char ∧ g.column < floor := by
  induction h with
  | done => exact .inl rfl
  | space char _ _ ih => rwa [lead_space char]
  | @word g rest begins left => exact .inr ⟨g, rest, lead_word begins.dark rest, begins, left⟩

theorem length_lead_le (input : List Glyph) : (lead input).length ≤ input.length :=
  (List.dropWhile_sublist _).length_le

/-! ## Lines -/

/-- The rest of a line and further lines: it ends at the beginning of a line, wherever it begins. -/
structure Line (text : List Char) : Prop where
  printable : ∀ c ∈ text, isPrintable c = true
  ended : ∀ column, columnAfter column text = 0

/-- Lines, if any. -/
structure Lines (text : List Char) : Prop where
  printable : ∀ c ∈ text, isPrintable c = true
  ended : columnAfter 0 text = 0

theorem columnAfter_append (column : Nat) (t u : List Char) :
    columnAfter column (t ++ u) = columnAfter (columnAfter column t) u := by
  induction t generalizing column with
  | nil => rfl
  | cons c t ih => exact ih _

theorem lineAfter_append (line : Nat) (t u : List Char) :
    lineAfter line (t ++ u) = lineAfter (lineAfter line t) u := by
  rw [lineAfter, lineAfter, lineAfter, List.countP_append, Nat.add_assoc]

theorem lineAfter_feed (line : Nat) (t : List Char) :
    lineAfter line ('\n' :: t) = lineAfter (line + 1) t := lineAfter_append line ['\n'] t

theorem line_feed : Line ['\n'] := ⟨List.all_eq_true.mp rfl, fun _ => rfl⟩

theorem lines_nil : Lines [] := ⟨nofun, rfl⟩

theorem Line.lines {t : List Char} (h : Line t) : Lines t := ⟨h.printable, h.ended 0⟩

theorem Line.prepend {t u : List Char} (ht : ∀ c ∈ t, isPrintable c = true) (hu : Line u) :
    Line (t ++ u) where
  printable c hc := (List.mem_append.mp hc).elim (ht c) (hu.printable c)
  ended column := by rw [columnAfter_append, hu.ended]

/-- Marks before a line. -/
theorem Line.after_marks {t u : List Char} (ht : t.all isPrintable = true) (hu : Line u) :
    Line (t ++ u) := .prepend (List.all_eq_true.mp ht) hu

theorem Line.append {t u : List Char} (ht : Line t) (hu : Lines u) : Line (t ++ u) where
  printable c hc := (List.mem_append.mp hc).elim (ht.printable c) (hu.printable c)
  ended column := by rw [columnAfter_append, ht.ended, hu.ended]

/-- What ends on a line of its own does not end on the line where it begins. -/
theorem Line.lt_lineAfter {t : List Char} (h : Line t) (line : Nat) : line < lineAfter line t := by
  have hbreak : 0 < t.countP isBreak := by
    refine Nat.pos_of_ne_zero fun hzero => ?_
    have hnone := List.countP_eq_zero.mp hzero
    have hcolumn := columnAfter_of_line 1 fun c hc => Bool.eq_false_iff.mpr (hnone c hc)
    rw [h.ended 1] at hcolumn
    omega
  rw [lineAfter]
  omega

/-- What follows a line is placed at the beginning of another one. -/
theorem Line.place_append {t : List Char} (h : Line t) (l c : Nat) (u : List Char) :
    place l c (t ++ u) = place l c t ++ place (lineAfter l t) 0 u := by
  rw [Yaml.place_append, h.ended]

theorem lineAfter_spaces (l k : Nat) (t : List Char) :
    lineAfter l (spaces k ++ t) = lineAfter l t := by
  rw [lineAfter_append, lineAfter_of_line l fun c hc => (spaces_shown k c hc).2]

/-- Spaces lead up to a line, and further lines follow it. -/
theorem Line.lead_place {t : List Char} (h : Line t) (hbegins : ∃ c u, t = c :: u ∧ Begins c)
    (l k : Nat) (u : List Char) (rest : List Glyph) :
    lead (place l 0 (spaces k ++ t ++ u) ++ rest) =
      place l k t ++ (place (lineAfter l t) 0 u ++ rest) := by
  obtain ⟨c, v, rfl, hc⟩ := hbegins
  rw [List.append_assoc, List.cons_append, lead_spaces hc, Nat.zero_add, ← List.cons_append,
    h.place_append, List.append_assoc]

end Lapse.Yaml
