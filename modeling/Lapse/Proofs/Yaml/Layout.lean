import Lapse.Proofs.Reading
import Lapse.Proofs.Yaml.Scalar
import Lapse.Proofs.Text.Decimal

/-!
# Data as it is laid out

Facts about all data follow from those about its parts.  Data without parts is a word, a text or a pair
of brackets on one line; everything that is laid out consists of printable characters and ends at the
beginning of a line.
-/

namespace Lapse

namespace Yaml

/-! ## Words -/

/-- The word of data that is written as one and not as a text. -/
def wordOf : Data → Option (List Char)
  | .null => some "null".toList
  | .bool b => some (flagWord b)
  | .int n => some (Decimal.ofInt n)
  | _ => none

theorem Plain.isFree_of_forall {text : List Char} (h : ∀ c ∈ text, c ≠ ':' ∧ c ≠ '#') :
    ∀ afterSpace, isFree afterSpace text = true := by
  induction text with
  | nil => exact fun _ => rfl
  | cons c text ih =>
      intro afterSpace
      obtain ⟨hcolon, hmark⟩ := h c List.mem_cons_self
      rw [isFree, decide_eq_false hcolon, decide_eq_false hmark,
        ih fun d hd => h d (List.mem_cons_of_mem c hd)]
      rfl

theorem ne_of_isDigit {c d : Char} (h : Decimal.isDigit c = true)
    (hd : Decimal.isDigit d = false) : c ≠ d := by
  rintro rfl
  exact Bool.false_ne_true (hd.symm.trans h)

theorem indicators_of_isDigit {c : Char} (h : Decimal.isDigit c = true) :
    Plain.indicators.contains c = false := by
  have hnone : (Plain.indicators.all fun d => !Decimal.isDigit d) = true := rfl
  refine Bool.eq_false_iff.mpr fun hmem => ?_
  have hdigit := List.all_eq_true.mp hnone c (List.contains_iff_mem.mp hmem)
  rw [h] at hdigit
  exact nomatch hdigit

theorem shown_of_isDigit {c : Char} (h : Decimal.isDigit c = true) :
    isPrintable c = true ∧ endsLine c = false := by
  constructor
  · have hrange := Decimal.isDigit_iff.mp h
    simp only [isPrintable, Bool.or_eq_true, Bool.and_eq_true, decide_eq_true_eq]
    omega
  · rw [endsLine, isBreak, decide_eq_false (ne_of_isDigit h (by decide)),
      decide_eq_false (ne_of_isDigit h (by decide)), decide_eq_false (ne_of_isDigit h (by decide)),
      decide_eq_false (ne_of_isDigit h (by decide)), decide_eq_false (ne_of_isDigit h (by decide))]
    rfl

/-- Digits and dashes are plain when they begin like a plain scalar. -/
theorem Plain.isPlain_of_digits {text : List Char} (hstarts : startsPlain text = true)
    (hmarker : startsMarker text = false)
    (h : ∀ c ∈ text, c = '-' ∨ Decimal.isDigit c = true) : isPlain text = true := by
  have hne : ∀ d : Char, d ≠ '-' → Decimal.isDigit d = false → ∀ c ∈ text, c ≠ d := by
    intro d hdash hdigit c hc
    rcases h c hc with rfl | hdig
    · exact hdash.symm
    · exact ne_of_isDigit hdig hdigit
  have hfree := isFree_of_forall (fun c hc => ⟨hne ':' (by decide) rfl c hc,
    hne '#' (by decide) rfl c hc⟩) false
  have hlast : text.getLast? ≠ some ' ' :=
    fun hspace => hne ' ' (by decide) rfl ' ' (List.mem_of_getLast? hspace) rfl
  have hshown : (text.all fun c => isPrintable c && !endsLine c) = true := by
    refine List.all_eq_true.mpr fun c hc => ?_
    rcases h c hc with rfl | hdigit
    · rfl
    · obtain ⟨hprint, hline⟩ := shown_of_isDigit hdigit
      rw [hprint, hline]
      rfl
  rw [isPlain, hstarts, hmarker, hfree, decide_eq_true hlast, hshown]
  rfl

theorem Plain.isPlain_ofInt (n : Int) : isPlain (Decimal.ofInt n) = true := by
  have hdigits : ∀ c ∈ Decimal.digits n.natAbs, Decimal.isDigit c = true :=
    fun c hc => Decimal.isDigit_of_mem_digits hc
  obtain ⟨d, rest, hd, -⟩ := Decimal.digits_eq_cons n.natAbs
  rw [hd] at hdigits
  have hdigit := hdigits d List.mem_cons_self
  rw [Decimal.ofInt, hd]
  split
  · refine isPlain_of_digits ?_ ?_ ?_
    · have hspace := ne_of_isDigit hdigit (show Decimal.isDigit ' ' = false from rfl)
      rw [startsPlain, isApart, decide_eq_false hspace]
      rfl
    · have hdash := ne_of_isDigit hdigit (show Decimal.isDigit '-' = false from rfl)
      simp [startsMarker, List.isPrefixOf, hdash.symm]
    · intro c hc
      rcases List.mem_cons.mp hc with rfl | hc
      · exact .inl rfl
      · exact .inr (hdigits c hc)
  · refine isPlain_of_digits ?_ ?_ fun c hc => .inr (hdigits c hc)
    · have hne : ∀ x, Decimal.isDigit x = false → d ≠ x := fun x hx => ne_of_isDigit hdigit hx
      rw [startsPlain, indicators_of_isDigit hdigit, decide_eq_true (hne ' ' rfl)]
      simp [hne '-' rfl, hne '?' rfl, hne ':' rfl]
    · have hne : ∀ x, Decimal.isDigit x = false → x ≠ d :=
        fun x hx => (ne_of_isDigit hdigit hx).symm
      simp [startsMarker, List.isPrefixOf, hne '-' rfl, hne '.' rfl]

/-- Words are plain. -/
theorem isPlain_wordOf {d : Data} {word : List Char} (h : wordOf d = some word) :
    Plain.isPlain word = true := by
  cases d with
  | null =>
      rw [← Option.some.inj h]
      decide
  | bool b =>
      rw [← Option.some.inj h]
      cases b <;> decide
  | int n =>
      rw [← Option.some.inj h]
      exact Plain.isPlain_ofInt n
  | str _ => exact nomatch h
  | list _ => exact nomatch h
  | record _ => exact nomatch h

/-! ## Lines -/

/-- Both ways to lay data out end at the beginning of a line. -/
structure Lined (d : Data) : Prop where
  inline : ∀ margin, Line (inline margin d)
  value : ∀ margin, Line (value margin d)

theorem line_wordLine {word : List Char} (h : Plain.isPlain word = true) : Line (wordLine word) :=
  Line.prepend (fun c hc => ((Plain.of_isPlain h).2.2.2.2 c hc).1) line_feed

theorem line_wholeLine (margin : Nat) (d : Data) : Line (wholeLine margin d) := by
  cases d with
  | null => exact line_wordLine (isPlain_wordOf (d := .null) rfl)
  | bool b => exact line_wordLine (isPlain_wordOf (d := .bool b) rfl)
  | int n => exact line_wordLine (isPlain_wordOf (d := .int n) rfl)
  | str s => exact line_textLine margin s.toList
  | list _ => exact Line.after_marks rfl line_feed
  | record _ => exact Line.after_marks rfl line_feed

theorem line_item {d : Data} (h : Lined d) (margin : Nat) :
    Line ('-' :: ' ' :: inline (margin + 2) d) :=
  @Line.after_marks ['-', ' '] _ rfl (h.inline _)

theorem lines_items {ds : List Data} (h : ∀ d ∈ ds, Lined d) (margin : Nat) :
    Lines (items margin ds) := by
  induction ds with
  | nil => exact lines_nil
  | cons d ds ih =>
      have hitem := (line_item (h d List.mem_cons_self) margin).prepend fun c hc =>
        (spaces_shown margin c hc).1
      exact (hitem.append (ih fun e he => h e (List.mem_cons_of_mem d he))).lines

theorem line_inlineEntry {e : String × Data} (h : Lined e.2) (margin : Nat) :
    Line (inlineEntry margin e) := by
  obtain ⟨key, d⟩ := e
  rw [inlineEntry]
  split
  · next hkey =>
    exact Line.prepend (fun c hc => ((writeText_key hkey _).1 c hc).1)
      (@Line.after_marks [':'] _ rfl (h.value margin))
  · have hkey : Line ('?' :: ' ' :: textLine (margin + 2) key.toList) :=
      @Line.after_marks ['?', ' '] _ rfl (line_textLine _ _)
    have hvalue : Line (spaces margin ++ ':' :: ' ' :: inline (margin + 2) d) :=
      (@Line.after_marks [':', ' '] _ rfl (h.inline _)).prepend fun c hc =>
        (spaces_shown margin c hc).1
    have hwhole := hkey.append hvalue.lines
    rwa [← List.append_assoc] at hwhole

theorem lines_entries {es : List (String × Data)} (h : ∀ e ∈ es, Lined e.2) (margin : Nat) :
    Lines (entries margin es) := by
  induction es with
  | nil => exact lines_nil
  | cons e es ih =>
      have hentry := (line_inlineEntry (h e List.mem_cons_self) margin).prepend fun c hc =>
        (spaces_shown margin c hc).1
      exact (hentry.append (ih fun e' he' => h e' (List.mem_cons_of_mem e he'))).lines

/-- **WHOLE LINES**: data is laid out as lines of printable characters. -/
theorem lined (d : Data) : Lined d := by
  have hwhole : ∀ d, (∀ margin, inline margin d = wholeLine margin d) →
      (∀ margin, value margin d = ' ' :: wholeLine (margin + 2) d) → Lined d := by
    intro d hinline hvalue
    refine ⟨fun margin => ?_, fun margin => ?_⟩
    · rw [hinline]
      exact line_wholeLine margin d
    · rw [hvalue]
      exact @Line.after_marks [' '] _ rfl (line_wholeLine _ d)
  induction d using Data.induct with
  | null => exact hwhole _ (fun _ => rfl) fun _ => rfl
  | bool b => exact hwhole _ (fun _ => rfl) fun _ => rfl
  | int n => exact hwhole _ (fun _ => rfl) fun _ => rfl
  | str s => exact hwhole _ (fun _ => rfl) fun _ => rfl
  | list ds ih =>
      cases ds with
      | nil => exact hwhole _ (fun _ => rfl) fun _ => rfl
      | cons d ds =>
          refine ⟨fun margin => ?_, fun margin => line_feed.append (lines_items ih margin)⟩
          exact (line_item (ih d List.mem_cons_self) margin).append
            (lines_items (fun e he => ih e (List.mem_cons_of_mem d he)) margin)
  | record es ih =>
      cases es with
      | nil => exact hwhole _ (fun _ => rfl) fun _ => rfl
      | cons e es =>
          refine ⟨fun margin => ?_, fun margin => line_feed.append (lines_entries ih (margin + 2))⟩
          exact (line_inlineEntry (ih e List.mem_cons_self) margin).append
            (lines_entries (fun e' he' => ih e' (List.mem_cons_of_mem e he')) margin)

/-- A text is read as it was laid out. -/
theorem glyphs_layout (d : Data) : glyphs (layout d) = some (place 0 0 (layout d)) := by
  have hline : Line (layout d) := by
    cases d with
    | str s => exact line_textLine 2 s.toList
    | null => exact (lined _).inline 0
    | bool b => exact (lined _).inline 0
    | int n => exact (lined _).inline 0
    | list ds => exact (lined _).inline 0
    | record es => exact (lined _).inline 0
  exact glyphs_of_isPrintable hline.printable

end Yaml

end Lapse
