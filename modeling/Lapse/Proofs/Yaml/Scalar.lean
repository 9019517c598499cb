import Lapse.Yaml.Layout
import Lapse.Proofs.Yaml.Block
import Lapse.Proofs.Yaml.Plain
import Lapse.Proofs.Yaml.Quoted
import Lapse.Proofs.Text.Utf8

/-!
# Scalars as they are written

Each style is chosen only for texts that it can hold.  Whatever the style, a scalar begins with a
character that nothing else between words begins with, everything in it is printable, and a scalar that
is the key of an entry on one line is short enough for the reader to take it for one.
-/

namespace Lapse.Yaml

/-! ## Styles -/

/-- What makes a style fit a text. -/
inductive Style.Fits : Style → List Char → Prop
  | plain {text} (plain : Plain.isPlain text = true) (untyped : Word.isTyped text = false) :
      Fits .plain text
  | single {text} (single : Single.isSingle text = true) (line : '\n' ∉ text) : Fits .single text
  | double {text} : Fits .double text
  | literal {text} (block : Block.isBlock text = true) (lines : '\n' ∈ text) : Fits .literal text

theorem Style.fits_ofText (text : List Char) : (Style.ofText text).Fits text := by
  unfold Style.ofText
  split
  · next hlines =>
    split
    · next hblock => exact .literal hblock (List.contains_iff_mem.mp hlines)
    · exact .double
  · next hline =>
    split
    · next hplain =>
      rw [Bool.and_eq_true, Bool.not_eq_true'] at hplain
      exact .plain hplain.1 hplain.2
    split
    · next hsingle =>
      exact .single hsingle fun hmem => hline (List.contains_iff_mem.mpr hmem)
    · exact .double

/-- The text of a block scalar, from the header on. -/
def blockLine (margin : Nat) (text : List Char) : List Char :=
  (if Block.hidesMargin text then ['2'] else []) ++ (Block.Chomp.ofText text).sign ++
    '\n' :: Block.body margin true (text ++ Block.ending text)

theorem textLine_literal {text : List Char} (h : Style.ofText text = .literal) (margin : Nat) :
    textLine margin text = '|' :: blockLine margin text := by
  have hending : ∀ b ∈ Block.ending text, isBreak b = true := by
    intro b hb
    rw [Block.eq_of_mem_ending hb]
    rfl
  have hwhole : textLine margin text = Block.write margin text ++ Block.ending text := by
    rw [textLine, writeText, h, Block.ending]
    cases text.getLast?.any isBreak with
    | true => exact (List.append_nil _).symm
    | false => rfl
  rw [hwhole, Block.write, blockLine, Block.body_append _ _ hending]
  simp

theorem textLine_of_ne {text : List Char} (h : Style.ofText text ≠ .literal) (margin : Nat) :
    textLine margin text = writeText margin text ++ ['\n'] := by
  rw [textLine, decide_eq_false h]
  rfl

/-! ## What stands in a scalar -/

theorem Plain.begins {c : Char} {text : List Char} (h : isPlain (c :: text) = true) : Begins c := by
  obtain ⟨hstarts, -, -, -, hshown⟩ := of_isPlain h
  obtain ⟨hprint, hline⟩ := hshown c List.mem_cons_self
  simp only [startsPlain, Bool.and_eq_true, decide_eq_true_eq, Bool.not_eq_true'] at hstarts
  refine ⟨isSpace_eq_false hprint hline hstarts.1.1, ?_, isPrintable_ne hprint (by decide)⟩
  rintro rfl
  exact Bool.false_ne_true (hstarts.1.2.symm.trans (by decide))

theorem writeText_begins (margin : Nat) (text : List Char) :
    ∃ c rest, writeText margin text = c :: rest ∧ Begins c := by
  have hfits := Style.fits_ofText text
  rw [writeText]
  generalize Style.ofText text = style at hfits
  cases hfits with
  | plain hplain _ =>
      cases text with
      | nil => exact nomatch (Plain.of_isPlain hplain).1
      | cons c text => exact ⟨c, text, rfl, Plain.begins hplain⟩
  | single _ _ => exact ⟨_, _, rfl, by decide⟩
  | double => exact ⟨_, _, rfl, by decide⟩
  | literal _ _ => exact ⟨_, _, rfl, by decide⟩

/-! ## Lines of scalars -/

theorem Single.mem_body {margin : Nat} {text : List Char} {c : Char} {fresh : Bool}
    (h : c ∈ body margin fresh text) : c ∈ text ∨ c = ' ' ∨ c = '\'' := by
  have hspaces : ∀ fresh : Bool, c ∈ (if fresh then spaces margin else []) → c = ' ' := by
    intro fresh hc
    cases fresh with
    | true => exact List.eq_of_mem_replicate hc
    | false => exact nomatch hc
  induction text generalizing fresh with
  | nil => exact .inr (.inl (hspaces fresh h))
  | cons x text ih =>
      rw [body] at h
      split at h
      · rcases List.mem_cons.mp h with rfl | h
        · exact .inl List.mem_cons_self
        · exact (ih h).imp_left (List.mem_cons_of_mem x)
      · rw [List.mem_append, List.mem_append] at h
        rcases h with (h | h) | h
        · exact .inr (.inl (hspaces fresh h))
        · split at h
          · simp only [List.mem_cons, List.not_mem_nil, or_false, or_self] at h
            exact .inr (.inr h)
          · rw [List.mem_singleton.mp h]
            exact .inl List.mem_cons_self
        · exact (ih h).imp_left (List.mem_cons_of_mem x)

theorem Single.write_printable (margin : Nat) {text : List Char} (h : isSingle text = true) :
    ∀ c ∈ write margin text, isPrintable c = true := by
  intro c hc
  rw [isSingle, Bool.and_eq_true, List.all_eq_true] at h
  rw [write, List.mem_append, List.mem_cons, List.mem_singleton] at hc
  rcases hc with (rfl | hc) | rfl
  · rfl
  · rcases mem_body hc with hc | rfl | rfl
    · exact h.1 c hc
    · rfl
    · rfl
  · rfl

theorem Double.write_shown (text : List Char) :
    ∀ c ∈ write text, isPrintable c = true ∧ isBreak c = false := by
  intro c hc
  rw [write, List.mem_append, List.mem_cons, List.mem_singleton] at hc
  rcases hc with (rfl | hc) | rfl
  · exact ⟨rfl, rfl⟩
  · exact flatMap_shown text c hc
  · exact ⟨rfl, rfl⟩

theorem Block.printable_of_isBlock {text : List Char} (h : isBlock text = true) :
    ∀ c ∈ text, isPrintable c = true := by
  rw [isBlock, Bool.and_eq_true, Bool.and_eq_true, List.all_eq_true] at h
  exact h.1.1

/-- The lines of a block scalar end at the beginning of a line. -/
theorem Block.columnAfter_body (margin column : Nat) {text : List Char}
    (hne : text ≠ []) (h : ∀ x, text.getLast? = some x → isBreak x = true) (fresh : Bool) :
    columnAfter column (body margin fresh text) = 0 := by
  obtain ⟨c, y, rfl⟩ : ∃ c y, text = y ++ [c] :=
    ⟨text.getLast hne, text.dropLast, (List.dropLast_concat_getLast hne).symm⟩
  have hc := h c List.getLast?_concat
  rw [body_append margin y (fun b hb => by rwa [List.mem_singleton.mp hb]), columnAfter_append]
  show (if isBreak c then 0 else _) = 0
  rw [if_pos hc]

theorem line_blockLine (margin : Nat) {text : List Char} (h : Block.isBlock text = true) :
    Line ('|' :: blockLine margin text) := by
  have hsign : ∀ chomp : Block.Chomp, ∀ c ∈ chomp.sign, isPrintable c = true := by
    intro chomp
    cases chomp <;> exact List.all_eq_true.mp rfl
  have hhead : ∀ c ∈ '|' :: ((if Block.hidesMargin text then ['2'] else []) ++
      (Block.Chomp.ofText text).sign), isPrintable c = true := by
    intro c hc
    rw [List.mem_cons, List.mem_append] at hc
    rcases hc with rfl | hc | hc
    · rfl
    · split at hc
      · rw [List.mem_singleton.mp hc]
        rfl
      · exact nomatch hc
    · exact hsign _ c hc
  have hbody : Line ('\n' :: Block.body margin true (text ++ Block.ending text)) := by
    refine ⟨fun c hc => ?_, fun column => ?_⟩
    · rcases List.mem_cons.mp hc with rfl | hc
      · rfl
      rcases Block.mem_body hc with hc | rfl
      · rcases List.mem_append.mp hc with hc | hc
        · exact Block.printable_of_isBlock h c hc
        · rw [Block.eq_of_mem_ending hc]
          rfl
      · rfl
    · by_cases hnil : text ++ Block.ending text = []
      · rw [hnil]
        rfl
      · exact Block.columnAfter_body margin _ hnil (fun _ hx => Block.getLast?_ending hx) true
  exact Line.prepend hhead hbody

/-- **LINES**: whatever its style, a text is written with printable characters and ends its line. -/
theorem line_textLine (margin : Nat) (text : List Char) : Line (textLine margin text) := by
  have hfits := Style.fits_ofText text
  have hfeed : Style.ofText text ≠ .literal → (∀ c ∈ writeText margin text, isPrintable c = true) →
      Line (textLine margin text) := by
    intro hstyle hprint
    rw [textLine_of_ne hstyle]
    exact Line.prepend hprint line_feed
  generalize hstyle : Style.ofText text = style at hfits hfeed
  cases hfits with
  | plain hplain _ =>
      refine hfeed nofun ?_
      rw [writeText, hstyle]
      exact fun c hc => ((Plain.of_isPlain hplain).2.2.2.2 c hc).1
  | single hsingle _ =>
      refine hfeed nofun ?_
      rw [writeText, hstyle]
      exact Single.write_printable margin hsingle
  | double =>
      refine hfeed nofun ?_
      rw [writeText, hstyle]
      exact fun c hc => (Double.write_shown text c hc).1
  | literal hblock _ =>
      rw [textLine_literal hstyle]
      exact line_blockLine margin hblock

/-! ## Keys -/

theorem Single.length_body_le {text : List Char} (h : ∀ c ∈ text, isBreak c = false)
    (margin : Nat) : (body margin false text).length ≤ 2 * text.length := by
  induction text with
  | nil => exact Nat.le_refl _
  | cons x text ih =>
      have ih := ih fun c hc => h c (List.mem_cons_of_mem x hc)
      have hx : (if x = '\'' then ['\'', '\''] else [x]).length ≤ 2 := by
        split
        · exact Nat.le_refl 2
        · exact Nat.le_succ 1
      rw [body, if_neg (Bool.eq_false_iff.mp (h x List.mem_cons_self)),
        if_neg Bool.false_ne_true, List.nil_append, List.length_append, List.length_cons]
      omega

/-- The characters that need the longest escapes are printable. -/
theorem Double.length_escape_le (c : Char) : (escape c).length ≤ 6 := by
  unfold escape
  split
  · exact Nat.le_add_left 1 5
  next hspecial =>
  split
  · exact Nat.le_add_left 2 4
  · have hbound : c.toNat ≤ 0xFFFF := by
      refine Nat.le_of_not_lt fun hlarge => hspecial ?_
      have hne : ∀ d : Char, d.toNat ≤ 0xFFFF → c ≠ d := by
        rintro d hd rfl
        omega
      have hprint : isPrintable c = true := by
        simp only [isPrintable, Bool.or_eq_true, decide_eq_true_eq]
        exact .inr hlarge
      have hline : endsLine c = false := by
        rw [endsLine, isBreak, decide_eq_false (hne _ (by decide)),
          decide_eq_false (hne _ (by decide)), decide_eq_false (hne _ (by decide)),
          decide_eq_false (hne _ (by decide)), decide_eq_false (hne _ (by decide))]
        rfl
      rw [hprint, hline, decide_eq_true (hne _ (by decide)), decide_eq_true (hne _ (by decide))]
      rfl
    rw [escapeNumber]
    split
    · have hhex : (hex 2 c.toNat).length = 2 := length_hex (by decide) (by omega)
      rw [List.length_cons, List.length_cons]
      omega
    · have hhex : (hex 4 c.toNat).length = 4 := length_hex (by decide) (by omega)
      rw [List.length_cons, List.length_cons]
      omega

theorem Double.length_flatMap_le (text : List Char) :
    (text.flatMap escape).length ≤ 6 * text.length := by
  induction text with
  | nil => exact Nat.le_refl _
  | cons c text ih =>
      have hc := length_escape_le c
      rw [List.flatMap_cons, List.length_append, List.length_cons]
      omega

theorem length_le_of_isShortKey {text : List Char} (h : isShortKey text = true) :
    text.length ≤ 128 := by
  rw [isShortKey, Bool.and_eq_true, decide_eq_true_eq] at h
  exact Nat.le_trans (Utf8.length_le_encodeChars text) h.1

/-- **KEYS**: the key of an entry on one line stays on its line, and the reader looks that far. -/
theorem writeText_key {text : List Char} (h : isShortKey text = true) (margin : Nat) :
    (∀ c ∈ writeText margin text, isPrintable c = true ∧ isBreak c = false) ∧
      (writeText margin text).length ≤ Scan.maxKeyLength := by
  have hlength := length_le_of_isShortKey h
  have hline : ∀ c ∈ text, isBreak c = false := by
    intro c hc
    rw [isShortKey, Bool.and_eq_true, Bool.not_eq_true', List.any_eq_false] at h
    exact isBreak_of_endsLine (Bool.eq_false_iff.mpr (h.2 c hc))
  have hfits := Style.fits_ofText text
  rw [writeText, Scan.maxKeyLength]
  generalize Style.ofText text = style at hfits
  cases hfits with
  | plain hplain _ => exact ⟨(Plain.of_isPlain hplain).2.2.2.2, Nat.le_trans hlength (by decide)⟩
  | single hsingle _ =>
      refine ⟨fun c hc => ⟨Single.write_printable margin hsingle c hc, ?_⟩, ?_⟩
      · rw [Style.write, Single.write, List.mem_append, List.mem_cons, List.mem_singleton] at hc
        rcases hc with (rfl | hc) | rfl
        · rfl
        · rcases Single.mem_body hc with hc | rfl | rfl
          · exact hline c hc
          · rfl
          · rfl
        · rfl
      · have hbody := Single.length_body_le hline margin
        rw [Style.write, Single.write, List.length_append, List.length_cons, List.length_singleton]
        omega
  | double =>
      refine ⟨Double.write_shown text, ?_⟩
      have hbody := Double.length_flatMap_le text
      rw [Style.write, Double.write, List.length_append, List.length_cons, List.length_singleton]
      omega
  | literal _ hlines => exact nomatch hline '\n' hlines

end Lapse.Yaml
