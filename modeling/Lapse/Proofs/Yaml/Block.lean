import Lapse.Proofs.Yaml.Glyph

/-!
# Reading back block scalars

A text of several lines is read line by line at its margin, and nothing is lost on the way: what the
reader has, the line ends that it holds back and what is still to come are always the whole text.  The
header says which of the last line ends belong to the text, so that they come back, and those that only
end the last line do not.
-/

namespace Lapse.Yaml.Block

variable {g : Glyph} {rest : List Glyph} {ends : Ends} {margin : Nat} {blank : Bool}

/-- The line ends that are held back. -/
def Ends.text (e : Ends) : List Char := e.first.toList ++ e.more

/-! ## One glyph -/

theorem readLines_margin (h : g.char = ' ') (hleft : g.column < margin) :
    readLines margin false ends blank (g :: rest) = readLines margin false ends blank rest := by
  rw [readLines, if_pos (by simp [h, hleft])]

theorem readLines_break (h : isBreak g.char = true) :
    readLines margin false ends blank (g :: rest) =
      readLines margin false { ends with more := ends.more ++ [g.char] } blank rest := by
  have hspace : g.char ≠ ' ' := fun hg => by rw [hg] at h; exact nomatch h
  have htab : g.char ≠ '\t' := fun hg => by rw [hg] at h; exact nomatch h
  rw [readLines, if_neg (by simp [hspace]), if_neg (by simp [htab]), if_pos h]

theorem readLines_word (h : isBreak g.char = false) (hcolumn : g.column = margin) :
    readLines margin false ends blank (g :: rest) =
      (readLine margin false (isBlank g.char) rest).map fun r =>
        (ends.text ++ g.char :: r.1, r.2) := by
  rw [readLines, if_neg (by simp [hcolumn]), if_neg (by simp [hcolumn]),
    if_neg (Bool.eq_false_iff.mp h), if_pos hcolumn]
  dsimp only
  cases readLine margin false (isBlank g.char) rest with
  | none => rfl
  | some r => rfl

theorem readLine_break (h : isBreak g.char = true) :
    readLine margin false blank (g :: rest) =
      readLines margin false { first := some g.char } blank rest := by
  rw [readLine, if_pos h]

theorem readLine_char (h : isBreak g.char = false) :
    readLine margin false blank (g :: rest) =
      (readLine margin false blank rest).map fun r => (g.char :: r.1, r.2) := by
  rw [readLine, if_neg (Bool.eq_false_iff.mp h)]
  cases readLine margin false blank rest with
  | none => rfl
  | some r => rfl

/-- What stands left of the margin ends the scalar. -/
theorem readLines_ends {floor : Nat} (hfloor : floor ≤ margin) (h : Yaml.Ends floor rest) :
    readLines margin false ends blank rest = some ([], ends, lead rest) := by
  induction h with
  | done => rfl
  | space char left _ ih =>
      rw [readLines_margin char (Nat.lt_of_lt_of_le left hfloor), lead_space char, ih]
  | @word g rest begins left =>
      have dark := begins.dark
      have hspace : g.char ≠ ' ' := fun hg => by rw [hg] at dark; exact nomatch dark
      have htab : g.char ≠ '\t' := fun hg => by rw [hg] at dark; exact nomatch dark
      have hline : isBreak g.char = false := by
        rw [isSpace, Bool.or_eq_false_iff] at dark
        exact dark.2
      rw [readLines, if_neg (by simp [hspace]), if_neg (by simp [htab]),
        if_neg (Bool.eq_false_iff.mp hline), if_neg (by omega), lead_word dark]

theorem readLines_spaces (l : Nat) {c k : Nat} (h : c + k ≤ margin) :
    readLines margin false ends blank (place l c (spaces k) ++ rest) =
      readLines margin false ends blank rest := by
  induction k generalizing c with
  | zero => rfl
  | succ k ih =>
      rw [spaces, List.replicate_succ, place_cons rfl, List.cons_append,
        readLines_margin rfl (show c < margin by omega)]
      exact ih (by omega)

/-! ## The lines of a text -/

/-- A text does not end with a line end. -/
def Solid (text : List Char) : Prop := ∀ x, text.getLast? = some x → isBreak x = false

/-- What was read of a text: the text up to its last line ends, and those. -/
structure Halves (text : List Char) (x : List Char) (e : Ends) : Prop where
  whole : x ++ e.text = text
  breaks : ∀ b ∈ e.text, isBreak b = true
  solid : Solid x

theorem solid_cons {c : Char} {x : List Char} (hc : isBreak c = false) (hx : Solid x) :
    Solid (c :: x) := by
  intro y hy
  cases x with
  | nil =>
      rw [← Option.some.inj hy]
      exact hc
  | cons d x =>
      rw [List.getLast?_cons_cons] at hy
      exact hx y hy

theorem solid_append {x y : List Char} (hne : y ≠ []) (hy : Solid y) : Solid (x ++ y) := by
  intro z hz
  have hlast := List.getLast?_eq_some_getLast hne
  rw [List.getLast?_append, hlast, Option.some_or, ← hlast] at hz
  exact hy z hz

theorem Halves.cons {c : Char} {text x : List Char} {e : Ends} (h : Halves text x e)
    (hc : isBreak c = false) (held : List Char) : Halves (held ++ c :: text) (held ++ c :: x) e where
  whole := by rw [List.append_assoc, List.cons_append, h.whole]
  breaks := h.breaks
  solid := solid_append (List.cons_ne_nil c x) (solid_cons hc h.solid)

section Body

variable {c : Char} {text : List Char} {l column : Nat} {fresh : Bool}

theorem readLines_body_break (hc : isBreak c = true) :
    readLines margin false ends blank (place l column (body margin fresh (c :: text)) ++ rest) =
      readLines margin false { ends with more := ends.more ++ [c] } blank
        (place (l + 1) 0 (body margin true text) ++ rest) := by
  rw [body, if_pos hc, place_cons_break hc, List.cons_append, readLines_break hc]

theorem readLine_body_break (hc : isBreak c = true) :
    readLine margin false blank (place l column (body margin fresh (c :: text)) ++ rest) =
      readLines margin false { first := some c } blank
        (place (l + 1) 0 (body margin true text) ++ rest) := by
  rw [body, if_pos hc, place_cons_break hc, List.cons_append, readLine_break hc]

theorem readLines_body_char (hc : isBreak c = false) :
    readLines margin false ends blank (place l 0 (body margin true (c :: text)) ++ rest) =
      (readLine margin false (isBlank c)
        (place l (margin + 1) (body margin false text) ++ rest)).map fun r =>
          (ends.text ++ c :: r.1, r.2) := by
  have hword := @readLines_word ⟨c, l, margin⟩
    (place l (margin + 1) (body margin false text) ++ rest) ends margin blank hc rfl
  rw [body, if_neg (Bool.eq_false_iff.mp hc), if_pos rfl, place_spaces_append, List.append_assoc,
    readLines_spaces l (by omega), Nat.zero_add, place_cons hc, List.cons_append, hword]

theorem readLine_body_char (hc : isBreak c = false) :
    readLine margin false blank (place l column (body margin false (c :: text)) ++ rest) =
      (readLine margin false blank (place l (column + 1) (body margin false text) ++ rest)).map
        fun r => (c :: r.1, r.2) := by
  rw [body, if_neg (Bool.eq_false_iff.mp hc), if_neg Bool.false_ne_true, List.nil_append,
    place_cons hc, List.cons_append, readLine_char hc]

end Body

/-- A text whose lines are all ended is read to its end: from the beginning of a line, with line ends
held back, and from within a line. -/
theorem read_body {floor : Nat} (hfloor : floor ≤ margin) (hends : Yaml.Ends floor rest)
    {text : List Char} (hended : ∀ x, text.getLast? = some x → isBreak x = true) (l : Nat) :
    (∀ ends blank, (∀ b ∈ Ends.text ends, isBreak b = true) → ∃ x e,
      readLines margin false ends blank (place l 0 (body margin true text) ++ rest) =
          some (x, e, lead rest) ∧
        Halves (ends.text ++ text) x e ∧ (x ≠ [] ∨ ends.first.isSome = true → e.first.isSome = true)) ∧
    (text ≠ [] → ∀ c blank, ∃ x e,
      readLine margin false blank (place l c (body margin false text) ++ rest) =
          some (x, e, lead rest) ∧
        Halves text x e ∧ e.first.isSome = true) := by
  induction text generalizing l with
  | nil =>
      refine ⟨fun ends blank hheld => ⟨[], ends, readLines_ends hfloor hends, ⟨?_, hheld, nofun⟩,
        fun h => h.elim (fun h => absurd rfl h) id⟩, fun h => absurd rfl h⟩
      rw [List.nil_append, List.append_nil]
  | cons c text ih =>
      have htail : ∀ x, text.getLast? = some x → isBreak x = true := by
        intro x hx
        cases text with
        | nil => exact nomatch hx
        | cons d text => exact hended x (by rw [List.getLast?_cons_cons]; exact hx)
      by_cases hc : isBreak c = true
      · have hlines := (ih htail (l + 1)).1
        refine ⟨fun ends blank hheld => ?_, fun _ column blank => ?_⟩
        · have htext : ({ ends with more := ends.more ++ [c] } : Ends).text = ends.text ++ [c] := by
            simp [Ends.text]
          have hheld' : ∀ b ∈ ({ ends with more := ends.more ++ [c] } : Ends).text,
              isBreak b = true := by
            intro b hb
            rcases List.mem_append.mp (htext ▸ hb) with hb | hb
            · exact hheld b hb
            · rwa [List.mem_singleton.mp hb]
          obtain ⟨x, e, hread, hhalves, hfirst⟩ := hlines _ blank hheld'
          rw [htext, List.append_assoc] at hhalves
          exact ⟨x, e, (readLines_body_break hc).trans hread, hhalves, hfirst⟩
        · have hheld : ∀ b ∈ ({ first := some c } : Ends).text, isBreak b = true := by
            intro b hb
            rwa [List.mem_singleton.mp hb]
          obtain ⟨x, e, hread, hhalves, hfirst⟩ := hlines _ blank hheld
          exact ⟨x, e, (readLine_body_break hc).trans hread, hhalves, hfirst (.inr rfl)⟩
      · have hline : isBreak c = false := Bool.eq_false_iff.mpr hc
        -- the last line is ended, so that the text goes on
        have hmore : text ≠ [] := by
          rintro rfl
          exact hc (hended c rfl)
        have hgo := (ih htail l).2 hmore
        refine ⟨fun ends blank _ => ?_, fun _ column blank => ?_⟩
        · obtain ⟨x, e, hread, hhalves, hfirst⟩ := hgo (margin + 1) (isBlank c)
          refine ⟨ends.text ++ c :: x, e, ?_, hhalves.cons hline _, fun _ => hfirst⟩
          rw [readLines_body_char hline, hread]
          rfl
        · obtain ⟨x, e, hread, hhalves, hfirst⟩ := hgo (column + 1) blank
          refine ⟨c :: x, e, ?_, hhalves.cons hline [], hfirst⟩
          rw [readLine_body_char hline, hread]
          rfl

/-! ## The last line ends -/

/-- A text has one half that is solid and one of line ends. -/
theorem Halves.unique {x y bs : List Char} {e : Ends} (h : Halves (y ++ bs) x e)
    (hbs : ∀ b ∈ bs, isBreak b = true) (hy : Solid y) : x = y ∧ e.text = bs := by
  have hsolid : ∀ z : List Char, Solid z → z.reverse.dropWhile isBreak = z.reverse := by
    intro z hz
    cases hrev : z.reverse with
    | nil => rfl
    | cons c rest =>
        refine List.dropWhile_cons_of_neg (Bool.eq_false_iff.mp (hz c ?_))
        rw [← List.head?_reverse, hrev]
        rfl
  have hdrop : ∀ z cs : List Char, Solid z → (∀ b ∈ cs, isBreak b = true) →
      (z ++ cs).reverse.dropWhile isBreak = z.reverse := by
    intro z cs hz hcs
    rw [List.reverse_append, List.dropWhile_append_of_pos fun b hb => hcs b (List.mem_reverse.mp hb)]
    exact hsolid z hz
  have hrev := hdrop x e.text h.solid h.breaks
  rw [h.whole, hdrop y bs hy hbs] at hrev
  have hx : x = y := List.reverse_inj.mp hrev.symm
  refine ⟨hx, ?_⟩
  have hwhole := h.whole
  rw [hx] at hwhole
  exact List.append_cancel_left hwhole

/-- What ends the last line of a text after its last character. -/
def ending (text : List Char) : List Char := if text.getLast?.any isBreak then [] else ['\n']

theorem getLast?_ending {text : List Char} {x : Char}
    (h : (text ++ ending text).getLast? = some x) : isBreak x = true := by
  cases hlast : text.getLast?.any isBreak with
  | true =>
      rw [ending, if_pos hlast, List.append_nil] at h
      rwa [h] at hlast
  | false =>
      rw [ending, if_neg (Bool.eq_false_iff.mp hlast), List.getLast?_append] at h
      rw [← Option.some.inj h]
      rfl

/-- Line ends at the end of a text stand as they are. -/
theorem body_append (margin : Nat) (text : List Char) {bs : List Char}
    (hbs : ∀ b ∈ bs, isBreak b = true) (fresh : Bool) :
    body margin fresh (text ++ bs) = body margin fresh text ++ bs := by
  induction text generalizing fresh with
  | nil =>
      show body margin fresh bs = bs
      induction bs generalizing fresh with
      | nil => rfl
      | cons b bs ih =>
          rw [body, if_pos (hbs b List.mem_cons_self),
            ih (fun d hd => hbs d (List.mem_cons_of_mem b hd)) true]
  | cons c text ih =>
      rw [List.cons_append, body, body, ih, ih]
      split
      · rw [List.cons_append]
      · rw [List.append_assoc, List.cons_append]

theorem eq_of_mem_ending {text : List Char} {b : Char} (h : b ∈ ending text) : b = '\n' := by
  rw [ending] at h
  split at h
  · exact nomatch h
  · exact List.mem_singleton.mp h

theorem mem_body {margin : Nat} {text : List Char} {c : Char} {fresh : Bool}
    (h : c ∈ body margin fresh text) : c ∈ text ∨ c = ' ' := by
  induction text generalizing fresh with
  | nil => exact nomatch h
  | cons x text ih =>
      rw [body] at h
      split at h
      · rcases List.mem_cons.mp h with rfl | h
        · exact .inl List.mem_cons_self
        · exact (ih h).imp_left (List.mem_cons_of_mem x)
      · rcases List.mem_append.mp h with h | h
        · cases fresh with
          | true => exact .inr (List.eq_of_mem_replicate h)
          | false => exact nomatch h
        · rcases List.mem_cons.mp h with rfl | h
          · exact .inl List.mem_cons_self
          · exact (ih h).imp_left (List.mem_cons_of_mem x)

/-- Without a line end at its end, a text keeps none. -/
theorem Chomp.ofText_word {c : Char} (h : endsLine c = false) (y : List Char) :
    Chomp.ofText (y ++ [c]) = .strip := by
  rw [Chomp.ofText, List.reverse_append, List.reverse_singleton, List.singleton_append]
  cases y.reverse with
  | nil => simp [h]
  | cons d rest => simp [h]

/-- A line end at the end of a text is its only one there, or one of several. -/
theorem Chomp.ofText_feed {c : Char} (h : endsLine c = true) (y : List Char) :
    Chomp.ofText (y ++ [c]) = if y.getLast?.all endsLine then .keep else .clip := by
  rw [Chomp.ofText, List.reverse_append, List.reverse_singleton, List.singleton_append,
    ← List.head?_reverse]
  cases y.reverse with
  | nil => simp [h]
  | cons d rest =>
      simp only [h]
      rfl

/-- **CHOMPING**: the header tells which of the last line ends belong to the text. -/
theorem Halves.apply_ofText {text x : List Char} {e : Ends}
    (hprint : ∀ c ∈ text, isPrintable c = true) (hne : text ≠ [])
    (h : Halves (text ++ ending text) x e) (hfirst : x ≠ [] → e.first.isSome = true) :
    x ++ (Chomp.ofText text).apply e = text := by
  obtain ⟨c, y, rfl⟩ : ∃ c y, text = y ++ [c] :=
    ⟨text.getLast hne, text.dropLast, (List.dropLast_concat_getLast hne).symm⟩
  have hlast : (y ++ [c]).getLast?.any isBreak = isBreak c := by simp
  have hc : endsLine c = isBreak c := endsLine_eq_isBreak (hprint c (by simp))
  rw [ending, hlast] at h
  cases hbreak : isBreak c with
  | false =>
      -- the line end is not part of the text
      rw [hbreak, if_neg Bool.false_ne_true] at h
      have hsolid : Solid (y ++ [c]) := by
        intro z hz
        rw [List.getLast?_concat] at hz
        rwa [← Option.some.inj hz]
      obtain ⟨rfl, -⟩ := h.unique (by simp [isBreak]) hsolid
      rw [Chomp.ofText_word (hc.trans hbreak), Chomp.apply, List.append_nil]
  | true =>
      rw [hbreak, if_pos rfl, List.append_nil] at h
      rw [Chomp.ofText_feed (hc.trans hbreak)]
      cases hbefore : y.getLast?.all endsLine with
      | true =>
          rw [if_pos rfl]
          exact h.whole
      | false =>
          obtain ⟨d, hd, hword⟩ : ∃ d, y.getLast? = some d ∧ endsLine d = false := by
            simpa [Option.all_eq_false] using hbefore
          have hsolid : Solid y := by
            intro z hz
            rw [← Option.some.inj (hd.symm.trans hz)]
            exact isBreak_of_endsLine hword
          obtain ⟨rfl, htext⟩ := h.unique (by simp [hbreak]) hsolid
          have hsome := hfirst (List.ne_nil_of_mem (List.mem_of_getLast? hd))
          obtain ⟨b, hb⟩ := Option.isSome_iff_exists.mp hsome
          rw [Ends.text, hb] at htext
          have hbc : b = c := (List.cons.inj htext).1
          simp [Chomp.apply, hb, hbc]

/-! ## The header -/

theorem readHeader_sign (hint : Bool) (chomp : Chomp) (l c : Nat) (text : List Char)
    (rest : List Glyph) :
    readHeader (place l c ((if hint then ['2'] else []) ++ chomp.sign ++ '\n' :: text) ++ rest) =
      some ({ chomp, width := if hint then some 2 else none }, place (l + 1) 0 text ++ rest) := by
  cases hint with
  | true => cases chomp <;> rfl
  | false => cases chomp <;> rfl

theorem findMargin_spaces {d : Char} (hbreak : isBreak d = false) (hblank : isBlank d = false)
    (l : Nat) {c k n : Nat} (hn : c + k = n) (rest : List Glyph) :
    findMargin 0 (place l c (spaces k) ++ ⟨d, l, n⟩ :: rest) = some (n, [], ⟨d, l, n⟩ :: rest) := by
  rw [isBlank, Bool.or_eq_false_iff, decide_eq_false_iff_not, decide_eq_false_iff_not] at hblank
  induction k generalizing c with
  | zero =>
      show findMargin 0 (⟨d, l, n⟩ :: rest) = _
      simp [findMargin, hblank, hbreak]
  | succ k ih =>
      rw [spaces, List.replicate_succ, place_cons rfl, List.cons_append, findMargin, if_pos rfl]
      exact ih (by omega)

/-- The first line shows the margin, unless it hides it. -/
theorem findMargin_body {d : Char} {text : List Char} (hprint : isPrintable d = true)
    (hhides : hidesMargin (d :: text) = false) (l : Nat) (rest : List Glyph) :
    ∃ input, findMargin 0 (place l 0 (body margin true (d :: text)) ++ rest) =
        some (margin, [], input) ∧
      readLines margin false ends blank (place l 0 (body margin true (d :: text)) ++ rest) =
        readLines margin false ends blank input := by
  rw [hidesMargin, Bool.or_eq_false_iff, decide_eq_false_iff_not] at hhides
  have hbreak := isBreak_of_endsLine hhides.2
  have hblank : isBlank d = false := by
    rw [isBlank, decide_eq_false hhides.1, decide_eq_false (isPrintable_ne hprint (by decide))]
    rfl
  rw [body, if_neg (Bool.eq_false_iff.mp hbreak), if_pos rfl, place_spaces_append, Nat.zero_add,
    place_cons hbreak, List.append_assoc, List.cons_append]
  exact ⟨_, findMargin_spaces hbreak hblank l (Nat.zero_add margin) _,
    readLines_spaces l (by omega)⟩

/-! ## A text -/

/-- **LITERAL TEXTS**: what is written as a block scalar is read back, and with it the gap before the
next word. -/
theorem read_write {floor base : Nat} (hfloor : floor ≤ base + 2) {text : List Char}
    (hne : text ≠ []) (hprint : ∀ c ∈ text, isPrintable c = true) (hends : Yaml.Ends floor rest)
    (l c : Nat) :
    read false floor base (place l c ((if hidesMargin text then ['2'] else []) ++
      (Chomp.ofText text).sign ++ '\n' :: body (base + 2) true (text ++ ending text)) ++ rest) =
        some (text, lead rest) := by
  obtain ⟨x, e, hread, hhalves, hfirst⟩ := (@read_body rest (base + 2) floor hfloor hends
    (text ++ ending text) (fun _ hx => getLast?_ending hx) (l + 1)).1 {} false nofun
  rw [Ends.text, Option.toList_none, List.append_nil, List.nil_append] at hhalves
  have hwhole := hhalves.apply_ofText hprint hne fun hx => hfirst (.inl hx)
  rw [read, readHeader_sign]
  cases hhides : hidesMargin text with
  | true =>
      show (readLines (base + 2) false {} false _).bind _ = _
      rw [hread]
      exact congrArg (fun t => some (t, lead rest)) hwhole
  | false =>
      cases text with
      | nil => exact absurd rfl hne
      | cons d text =>
          obtain ⟨input, hfind, hsame⟩ := @findMargin_body {} (base + 2) false d
            (text ++ ending (d :: text)) (hprint d List.mem_cons_self) hhides (l + 1) rest
          have hmargin : max (base + 2) (max floor 1) = base + 2 := by omega
          rw [List.cons_append] at hread ⊢
          rw [hsame] at hread
          simp [hfind, hmargin, hread, hwhole]

end Lapse.Yaml.Block
