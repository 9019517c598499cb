import Lapse.Proofs.Text.Decimal
import Lapse.Proofs.Yaml.Glyph

/-!
# Reading back quoted scalars

Between single quotes a line end is read as itself when it is a separator and no space stands beside
it; what a text has of these is tested before it is written so.  Between double quotes every character
is read from its escape, whether that names it or numbers it.
-/

namespace Lapse.Yaml

variable {g : Glyph} {rest : List Glyph} {gap : Gap} {kept : List Char}

/-! ## Single quotes -/

namespace Single

theorem read_space (h : isSpace g.char = true) :
    read gap (g :: rest) = read (gap.add g.char) rest := by
  rw [read.eq_def]
  simp only [if_pos h]

theorem read_char (hdark : isSpace g.char = false) (hcolumn : 0 < g.column) (hquote : g.char ≠ '\'') :
    read gap (g :: rest) = (read .none rest).map fun r => (gap.text ++ g.char :: r.1, r.2) := by
  rw [read.eq_def]
  simp only [if_neg (Bool.eq_false_iff.mp hdark), if_neg hquote, atBoundary_of_column hcolumn]
  cases read .none rest with
  | none => rfl
  | some r => rfl

theorem read_twice {h : Glyph} (hg : g.char = '\'') (hh : h.char = '\'') :
    read gap (g :: h :: rest) = (read .none rest).map fun r => (gap.text ++ '\'' :: r.1, r.2) := by
  have hdark : isSpace g.char = false := by rw [hg]; rfl
  have hinside := atBoundary_of_char (g := g) (by rw [hg]; decide) (by rw [hg]; decide) (h :: rest)
  rw [read.eq_def]
  simp only [if_neg (Bool.eq_false_iff.mp hdark), hinside, if_pos hg, if_pos hh]
  cases read .none rest with
  | none => rfl
  | some r => rfl

theorem read_quote (hg : g.char = '\'') (hrest : isNext '\'' rest = false) :
    read gap (g :: rest) = some (gap.text, rest) := by
  have hdark : isSpace g.char = false := by rw [hg]; rfl
  have hinside := atBoundary_of_char (g := g) (by rw [hg]; decide) (by rw [hg]; decide) rest
  rw [read.eq_def]
  simp only [if_neg (Bool.eq_false_iff.mp hdark), hinside, if_pos hg]
  cases rest with
  | nil => rfl
  | cons h rest =>
      have hh : h.char ≠ '\'' := fun heq => by simp [isNext, heq] at hrest
      simp [hh]

/-- The margin is no part of a text that goes on after a line end. -/
theorem read_margin (first : Option Char) (more : List Char) (l c k : Nat) :
    read (.breaks first more) (place l c (spaces k) ++ rest) = read (.breaks first more) rest := by
  induction k generalizing c with
  | zero => rfl
  | succ k ih =>
      rw [spaces, List.replicate_succ, place_cons rfl, List.cons_append, read_space rfl]
      exact ih (c + 1)

theorem noneBeside_tail {test : Char → Char → Bool} {x : Char} {text : List Char}
    (h : noneBeside test (x :: text) = true) :
    noneBeside test text = true ∧ ∀ y, text.head? = some y → test x y = false := by
  cases text with
  | nil => exact ⟨rfl, nofun⟩
  | cons z text =>
      rw [noneBeside, Bool.and_eq_true, Bool.not_eq_true'] at h
      refine ⟨h.2, fun y hy => ?_⟩
      rw [← Option.some.inj hy]
      exact h.1

/-- What may stand between single quotes on the way to the end of a text. -/
structure Sound (text : List Char) : Prop where
  shown : ∀ x ∈ text, isPrintable x = true ∧ x ≠ '\n'
  beside : noneBeside loses text = true

theorem Sound.tail {x : Char} {text : List Char} (h : Sound (x :: text)) : Sound text :=
  ⟨fun y hy => h.shown y (List.mem_cons_of_mem x hy), (noneBeside_tail h.beside).1⟩

/-- No space follows a line end. -/
theorem Sound.head?_ne_space {x : Char} {text : List Char} (h : Sound (x :: text))
    (hx : isBreak x = true) : text.head? ≠ some ' ' := by
  intro hspace
  have hkeeps := (noneBeside_tail h.beside).2 ' ' hspace
  have hends : endsLine x = true := by rw [endsLine, hx]; rfl
  rw [loses, hends] at hkeeps
  simp at hkeeps

/-- No line end follows a space. -/
theorem Sound.head?_isBreak {text : List Char} (h : Sound (' ' :: text)) {y : Char}
    (hy : text.head? = some y) : isBreak y = false := by
  have hkeeps := (noneBeside_tail h.beside).2 y hy
  rw [loses, Bool.or_eq_false_iff] at hkeeps
  refine isBreak_of_endsLine ?_
  simpa using hkeeps.1

/-- A character other than a space, on its own or written twice. -/
theorem read_shown {x : Char} (hprint : isPrintable x = true) (hline : isBreak x = false)
    (hspace : x ≠ ' ') (l : Nat) {c : Nat} (hc : 0 < c) (t : List Char) :
    ∃ c', 0 < c' ∧ read gap (place l c ((if x = '\'' then ['\'', '\''] else [x]) ++ t) ++ rest) =
      (read .none (place l c' t ++ rest)).map fun r => (gap.text ++ x :: r.1, r.2) := by
  have hdark : isSpace x = false := isSpace_eq_false hprint hline hspace
  by_cases hquote : x = '\''
  · refine ⟨c + 1 + 1, Nat.succ_pos _, ?_⟩
    rw [if_pos hquote, List.cons_append, List.cons_append, place_cons rfl, place_cons rfl,
      List.nil_append, List.cons_append, List.cons_append, read_twice rfl rfl, hquote]
  · refine ⟨c + 1, Nat.succ_pos _, ?_⟩
    rw [if_neg hquote, List.cons_append, place_cons hline, List.nil_append, List.cons_append,
      read_char hdark hc hquote]

/-- A line end within a text begins a gap or goes on with it. -/
theorem read_body_break {x : Char} (hbreak : isBreak x = true) (margin l c : Nat) (fresh : Bool)
    (text : List Char) :
    read gap (place l c (body margin fresh (x :: text)) ++ rest) =
      read (gap.add x) (place (l + 1) 0 (body margin true text) ++ rest) := by
  have hspace : isSpace x = true := by rw [isSpace, hbreak, Bool.or_true]
  rw [body, if_pos hbreak, place_cons_break hbreak, List.cons_append, read_space hspace]

/-- A text is read up to its closing quote, from within a line after blanks, and from the beginning of
a line after line ends. -/
theorem read_body {margin : Nat} (hmargin : 0 < margin) (hg : g.char = '\'')
    (hrest : isNext '\'' rest = false) {text : List Char} (h : Sound text) (l : Nat) :
    (∀ kept c, 0 < c → (kept ≠ [] → ∀ y, text.head? = some y → isBreak y = false) →
      read (.blanks kept) (place l c (body margin false text) ++ g :: rest) =
        some (kept ++ text, rest)) ∧
    ∀ b more, b ≠ '\n' → text.head? ≠ some ' ' →
      read (.breaks (some b) more) (place l 0 (body margin true text) ++ g :: rest) =
        some (b :: more ++ text, rest) := by
  induction text generalizing l with
  | nil =>
      refine ⟨fun kept c _ _ => ?_, fun b more hb _ => ?_⟩
      · show read _ (g :: rest) = _
        rw [read_quote hg hrest, List.append_nil]
        rfl
      · show read _ (place l 0 (spaces margin) ++ g :: rest) = _
        rw [read_margin, read_quote hg hrest, Gap.text, if_neg (by simpa using hb)]
        simp
  | cons x text ih =>
      have hx := h.shown x List.mem_cons_self
      by_cases hbreak : isBreak x = true
      · have hnext := (ih h.tail (l + 1)).2
        refine ⟨fun kept c _ hkept => ?_, fun b more hb _ => ?_⟩
        · have hnone : kept = [] := Decidable.byContradiction fun hne =>
            Bool.false_ne_true ((hkept hne x rfl).symm.trans hbreak)
          rw [read_body_break hbreak, hnone, Gap.add, if_pos hbreak,
            hnext x [] hx.2 (h.head?_ne_space hbreak)]
          rfl
        · rw [read_body_break hbreak, Gap.add, if_pos hbreak,
            hnext b (more ++ [x]) hb (h.head?_ne_space hbreak)]
          simp
      · have hline : isBreak x = false := Bool.eq_false_iff.mpr hbreak
        -- the character itself, once the margin is behind
        have hchar : x ≠ ' ' → ∀ gap c, 0 < c → read gap (place l c ((if x = '\'' then ['\'', '\'']
            else [x]) ++ body margin false text) ++ g :: rest) =
              some (gap.text ++ x :: text, rest) := by
          intro hx' gap c hc
          obtain ⟨c', hc', hread⟩ := read_shown hx.1 hline hx' l hc (body margin false text)
          rw [hread, Gap.none, (ih h.tail l).1 [] c' hc' fun h => absurd rfl h]
          rfl
        refine ⟨fun kept c hc _ => ?_, fun b more hb hspace => ?_⟩
        · rw [body, if_neg hbreak, if_neg Bool.false_ne_true, List.nil_append]
          by_cases hx' : x = ' '
          · have hgo := (ih h.tail l).1 (kept ++ [' ']) (c + 1) (Nat.succ_pos _)
              fun _ y hy => (hx' ▸ h).head?_isBreak hy
            rw [hx', if_neg (by decide), List.cons_append, place_cons rfl, List.nil_append,
              List.cons_append, read_space rfl]
            show read (.blanks (kept ++ [' '])) _ = _
            rw [hgo]
            simp
          · exact hchar hx' _ c hc
        · have hx' : x ≠ ' ' := fun heq => hspace (congrArg some heq)
          rw [body, if_neg hbreak, if_pos rfl, List.append_assoc, place_spaces_append,
            List.append_assoc, read_margin, hchar hx' _ _ (by omega), Gap.text,
            if_neg (by simpa using hb)]
          simp

/-- **SINGLE QUOTES**: a text without line feeds is read from between them. -/
theorem read_write {margin : Nat} (hmargin : 0 < margin) (hg : g.char = '\'')
    (hrest : isNext '\'' rest = false) {text : List Char} (h : isSingle text = true)
    (hfeed : '\n' ∉ text) (l : Nat) {c : Nat} (hc : 0 < c) :
    read .none (place l c (body margin false text) ++ g :: rest) = some (text, rest) := by
  rw [isSingle, Bool.and_eq_true, List.all_eq_true] at h
  have hsound : Sound text := by
    refine ⟨fun x hx => ⟨h.1 x hx, ?_⟩, h.2⟩
    rintro rfl
    exact hfeed hx
  exact (read_body hmargin hg hrest hsound l).1 [] c hc fun h => absurd rfl h

end Single

/-! ## Double quotes -/

namespace Double

/-! ### Escapes -/

theorem isPrintable_digitChar : ∀ d, d < 16 →
    isPrintable (Decimal.digitChar d).toUpper = true ∧
      isBreak (Decimal.digitChar d).toUpper = false := by
  decide

/-- Every character of a number is a digit. -/
theorem digitsIn_digits {base : Nat} (hbase : 2 ≤ base) (n : Nat) :
    ∀ x ∈ Decimal.digitsIn base n, ∃ d, d < base ∧ x = Decimal.digitChar d := by
  induction n using Nat.strongRecOn with
  | ind n ih =>
      intro x hx
      rw [Decimal.digitsIn] at hx
      by_cases hn : n < base
      · rw [dif_pos (.inl hn), List.mem_singleton] at hx
        exact ⟨n, hn, hx⟩
      · rw [dif_neg (by omega), List.mem_append, List.mem_singleton] at hx
        rcases hx with hx | hx
        · exact ih _ (Nat.div_lt_self (by omega) hbase) x hx
        · exact ⟨n % base, Nat.mod_lt n (by omega), hx⟩

theorem hex_shown (width n : Nat) : ∀ x ∈ hex width n, isPrintable x = true ∧ isBreak x = false := by
  intro x hx
  rw [hex, List.mem_append] at hx
  rcases hx with hx | hx
  · rw [List.eq_of_mem_replicate hx]
    exact ⟨rfl, rfl⟩
  · obtain ⟨y, hy, rfl⟩ := List.mem_map.mp hx
    obtain ⟨d, hd, rfl⟩ := digitsIn_digits (by decide) n y hy
    exact isPrintable_digitChar d hd

theorem length_hex {width n : Nat} (hwidth : 0 < width) (hn : n < 16 ^ width) :
    (hex width n).length = width := by
  have hle := @Decimal.length_digitsIn_le 16 (by decide) width n hwidth hn
  rw [hex, List.length_append, List.length_replicate, List.length_map]
  omega

/-- The digits of a character's number stand for the character. -/
theorem numbered_hex (width : Nat) (c : Char) : numbered (hex width c.toNat) = some c := by
  have hspell : ∀ d, d < 16 → Decimal.digitValue (Decimal.digitChar d).toUpper = some d := by
    decide
  have hread : Decimal.read 16 (hex width c.toNat) = some c.toNat := by
    have hne : hex width c.toNat ≠ [] := by
      rw [hex]
      refine List.append_ne_nil_of_right_ne_nil _ fun h => ?_
      exact Decimal.digitsIn_ne_nil 16 c.toNat (List.map_eq_nil_iff.mp h)
    rw [Decimal.read, if_neg (by simpa using hne), hex, Decimal.readDigits_zeros 16 _ (by decide)]
    exact Decimal.readDigits_digitsIn (by decide) hspell c.toNat
  have hvalid : c.toNat < 0xD800 ∨ 0xDFFF < c.toNat ∧ c.toNat < 0x110000 := c.valid
  have htest : (c.toNat < 0xD800 || (0xDFFF < c.toNat && c.toNat ≤ 0x10FFFF)) = true := by
    rw [Bool.or_eq_true, Bool.and_eq_true, decide_eq_true_eq, decide_eq_true_eq, decide_eq_true_eq]
    omega
  rw [numbered, hread]
  show (if _ then some (Char.ofNat c.toNat) else none) = some c
  rw [if_pos htest, Char.ofNat_toNat]

/-- The letters of named escapes, each with the character that it names. -/
theorem escapes_named : ∀ e ∈ escapes, escaped e.1 = some e.2 ∧ isPrintable e.1 = true ∧
    isBreak e.1 = false := by
  decide

/-- The ways in which a character is written: as itself, by its name, or by its number. -/
inductive Escapes (c : Char) : List Char → Prop
  | itself (print : isPrintable c = true) (line : isBreak c = false) (quote : c ≠ '"')
      (slash : c ≠ '\\') : Escapes c [c]
  | named {e} (name : escaped e = some c) (print : isPrintable e = true)
      (line : isBreak e = false) : Escapes c ['\\', e]
  | numbered {e n digits} (count : digitCount e = some n) (unnamed : escaped e = none)
      (print : isPrintable e = true) (line : isBreak e = false) (size : digits.length = n)
      (shown : ∀ x ∈ digits, isPrintable x = true ∧ isBreak x = false)
      (value : Double.numbered digits = some c) : Escapes c ('\\' :: e :: digits)

theorem escapes_escapeNumber (c : Char) : Escapes c (escapeNumber c.toNat) := by
  have hvalid : c.toNat < 0x110000 := by
    have := c.valid
    rw [show c.val.isValidChar = c.toNat.isValidChar from rfl, Nat.isValidChar] at this
    omega
  unfold escapeNumber
  split
  · exact .numbered (n := 2) rfl rfl rfl rfl (length_hex (by decide) (by omega)) (hex_shown _ _)
      (numbered_hex 2 c)
  split
  · exact .numbered (n := 4) rfl rfl rfl rfl (length_hex (by decide) (by omega)) (hex_shown _ _)
      (numbered_hex 4 c)
  · exact .numbered (n := 8) rfl rfl rfl rfl (length_hex (by decide) (by omega)) (hex_shown _ _)
      (numbered_hex 8 c)

theorem escapes_escape (c : Char) : Escapes c (escape c) := by
  unfold escape
  split
  · next h =>
    simp only [Bool.and_eq_true, Bool.not_eq_true', decide_eq_true_eq] at h
    exact .itself h.1.1.1 (isBreak_of_endsLine h.1.1.2) h.1.2 h.2
  · split
    · next e he =>
      obtain ⟨hname, hprint, hline⟩ := escapes_named e (List.mem_of_find?_eq_some he)
      have hc : e.2 = c := of_decide_eq_true (List.find?_some (p := fun e : Char × Char => decide (e.2 = c)) he)
      exact .named (hc ▸ hname) hprint hline
    · exact escapes_escapeNumber c

/-- What is written between double quotes is printable and stays on its line. -/
theorem Escapes.shown {c : Char} {text : List Char} (h : Escapes c text) :
    ∀ x ∈ text, isPrintable x = true ∧ isBreak x = false := by
  intro x hx
  cases h with
  | itself print line quote slash =>
      rw [List.mem_singleton.mp hx]
      exact ⟨print, line⟩
  | named name print line =>
      rcases List.mem_cons.mp hx with rfl | hx
      · exact ⟨rfl, rfl⟩
      · rw [List.mem_singleton.mp hx]
        exact ⟨print, line⟩
  | numbered count unnamed print line size shown value =>
      rcases List.mem_cons.mp hx with rfl | hx
      · exact ⟨rfl, rfl⟩
      rcases List.mem_cons.mp hx with rfl | hx
      · exact ⟨print, line⟩
      · exact shown x hx

theorem flatMap_shown (text : List Char) :
    ∀ x ∈ text.flatMap escape, isPrintable x = true ∧ isBreak x = false := by
  intro x hx
  obtain ⟨c, -, hc⟩ := List.mem_flatMap.mp hx
  exact (escapes_escape c).shown x hc

/-! ### Reading -/

theorem read_space (h : isSpace g.char = true) :
    read gap (g :: rest) = read (gap.add g.char) rest := by
  rw [read.eq_def]
  simp only [if_pos h]

theorem read_char (hdark : isSpace g.char = false) (hcolumn : 0 < g.column) (hquote : g.char ≠ '"')
    (hslash : g.char ≠ '\\') :
    read gap (g :: rest) = (read .none rest).map fun r => (gap.text ++ g.char :: r.1, r.2) := by
  rw [read.eq_def]
  simp only [if_neg (Bool.eq_false_iff.mp hdark), if_neg hquote, if_neg hslash,
    atBoundary_of_column hcolumn]
  cases read .none rest with
  | none => rfl
  | some r => rfl

theorem read_quote (hg : g.char = '"') : read gap (g :: rest) = some (gap.text, rest) := by
  have hdark : isSpace g.char = false := by rw [hg]; rfl
  have hinside := atBoundary_of_char (g := g) (by rw [hg]; decide) (by rw [hg]; decide) rest
  rw [read.eq_def]
  simp only [if_neg (Bool.eq_false_iff.mp hdark), hinside, if_pos hg]
  rfl

theorem read_named {h : Glyph} {c : Char} (hg : g.char = '\\') (hline : isBreak h.char = false)
    (hname : escaped h.char = some c) :
    read gap (g :: h :: rest) = (read .none rest).map fun r => (gap.text ++ c :: r.1, r.2) := by
  have hdark : isSpace g.char = false := by rw [hg]; rfl
  have hquote : g.char ≠ '"' := by rw [hg]; decide
  have hinside := atBoundary_of_char (g := g) (by rw [hg]; decide) (by rw [hg]; decide) (h :: rest)
  rw [read.eq_def]
  simp only [if_neg (Bool.eq_false_iff.mp hdark), hinside, if_neg hquote, if_pos hg,
    if_neg (Bool.eq_false_iff.mp hline), hname]
  cases read .none rest with
  | none => rfl
  | some r => rfl

theorem read_numbered {h : Glyph} {n : Nat} {digits : List Glyph} {c : Char} (hg : g.char = '\\')
    (hline : isBreak h.char = false) (hname : escaped h.char = none)
    (hcount : digitCount h.char = some n) (hsize : digits.length = n)
    (hvalue : numbered (chars digits) = some c) :
    read gap (g :: h :: (digits ++ rest)) =
      (read .none rest).map fun r => (gap.text ++ c :: r.1, r.2) := by
  have hdark : isSpace g.char = false := by rw [hg]; rfl
  have hquote : g.char ≠ '"' := by rw [hg]; decide
  have hinside := atBoundary_of_char (g := g) (by rw [hg]; decide) (by rw [hg]; decide)
    (h :: (digits ++ rest))
  have hlength : (chars digits).length = n := (List.length_map _).trans hsize
  rw [read.eq_def]
  simp only [if_neg (Bool.eq_false_iff.mp hdark), hinside, if_neg hquote, if_pos hg,
    if_neg (Bool.eq_false_iff.mp hline), hname, hcount, List.take_left' hsize,
    List.drop_left' hsize, if_pos hlength, hvalue]
  cases read .none rest with
  | none => rfl
  | some r => rfl

/-- The escape of a character is read as the character; a space waits for what follows it. -/
theorem read_escape {c : Char} {text : List Char} (h : Escapes c text) (hspace : c = ' ' → text ≠ [c])
    (l : Nat) {column : Nat} (hcolumn : 0 < column) :
    read gap (place l column text ++ rest) =
      (read .none rest).map fun r => (gap.text ++ c :: r.1, r.2) := by
  cases h with
  | itself print line quote slash =>
      have hdark : isSpace c = false := isSpace_eq_false print line fun hc => hspace hc rfl
      rw [place_cons line]
      exact read_char hdark hcolumn quote slash
  | named name print line =>
      rw [place_cons rfl, place_cons line]
      exact read_named rfl line name
  | numbered count unnamed print line size shown value =>
      rw [place_cons rfl, place_cons line, List.cons_append, List.cons_append]
      exact read_numbered rfl line unnamed count (by rw [length_place, size]) (by rwa [chars_place])

theorem read_append (hg : g.char = '"') (text : List Char) (l : Nat) {c : Nat} (hc : 0 < c)
    (kept : List Char) :
    read (.blanks kept) (place l c (text.flatMap escape) ++ g :: rest) =
      some (kept ++ text, rest) := by
  induction text generalizing c kept with
  | nil =>
      show read _ (g :: rest) = _
      rw [read_quote hg, List.append_nil]
      rfl
  | cons x text ih =>
      have hescapes := escapes_escape x
      have hnext := fun kept => ih (c := c + (escape x).length) (by omega) kept
      rw [List.flatMap_cons, place_append_of_line l c (fun y hy => (hescapes.shown y hy).2),
        List.append_assoc]
      by_cases hspace : x = ' ' ∧ escape x = [x]
      · obtain ⟨rfl, hself⟩ := hspace
        rw [hself] at hnext ⊢
        rw [place_cons rfl, List.cons_append, read_space rfl]
        exact (hnext (kept ++ [' '])).trans (by simp)
      · rw [read_escape hescapes (fun hx hself => hspace ⟨hx, hself⟩) l hc, Gap.none, hnext]
        rfl

/-- **DOUBLE QUOTES**: every text is read from between them. -/
theorem read_write (hg : g.char = '"') (text : List Char) (l : Nat) {c : Nat} (hc : 0 < c) :
    read .none (place l c (text.flatMap escape) ++ g :: rest) = some (text, rest) :=
  read_append hg text l hc []

end Double

end Lapse.Yaml
