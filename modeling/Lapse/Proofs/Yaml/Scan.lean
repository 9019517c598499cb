import Lapse.Proofs.Yaml.Scalar

/-!
# Scanning what is written

A scan leads to another one when both end with the same tokens.  Each piece of a written text leads
the scanner on to what follows the piece: a scalar or a pair of brackets to the beginning of a line, a
dash or a key to the value after it.  What follows is arbitrary, except that after the end of a line the
next word must stand left of the floor of the margins that are open, so that nothing goes on with it.
-/

namespace Lapse.Yaml

/-- The least column of text inside margins. -/
def floorOf : List Nat → Nat
  | [] => 0
  | margin :: _ => margin + 1

namespace Scan

/-! ## Leading on -/

variable {s s' s'' : Scan}

/-- A scan leads to another one: they have the same tokens in the end, and no token on the way there
came without a glyph. -/
def Leads (s s' : Scan) : Prop :=
  ∃ n, s'.input.length + n ≤ s.input.length ∧ ∀ fuel, run (fuel + 1 + n) s = run (fuel + 1) s'

theorem Leads.refl (s : Scan) : Leads s s := ⟨0, Nat.le_refl _, fun _ => rfl⟩

theorem Leads.trans (h : Leads s s') (h' : Leads s' s'') : Leads s s'' := by
  obtain ⟨m, hm, hrun⟩ := h
  obtain ⟨n, hn, hrun'⟩ := h'
  refine ⟨n + m, by omega, fun fuel => ?_⟩
  rw [show fuel + 1 + (n + m) = fuel + n + 1 + m by omega, hrun,
    show fuel + n + 1 = fuel + 1 + n by omega, hrun']

/-- Scans that are the same once white space is skipped. -/
theorem Leads.of_skip (h : s.skip = s'.skip) (hlength : s'.input.length ≤ s.input.length) :
    Leads s s' :=
  ⟨0, hlength, fun fuel => by rw [Nat.add_zero, run, run, h]⟩

theorem Leads.of_next {g : Glyph} {rest : List Glyph} (hskip : s.skip = s)
    (hinput : s.input = g :: rest) (hclose : s.close (· ≤ g.column) = s)
    (hnext : s.next g rest = some s') (hlength : s'.input.length ≤ rest.length) : Leads s s' := by
  refine ⟨1, by rw [hinput, List.length_cons]; omega, fun fuel => ?_⟩
  rw [run, hskip]
  simp only [hinput, hclose, hnext]
  rfl

/-- The tokens of a text that is scanned to its end. -/
theorem Leads.tokens {input : List Glyph} (h : Leads { input } s) (hend : s.input = []) :
    Yaml.tokens input = s.finish := by
  obtain ⟨n, hn, hrun⟩ := h
  have hskip : s.skip = s := by
    rw [skip, hend, blankRest]
    obtain ⟨_, _, _, _, _, _, _⟩ := s
    subst hend
    rfl
  have hlength : n ≤ input.length := by
    rw [hend] at hn
    exact Nat.le_trans (Nat.le_add_left _ _) hn
  rw [Yaml.tokens, show input.length + 1 = input.length - n + 1 + n by omega, hrun, run, hskip,
    hend]

/-! ## Outside brackets -/

variable {margins : List Nat} {tokens : List Token} {candidate : Option Candidate} {ready : Bool}
  {g : Glyph} {rest : List Glyph}

/-- A scan outside brackets, where no node has a name. -/
abbrev inBlock (margins : List Nat) (tokens : List Token) (candidate : Option Candidate)
    (ready : Bool) (input : List Glyph) : Scan :=
  { input, tokens, margins, candidate, ready }

theorem floor_inBlock (input : List Glyph) :
    (inBlock margins tokens candidate ready input).floor = floorOf margins := by
  cases margins with
  | nil => rfl
  | cons margin margins => rfl

theorem opens_inBlock (input : List Glyph) (column : Nat) :
    (inBlock margins tokens candidate ready input).opens column =
      decide (floorOf margins ≤ column) := by
  cases margins with
  | nil => rfl
  | cons margin margins => rfl

/-- Nothing is closed by what stands at or right of the innermost margin. -/
theorem close_inBlock {column : Nat} (h : floorOf margins ≤ column + 1) (input : List Glyph) :
    (inBlock margins tokens candidate ready input).close (· ≤ column) =
      inBlock margins tokens candidate ready input := by
  cases margins with
  | nil => rfl
  | cons margin margins =>
      have hstays : (!decide (margin ≤ column)) = false := by
        rw [decide_eq_true (Nat.le_of_succ_le_succ h)]
        rfl
      simp [close, inFlow, hstays]

/-! ### White space -/

theorem blankRest_begins (h : Begins g.char) (inFlow : Bool) :
    blankRest inFlow ready false (g :: rest) = (ready, g :: rest) := by
  obtain ⟨hdark, hplain, hmark⟩ := h
  simp only [isSpace, isBlank, Bool.or_eq_false_iff, decide_eq_false_iff_not] at hdark
  obtain ⟨⟨hspace, htab⟩, hline⟩ := hdark
  simp [blankRest, hline, hspace, htab, hmark, hplain]

theorem blankRest_ends {floor : Nat} (h : Ends floor rest) :
    blankRest false true false rest = (true, lead rest) := by
  induction h with
  | done => rfl
  | @space g rest char _ _ ih =>
      have hline : isBreak g.char = false := by rw [char]; rfl
      rw [blankRest, if_neg (Bool.eq_false_iff.mp hline), if_pos (by simp [char]), ih,
        lead_space char]
  | word begins _ => rw [blankRest_begins begins, lead_word begins.dark]

theorem skip_eq (s : Scan) :
    s.skip = { s with
      ready := (blankRest s.inFlow s.ready false s.input).1
      input := (blankRest s.inFlow s.ready false s.input).2 } := rfl

theorem skip_inBlock (input : List Glyph) :
    (inBlock margins tokens candidate ready input).skip =
      inBlock margins tokens candidate (blankRest false ready false input).1
        (blankRest false ready false input).2 := rfl

theorem skip_begins (h : Begins g.char) :
    (inBlock margins tokens candidate ready (g :: rest)).skip =
      inBlock margins tokens candidate ready (g :: rest) := by
  rw [skip_inBlock, blankRest_begins h]

/-- At the beginning of a line white space is skipped up to its first word. -/
theorem skip_lead {floor : Nat} (h : Ends floor rest) :
    (inBlock margins tokens candidate true (lead rest)).skip =
      inBlock margins tokens candidate true (lead rest) := by
  rcases h.lead_cases with hlead | ⟨g, after, hlead, hbegins, -⟩
  · rw [hlead]
    rfl
  · rw [hlead]
    exact skip_begins hbegins

theorem leads_space (h : g.char = ' ') :
    Leads (inBlock margins tokens candidate ready (g :: rest))
      (inBlock margins tokens candidate ready rest) := by
  have hline : isBreak g.char = false := by rw [h]; rfl
  refine .of_skip ?_ (Nat.le_succ _)
  rw [skip_inBlock, skip_inBlock, blankRest, if_neg (Bool.eq_false_iff.mp hline),
    if_pos (by simp [h])]

theorem leads_feed {floor : Nat} (h : g.char = '\n') (hends : Ends floor rest) :
    Leads (inBlock margins tokens candidate ready (g :: rest))
      (inBlock margins tokens candidate true (lead rest)) := by
  have hline : isBreak g.char = true := by rw [h]; rfl
  refine .of_skip ?_ (Nat.le_trans (length_lead_le rest) (Nat.le_succ _))
  rw [skip_lead hends, skip_inBlock, blankRest, if_pos hline, Bool.not_false, Bool.or_true, blankRest_ends hends]

/-! ### Margins -/

/-- How the items of a list or the entries of a map at a column come to stand there: the first one
opens the margin with a token, and the others find it open. -/
inductive Enters (column : Nat) (margins : List Nat) (t : Token) : List Nat → List Token → Prop
  | first (h : floorOf margins ≤ column) : Enters column margins t margins [t]
  | next : Enters column margins t (column :: margins) []

variable {column : Nat} {outside : List Nat} {t : Token} {opening : List Token}

theorem Enters.floor_le (h : Enters column outside t margins opening) :
    floorOf margins ≤ column + 1 := by
  cases h with
  | first h => exact Nat.le_succ_of_le h
  | next => exact Nat.le_refl _

theorem Enters.openAt (h : Enters column outside t margins opening) (input : List Glyph) :
    (inBlock margins tokens candidate ready input).openAt column t =
      inBlock (column :: outside) (opening ++ tokens) candidate ready input := by
  rw [Scan.openAt, opens_inBlock]
  cases h with
  | first h => rw [decide_eq_true h, if_pos rfl]; rfl
  | next => rw [decide_eq_false (by simp [floorOf]), if_neg Bool.false_ne_true]; rfl

/-! ### Candidates -/

/-- A candidate on a line before this one, where no key had to be: it is given up without harm. -/
def Stale (line : Nat) (candidate : Option Candidate) : Prop :=
  ∀ c, candidate = some c → c.required = false ∧ c.line < line

variable {line : Nat}

theorem stale_none (line : Nat) : Stale line none := nofun

theorem Stale.mono {line' : Nat} (h : Stale line candidate) (hle : line ≤ line') :
    Stale line' candidate :=
  fun c hc => ⟨(h c hc).1, Nat.lt_of_lt_of_le (h c hc).2 hle⟩

theorem Stale.dropCandidate (h : Stale line candidate) (input : List Glyph) :
    (inBlock margins tokens candidate ready input).dropCandidate =
      some (inBlock margins tokens none ready input) := by
  cases candidate with
  | none => rfl
  | some c =>
      show (if Option.any Candidate.required (some c) then none else _) = _
      rw [Option.any_some, (h c rfl).1, if_neg Bool.false_ne_true]

/-- The candidate after one is offered at a place. -/
def offered (margins : List Nat) (tokens : List Token) (candidate : Option Candidate)
    (ready : Bool) (line column : Nat) : Option Candidate :=
  if ready then some ⟨line, column, tokens.length, margins.head? = some column⟩ else candidate

theorem Stale.offer (h : Stale line candidate) (g : Glyph) (input : List Glyph) :
    (inBlock margins tokens candidate ready input).offer g =
      some (inBlock margins tokens (offered margins tokens candidate ready g.line g.column) ready
        input) := by
  cases ready with
  | false => rfl
  | true =>
      show (Scan.dropCandidate _).bind _ = _
      rw [h.dropCandidate]
      rfl

/-- Right of the innermost margin nothing has to be a key. -/
theorem Stale.offered (h : Stale (line + 1) candidate) (hcolumn : floorOf margins ≤ column) :
    Stale (line + 1) (offered margins tokens candidate ready line column) := by
  cases ready with
  | false => exact h
  | true =>
      intro c hc
      rw [← Option.some.inj hc]
      refine ⟨decide_eq_false fun hhead => ?_, Nat.lt_succ_self line⟩
      cases margins with
      | nil => exact nomatch hhead
      | cons margin margins =>
          have hmargin : margin = column := Option.some.inj hhead
          rw [floorOf] at hcolumn
          omega

/-! ## Indicators -/

/-- **DASHES**: the dash before an item opens the list if it is the first. -/
theorem leads_dash {next : Glyph} (h : Enters g.column outside .blockList margins opening)
    (hstale : Stale line candidate) (hchar : g.char = '-') (hspace : next.char = ' ') :
    Leads (inBlock margins tokens candidate true (g :: next :: rest))
      (inBlock (g.column :: outside) (.dash :: opening ++ tokens) none true rest) := by
  have hnext : (inBlock margins tokens candidate true (g :: next :: rest)).next g (next :: rest) =
      some (inBlock (g.column :: outside) (.dash :: opening ++ tokens) none true
        (next :: rest)) := by
    have hmarker : atMarker '-' (g :: next :: rest) = false :=
      atMarker_of_second (by rw [hspace]; decide) rest
    have hdot : atMarker '.' (g :: next :: rest) = false :=
      atMarker_of_char (by rw [hchar]; decide) _
    have hafter : atSpace (next :: rest) = true := by
      rw [atSpace, hspace]
      rfl
    simp [Scan.next, hchar, hmarker, hdot, hafter, dash, inFlow, h.openAt, hstale.dropCandidate, push]
  have hbegins : Begins g.char := by
    rw [hchar]
    decide
  exact (Leads.of_next (skip_begins hbegins) rfl (close_inBlock h.floor_le _) hnext
    (Nat.le_refl _)).trans (leads_space hspace)

/-- **QUESTION MARKS**: the question mark before a long key opens the map if it is the first. -/
theorem leads_question {next : Glyph} (h : Enters g.column outside .blockMap margins opening)
    (hstale : Stale line candidate) (hchar : g.char = '?') (hspace : next.char = ' ') :
    Leads (inBlock margins tokens candidate true (g :: next :: rest))
      (inBlock (g.column :: outside) (.key :: opening ++ tokens) none true rest) := by
  have hnext : (inBlock margins tokens candidate true (g :: next :: rest)).next g (next :: rest) =
      some (inBlock (g.column :: outside) (.key :: opening ++ tokens) none true
        (next :: rest)) := by
    have hmarker : ∀ c, c ≠ '?' → atMarker c (g :: next :: rest) = false :=
      fun c hc => atMarker_of_char (by rw [hchar]; exact hc.symm) _
    have hafter : atSpace (next :: rest) = true := by
      rw [atSpace, hspace]
      rfl
    simp [Scan.next, hchar, hmarker, hafter, question, inFlow, h.openAt, hstale.dropCandidate, push]
  have hbegins : Begins g.char := by
    rw [hchar]
    decide
  exact (Leads.of_next (skip_begins hbegins) rfl (close_inBlock h.floor_le _) hnext
    (Nat.le_refl _)).trans (leads_space hspace)

/-- **COLONS**: the colon after a long key stands on a line of its own, where the key was no
candidate any more. -/
theorem leads_colon {next : Glyph} (hstale : Stale g.line candidate) (hchar : g.char = ':')
    (hspace : next.char = ' ') :
    Leads (inBlock (g.column :: outside) tokens candidate true (g :: next :: rest))
      (inBlock (g.column :: outside) (.value :: tokens) none true rest) := by
  have hfilter : candidate.filter (Candidate.reaches · g) = none := by
    cases candidate with
    | none => rfl
    | some c =>
        have hline := (hstale c rfl).2
        have hreach : Candidate.reaches c g = false := by
          rw [Candidate.reaches, decide_eq_false (Nat.ne_of_lt hline), Bool.false_and]
        rw [Option.filter_some, hreach, if_neg Bool.false_ne_true]
  have hopen : Enters g.column outside .blockMap (g.column :: outside) [] := .next
  have hnext : (inBlock (g.column :: outside) tokens candidate true (g :: next :: rest)).next g
      (next :: rest) = some (inBlock (g.column :: outside) (.value :: tokens) none true
        (next :: rest)) := by
    have hmarker : ∀ c, c ≠ ':' → atMarker c (g :: next :: rest) = false :=
      fun c hc => atMarker_of_char (by rw [hchar]; exact hc.symm) _
    have hafter : atSpace (next :: rest) = true := by
      rw [atSpace, hspace]
      rfl
    simp [Scan.next, hchar, hmarker, hafter, colon, hfilter, inFlow, hopen.openAt,
      hstale.dropCandidate, push]
  have hbegins : Begins g.char := by
    rw [hchar]
    decide
  exact (Leads.of_next (skip_begins hbegins) rfl (close_inBlock hopen.floor_le _) hnext
    (Nat.le_refl _)).trans (leads_space hspace)

/-- The two kinds of brackets. -/
inductive Brackets : Char → Char → Token → Token → Prop
  | square : Brackets '[' ']' .leftBracket .rightBracket
  | curly : Brackets '\x7b' '\x7d' .leftBrace .rightBrace

/-- **BRACKETS**: brackets with nothing between them are two tokens. -/
theorem leads_brackets {a b : Char} {t u : Token} (h : Brackets a b t u) {l c : Nat}
    (hstale : Stale line candidate) (hfloor : floorOf margins ≤ c + 1) :
    Leads (inBlock margins tokens candidate ready (⟨a, l, c⟩ :: ⟨b, l, c + 1⟩ :: rest))
      (inBlock margins (u :: t :: tokens) (offered margins tokens candidate ready l c) false
        rest) := by
  -- between the brackets the candidate waits outside
  let inner : Scan :=
    { inBlock margins (t :: tokens) none true (⟨b, l, c + 1⟩ :: rest) with
      outer := [offered margins tokens candidate ready l c] }
  have hleft : Leads (inBlock margins tokens candidate ready (⟨a, l, c⟩ :: ⟨b, l, c + 1⟩ :: rest))
      inner := by
    have hbegins : Begins a := by cases h <;> decide
    refine Leads.of_next (skip_begins hbegins) rfl (close_inBlock hfloor _) ?_ (Nat.le_refl _)
    cases h <;> simp [Scan.next, atMarker_of_char, openBracket, hstale.offer, push, inner]
  have hright : Leads inner (inBlock margins (u :: t :: tokens)
      (offered margins tokens candidate ready l c) false rest) := by
    refine Leads.of_next ?_ rfl rfl ?_ (Nat.le_refl _)
    · have hbegins : Begins b := by cases h <;> decide
      rw [skip_eq, blankRest_begins hbegins]
    · cases h <;>
        simp [Scan.next, atMarker_of_char, closeBracket, Scan.dropCandidate, push, inner]
  exact hleft.trans hright

end Scan

end Lapse.Yaml
