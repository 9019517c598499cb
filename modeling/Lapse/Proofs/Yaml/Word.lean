import Lapse.Proofs.Yaml.Scan

/-!
# Scanning scalars

A scalar in its style is read as its text.  At the end of its line it leads to the beginning of the next
one; as a key on one line it leads past its colon, where its place is found among the candidates and the
tokens of the key are put in before it.
-/

namespace Lapse.Yaml.Scan

variable {margins : List Nat} {tokens : List Token} {candidate : Option Candidate} {ready : Bool}
  {line l c margin : Nat} {text : List Char} {after : List Glyph}

/-! ## Plain scalars -/

/-- A text that begins like no marker is none, whatever follows it. -/
theorem atMarker_place {x : Char} (hmarker : [x, x, x].isPrefixOf text = false) (hne : text ≠ [])
    (hline : ∀ y ∈ text, isBreak y = false) (hafter : ∀ g, after.head? = some g → g.char ≠ x) :
    atMarker x (place l c text ++ after) = false := by
  cases text with
  | nil => exact absurd rfl hne
  | cons a text =>
  rw [place_cons (hline a List.mem_cons_self), List.cons_append]
  cases text with
  | nil =>
      cases after with
      | nil => rfl
      | cons g after => exact atMarker_of_second (hafter g rfl) after
  | cons b text =>
  rw [place_cons (hline b (by simp)), List.cons_append]
  cases text with
  | nil =>
      cases after with
      | nil => rfl
      | cons g after =>
          have hg : g.char ≠ x := hafter g rfl
          simp [atMarker, place, hg]
  | cons d text =>
      rw [place_cons (hline d (by simp)), List.cons_append]
      by_cases ha : a = x
      · by_cases hb : b = x
        · have hd : d ≠ x := by
            rintro rfl
            simp [ha, hb] at hmarker
          simp [atMarker, hd]
        · exact atMarker_of_second hb _
      · exact atMarker_of_char ha _

/-- In a plain scalar something is attached to an indicator that it begins with. -/
theorem atSpace_of_isPlain {x : Char} (hplain : Plain.isPlain (x :: text) = true)
    (hx : ['-', '?', ':'].contains x = true) : atSpace (place l c text ++ after) = false := by
  obtain ⟨hstarts, -, -, -, hshown⟩ := Plain.of_isPlain hplain
  rw [Plain.startsPlain, hx, Bool.true_and, Bool.and_eq_true, Bool.not_eq_true'] at hstarts
  cases text with
  | nil => cases hstarts.2
  | cons y text =>
      obtain ⟨hprint, hline⟩ := hshown y (by simp)
      rw [place_cons hline]
      exact isSpace_eq_false hprint hline (of_decide_eq_false hstarts.2)

/-- Where nothing else begins, a plain scalar does. -/
theorem next_plain {g : Glyph} {rest : List Glyph} (hdash : atMarker '-' (g :: rest) = false)
    (hdot : atMarker '.' (g :: rest) = false) (hdark : isSpace g.char = false)
    (hindicator : Plain.indicators.contains g.char = false)
    (hattached : ['-', '?', ':'].contains g.char = true → atSpace rest = false) :
    (inBlock margins tokens candidate ready (g :: rest)).next g rest =
      (inBlock margins tokens candidate ready (g :: rest)).plain g := by
  obtain ⟨x, l, c⟩ := g
  by_cases hx : ['-', '?', ':'].contains x = true
  · have hsolid := hattached hx
    have hblank : (rest.head?.map fun g => isBlank g.char).getD false = false := by
      cases rest with
      | nil => rfl
      | cons g rest =>
          rw [atSpace, isSpace, Bool.or_eq_false_iff] at hsolid
          exact hsolid.1
    simp only [List.contains_cons, Bool.or_eq_true, beq_iff_eq, List.contains_nil,
      Bool.false_eq_true, or_false] at hx
    rcases hx with rfl | rfl | rfl
    · simp [Scan.next, hdash, hdot, hsolid, Plain.starts, hblank, inFlow]
    · simp [Scan.next, hdash, hdot, hsolid, Plain.starts, inFlow]
    · simp [Scan.next, hdash, hdot, hsolid, Plain.starts, inFlow]
  · simp only [List.contains_cons, Bool.or_eq_true, beq_iff_eq, List.contains_nil,
      Bool.false_eq_true, or_false, not_or] at hx
    have hstart : Plain.starts false (⟨x, l, c⟩ :: rest) = true := by
      rw [Plain.starts, if_neg hx.1, if_neg (by simp [hx]), hdark, hindicator]
      rfl
    simp only [Plain.indicators, List.contains_cons, Bool.or_eq_false_iff, beq_eq_false_iff_ne,
      List.contains_nil, and_true] at hindicator
    simp [Scan.next, hdash, hdot, hstart, hindicator, hx, inFlow]

/-- A plain scalar, as far as it is read. -/
theorem leads_plain (hplain : Plain.isPlain text = true) (hstale : Stale line candidate)
    (hfloor : floorOf margins ≤ c + 1)
    (hafter : ∀ h, after.head? = some h → h.char ≠ '-' ∧ h.char ≠ '.') {broken : Bool}
    {rest : List Glyph} (hrest : rest.length ≤ after.length)
    (hread : Plain.read false (floorOf margins) .none (place l c text ++ after) =
      some (text, broken, rest)) :
    Leads (inBlock margins tokens candidate ready (place l c text ++ after))
      (inBlock margins (.scalar .plain text :: tokens)
        (offered margins tokens candidate ready l c) broken rest) := by
  obtain ⟨hstarts, hmarker, -, -, hshown⟩ := Plain.of_isPlain hplain
  have hline : ∀ y ∈ text, isBreak y = false := fun y hy => (hshown y hy).2
  rw [Plain.startsMarker, Bool.or_eq_false_iff] at hmarker
  cases text with
  | nil => exact nomatch hstarts
  | cons x text =>
      have hdash := @atMarker_place l c (x :: text) after '-' hmarker.1 (List.cons_ne_nil _ _) hline
        fun h hh => (hafter h hh).1
      have hdot := @atMarker_place l c (x :: text) after '.' hmarker.2 (List.cons_ne_nil _ _) hline
        fun h hh => (hafter h hh).2
      rw [place_cons (hline x List.mem_cons_self), List.cons_append] at hread hdash hdot ⊢
      refine Leads.of_next (skip_begins (Plain.begins hplain)) rfl (close_inBlock hfloor _) ?_ ?_
      · have hindicator : Plain.indicators.contains x = false := by
          simp only [Plain.startsPlain, Bool.and_eq_true, Bool.not_eq_true'] at hstarts
          exact hstarts.1.2
        rw [next_plain hdash hdot (Plain.begins hplain).dark hindicator
          fun hx => atSpace_of_isPlain hplain hx]
        show (Scan.offer _ _).bind _ = _
        rw [hstale.offer, Option.bind_some]
        show (Plain.read false (floor _) .none _).bind _ = _
        rw [floor_inBlock, hread]
        rfl
      · rw [List.length_append]
        exact Nat.le_trans hrest (Nat.le_add_left _ _)

/-! ## Quoted scalars -/

/-- A scalar between two quotes is scanned once what is between them can be read. -/
theorem leads_quoted {q : Char} {style : Style} {body : List Char}
    {read : List Glyph → Option (List Char × List Glyph)} (hquote : Begins q)
    (hbreak : isBreak q = false)
    (hnext : ∀ (s : Scan) rest, s.next ⟨q, l, c⟩ rest = do
      let s ← s.offer ⟨q, l, c⟩
      let (text, rest) ← read rest
      some ({ s with ready := false, input := rest }.push (.scalar style text)))
    (hread : read (place l (c + 1) body ++
      ⟨q, lineAfter l body, columnAfter (c + 1) body⟩ :: after) = some (text, after))
    (hstale : Stale line candidate) (hfloor : floorOf margins ≤ c + 1) :
    Leads (inBlock margins tokens candidate ready (place l c (q :: body ++ [q]) ++ after))
      (inBlock margins (.scalar style text :: tokens)
        (offered margins tokens candidate ready l c) false after) := by
  have hinput : place l c (q :: body ++ [q]) ++ after = ⟨q, l, c⟩ ::
      (place l (c + 1) body ++ ⟨q, lineAfter l body, columnAfter (c + 1) body⟩ :: after) := by
    rw [List.cons_append, place_cons hbreak, place_append, place_cons hbreak, List.cons_append,
      List.append_assoc]
    rfl
  rw [hinput]
  refine Leads.of_next (skip_begins hquote) rfl (close_inBlock hfloor _) ?_ ?_
  · rw [hnext]
    show (Scan.offer _ _).bind _ = _
    rw [hstale.offer, Option.bind_some]
    show (read _).bind _ = _
    rw [hread]
    rfl
  · show after.length ≤ _
    rw [List.length_append, List.length_cons]
    omega

theorem leads_single (hsingle : Single.isSingle text = true) (hfeed : '\n' ∉ text)
    (hmargin : 0 < margin) (hstale : Stale line candidate) (hfloor : floorOf margins ≤ c + 1)
    (hafter : isNext '\'' after = false) :
    Leads (inBlock margins tokens candidate ready (place l c (Single.write margin text) ++ after))
      (inBlock margins (.scalar .single text :: tokens)
        (offered margins tokens candidate ready l c) false after) := by
  have hnext : ∀ (s : Scan) rest, s.next ⟨'\'', l, c⟩ rest = s.single ⟨'\'', l, c⟩ rest := by
    intro s rest
    simp [Scan.next, atMarker_of_char]
  exact leads_quoted (by decide) rfl hnext
    (Single.read_write hmargin rfl hafter hsingle hfeed l (Nat.succ_pos c)) hstale hfloor

theorem leads_double (hstale : Stale line candidate) (hfloor : floorOf margins ≤ c + 1) :
    Leads (inBlock margins tokens candidate ready (place l c (Double.write text) ++ after))
      (inBlock margins (.scalar .double text :: tokens)
        (offered margins tokens candidate ready l c) false after) := by
  have hnext : ∀ (s : Scan) rest, s.next ⟨'"', l, c⟩ rest = s.double ⟨'"', l, c⟩ rest := by
    intro s rest
    simp [Scan.next, atMarker_of_char]
  exact leads_quoted (by decide) rfl hnext (Double.read_write rfl text l (Nat.succ_pos c)) hstale
    hfloor

/-! ## Block scalars -/

/-- The column from which the margin of a block scalar is counted. -/
def baseOf (margins : List Nat) : Nat := margins.head?.getD 0

theorem leads_literal (hblock : Block.isBlock text = true) (hne : text ≠ [])
    (hstale : Stale line candidate) (hfloor : floorOf margins ≤ c + 1)
    (hafter : Ends (floorOf margins) after) :
    Leads (inBlock margins tokens candidate ready
        (place l c ('|' :: blockLine (baseOf margins + 2) text) ++ after))
      (inBlock margins (.scalar .literal text :: tokens) none true (lead after)) := by
  have hbase : floorOf margins ≤ baseOf margins + 2 := by
    cases margins with
    | nil => exact Nat.zero_le _
    | cons margin margins => exact Nat.le_succ _
  have hread := Block.read_write hbase hne (Block.printable_of_isBlock hblock) hafter l (c + 1)
  rw [place_cons rfl, List.cons_append]
  refine Leads.of_next (skip_begins (show Begins '|' by decide)) rfl (close_inBlock hfloor _) ?_ ?_
  · have hnext : ∀ rest, (inBlock margins tokens candidate ready (⟨'|', l, c⟩ :: rest)).next
        ⟨'|', l, c⟩ rest = (inBlock margins tokens candidate ready (⟨'|', l, c⟩ :: rest)).block
          rest .literal := by
      intro rest
      simp [Scan.next, atMarker_of_char, inFlow]
    rw [hnext]
    show (Scan.dropCandidate _).bind _ = _
    rw [hstale.dropCandidate, Option.bind_some]
    show (Block.read false (floor _) (baseOf margins) _).bind _ = _
    rw [floor_inBlock, blockLine, hread]
    rfl
  · rw [List.length_append]
    exact Nat.le_trans (length_lead_le after) (Nat.le_add_left _ _)

/-! ## Lines -/

/-- A scan comes to the beginning of a line, or to the end, with no candidate left but stale ones. -/
def Reaches (s : Scan) (line : Nat) (margins : List Nat) (tokens : List Token)
    (rest : List Glyph) : Prop :=
  ∃ candidate, Stale line candidate ∧ Leads s (inBlock margins tokens candidate true (lead rest))

theorem Reaches.of_leads {s s' : Scan} {rest : List Glyph} (h : Leads s s')
    (h' : Reaches s' line margins tokens rest) : Reaches s line margins tokens rest := by
  obtain ⟨candidate, hstale, hleads⟩ := h'
  exact ⟨candidate, hstale, h.trans hleads⟩

theorem Reaches.mono {s : Scan} {line' : Nat} {rest : List Glyph}
    (h : Reaches s line margins tokens rest) (hle : line ≤ line') :
    Reaches s line' margins tokens rest := by
  obtain ⟨candidate, hstale, hleads⟩ := h
  exact ⟨candidate, hstale.mono hle, hleads⟩

section Line

variable (hstale : Stale (l + 1) candidate) (hcolumn : floorOf margins ≤ c)
  (hafter : Ends (floorOf margins) after)

include hstale hcolumn hafter

/-- A plain scalar at the end of its line. -/
theorem reaches_plain (hplain : Plain.isPlain text = true) :
    Reaches (inBlock margins tokens candidate ready (place l c (text ++ ['\n']) ++ after)) (l + 1)
      margins (.scalar .plain text :: tokens) after := by
  have hline : ∀ x ∈ text, isBreak x = false :=
    fun x hx => ((Plain.of_isPlain hplain).2.2.2.2 x hx).2
  have hfloor : floorOf margins ≤ c + 1 := Nat.le_succ_of_le hcolumn
  rw [place_append_of_line l c hline, List.append_assoc]
  refine ⟨_, hstale.offered hcolumn, leads_plain hplain hstale hfloor ?_
    (Nat.le_trans (length_lead_le after) (Nat.le_succ _))
    (Plain.read_line hplain l hfloor rfl hafter)⟩
  intro h hh
  rw [← Option.some.inj hh]
  show '\n' ≠ '-' ∧ '\n' ≠ '.'
  decide

/-- **SCALARS**: a text on a line of its own, in whatever style, leads to the next line. -/
theorem reaches_text (text : List Char) :
    Reaches (inBlock margins tokens candidate ready
        (place l c (textLine (baseOf margins + 2) text) ++ after)) (l + 1)
      margins (.scalar (Style.ofText text) text :: tokens) after := by
  have hfloor : floorOf margins ≤ c + 1 := Nat.le_succ_of_le hcolumn
  -- quotes leave the end of the line to be skipped
  have hquoted : ∀ {written : List Char}, Style.ofText text ≠ .literal →
      (Style.ofText text).write (baseOf margins + 2) text = written →
      (∀ rest, isNext '\'' rest = false → Leads
        (inBlock margins tokens candidate ready (place l c written ++ rest))
        (inBlock margins (.scalar (Style.ofText text) text :: tokens)
          (offered margins tokens candidate ready l c) false rest)) →
      Reaches (inBlock margins tokens candidate ready
          (place l c (textLine (baseOf margins + 2) text) ++ after)) (l + 1)
        margins (.scalar (Style.ofText text) text :: tokens) after := by
    intro written hstyle hwritten hleads
    rw [textLine_of_ne hstyle, writeText, hwritten, place_append, List.append_assoc]
    exact ⟨_, hstale.offered hcolumn, (hleads _ rfl).trans (leads_feed rfl hafter)⟩
  have hfits := Style.fits_ofText text
  generalize hstyle : Style.ofText text = style at hfits hquoted
  cases hfits with
  | plain hplain _ =>
      rw [textLine_of_ne (by rw [hstyle]; decide), writeText, hstyle]
      exact reaches_plain hstale hcolumn hafter hplain
  | single hsingle hfeed =>
      exact hquoted (by decide) rfl fun rest hrest =>
        leads_single hsingle hfeed (Nat.succ_pos _) hstale hfloor hrest
  | double => exact hquoted (by decide) rfl fun rest _ => leads_double hstale hfloor
  | literal hblock hlines =>
      rw [textLine_literal hstyle]
      exact ⟨none, stale_none _,
        leads_literal hblock (List.ne_nil_of_mem hlines) hstale hfloor hafter⟩

end Line

/-! ## Keys -/

theorem leads_keyText (hkey : isShortKey text = true) (hmargin : 0 < margin)
    (hstale : Stale line candidate) (hfloor : floorOf margins ≤ c + 1) {colon : Glyph}
    (hcolon : colon.char = ':') (hspace : atSpace after = true) :
    Leads (inBlock margins tokens candidate ready
        (place l c (writeText margin text) ++ colon :: after))
      (inBlock margins (.scalar (Style.ofText text) text :: tokens)
        (offered margins tokens candidate ready l c) false (colon :: after)) := by
  have hquote : isNext '\'' (colon :: after) = false := by
    rw [isNext, hcolon]
    rfl
  have hfits := Style.fits_ofText text
  rw [writeText]
  generalize Style.ofText text = style at hfits
  cases hfits with
  | plain hplain _ =>
      refine leads_plain hplain hstale hfloor ?_ (Nat.le_refl _)
        (Plain.read_key hplain l hfloor hcolon hspace)
      intro h hh
      rw [← Option.some.inj hh, hcolon]
      decide
  | single hsingle hfeed => exact leads_single hsingle hfeed hmargin hstale hfloor hquote
  | double => exact leads_double hstale hfloor
  | literal _ hlines =>
      rw [isShortKey, Bool.and_eq_true, Bool.not_eq_true', List.any_eq_false] at hkey
      exact absurd rfl (hkey.2 '\n' hlines)

/-- The token of a key goes before its text, and that of the map that it opens before both. -/
theorem insertKey_inBlock {column : Nat} {outside : List Nat} {opening : List Token}
    (henters : Enters column outside .blockMap margins opening) (t : Token) (input : List Glyph)
    (required : Bool) :
    (inBlock margins (t :: tokens) candidate ready input).insertKey
        ⟨line, column, tokens.length, required⟩ =
      inBlock (column :: outside) (t :: .key :: (opening ++ tokens)) candidate ready input := by
  have hsize : (t :: tokens).length - tokens.length = 1 := by
    rw [List.length_cons]
    omega
  unfold insertKey
  simp only [opens_inBlock, hsize]
  cases henters with
  | first h => rw [decide_eq_true h]; rfl
  | next => rw [decide_eq_false (by simp [floorOf])]; rfl

theorem next_colon (s : Scan) (hflow : s.inFlow = false) {colon : Glyph} (hcolon : colon.char = ':')
    (hspace : atSpace after = true) : s.next colon after = s.colon colon after := by
  simp [Scan.next, atMarker_of_char, hspace, hflow, hcolon]

section Colon

variable {column width before : Nat} {t : Token} {required : Bool}

/-- The colon after a key on one line; the first key of a map opens it. -/
theorem leads_keyColon {outside : List Nat} {opening : List Token}
    (henters : Enters column outside .blockMap margins opening) (hwidth : width ≤ maxKeyLength)
    (hspace : atSpace after = true) :
    Leads (inBlock margins (t :: tokens) (some ⟨l, column, tokens.length, required⟩) false
        (⟨':', l, column + width⟩ :: after))
      (inBlock (column :: outside) (.value :: t :: .key :: (opening ++ tokens)) none false after) := by
  have hfloor : floorOf margins ≤ column + width + 1 :=
    Nat.le_trans henters.floor_le (Nat.succ_le_succ (Nat.le_add_right _ _))
  refine Leads.of_next (skip_begins (show Begins ':' by decide)) rfl (close_inBlock hfloor _) ?_
    (Nat.le_refl _)
  have hreaches : Candidate.reaches ⟨l, column, tokens.length, required⟩
      ⟨':', l, column + width⟩ = true := by
    rw [Candidate.reaches, decide_eq_true rfl, decide_eq_true (Nat.add_le_add_left hwidth column)]
    rfl
  rw [next_colon _ rfl rfl hspace, colon]
  simp only [Option.filter_some, hreaches, if_true]
  show some (push { insertKey _ _ with candidate := none, ready := false, input := after } _) = _
  rw [insertKey_inBlock henters]
  rfl

/-- Nothing has a colon where a key on one line is too long. -/
theorem run_longKey (hfloor : floorOf margins ≤ column + width + 1) (hwidth : maxKeyLength < width)
    (hspace : atSpace after = true) (fuel : Nat) :
    run (fuel + 1) (inBlock margins tokens (some ⟨l, column, before, required⟩) false
      (⟨':', l, column + width⟩ :: after)) = none := by
  have hreaches : Candidate.reaches ⟨l, column, before, required⟩ ⟨':', l, column + width⟩ = false := by
    rw [Candidate.reaches, decide_eq_true rfl, Bool.true_and, decide_eq_false_iff_not]
    show ¬column + width ≤ column + maxKeyLength
    omega
  rw [run, skip_begins (show Begins ':' by decide)]
  dsimp only
  rw [close_inBlock hfloor, next_colon _ rfl rfl hspace, colon]
  simp only [Option.filter_some, hreaches, Bool.false_eq_true, if_false]
  cases required <;> rfl

end Colon

/-- **KEYS**: a short key and its colon; the first one of a map opens it. -/
theorem leads_key {column : Nat} {outside : List Nat} {opening : List Token}
    (henters : Enters column outside .blockMap margins opening) (hkey : isShortKey text = true)
    (hmargin : 0 < margin) (hstale : Stale line candidate) (hspace : atSpace after = true) :
    Leads (inBlock margins tokens candidate true
        (place l column (writeText margin text) ++
          ⟨':', l, column + (writeText margin text).length⟩ :: after))
      (inBlock (column :: outside)
        (.value :: .scalar (Style.ofText text) text :: .key :: (opening ++ tokens)) none false
        after) :=
  (leads_keyText hkey hmargin hstale henters.floor_le rfl hspace).trans
    (leads_keyColon henters (writeText_key hkey margin).2 hspace)

end Lapse.Yaml.Scan
