import Lapse.Proofs.Yaml.Reading

/-!
# Maps of plain lines

A map whose entries stand on a line each, with a plain key and a plain value, is read as just these
entries, whatever its keys and values would mean by themselves and whether or not the last line has an
end.  Keys that are too long for one line are refused, wherever they are in the text.
-/

namespace Lapse.Yaml

/-! ## The text -/

/-- An entry on one line, without the end of the line. -/
def entryLine (e : List Char × List Char) : List Char := e.1 ++ ':' :: ' ' :: e.2

/-- Entries on lines of their own; the last line may go without its end. -/
def entryText (es : List (List Char × List Char)) (ending : List Char) : List Char :=
  List.intercalate ['\n'] (es.map entryLine) ++ ending

/-- What may stand at the end of the last line: the end of a line, or nothing. -/
def IsEnding (ending : List Char) : Prop := ending = ['\n'] ∨ ending = []

/-- An entry of which both parts are plain. -/
structure PlainEntry (e : List Char × List Char) : Prop where
  key : Plain.isPlain e.1 = true
  value : Plain.isPlain e.2 = true

/-- The tokens of entries on lines of their own. -/
def lineTokens (es : List (List Char × List Char)) : List Token :=
  es.flatMap fun e => [.key, .scalar .plain e.1, .value, .scalar .plain e.2]

variable {e : List Char × List Char} {es : List (List Char × List Char)} {ending : List Char}

theorem entryText_singleton (e : List Char × List Char) (ending : List Char) :
    entryText [e] ending = entryLine e ++ ending := by
  rw [entryText, List.map_singleton, List.intercalate_singleton]

theorem entryText_cons (hes : es ≠ []) (ending : List Char) :
    entryText (e :: es) ending = entryLine e ++ ['\n'] ++ entryText es ending := by
  cases es with
  | nil => exact absurd rfl hes
  | cons e' es =>
      rw [entryText, List.map_cons, List.map_cons, List.intercalate_cons_cons, List.append_assoc]
      rfl

theorem PlainEntry.shown (h : PlainEntry e) :
    ∀ c ∈ entryLine e, isPrintable c = true ∧ isBreak c = false := by
  intro c hc
  rcases List.mem_append.mp hc with hkey | hrest
  · exact (Plain.of_isPlain h.key).2.2.2.2 c hkey
  rcases List.mem_cons.mp hrest with rfl | hrest
  · decide
  rcases List.mem_cons.mp hrest with rfl | hvalue
  · decide
  · exact (Plain.of_isPlain h.value).2.2.2.2 c hvalue

theorem PlainEntry.place_line (h : PlainEntry e) (l c : Nat) (u : List Char) :
    place l c (entryLine e ++ ['\n'] ++ u) =
      place l c (entryLine e ++ ['\n']) ++ place (l + 1) 0 u := by
  have hline : Line (entryLine e ++ ['\n']) := .prepend (fun c hc => (h.shown c hc).1) line_feed
  rw [hline.place_append, lineAfter_append, lineAfter_of_line l fun c hc => (h.shown c hc).2]
  rfl

theorem printable_entryText (h : ∀ e ∈ es, PlainEntry e) (hending : IsEnding ending) :
    ∀ c ∈ entryText es ending, isPrintable c = true := by
  have hlast : ∀ c ∈ ending, isPrintable c = true := by
    rcases hending with rfl | rfl
    · exact line_feed.printable
    · exact nofun
  induction es with
  | nil => exact hlast
  | cons e es ih =>
      obtain ⟨hhead, hrest⟩ := List.forall_mem_cons.mp h
      have hline : ∀ c ∈ entryLine e, isPrintable c = true := fun c hc => (hhead.shown c hc).1
      by_cases hes : es = []
      · rw [hes, entryText_singleton]
        exact List.forall_mem_append.mpr ⟨hline, hlast⟩
      · rw [entryText_cons hes]
        exact List.forall_mem_append.mpr
          ⟨List.forall_mem_append.mpr ⟨hline, line_feed.printable⟩, ih hrest⟩

/-- The text begins with a key and its colon. -/
theorem entryText_key (e : List Char × List Char) (es : List (List Char × List Char))
    (ending : List Char) : ∃ u, entryText (e :: es) ending = e.1 ++ ':' :: ' ' :: u := by
  by_cases hes : es = []
  · rw [hes, entryText_singleton, entryLine, List.append_assoc]
    exact ⟨_, rfl⟩
  · rw [entryText_cons hes, entryLine, List.append_assoc, List.append_assoc]
    exact ⟨_, rfl⟩

theorem PlainEntry.place_key (h : PlainEntry e) (l c : Nat) (u : List Char) :
    place l c (e.1 ++ ':' :: ' ' :: u) = place l c e.1 ++ ⟨':', l, c + e.1.length⟩ ::
      ⟨' ', l, c + e.1.length + 1⟩ :: place l (c + e.1.length + 2) u := by
  rw [place_append_of_line l c fun x hx => ((Plain.of_isPlain h.key).2.2.2.2 x hx).2, place_cons rfl,
    place_cons rfl]

theorem entryText_begins (h : ∀ e ∈ es, PlainEntry e) (hes : es ≠ []) (ending : List Char) :
    ∃ x rest, entryText es ending = x :: rest ∧ Begins x := by
  cases es with
  | nil => exact absurd rfl hes
  | cons e es =>
      obtain ⟨u, hu⟩ := entryText_key e es ending
      have hkey := (h e List.mem_cons_self).key
      rw [hu]
      cases hchars : e.1 with
      | nil =>
        rw [hchars] at hkey
        exact nomatch hkey
      | cons x key =>
        rw [hchars] at hkey
        exact ⟨x, key ++ ':' :: ' ' :: u, rfl, Plain.begins hkey⟩

/-! ## Tokens -/

namespace Scan

variable {margins outside : List Nat} {tokens opening : List Token} {candidate : Option Candidate}
  {ready : Bool} {l c column : Nat} {text : List Char} {after : List Glyph}

/-- A plain key, up to its colon. -/
theorem leads_plainKey (hkey : Plain.isPlain text = true) (hstale : Stale l candidate)
    (hfloor : floorOf margins ≤ c + 1) (hspace : atSpace after = true) :
    Leads (inBlock margins tokens candidate true
        (place l c text ++ ⟨':', l, c + text.length⟩ :: after))
      (inBlock margins (.scalar .plain text :: tokens)
        (some ⟨l, c, tokens.length, margins.head? = some c⟩) false
        (⟨':', l, c + text.length⟩ :: after)) := by
  refine leads_plain hkey hstale hfloor ?_ (Nat.le_refl _) (Plain.read_key hkey l hfloor rfl hspace)
  intro g hg
  rw [← Option.some.inj hg]
  show ':' ≠ '-' ∧ ':' ≠ '.'
  decide

/-- At the end of the text it does not matter whether a key may begin. -/
theorem leads_end (hstale : Stale l candidate) :
    Leads (inBlock margins tokens candidate false []) (inBlock margins tokens candidate true []) := by
  refine ⟨0, Nat.le_refl _, fun fuel => ?_⟩
  show finish (inBlock margins tokens candidate false []) =
    finish (inBlock margins tokens candidate true [])
  show (Scan.dropCandidate (inBlock _ _ candidate false [])).bind _ =
    (Scan.dropCandidate (inBlock _ _ candidate true [])).bind _
  rw [hstale.dropCandidate, hstale.dropCandidate]
  rfl

/-- A plain scalar at the end of the text. -/
theorem reaches_lastPlain (hplain : Plain.isPlain text = true) (hstale : Stale (l + 1) candidate)
    (hcolumn : floorOf margins ≤ c) :
    Reaches (inBlock margins tokens candidate ready (place l c text)) (l + 1) margins
      (.scalar .plain text :: tokens) [] := by
  have hfloor : floorOf margins ≤ c + 1 := Nat.le_succ_of_le hcolumn
  have hread : Plain.read false (floorOf margins) .none (place l c text ++ []) =
      some (text, false, []) := by
    rw [Plain.read_text hplain l hfloor, Plain.read, Option.map_some, List.append_nil]
    rfl
  have hnothing : ∀ g, ([] : List Glyph).head? = some g → g.char ≠ '-' ∧ g.char ≠ '.' := by
    intro g hg
    cases hg
  have hleads := @leads_plain margins tokens candidate ready (l + 1) l c text [] hplain hstale hfloor
    hnothing false [] (Nat.le_refl _) hread
  rw [List.append_nil] at hleads
  exact ⟨_, hstale.offered hcolumn, hleads.trans (leads_end (hstale.offered hcolumn))⟩

/-- The entry of a line up to its value; the first one of a map opens it. -/
theorem leads_entryLine (h : PlainEntry e) (hshort : e.1.length ≤ maxKeyLength)
    (henters : Enters column outside .blockMap margins opening) (hstale : Stale l candidate)
    (tokens : List Token) (u : List Char) (after : List Glyph) :
    Leads (inBlock margins tokens candidate true (place l column (entryLine e ++ u) ++ after))
      (inBlock (column :: outside) (.value :: .scalar .plain e.1 :: .key :: (opening ++ tokens)) none
        false (place l (column + e.1.length + 2) (e.2 ++ u) ++ after)) := by
  rw [entryLine, List.append_assoc, List.cons_append, List.cons_append, h.place_key, List.append_assoc]
  exact ((leads_plainKey h.key hstale henters.floor_le rfl).trans
    (leads_keyColon henters hshort rfl)).trans (leads_space rfl)

/-- The entry of a line that is not the last one leads to the next line. -/
theorem reaches_entryLine (h : PlainEntry e) (hshort : e.1.length ≤ maxKeyLength)
    (henters : Enters column outside .blockMap margins opening) (hstale : Stale l candidate)
    (tokens : List Token) (hafter : Ends (column + 1) after) :
    Reaches (inBlock margins tokens candidate true (place l column (entryLine e ++ ['\n']) ++ after))
      (l + 1) (column :: outside) ((lineTokens [e]).reverse ++ (opening ++ tokens)) after := by
  have hcolumn : floorOf (column :: outside) ≤ column + e.1.length + 2 := by
    rw [floorOf]
    omega
  exact .of_leads (leads_entryLine h hshort henters hstale tokens ['\n'] after)
    (reaches_plain (stale_none _) hcolumn hafter h.value)

/-- The entry of the last line leads to the end. -/
theorem reaches_lastLine (h : PlainEntry e) (hshort : e.1.length ≤ maxKeyLength)
    (henters : Enters column outside .blockMap margins opening) (hstale : Stale l candidate)
    (tokens : List Token) (hending : IsEnding ending) :
    Reaches (inBlock margins tokens candidate true (place l column (entryLine e ++ ending)))
      (l + 1) (column :: outside) ((lineTokens [e]).reverse ++ (opening ++ tokens)) [] := by
  rcases hending with rfl | rfl
  · have hreaches := reaches_entryLine h hshort henters hstale tokens .done
    rwa [List.append_nil] at hreaches
  · have hleads := leads_entryLine h hshort henters hstale tokens [] []
    have hcolumn : floorOf (column :: outside) ≤ column + e.1.length + 2 := by
      rw [floorOf]
      omega
    simp only [List.append_nil] at hleads ⊢
    exact .of_leads hleads (reaches_lastPlain h.value (stale_none _) hcolumn)

/-- After the end of a line the next entry begins at the margin. -/
theorem ends_entryText (h : ∀ e ∈ es, PlainEntry e) (hes : es ≠ []) (ending : List Char) (l : Nat) :
    Ends 1 (place l 0 (entryText es ending)) ∧
      lead (place l 0 (entryText es ending)) = place l 0 (entryText es ending) := by
  obtain ⟨x, rest, hx, hbegins⟩ := entryText_begins h hes ending
  rw [hx]
  exact ⟨.word hbegins Nat.zero_lt_one, lead_word hbegins.dark _⟩

/-- **LINES**: entries with short keys are scanned one after the other, up to the end. -/
theorem reaches_entryText (h : ∀ e ∈ es, PlainEntry e)
    (hshort : ∀ e ∈ es, e.1.length ≤ maxKeyLength) (hes : es ≠ [])
    (henters : Enters 0 outside .blockMap margins opening) (hstale : Stale l candidate)
    (tokens : List Token) (hending : IsEnding ending) :
    ∃ line, Reaches (inBlock margins tokens candidate true (place l 0 (entryText es ending))) line
      (0 :: outside) ((lineTokens es).reverse ++ (opening ++ tokens)) [] := by
  induction es generalizing margins tokens opening candidate l with
  | nil => exact absurd rfl hes
  | cons e es ih =>
      obtain ⟨hhead, hothers⟩ := List.forall_mem_cons.mp h
      obtain ⟨hkey, hkeys⟩ := List.forall_mem_cons.mp hshort
      by_cases hmore : es = []
      · rw [hmore, entryText_singleton]
        exact ⟨l + 1, reaches_lastLine hhead hkey henters hstale tokens hending⟩
      obtain ⟨hafter, hlead⟩ := ends_entryText hothers hmore ending (l + 1)
      obtain ⟨candidate', hstale', hleads⟩ :=
        reaches_entryLine hhead hkey henters hstale tokens hafter
      rw [hlead] at hleads
      obtain ⟨line, hreaches⟩ := ih hothers hkeys hmore (@Enters.next 0 outside .blockMap) hstale'
        ((lineTokens [e]).reverse ++ (opening ++ tokens))
      have htokens : (lineTokens (e :: es)).reverse ++ (opening ++ tokens) =
          (lineTokens es).reverse ++ ([] ++ ((lineTokens [e]).reverse ++ (opening ++ tokens))) := by
        simp [lineTokens]
      rw [entryText_cons hmore, hhead.place_line, htokens]
      exact ⟨line, .of_leads hleads hreaches⟩

/-- **LONG KEYS**: where a key is too long for one line, the scan comes to a colon of nothing. -/
theorem leads_longKey (h : ∀ e ∈ es, PlainEntry e) (hlong : ∃ e ∈ es, maxKeyLength < e.1.length)
    (henters : Enters 0 outside .blockMap margins opening) (hstale : Stale l candidate)
    (tokens : List Token) (ending : List Char) :
    ∃ s, Leads (inBlock margins tokens candidate true (place l 0 (entryText es ending))) s ∧
      ∀ fuel, run (fuel + 1) s = none := by
  induction es generalizing margins tokens opening candidate l with
  | nil => exact absurd hlong (by simp)
  | cons e es ih =>
      obtain ⟨hhead, hothers⟩ := List.forall_mem_cons.mp h
      -- the scan goes on from line to line until the first key that is too long
      by_cases hkey : maxKeyLength < e.1.length
      · obtain ⟨u, hu⟩ := entryText_key e es ending
        have hfloor : floorOf margins ≤ 0 + e.1.length + 1 :=
          Nat.le_trans henters.floor_le (Nat.succ_le_succ (Nat.zero_le _))
        rw [hu, hhead.place_key]
        exact ⟨_, leads_plainKey hhead.key hstale henters.floor_le rfl, run_longKey hfloor hkey rfl⟩
      have hothersLong : ∃ e ∈ es, maxKeyLength < e.1.length := by
        simpa [hkey] using hlong
      have hmore : es ≠ [] := by
        rintro rfl
        simp at hothersLong
      obtain ⟨hafter, hlead⟩ := ends_entryText hothers hmore ending (l + 1)
      obtain ⟨candidate', hstale', hleads⟩ :=
        reaches_entryLine hhead (Nat.le_of_not_lt hkey) henters hstale tokens hafter
      rw [hlead] at hleads
      obtain ⟨s, hs, hfails⟩ := ih hothers hothersLong (@Enters.next 0 outside .blockMap) hstale' _
      rw [entryText_cons hmore, hhead.place_line]
      exact ⟨s, hleads.trans hs, hfails⟩

/-- A text of which the scan fails has no tokens. -/
theorem Leads.tokens_eq_none {input : List Glyph} {s : Scan} (h : Leads { input } s)
    (hfails : ∀ fuel, run (fuel + 1) s = none) : Yaml.tokens input = none := by
  obtain ⟨n, hn, hrun⟩ := h
  have hlength : n ≤ input.length := Nat.le_trans (Nat.le_add_left _ _) hn
  rw [Yaml.tokens, show input.length + 1 = input.length - n + 1 + n by omega, hrun, hfails]

end Scan

/-- **TOKENS**: the tokens of entries on lines of their own, unless a key is too long. -/
theorem tokens_entryText (h : ∀ e ∈ es, PlainEntry e) (hes : es ≠ []) (hending : IsEnding ending) :
    tokens (place 0 0 (entryText es ending)) =
      if ∀ e ∈ es, e.1.length ≤ Scan.maxKeyLength then
        some (.blockMap :: (lineTokens es ++ [.blockEnd]))
      else none := by
  have henters : Scan.Enters 0 [] .blockMap [] [.blockMap] := .first (Nat.le_refl 0)
  split
  · next hshort =>
    obtain ⟨line, hreaches⟩ :=
      Scan.reaches_entryText h hshort hes henters (Scan.stale_none 0) [] hending
    rw [(hreaches.close (Nat.le_refl 0) .done).tokens_eq]
    simp
  · next hshort =>
    have hlong : ∃ e ∈ es, Scan.maxKeyLength < e.1.length := by simpa using hshort
    obtain ⟨s, hleads, hfails⟩ := Scan.leads_longKey h hlong henters (Scan.stale_none 0) [] ending
    exact hleads.tokens_eq_none hfails

/-! ## Trees -/

namespace Node

/-- The tree of entries on lines of their own. -/
def ofLines (es : List (List Char × List Char)) : Node :=
  .map none (es.map fun e => (.scalar none none .plain e.1, .scalar none none .plain e.2))

theorem readEntries_lineTokens (handles : Handles) {fuel : Nat} (rest : List Token) (hpos : 0 < fuel)
    (hfuel : 2 * (lineTokens es).length ≤ fuel) :
    readEntries handles fuel (lineTokens es ++ .blockEnd :: rest) =
      some (es.map fun e => (.scalar none none .plain e.1, .scalar none none .plain e.2), rest) := by
  induction es generalizing fuel with
  | nil =>
      obtain ⟨fuel, rfl⟩ : ∃ n, fuel = n + 1 := ⟨fuel - 1, by omega⟩
      simp [lineTokens, readEntries]
  | cons e es ih =>
      have hlength : (lineTokens (e :: es)).length = (lineTokens es).length + 4 := by
        simp [lineTokens]
      rw [hlength] at hfuel
      obtain ⟨fuel, rfl⟩ : ∃ n, fuel = n + 2 := ⟨fuel - 2, by omega⟩
      exact readEntries_key rfl (read_scalar true .plain e.2) (ih (by omega) (by omega))

theorem ofTokens_lineTokens (es : List (List Char × List Char)) :
    ofTokens (.blockMap :: (lineTokens es ++ [.blockEnd])) = some (some (ofLines es)) := by
  have hfuel : 2 * (lineTokens es).length ≤ 2 * (lineTokens es ++ [Token.blockEnd]).length + 3 := by
    rw [List.length_append]
    omega
  have hread := @read_blockMap defaultHandles _ false _ _ _
    (readEntries_lineTokens defaultHandles [] (Nat.succ_pos _) hfuel)
  show (read defaultHandles (2 * (lineTokens es ++ [Token.blockEnd]).length + 3 + 1) true false _).bind
    _ = _
  rw [hread]
  rfl

end Node

/-! ## Documents -/

/-- A value on a line, as a place in the document of its lines. -/
def Cursor.ofLine (es : List (List Char × List Char)) (value : List Char) : Cursor :=
  ⟨Node.ofLines es, .scalar none none .plain value⟩

/-- The entries of lines as they are asked for. -/
theorem Cursor.entries?_ofLines (es : List (List Char × List Char)) :
    Cursor.entries? ⟨Node.ofLines es, Node.ofLines es⟩ =
      some (es.map fun e => (String.ofList e.1, Cursor.ofLine es e.2)) := by
  show (es.map _).mapM _ = _
  refine mapM_map (fun e => ?_) es
  rfl

/-- **DOCUMENTS**: the text of plain lines is read as a map of just these entries, unless a key is too
long. -/
theorem decode_entryText {α : Type} [Readable α] (h : ∀ e ∈ es, PlainEntry e) (hes : es ≠ [])
    (hending : IsEnding ending) :
    (decode (entryText es ending) : Option α) =
      if ∀ e ∈ es, e.1.length ≤ Scan.maxKeyLength then
        read (⟨Node.ofLines es, Node.ofLines es⟩ : Cursor)
      else none := by
  rw [decode, glyphs_of_isPrintable (printable_entryText h hending)]
  show (tokens (place 0 0 (entryText es ending))).bind _ = _
  rw [tokens_entryText h hes hending]
  split
  · rw [Option.bind_some, Node.ofTokens_lineTokens]
    rfl
  · rfl

end Lapse.Yaml
