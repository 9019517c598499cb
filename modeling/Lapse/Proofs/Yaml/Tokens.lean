import Lapse.Proofs.Yaml.Layout
import Lapse.Proofs.Yaml.Word

/-!
# The tokens of data

Data that is laid out is cut into the tokens that one expects.  An item or an entry finds its margin
open, or opens it when it is the first; the margin is closed by what follows the last one, which stands
left of it.
-/

namespace Lapse.Yaml

/-! ## What one expects -/

/-- The tokens of data without parts. -/
def wholeWords : Data → List Token
  | .null => [.scalar .plain "null".toList]
  | .bool b => [.scalar .plain (flagWord b)]
  | .int n => [.scalar .plain (Decimal.ofInt n)]
  | .str s => [.scalar (Style.ofText s.toList) s.toList]
  | .list _ => [.leftBracket, .rightBracket]
  | .record _ => [.leftBrace, .rightBrace]

mutual

/-- The tokens of data; `loose` tells whether the items of a list stand at the margin of the map around
them. -/
def words (loose : Bool) : Data → List Token
  | .list (item :: rest) =>
    if loose then itemWords (item :: rest)
    else .blockList :: (itemWords (item :: rest) ++ [.blockEnd])
  | .record (entry :: rest) => .blockMap :: (entryWords (entry :: rest) ++ [.blockEnd])
  | d => wholeWords d

/-- The tokens of items. -/
def itemWords : List Data → List Token
  | [] => []
  | item :: rest => .dash :: (words false item ++ itemWords rest)

/-- The tokens of entries.  The items of a list stand at the margin of the map where the key is on the
same line as the colon. -/
def entryWords : List (String × Data) → List Token
  | [] => []
  | (key, d) :: rest =>
    .key :: .scalar (Style.ofText key.toList) key.toList :: .value ::
      (words (isShortKey key.toList) d ++ entryWords rest)

end

namespace Scan

variable {margins outside : List Nat} {tokens opening : List Token} {candidate : Option Candidate}
  {ready : Bool} {line l c m : Nat} {after : List Glyph}

/-! ## Closing -/

theorem close_cons {stays : Nat → Bool} (h : stays m = false) (input : List Glyph) :
    (inBlock (m :: margins) tokens candidate ready input).close stays =
      (inBlock margins (.blockEnd :: tokens) candidate ready input).close stays := by
  have hends : ∀ (ms : List Nat), Token.blockEnd :: ms.map (fun _ => Token.blockEnd) ++ tokens =
      ms.map (fun _ => Token.blockEnd) ++ .blockEnd :: tokens := by
    intro ms
    induction ms with
    | nil => rfl
    | cons _ ms ih => exact congrArg (Token.blockEnd :: ·) ih
  have hclosed : (m :: margins).takeWhile (fun margin => !stays margin) =
      m :: margins.takeWhile fun margin => !stays margin :=
    List.takeWhile_cons_of_pos (by rw [h]; rfl)
  show ({ inBlock _ _ candidate ready input with margins := _, tokens := _ } : Scan) = _
  rw [hclosed]
  exact congrArg (inBlock _ · candidate ready input) (hends _)

/-- **MARGINS**: what stands left of a margin closes it. -/
theorem leads_close (hm : floorOf margins ≤ m) (hafter : Ends (floorOf margins) after) :
    Leads (inBlock (m :: margins) tokens candidate true (lead after))
      (inBlock margins (.blockEnd :: tokens) candidate true (lead after)) := by
  refine ⟨0, Nat.le_refl _, fun fuel => ?_⟩
  rw [Nat.add_zero, run, run, skip_lead hafter, skip_lead hafter]
  rcases hafter.lead_cases with hlead | ⟨g, rest, hlead, -, hleft⟩
  · simp only [hlead]
    rw [finish, close_cons rfl]
    rfl
  · have hstays : decide (m ≤ g.column) = false := decide_eq_false (by omega)
    simp only [hlead]
    rw [@close_cons margins tokens candidate true m (fun margin => decide (margin ≤ g.column)) hstays]

/-! ## Data without parts -/

theorem reaches_whole (d : Data) {margin : Nat}
    (hmargin : ∀ s, d = .str s → margin = baseOf margins + 2) (hstale : Stale (l + 1) candidate)
    (hcolumn : floorOf margins ≤ c) (hafter : Ends (floorOf margins) after) :
    Reaches (inBlock margins tokens candidate ready (place l c (wholeLine margin d) ++ after))
      (l + 1) margins ((wholeWords d).reverse ++ tokens) after := by
  have hword : ∀ {word}, wordOf d = some word →
      Reaches (inBlock margins tokens candidate ready (place l c (word ++ ['\n']) ++ after)) (l + 1)
        margins (.scalar .plain word :: tokens) after :=
    fun h => reaches_plain hstale hcolumn hafter (isPlain_wordOf h)
  have hfloor : floorOf margins ≤ c + 1 := Nat.le_succ_of_le hcolumn
  have hbrackets : ∀ {a b t u}, Brackets a b t u →
      Reaches (inBlock margins tokens candidate ready
          (⟨a, l, c⟩ :: ⟨b, l, c + 1⟩ :: ⟨'\n', l, c + 2⟩ :: after)) (l + 1)
        margins (u :: t :: tokens) after :=
    fun h => ⟨_, hstale.offered hcolumn, (leads_brackets h hstale hfloor).trans
      (leads_feed rfl hafter)⟩
  cases d with
  | null => exact hword rfl
  | bool b => exact hword rfl
  | int n => exact hword rfl
  | str s =>
      rw [hmargin s rfl]
      exact reaches_text hstale hcolumn hafter s.toList
  | list _ => exact hbrackets .square
  | record _ => exact hbrackets .curly

/-! ## Data with parts -/

/-- Data is scanned where it begins: at its margin, where a key may begin too. -/
def Inlined (d : Data) : Prop :=
  ∀ (m : Nat) (margins : List Nat) (tokens : List Token) (l : Nat) (after : List Glyph),
    floorOf margins ≤ m → (∀ s, d = .str s → m = baseOf margins + 2) →
    Ends (floorOf margins) after →
    Reaches (inBlock margins tokens none true (place l m (inline m d) ++ after))
      (lineAfter l (inline m d)) margins ((words false d).reverse ++ tokens) after

/-- Data is scanned as the value of a key on the same line. -/
def Valued (d : Data) : Prop :=
  ∀ (m : Nat) (outside : List Nat) (tokens : List Token) (l c : Nat) (after : List Glyph),
    m ≤ c → Ends (m + 1) after →
    Reaches (inBlock (m :: outside) tokens none false (place l c (value m d) ++ after))
      (lineAfter l (value m d)) (m :: outside) ((words true d).reverse ++ tokens) after

theorem Reaches.trans {s : Scan} {line' : Nat} {tokens' : List Token} {after' : List Glyph}
    (h : Reaches s line margins tokens after)
    (h' : ∀ candidate, Stale line candidate →
      Reaches (inBlock margins tokens candidate true (lead after)) line' outside tokens' after') :
    Reaches s line' outside tokens' after' := by
  obtain ⟨candidate, hstale, hleads⟩ := h
  exact .of_leads hleads (h' candidate hstale)

/-! ### Items -/

theorem reaches_item {d : Data} (h : Inlined d)
    (henters : Enters m outside .blockList margins opening) (hstale : Stale line candidate)
    (tokens : List Token) (l : Nat) (hafter : Ends (m + 1) after) :
    Reaches (inBlock margins tokens candidate true
        (place l m ('-' :: ' ' :: inline (m + 2) d) ++ after))
      (lineAfter l ('-' :: ' ' :: inline (m + 2) d)) (m :: outside)
      ((.dash :: words false d).reverse ++ (opening ++ tokens)) after := by
  have hinline := h (m + 2) (m :: outside) (.dash :: opening ++ tokens) l after
    (Nat.le_succ (m + 1)) (fun _ _ => rfl) hafter
  rw [show (words false d).reverse ++ (.dash :: opening ++ tokens) =
    (.dash :: words false d).reverse ++ (opening ++ tokens) by simp] at hinline
  exact .of_leads (leads_dash (g := ⟨'-', l, m⟩) henters hstale rfl rfl) hinline

theorem ends_items (ds : List Data) (l : Nat) (hafter : Ends (m + 1) after) :
    Ends (m + 1) (place l 0 (items m ds) ++ after) := by
  cases ds with
  | nil => exact hafter
  | cons d ds =>
      rw [items, List.append_assoc]
      exact ends_spaces (Nat.lt_succ_self m) (by decide) l _ after

theorem reaches_items {ds : List Data} (h : ∀ d ∈ ds, Inlined d) (hstale : Stale l candidate)
    (hafter : Ends (m + 1) after) :
    Reaches (inBlock (m :: outside) tokens candidate true (lead (place l 0 (items m ds) ++ after)))
      (lineAfter l (items m ds)) (m :: outside) ((itemWords ds).reverse ++ tokens) after := by
  induction ds generalizing l candidate tokens with
  | nil => exact ⟨candidate, hstale, .refl _⟩
  | cons d ds ih =>
      have hline := line_item (lined d) m
      have hitem := reaches_item (h d List.mem_cons_self) (@Enters.next m outside .blockList) hstale
        tokens l (ends_items ds (lineAfter l ('-' :: ' ' :: inline (m + 2) d)) hafter)
      rw [items, hline.lead_place ⟨'-', _, rfl, by decide⟩, lineAfter_append, lineAfter_spaces,
        show (itemWords (d :: ds)).reverse ++ tokens =
          (itemWords ds).reverse ++ ((.dash :: words false d).reverse ++ ([] ++ tokens)) by
            simp [itemWords]]
      exact hitem.trans fun _ hstale => ih (fun e he => h e (List.mem_cons_of_mem d he)) hstale

/-! ### Entries -/

theorem inlineEntry_begins (m : Nat) (e : String × Data) :
    ∃ x rest, inlineEntry m e = x :: rest ∧ Begins x := by
  obtain ⟨key, d⟩ := e
  rw [inlineEntry]
  split
  · obtain ⟨x, rest, hx, hbegins⟩ := writeText_begins (m + 2) key.toList
    rw [hx]
    exact ⟨x, _, rfl, hbegins⟩
  · exact ⟨'?', _, rfl, by decide⟩

theorem ends_entries (es : List (String × Data)) (l : Nat) (hafter : Ends (m + 1) after) :
    Ends (m + 1) (place l 0 (entries m es) ++ after) := by
  cases es with
  | nil => exact hafter
  | cons e es =>
      obtain ⟨x, rest, hx, hbegins⟩ := inlineEntry_begins m e
      rw [entries, hx, List.append_assoc]
      exact ends_spaces (Nat.lt_succ_self m) hbegins l _ after

/-- What follows a colon on its line is white space. -/
theorem atSpace_value (d : Data) (l c : Nat) (after : List Glyph) :
    atSpace (place l c (value m d) ++ after) = true := by
  have hwhole : ∀ t, atSpace (place l c (' ' :: t) ++ after) = true := fun _ => rfl
  cases d with
  | null => exact hwhole _
  | bool _ => exact hwhole _
  | int _ => exact hwhole _
  | str _ => exact hwhole _
  | list ds =>
      cases ds with
      | nil => exact hwhole _
      | cons d ds => rfl
  | record es =>
      cases es with
      | nil => exact hwhole _
      | cons e es => rfl

/-- An entry whose key is on the same line as its value. -/
theorem reaches_shortEntry {key : String} {d : Data} (hkey : isShortKey key.toList = true)
    (hvalue : Valued d) (henters : Enters m outside .blockMap margins opening)
    (hstale : Stale l candidate) (tokens : List Token) (hafter : Ends (m + 1) after) :
    Reaches (inBlock margins tokens candidate true
        (place l m (writeText (m + 2) key.toList ++ ':' :: value m d) ++ after))
      (lineAfter l (writeText (m + 2) key.toList ++ ':' :: value m d)) (m :: outside)
      ((words true d).reverse ++ .value :: .scalar (Style.ofText key.toList) key.toList :: .key ::
        (opening ++ tokens)) after := by
  have hline : ∀ c ∈ writeText (m + 2) key.toList, isBreak c = false :=
    fun c hc => ((writeText_key hkey (m + 2)).1 c hc).2
  have hcolon : lineAfter l (':' :: value m d) = lineAfter l (value m d) :=
    lineAfter_append l [':'] (value m d)
  rw [place_append_of_line l m hline, place_cons rfl, lineAfter_append, lineAfter_of_line l hline,
    hcolon, List.append_assoc, List.cons_append]
  exact .of_leads
    (leads_key henters hkey (Nat.succ_pos _) hstale (atSpace_value d l _ after))
    (hvalue m outside _ l _ after (by omega) hafter)

/-- An entry whose key is set off by a question mark. -/
theorem reaches_longEntry (key : String) {d : Data} (hinline : Inlined d)
    (henters : Enters m outside .blockMap margins opening) (hstale : Stale l candidate)
    (tokens : List Token) (hafter : Ends (m + 1) after) :
    Reaches (inBlock margins tokens candidate true
        (place l m ('?' :: ' ' :: textLine (m + 2) key.toList ++ spaces m ++
          ':' :: ' ' :: inline (m + 2) d) ++ after))
      (lineAfter l ('?' :: ' ' :: textLine (m + 2) key.toList ++ spaces m ++
        ':' :: ' ' :: inline (m + 2) d)) (m :: outside)
      ((words false d).reverse ++ .value :: .scalar (Style.ofText key.toList) key.toList :: .key ::
        (opening ++ tokens)) after := by
  have htext := line_textLine (m + 2) key.toList
  have hquestion : Line ('?' :: ' ' :: textLine (m + 2) key.toList) :=
    @Line.after_marks ['?', ' '] _ rfl htext
  have hcolon : Line (':' :: ' ' :: inline (m + 2) d) :=
    @Line.after_marks [':', ' '] _ rfl ((lined d).inline _)
  generalize hvalueLine : lineAfter l (textLine (m + 2) key.toList) = l'
  have hkeyLine : lineAfter l ('?' :: ' ' :: textLine (m + 2) key.toList) = l' :=
    (lineAfter_append l ['?', ' '] _).trans hvalueLine
  have hlast : lineAfter l' (':' :: ' ' :: inline (m + 2) d) = lineAfter l' (inline (m + 2) d) :=
    lineAfter_append l' [':', ' '] _
  have hends : Ends (m + 1) (place l' 0 (spaces m ++ ':' :: ' ' :: inline (m + 2) d) ++ after) :=
    ends_spaces (Nat.lt_succ_self m) (by decide) l' _ after
  rw [List.append_assoc, hquestion.place_append, lineAfter_append, hkeyLine, lineAfter_spaces, hlast,
    List.append_assoc]
  refine .of_leads (leads_question (g := ⟨'?', l, m⟩) henters hstale rfl rfl) ?_
  have hkey := @reaches_text (m :: outside) (.key :: opening ++ tokens) none true l (m + 2) _
    (stale_none _) (Nat.le_succ (m + 1)) hends key.toList
  refine (hkey.mono (hvalueLine ▸ htext.lt_lineAfter l)).trans fun candidate hstale => ?_
  rw [lead_spaces (by decide), Nat.zero_add]
  exact .of_leads (leads_colon (g := ⟨':', l', m⟩) hstale rfl rfl)
    (hinline (m + 2) (m :: outside) _ l' after (Nat.le_succ (m + 1)) (fun _ _ => rfl) hafter)

theorem reaches_entry {e : String × Data} (hinline : Inlined e.2) (hvalue : Valued e.2)
    (henters : Enters m outside .blockMap margins opening) (hstale : Stale l candidate)
    (tokens : List Token) (hafter : Ends (m + 1) after) :
    Reaches (inBlock margins tokens candidate true (place l m (inlineEntry m e) ++ after))
      (lineAfter l (inlineEntry m e)) (m :: outside)
      ((entryWords [e]).reverse ++ (opening ++ tokens)) after := by
  obtain ⟨key, d⟩ := e
  have hwords : (entryWords [(key, d)]).reverse ++ (opening ++ tokens) =
      (words (isShortKey key.toList) d).reverse ++ .value ::
        .scalar (Style.ofText key.toList) key.toList :: .key :: (opening ++ tokens) := by
    simp [entryWords]
  rw [inlineEntry, hwords]
  cases hkey : isShortKey key.toList with
  | true => exact reaches_shortEntry hkey hvalue henters hstale tokens hafter
  | false => exact reaches_longEntry key hinline henters hstale tokens hafter

theorem reaches_entries {es : List (String × Data)} (hinline : ∀ e ∈ es, Inlined e.2)
    (hvalue : ∀ e ∈ es, Valued e.2) (hstale : Stale l candidate) (hafter : Ends (m + 1) after) :
    Reaches (inBlock (m :: outside) tokens candidate true
        (lead (place l 0 (entries m es) ++ after)))
      (lineAfter l (entries m es)) (m :: outside) ((entryWords es).reverse ++ tokens) after := by
  induction es generalizing l candidate tokens with
  | nil => exact ⟨candidate, hstale, .refl _⟩
  | cons e es ih =>
      have hentry := reaches_entry (hinline e List.mem_cons_self) (hvalue e List.mem_cons_self)
        (@Enters.next m outside .blockMap) hstale tokens
        (ends_entries es (lineAfter l (inlineEntry m e)) hafter)
      rw [entries, (line_inlineEntry (lined e.2) m).lead_place (inlineEntry_begins m e),
        lineAfter_append, lineAfter_spaces,
        show (entryWords (e :: es)).reverse ++ tokens =
          (entryWords es).reverse ++ ((entryWords [e]).reverse ++ ([] ++ tokens)) by
            simp [entryWords]]
      exact hentry.trans fun _ hstale => ih
        (fun e' he' => hinline e' (List.mem_cons_of_mem e he'))
        (fun e' he' => hvalue e' (List.mem_cons_of_mem e he')) hstale

/-! ### All data -/

theorem Reaches.close {s : Scan} (h : Reaches s line (m :: margins) tokens after)
    (hm : floorOf margins ≤ m) (hafter : Ends (floorOf margins) after) :
    Reaches s line margins (.blockEnd :: tokens) after := by
  obtain ⟨candidate, hstale, hleads⟩ := h
  exact ⟨candidate, hstale, hleads.trans (leads_close hm hafter)⟩

theorem inlined_list {d : Data} {ds : List Data} (h : ∀ e ∈ d :: ds, Inlined e) :
    Inlined (.list (d :: ds)) := by
  intro m margins tokens l after hm _ hafter
  have hinner : Ends (m + 1) after := hafter.mono (Nat.le_succ_of_le hm)
  have hline := line_item (lined d) m
  have hitem := reaches_item (h d List.mem_cons_self) (.first hm) (stale_none 0) tokens l
    (ends_items ds (lineAfter l ('-' :: ' ' :: inline (m + 2) d)) hinner)
  rw [show inline m (.list (d :: ds)) = '-' :: ' ' :: inline (m + 2) d ++ items m ds from rfl,
    hline.place_append, List.append_assoc, lineAfter_append,
    show (words false (.list (d :: ds))).reverse ++ tokens = .blockEnd :: ((itemWords ds).reverse ++
      ((.dash :: words false d).reverse ++ ([.blockList] ++ tokens))) by simp [words, itemWords]]
  exact (hitem.trans fun _ hstale =>
    reaches_items (fun e he => h e (List.mem_cons_of_mem d he)) hstale hinner).close hm hafter

theorem inlined_record {e : String × Data} {es : List (String × Data)}
    (hinline : ∀ e' ∈ e :: es, Inlined e'.2) (hvalue : ∀ e' ∈ e :: es, Valued e'.2) :
    Inlined (.record (e :: es)) := by
  intro m margins tokens l after hm _ hafter
  have hinner : Ends (m + 1) after := hafter.mono (Nat.le_succ_of_le hm)
  have hline := line_inlineEntry (lined e.2) m
  have hentry := reaches_entry (hinline e List.mem_cons_self) (hvalue e List.mem_cons_self)
    (.first hm) (stale_none l) tokens (ends_entries es (lineAfter l (inlineEntry m e)) hinner)
  rw [show inline m (.record (e :: es)) = inlineEntry m e ++ entries m es from rfl,
    hline.place_append, List.append_assoc, lineAfter_append,
    show (words false (.record (e :: es))).reverse ++ tokens =
      .blockEnd :: ((entryWords es).reverse ++ ((entryWords [e]).reverse ++
        ([.blockMap] ++ tokens))) by simp [words, entryWords]]
  exact (hentry.trans fun _ hstale =>
    reaches_entries (fun e' he' => hinline e' (List.mem_cons_of_mem e he'))
      (fun e' he' => hvalue e' (List.mem_cons_of_mem e he')) hstale hinner).close hm hafter

/-- The items of a list that is the value of a key stand at the margin of the key. -/
theorem valued_list {d : Data} {ds : List Data} (h : ∀ e ∈ d :: ds, Inlined e) :
    Valued (.list (d :: ds)) := by
  intro m outside tokens l c after _ hafter
  exact .of_leads (leads_feed (g := ⟨'\n', l, c⟩) rfl (ends_items (d :: ds) (l + 1) hafter))
    (lineAfter_feed l _ ▸ reaches_items h (stale_none _) hafter)

/-- A record that is the value of a key stands on lines of its own. -/
theorem valued_record {e : String × Data} {es : List (String × Data)}
    (h : Inlined (.record (e :: es))) : Valued (.record (e :: es)) := by
  intro m outside tokens l c after _ hafter
  obtain ⟨x, rest, hx, hbegins⟩ : ∃ x rest, inline (m + 2) (.record (e :: es)) = x :: rest ∧
      Begins x := by
    obtain ⟨x, rest, hx, hbegins⟩ := inlineEntry_begins (m + 2) e
    exact ⟨x, rest ++ entries (m + 2) es, congrArg (· ++ entries (m + 2) es) hx, hbegins⟩
  have hinline := h (m + 2) (m :: outside) tokens (l + 1) after (Nat.le_succ (m + 1)) nofun hafter
  rw [show value m (.record (e :: es)) =
      '\n' :: (spaces (m + 2) ++ inline (m + 2) (.record (e :: es))) from
        congrArg ('\n' :: ·) (List.append_assoc _ _ _), place_cons_break rfl, List.cons_append]
  have hends : Ends (m + 3)
      (place (l + 1) 0 (spaces (m + 2) ++ inline (m + 2) (.record (e :: es))) ++ after) := by
    rw [hx]
    exact ends_spaces (Nat.lt_succ_self _) hbegins (l + 1) rest after
  refine .of_leads (leads_feed rfl hends) ?_
  rw [hx] at hinline ⊢
  rw [lead_spaces hbegins, Nat.zero_add, lineAfter_feed, lineAfter_spaces]
  exact hinline

/-- **SCANNING**: all data is cut into its tokens, wherever it may stand. -/
theorem scanned (d : Data) : Inlined d ∧ Valued d := by
  have hwhole : ∀ d, (∀ margin, inline margin d = wholeLine margin d) →
      (∀ margin, value margin d = ' ' :: wholeLine (margin + 2) d) →
      (∀ loose, words loose d = wholeWords d) → Inlined d ∧ Valued d := by
    intro d hinline hvalue hwords
    constructor
    · intro m margins tokens l after hm hstr hafter
      rw [hinline, hwords]
      exact (reaches_whole d hstr (stale_none _) hm hafter).mono
        ((line_wholeLine m d).lt_lineAfter l)
    · intro m outside tokens l c after hm hafter
      rw [hvalue, hwords]
      have hreaches : Reaches (inBlock (m :: outside) tokens none false
          (place l (c + 1) (wholeLine (m + 2) d) ++ after)) (l + 1) (m :: outside)
            ((wholeWords d).reverse ++ tokens) after :=
        reaches_whole d (fun _ _ => rfl) (stale_none _) (Nat.succ_le_succ hm) hafter
      exact .of_leads (leads_space (g := ⟨' ', l, c⟩) rfl)
        (hreaches.mono (lineAfter_append l [' '] _ ▸ (line_wholeLine (m + 2) d).lt_lineAfter l))
  induction d using Data.induct with
  | null => exact hwhole _ (fun _ => rfl) (fun _ => rfl) fun _ => rfl
  | bool b => exact hwhole _ (fun _ => rfl) (fun _ => rfl) fun _ => rfl
  | int n => exact hwhole _ (fun _ => rfl) (fun _ => rfl) fun _ => rfl
  | str s => exact hwhole _ (fun _ => rfl) (fun _ => rfl) fun _ => rfl
  | list ds ih =>
      cases ds with
      | nil => exact hwhole _ (fun _ => rfl) (fun _ => rfl) fun _ => rfl
      | cons d ds =>
          exact ⟨inlined_list fun e he => (ih e he).1, valued_list fun e he => (ih e he).1⟩
  | record es ih =>
      cases es with
      | nil => exact hwhole _ (fun _ => rfl) (fun _ => rfl) fun _ => rfl
      | cons e es =>
          have hinline := inlined_record (fun e' he' => (ih e' he').1) fun e' he' => (ih e' he').2
          exact ⟨hinline, valued_record hinline⟩

/-- What is scanned to its end is cut into the tokens so far. -/
theorem Reaches.tokens_eq {input : List Glyph} (h : Reaches { input } line [] tokens []) :
    Yaml.tokens input = some tokens.reverse := by
  obtain ⟨candidate, hstale, hleads⟩ := h
  rw [hleads.tokens rfl, finish]
  show (Scan.dropCandidate _).bind _ = _
  rw [show (inBlock [] tokens candidate true (lead [])).close (fun _ => false) =
    inBlock [] tokens candidate true (lead []) from rfl, hstale.dropCandidate]
  rfl

end Scan

/-- **TOKENS**: data that is laid out is cut into the tokens of the data. -/
theorem tokens_layout (d : Data) : tokens (place 0 0 (layout d)) = some (words false d) := by
  have hparts : (∀ s, d ≠ .str s) → tokens (place 0 0 (inline 0 d)) = some (words false d) := by
    intro hstr
    have hreaches := (Scan.scanned d).1 0 [] [] 0 [] (Nat.le_refl 0) (fun s hs => absurd hs (hstr s))
      .done
    rw [List.append_nil, List.append_nil] at hreaches
    rw [hreaches.tokens_eq, List.reverse_reverse]
  cases d with
  | null => exact hparts nofun
  | bool b => exact hparts nofun
  | int n => exact hparts nofun
  | list ds => exact hparts nofun
  | record es => exact hparts nofun
  | str s =>
      have hreaches := @Scan.reaches_text [] [] none true 0 0 [] (Scan.stale_none _) (Nat.le_refl 0)
        .done s.toList
      rw [List.append_nil] at hreaches
      exact hreaches.tokens_eq

end Lapse.Yaml
