import Lapse.Proofs.Root.Contents
import Lapse.Proofs.Yaml.Lines

/-!
# Saving and loading the settings

What is saved is loaded again.  A file that somebody has written by hand gives a setting the value of its
line, if it has one, or else its default, in whatever order its lines are and whatever else is in
them; only a name that is too long for one line spoils the file.
-/

namespace Lapse

/-- A line of a file of settings. -/
inductive Setting where
  /-- The period of the poll loop. -/
  | every (millis : UInt64)
  /-- The lifetime of a bounce without one of its own. -/
  | bounce (minutes : UInt64)
  /-- Something that is not asked for. -/
  | other (name word : List Char)

namespace Setting

/-! ## Lines -/

/-- The two settings by their names. -/
def everyName : String := "check_expiring_user_action_every_millis"

@[inherit_doc everyName]
def bounceName : String := "default_bounce_expiration_minutes"

/-- The name and the value of a line. -/
def entry : Setting → List Char × List Char
  | .every millis => (everyName.toList, Decimal.digits millis.toNat)
  | .bounce minutes => (bounceName.toList, Decimal.digits minutes.toNat)
  | .other name word => (name, word)

/-- The period that a line gives. -/
def every? : Setting → Option UInt64
  | .every millis => some millis
  | _ => none

/-- The lifetime that a line gives. -/
def bounce? : Setting → Option UInt64
  | .bounce minutes => some minutes
  | _ => none

/-- Whether a character may be in a name: a letter in lower case or an underscore. -/
def isNameChar (c : Char) : Bool := c.isLower || c = '_'

/-- Whether a character may be in a value that is not asked for: a letter or a digit, and beyond the
first 128 characters whatever can be shown within a line. -/
def isWordChar (c : Char) : Bool :=
  c.isAlphanum || (0x7F < c.toNat && Yaml.isPrintable c && !Yaml.endsLine c)

/-- What is not asked for has another name. -/
def Fits : Setting → Prop
  | .other name word => name ≠ [] ∧ word ≠ [] ∧ name.all isNameChar = true ∧
      word.all isWordChar = true ∧ name ≠ everyName.toList ∧ name ≠ bounceName.toList
  | _ => True

instance : DecidablePred Fits
  | .every _ => isTrue trivial
  | .bounce _ => isTrue trivial
  | .other name word => inferInstanceAs (Decidable (name ≠ [] ∧ word ≠ [] ∧
      name.all isNameChar = true ∧ word.all isWordChar = true ∧
      name ≠ everyName.toList ∧ name ≠ bounceName.toList))

/-- Lines in whatever order, with each of the two settings at most once. -/
structure Sheet (lines : List Setting) : Prop where
  fits : ∀ s ∈ lines, s.Fits
  every : (lines.filterMap every?).length ≤ 1
  bounce : (lines.filterMap bounce?).length ≤ 1

/-- The text of a file of settings. -/
def text (lines : List Setting) (ending : List Char) : List Char :=
  Yaml.entryText (lines.map entry) ending

/-- The settings that lines give, with defaults for those that they do not give. -/
def config (lines : List Setting) : Config where
  everyMillis := (lines.findSome? every?).getD ({} : Config).everyMillis
  bounceMinutes := (lines.findSome? bounce?).getD ({} : Config).bounceMinutes

/-! ## Plain words -/

/-- The characters that stand for something in a plain scalar, or cannot be in one. -/
def marks : List Char :=
  Yaml.Plain.indicators ++ [' ', '-', '?', ':', '.', '\n', '\r', '\u0085', '\u2028', '\u2029']

theorem isPlain_of_forall {text : List Char} (hne : text ≠ [])
    (h : ∀ c ∈ text, c ∉ marks ∧ Yaml.isPrintable c = true) : Yaml.Plain.isPlain text = true := by
  have hother : ∀ d ∈ marks, ∀ c ∈ text, c ≠ d := by
    rintro d hd c hc rfl
    exact (h c hc).1 hd
  have hlast : text.getLast? ≠ some ' ' :=
    fun hlast => hother ' ' (by decide) _ (List.mem_of_getLast? hlast) rfl
  have hfree := Yaml.Plain.isFree_of_forall
    (fun c hc => ⟨hother ':' (by decide) c hc, hother '#' (by decide) c hc⟩) false
  have hshown : (text.all fun c => Yaml.isPrintable c && !Yaml.endsLine c) = true := by
    rw [List.all_eq_true]
    intro c hc
    rw [(h c hc).2, Yaml.endsLine, Yaml.isBreak, decide_eq_false (hother '\n' (by decide) c hc),
      decide_eq_false (hother Yaml.lineSeparator (by decide) c hc),
      decide_eq_false (hother Yaml.paragraphSeparator (by decide) c hc),
      decide_eq_false (hother '\r' (by decide) c hc),
      decide_eq_false (hother '\u0085' (by decide) c hc)]
    rfl
  cases text with
  | nil => exact absurd rfl hne
  | cons c rest =>
      have hc : ∀ d ∈ marks, c ≠ d := fun d hd => hother d hd c List.mem_cons_self
      have hindicator : Yaml.Plain.indicators.contains c = false := by
        refine Bool.eq_false_iff.mpr fun hmem => ?_
        exact hc c (List.mem_append_left _ (List.contains_iff_mem.mp hmem)) rfl
      have hstarts : Yaml.Plain.startsPlain (c :: rest) = true := by
        rw [Yaml.Plain.startsPlain, hindicator, decide_eq_true (hc ' ' (by decide))]
        simp [hc '-' (by decide), hc '?' (by decide), hc ':' (by decide)]
      have hmarker : Yaml.Plain.startsMarker (c :: rest) = false := by
        simp [Yaml.Plain.startsMarker, List.isPrefixOf, (hc '-' (by decide)).symm,
          (hc '.' (by decide)).symm]
      rw [Yaml.Plain.isPlain, hstarts, hmarker, hfree, decide_eq_true hlast, hshown]
      rfl

theorem isPrintable_of_isAlphanum {c : Char} (h : c.isAlphanum = true) :
    Yaml.isPrintable c = true := by
  have hval : c.toNat = c.val.toNat := rfl
  have hranges : (decide (65 ≤ c.val ∧ c.val ≤ 90) ||
      (decide (97 ≤ c.val) && decide (c.val ≤ 122)) ||
      (decide (48 ≤ c.val) && decide (c.val ≤ 57))) = true := h
  simp only [Bool.or_eq_true, Bool.and_eq_true, decide_eq_true_eq, UInt32.le_iff_toNat_le,
    UInt32.reduceToNat] at hranges
  simp only [Yaml.isPrintable, Bool.or_eq_true, Bool.and_eq_true, decide_eq_true_eq, hval]
  omega

/-- Text of characters that can be shown, none of which is a mark, is plain. -/
theorem isPlain_of_any {allowed : Char → Bool} (hmarks : marks.any allowed = false)
    (hshown : ∀ c, allowed c = true → Yaml.isPrintable c = true) {text : List Char} (hne : text ≠ [])
    (h : text.all allowed = true) : Yaml.Plain.isPlain text = true := by
  have hall := List.all_eq_true.mp h
  refine isPlain_of_forall hne fun c hc => ⟨fun hmark => ?_, hshown c (hall c hc)⟩
  exact List.any_eq_false.mp hmarks c hmark (hall c hc)

theorem isPlain_name {name : List Char} (hne : name ≠ []) (h : name.all isNameChar = true) :
    Yaml.Plain.isPlain name = true := by
  refine isPlain_of_any rfl (fun c hc => ?_) hne h
  rw [isNameChar, Bool.or_eq_true, decide_eq_true_eq] at hc
  rcases hc with hlower | rfl
  · refine isPrintable_of_isAlphanum ?_
    show (c.isUpper || c.isLower || c.isDigit) = true
    rw [hlower, Bool.or_true, Bool.true_or]
  · rfl

theorem isPlain_word {word : List Char} (hne : word ≠ []) (h : word.all isWordChar = true) :
    Yaml.Plain.isPlain word = true := by
  refine isPlain_of_any rfl (fun c hc => ?_) hne h
  rw [isWordChar, Bool.or_eq_true, Bool.and_eq_true, Bool.and_eq_true] at hc
  rcases hc with halphanum | ⟨⟨-, hprint⟩, -⟩
  · exact isPrintable_of_isAlphanum halphanum
  · exact hprint

theorem ofInt_toNat (n : UInt64) : Decimal.ofInt (n.toNat : Int) = Decimal.digits n.toNat := by
  rw [Decimal.ofInt, if_neg (Int.not_lt.mpr (Int.natCast_nonneg _))]
  rfl

theorem plainEntry {s : Setting} (h : s.Fits) : Yaml.PlainEntry s.entry := by
  have hdigits : ∀ n : UInt64, Yaml.Plain.isPlain (Decimal.digits n.toNat) = true :=
    fun n => ofInt_toNat n ▸ Yaml.Plain.isPlain_ofInt n.toNat
  cases s with
  | every millis =>
      exact ⟨(by decide +kernel : Yaml.Plain.isPlain everyName.toList = true), hdigits millis⟩
  | bounce minutes =>
      exact ⟨(by decide +kernel : Yaml.Plain.isPlain bounceName.toList = true), hdigits minutes⟩
  | other name word => exact ⟨isPlain_name h.1 h.2.2.1, isPlain_word h.2.1 h.2.2.2.1⟩

theorem Sheet.plain {lines : List Setting} (h : Sheet lines) :
    ∀ e ∈ lines.map entry, Yaml.PlainEntry e :=
  List.forall_mem_map.mpr fun s hs => plainEntry (h.fits s hs)

/-! ## Reading -/

/-- A setting with its name, and the lines that give it. -/
structure Gives (name : String) (given? : Setting → Option UInt64) : Prop where
  own : ∀ s n, given? s = some n → s.entry = (name.toList, Decimal.digits n.toNat)
  others : ∀ s : Setting, s.Fits → given? s = none → s.entry.1 ≠ name.toList

theorem gives_every : Gives everyName every? where
  own s n h := by
    cases s with
    | every millis => rw [← Option.some.inj h]; rfl
    | bounce _ => exact nomatch h
    | other _ _ => exact nomatch h
  others s hfits h := by
    cases s with
    | every _ => exact nomatch h
    | bounce _ => exact (by decide +kernel : bounceName.toList ≠ everyName.toList)
    | other name word => exact hfits.2.2.2.2.1

theorem gives_bounce : Gives bounceName bounce? where
  own s n h := by
    cases s with
    | every _ => exact nomatch h
    | bounce minutes => rw [← Option.some.inj h]; rfl
    | other _ _ => exact nomatch h
  others s hfits h := by
    cases s with
    | every _ => exact (by decide +kernel : everyName.toList ≠ bounceName.toList)
    | bounce _ => exact nomatch h
    | other name word => exact hfits.2.2.2.2.2

section Gives

variable {name : String} {given? : Setting → Option UInt64} {s : Setting}

theorem Gives.name_eq (h : Gives name given?) {n : UInt64} (hgiven : given? s = some n) :
    String.ofList s.entry.1 = name := by
  rw [h.own s n hgiven, String.ofList_toList]

theorem Gives.name_ne (h : Gives name given?) (hfits : s.Fits) (hgiven : given? s = none) :
    String.ofList s.entry.1 ≠ name := by
  rintro rfl
  exact h.others s hfits hgiven String.toList_ofList.symm

end Gives

/-- The fields of lines in a document: each name with the place of its value. -/
def fields (document : List (List Char × List Char)) (lines : List Setting) :
    List (String × Yaml.Cursor) :=
  lines.map fun s => (String.ofList s.entry.1, Yaml.Cursor.ofLine document s.entry.2)

/-- The place of a number on a line. -/
def placeOf (document : List (List Char × List Char)) (n : UInt64) : Yaml.Cursor :=
  Yaml.Cursor.ofLine document (Decimal.digits n.toNat)

theorem read_placeOf (document : List (List Char × List Char)) (n : UInt64) :
    read (placeOf document n) = some n := by
  refine Yaml.faithful.uint64 n (placeOf document n) ⟨Yaml.Node.ofLines document, ?_⟩
  rw [placeOf, Yaml.Cursor.ofLine, ← ofInt_toNat]
  rfl

section Field

variable {name : String} {given? : Setting → Option UInt64} {lines : List Setting}
  (h : Gives name given?) (hfits : ∀ s ∈ lines, s.Fits)
  (document : List (List Char × List Char))

include h hfits

theorem count_fields :
    ((fields document lines).filter (·.1 == name)).length = (lines.filterMap given?).length := by
  induction lines with
  | nil => rfl
  | cons s lines ih =>
      obtain ⟨hs, hothers⟩ := List.forall_mem_cons.mp hfits
      have hrest := ih hothers
      rw [fields] at hrest ⊢
      rw [List.map_cons]
      cases hgiven : given? s with
      | none =>
        rw [List.filter_cons_of_neg (by simpa using h.name_ne hs hgiven),
          List.filterMap_cons_none hgiven, hrest]
      | some n =>
        rw [List.filter_cons_of_pos (by simpa using h.name_eq hgiven),
          List.filterMap_cons_some hgiven, List.length_cons, List.length_cons, hrest]

theorem lookup_fields :
    (fields document lines).lookup name = (lines.findSome? given?).map (placeOf document) := by
  induction lines with
  | nil => rfl
  | cons s lines ih =>
      obtain ⟨hs, hothers⟩ := List.forall_mem_cons.mp hfits
      have hrest := ih hothers
      rw [fields] at hrest ⊢
      rw [List.map_cons, List.findSome?_cons]
      cases hgiven : given? s with
      | none =>
        rw [List.lookup_cons, beq_eq_false_iff_ne.mpr (h.name_ne hs hgiven).symm]
        exact hrest
      | some n =>
        rw [List.lookup_cons, beq_iff_eq.mpr (h.name_eq hgiven).symm, h.own s n hgiven]
        rfl

/-- A setting has the value of the first line that gives it, or its default. -/
theorem orElse_fields (place : Nat) (fallback : UInt64) :
    (Fields.named (fields document lines)).orElse place name fallback =
      some ((lines.findSome? given?).getD fallback) := by
  rw [Fields.orElse, Fields.at?, lookup_fields h hfits document]
  cases lines.findSome? given? with
  | none => rfl
  | some n => exact read_placeOf document n

end Field

/-- The settings are read from the document of their lines. -/
theorem read_lines {lines : List Setting} (h : Sheet lines) :
    read (⟨Yaml.Node.ofLines (lines.map entry), Yaml.Node.ofLines (lines.map entry)⟩ : Yaml.Cursor) =
      some (config lines) := by
  have hentries : Yaml.Cursor.entries?
      ⟨Yaml.Node.ofLines (lines.map entry), Yaml.Node.ofLines (lines.map entry)⟩ =
        some (fields (lines.map entry) lines) := by
    rw [Yaml.Cursor.entries?_ofLines, List.map_map]
    rfl
  have honce : ([everyName, bounceName].all fun name =>
      ((fields (lines.map entry) lines).filter (·.1 == name)).length ≤ 1) = true := by
    simp only [List.all_cons, List.all_nil, Bool.and_true, Bool.and_eq_true, decide_eq_true_eq,
      count_fields gives_every h.fits, count_fields gives_bounce h.fits]
    exact ⟨h.every, h.bounce⟩
  have hfields : Source.fields? [everyName, bounceName]
      (⟨Yaml.Node.ofLines (lines.map entry), Yaml.Node.ofLines (lines.map entry)⟩ : Yaml.Cursor) =
        some (.named (fields (lines.map entry) lines)) := by
    show (Yaml.Cursor.entries? _).bind _ = _
    rw [hentries, Option.bind_some]
    exact if_pos honce
  show (Source.fields? [everyName, bounceName] _).bind _ = _
  rw [hfields, Option.bind_some]
  show (Fields.orElse _ 0 everyName _).bind _ = _
  rw [orElse_fields gives_every h.fits, Option.bind_some]
  show (Fields.orElse _ 1 bounceName _).bind _ = _
  rw [orElse_fields gives_bounce h.fits, Option.bind_some]
  rfl

/-- **LINES**: the text of lines is read as the settings that they give, unless a name is too long for
one line. -/
theorem decode_text {lines : List Setting} {ending : List Char} (h : Sheet lines)
    (hending : Yaml.IsEnding ending) :
    (Yaml.decode (text lines ending) : Option Config) =
      if ∀ s ∈ lines, s.entry.1.length ≤ Yaml.Scan.maxKeyLength then some (config lines)
      else none := by
  by_cases hlines : lines = []
  · subst hlines
    rcases hending with rfl | rfl
    · rfl
    · rfl
  have hne : lines.map entry ≠ [] := by simpa using hlines
  rw [text, Yaml.decode_entryText h.plain hne hending, read_lines h]
  simp only [List.forall_mem_map]

end Setting

/-- The settings are read back. -/
theorem Config.readsBack : Yaml.ReadsBack Config := .of_restores (Config.restores Yaml.faithful)

namespace Root

open Lapse.Files

variable {t : Tree} {cwd : Location} {root : String}

theorem loadConfig_saveConfig (hsound : t.Sound) (hcwd : t.isDirectory cwd = true)
    (hfile : t.Writable cwd (configFile root)) (c : Config) :
    ∃ t', saveConfig t cwd root c = (t', .ok ()) ∧ loadConfig t' cwd root = .ok c := by
  obtain ⟨t', hwrite, hfind, -⟩ := Tree.find?_write hsound hcwd hfile (Yaml.encode c)
  refine ⟨t', hwrite, ?_⟩
  have hread : t'.read cwd (configFile root) = .ok (Yaml.encode c) := by rw [Tree.read, hfind]
  rw [loadConfig, hfind]
  dsimp only
  rw [hread]
  exact decodeFile_encode Config.readsBack c

/-- A file of lines is loaded as the settings that they give, unless a name in it is too long. -/
theorem loadConfig_text {lines : List Setting} {ending : List Char} (h : Setting.Sheet lines)
    (hending : Yaml.IsEnding ending) (hfile : t.find? cwd (configFile root) =
      some (.file (Utf8.encodeChars (Setting.text lines ending)))) :
    loadConfig t cwd root =
      if ∀ s ∈ lines, s.entry.1.length ≤ Yaml.Scan.maxKeyLength then .ok (Setting.config lines)
      else .error .yaml := by
  have hread : t.read cwd (configFile root) =
      .ok (Utf8.encodeChars (Setting.text lines ending)) := by rw [Tree.read, hfile]
  rw [loadConfig, hfile]
  dsimp only
  rw [hread]
  show decodeFile _ = _
  rw [decodeFile, Utf8.decode?_encodeChars]
  dsimp only
  rw [Setting.decode_text h hending]
  by_cases hshort : ∀ s ∈ lines, s.entry.1.length ≤ Yaml.Scan.maxKeyLength
  · rw [if_pos hshort, if_pos hshort]
  · rw [if_neg hshort, if_neg hshort]

/-- Where a file is written it is found. -/
theorem exists_configFile (bytes : Bytes) :
    ∃ t : Tree, t.find? [] (configFile "/srv") = some (.file bytes) := by
  have hfile : Tree.Writable .empty [] (configFile "/srv") :=
    ⟨_, ["srv", ".expiry"], "config.yaml", rfl, rfl, by decide⟩
  obtain ⟨t, -, hfind, -⟩ := Tree.find?_write Tree.sound_empty rfl hfile bytes
  exact ⟨t, hfind⟩

/-- **SETTINGS**: what is saved is loaded again; and a file of lines gives each setting the value of its
line, or its default without one, whatever else is in the file, as long as every name fits on a line. -/
theorem loadConfig_faithful :
    (t.Sound → t.isDirectory cwd = true → t.Writable cwd (configFile root) →
      ∀ c, ∃ t', saveConfig t cwd root c = (t', .ok ()) ∧ loadConfig t' cwd root = .ok c) ∧
    ∀ lines ending, Setting.Sheet lines → Yaml.IsEnding ending →
      t.find? cwd (configFile root) = some (.file (Utf8.encodeChars (Setting.text lines ending))) →
      loadConfig t cwd root =
        if ∀ s ∈ lines, s.entry.1.length ≤ Yaml.Scan.maxKeyLength then .ok (Setting.config lines)
        else .error .yaml :=
  ⟨loadConfig_saveConfig, fun _ _ h hending hfile => loadConfig_text h hending hfile⟩

/-- A setting between lines that are not asked for and look like something else. -/
def someLines : List Setting :=
  [.other "null".toList "1e5".toList, .bounce 5, .other "_".toList "true".toList]

theorem loadConfig_faithful_someLines :
    (∃ t : Tree, saveConfig .empty [] "/srv" { everyMillis := 0, bounceMinutes := 7 } = (t, .ok ()) ∧
      loadConfig t [] "/srv" = .ok { everyMillis := 0, bounceMinutes := 7 }) ∧
    ∃ t : Tree, t.find? [] (configFile "/srv") =
        some (.file (Utf8.encodeChars (Setting.text someLines []))) ∧
      loadConfig t [] "/srv" = .ok { everyMillis := 45000, bounceMinutes := 5 } := by
  have hfile : Tree.Writable .empty [] (configFile "/srv") :=
    ⟨_, ["srv", ".expiry"], "config.yaml", rfl, rfl, by decide⟩
  have hsheet : Setting.Sheet someLines :=
    ⟨by decide +kernel, Nat.zero_le 1, Nat.le_refl 1⟩
  constructor
  · exact (@loadConfig_faithful .empty [] "/srv").1 Tree.sound_empty rfl hfile _
  · obtain ⟨t, hfind⟩ := exists_configFile (Utf8.encodeChars (Setting.text someLines []))
    refine ⟨t, hfind, ?_⟩
    rw [(@loadConfig_faithful t [] "/srv").2 someLines [] hsheet (.inr rfl) hfind,
      if_pos (by decide +kernel)]
    rfl

/-- A line whose name is one character too long. -/
def longName : Setting := .other (List.replicate 1025 'a') ['1']

theorem sheet_longName : Setting.Sheet [longName] where
  fits := by decide +kernel
  every := Nat.zero_le 1
  bounce := Nat.zero_le 1

/-- Such a line is refused, although it gives no setting. -/
theorem loadConfig_longName :
    Setting.Sheet [longName] ∧ Setting.config [longName] = {} ∧
      ∃ t : Tree, t.find? [] (configFile "/srv") =
          some (.file (Utf8.encodeChars (Setting.text [longName] ['\n']))) ∧
        loadConfig t [] "/srv" = .error .yaml := by
  obtain ⟨t, hfind⟩ := exists_configFile (Utf8.encodeChars (Setting.text [longName] ['\n']))
  refine ⟨sheet_longName, rfl, t, hfind, ?_⟩
  have hlong : ¬∀ s ∈ [longName], s.entry.1.length ≤ Yaml.Scan.maxKeyLength := by
    intro hshort
    have hlength : (List.replicate 1025 'a').length ≤ 1024 := hshort longName List.mem_cons_self
    rw [List.length_replicate] at hlength
    omega
  rw [loadConfig_text sheet_longName (.inl rfl) hfind, if_neg hlong]

end Root

end Lapse
