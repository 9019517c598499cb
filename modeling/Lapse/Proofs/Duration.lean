import Lapse.Action.Deadline
import Lapse.Proofs.Text.Numeral

/-!
# Durations as they are shown

A duration is written as its minutes, the seconds after them and the milliseconds after those.  The
minutes fill at least two places and have no bound, the seconds fill two, and the milliseconds fill as
many as they need.  The marks between the parts are no digits, so that the parts are read back from
wherever they end, and there is one text for each duration.  What is said of an action that expired
tells its duration that way.
-/

namespace Lapse

namespace Duration

/-- The minutes of a duration, the seconds after them and the milliseconds after those. -/
structure Parts where
  minutes : Nat
  seconds : Nat
  millis : Nat

namespace Parts

variable {p : Parts} {text : List Char}

/-- No seconds make a minute, and no milliseconds a second. -/
structure Valid (p : Parts) : Prop where
  seconds : p.seconds < 60
  millis : p.millis < 1000

/-- The milliseconds of a whole duration. -/
def total (p : Parts) : Nat := p.minutes * 60000 + p.seconds * 1000 + p.millis

/-- A text gives the parts of a duration: the minutes in at least two places, the seconds in two, and
the milliseconds in as many as they need. -/
def Spelled (p : Parts) (text : List Char) : Prop :=
  ∃ minutes seconds millis, text = minutes ++ ':' :: seconds ++ '.' :: millis ∧
    Decimal.Numeral 2 p.minutes minutes ∧ Decimal.Spells 2 p.seconds seconds ∧
    Decimal.Numeral 1 p.millis millis

/-! ## Writing -/

/-- The parts of a duration of so many milliseconds. -/
def ofMillis (n : Nat) : Parts := ⟨n / 60000, n % 60000 / 1000, n % 1000⟩

theorem valid_ofMillis (n : Nat) : (ofMillis n).Valid where
  seconds := by
    show n % 60000 / 1000 < 60
    omega
  millis := Nat.mod_lt n (by decide)

theorem total_ofMillis (n : Nat) : (ofMillis n).total = n := by
  show n / 60000 * 60000 + n % 60000 / 1000 * 1000 + n % 1000 = n
  omega

/-- The parts of a duration are the quotients and remainders of its milliseconds. -/
theorem Valid.eq_ofMillis (h : p.Valid) : p = ofMillis p.total := by
  obtain ⟨minutes, seconds, millis⟩ := p
  obtain ⟨hseconds, hmillis⟩ := h
  rw [ofMillis, total, mk.injEq]
  dsimp only at hseconds hmillis ⊢
  omega

/-- The parts of a duration are spelled in one way. -/
theorem Valid.spelled_iff (h : p.Valid) : p.Spelled text ↔
    text = Decimal.padded 2 p.minutes ++ ':' :: Decimal.padded 2 p.seconds ++
      '.' :: Decimal.digits p.millis := by
  have hseconds : Decimal.Spells 2 p.seconds (Decimal.padded 2 p.seconds) :=
    Decimal.spells_padded_of_lt (by decide) (h.seconds.trans (by decide))
  have hmillis : Decimal.Numeral 1 p.millis (Decimal.digits p.millis) :=
    (Decimal.numeral_iff (by decide)).mpr (Decimal.padded_one p.millis).symm
  constructor
  · rintro ⟨minutes, seconds, millis, rfl, hm, hs, hf⟩
    rw [(Decimal.numeral_iff (by decide)).mp hm, hs.eq hseconds, hf.eq hmillis]
  · rintro rfl
    exact ⟨_, _, _, rfl, Decimal.numeral_padded (by decide) _, hseconds, hmillis⟩

/-! ## Reading -/

/-- What is before a mark in a text, and what is after it. -/
def cut (mark : Char) (text : List Char) : List Char × List Char :=
  (text.takeWhile (· ≠ mark), (text.dropWhile (· ≠ mark)).drop 1)

/-- The parts that a text gives, each up to the mark after it. -/
def read? (text : List Char) : Option Parts := do
  let (minutes, rest) := cut ':' text
  let (seconds, millis) := cut '.' rest
  return ⟨← Decimal.read 10 minutes, ← Decimal.read 10 seconds, ← Decimal.read 10 millis⟩

theorem cut_append {mark : Char} {before : List Char} (h : mark ∉ before) (after : List Char) :
    cut mark (before ++ mark :: after) = (before, after) := by
  have hbefore : ∀ c ∈ before, decide (c ≠ mark) = true := by
    intro c hc
    exact decide_eq_true fun heq => h (heq ▸ hc)
  rw [cut, List.takeWhile_append_of_pos hbefore, List.dropWhile_append_of_pos hbefore]
  simp

/-- **READING**: a text is read as the parts that it gives. -/
theorem Spelled.read (h : p.Spelled text) : read? text = some p := by
  obtain ⟨minutes, seconds, millis, rfl, hminutes, hseconds, hmillis⟩ := h
  have hcolon : ':' ∉ minutes := fun hmem => nomatch hminutes.digits _ hmem
  have hdot : '.' ∉ seconds := fun hmem => nomatch hseconds.digits _ hmem
  rw [read?, List.append_assoc, List.cons_append, cut_append hcolon]
  dsimp only
  rw [cut_append hdot]
  dsimp only
  rw [hminutes.read (Nat.lt_of_lt_of_le (by decide) hminutes.wide), hseconds.read (by decide),
    hmillis.read (Nat.lt_of_lt_of_le (by decide) hmillis.wide)]
  rfl

end Parts

/-- The text of a duration is that of its parts. -/
theorem toList_text (millis : UInt64) : (text millis).toList =
    Decimal.padded 2 (Parts.ofMillis millis.toNat).minutes ++
      ':' :: Decimal.padded 2 (Parts.ofMillis millis.toNat).seconds ++
      '.' :: Decimal.digits (Parts.ofMillis millis.toNat).millis := String.toList_ofList

/-- A text is that of a duration exactly if it gives parts that make up the duration. -/
theorem eq_text_iff (millis : UInt64) (s : String) : s = text millis ↔
    ∃ p : Parts, p.Valid ∧ p.total = millis.toNat ∧ p.Spelled s.toList := by
  have hvalid := Parts.valid_ofMillis millis.toNat
  rw [← String.toList_inj, toList_text, ← hvalid.spelled_iff]
  constructor
  · intro hspelled
    exact ⟨_, hvalid, Parts.total_ofMillis _, hspelled⟩
  · rintro ⟨p, hp, htotal, hspelled⟩
    rwa [← htotal, ← hp.eq_ofMillis]

theorem read_text (millis : UInt64) :
    (Parts.read? (text millis).toList).map Parts.total = some millis.toNat := by
  obtain ⟨p, -, htotal, hspelled⟩ := (eq_text_iff millis _).mp rfl
  rw [hspelled.read, Option.map_some, htotal]

/-- **DURATIONS**: the text of a duration is the one that gives its minutes in at least two places and
in no more than they need, its seconds in two places and its milliseconds without zeros before them,
and it reads as the duration again, so that two durations are written alike only if they are the
same. -/
theorem text_invertible (millis : UInt64) :
    (∀ s, s = text millis ↔
      ∃ p : Parts, p.Valid ∧ p.total = millis.toNat ∧ p.Spelled s.toList) ∧
    (Parts.read? (text millis).toList).map Parts.total = some millis.toNat ∧
    ∀ other, text millis = text other ↔ millis = other := by
  refine ⟨eq_text_iff millis, read_text millis, fun other => ?_⟩
  constructor
  · intro htext
    have hread := read_text millis
    rw [htext, read_text other, Option.some.injEq] at hread
    exact UInt64.toNat_inj.mp hread.symm
  · exact congrArg text

/-- Minutes are not made hours, and milliseconds have no zeros before them. -/
example : text 5400007 = "90:00.7" := by cbv

end Duration

/-! ## What is said of an action that expired -/

/-- What the user said of an action, in brackets after something else. -/
def Action.remark (a : Action) : String :=
  match a.terms.message with
  | some text => if text = "" then "" else " (" ++ text ++ ")"
  | none => ""

/-- That an action expired: what was done, how long that was to last, and what the user said of it. -/
def Action.expiryText (a : Action) (lifetime : UInt64) : String :=
  (match a.undo with
    | .bounce _ => "Bounce"
    | .pause => "Pause"
    | .scale _ => "Scale"
    | .skipHealthchecks _ => "Skip healthchecks") ++
  " expired after " ++ Duration.text lifetime ++ a.remark

theorem Action.expiryMessage_eq (a : Action) (lifetime : UInt64) :
    a.expiryMessage lifetime = a.expiryText lifetime := by
  have htitle : a.kind.title = match a.undo with
      | .bounce _ => "Bounce"
      | .pause => "Pause"
      | .scale _ => "Scale"
      | .skipHealthchecks _ => "Skip healthchecks" := by
    rw [kind]
    cases a.undo <;> rfl
  rw [expiryMessage, expiryText, remark, htitle]
  cases a.terms.message with
  | none => exact String.append_empty.symm
  | some text =>
      by_cases htext : text = ""
      · subst htext
        exact String.append_empty.symm
      · simp [htext, String.append_assoc]

end Lapse
