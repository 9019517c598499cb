import Lapse.Json.Text
import Lapse.Json.Token
import Lapse.Proofs.Text.Decimal

/-!
# Cutting a JSON text into its words

`Scans` says that a text is cut into given tokens, with white space between them where one likes; the
scanner finds just these.  A string is cut off at its closing quote, with every escape undone, and a
number of 64 bits ends where no digit, point or exponent follows.
-/

namespace Lapse.Json

/-- Characters as items of an input. -/
abbrev items (cs : List Char) : List Item := cs.map some

/-- The text is cut into these tokens. -/
inductive Scans : List Item → List Token → Prop
  | done : Scans [] []
  | space {i rest ts} (blank : isSpace i = true) (others : Scans rest ts) : Scans (i :: rest) ts
  | token {i rest rest' t ts} (dark : isSpace i = false)
      (scan : scanToken (i :: rest) = some (t, rest')) (shorter : rest'.length ≤ rest.length)
      (others : Scans rest' ts) : Scans (i :: rest) (t :: ts)

theorem Scans.scanTokens {input : List Item} {ts : List Token} (h : Scans input ts) (fuel : Nat)
    (hfuel : input.length ≤ fuel) : scanTokens fuel input = some ts := by
  induction h generalizing fuel with
  | done => cases fuel <;> rfl
  | @space i rest ts blank _ ih =>
      cases fuel with
      | zero => simp at hfuel
      | succ fuel =>
          have hrest := ih (fuel + 1) (by simp at hfuel; omega)
          rw [Json.scanTokens, List.dropWhile_cons_of_pos blank]
          rw [Json.scanTokens] at hrest
          exact hrest
  | @token i rest rest' t ts dark scan shorter _ ih =>
      cases fuel with
      | zero => simp at hfuel
      | succ fuel =>
          have hrest := ih fuel (by simp at hfuel; omega)
          rw [Json.scanTokens, List.dropWhile_cons_of_neg (by simp [dark])]
          simp [scan, hrest]

/-- **CUTTING**: the tokens of a text are those that it is cut into. -/
theorem Scans.tokens {input : List Item} {ts : List Token} (h : Scans input ts) :
    tokens input = some ts := h.scanTokens _ (Nat.le_refl _)

/-! ## Strings -/

/-- A character is written as a short escape, as the escape of a control, or as itself. -/
theorem escape_cases (c : Char) :
    (∃ e, escape c = ['\\', e] ∧ shortEscape e = some c) ∨
    (c.toNat < 0x20 ∧ escape c = ['\\', 'u', '0', '0', Decimal.digitChar (c.toNat / 16),
      Decimal.digitChar (c.toNat % 16)]) ∨
    (c ≠ '"' ∧ c ≠ '\\' ∧ ¬ c.toNat < 0x20 ∧ escape c = [c]) := by
  unfold escape
  split
  · exact .inl ⟨'"', rfl, rfl⟩
  · exact .inl ⟨'\\', rfl, rfl⟩
  · exact .inl ⟨'b', rfl, rfl⟩
  · exact .inl ⟨'f', rfl, rfl⟩
  · exact .inl ⟨'n', rfl, rfl⟩
  · exact .inl ⟨'r', rfl, rfl⟩
  · exact .inl ⟨'t', rfl, rfl⟩
  · next hquote hslash _ _ _ _ _ =>
    by_cases hc : c.toNat < 0x20
    · rw [if_pos hc]
      exact .inr (.inl ⟨hc, rfl⟩)
    · rw [if_neg hc]
      exact .inr (.inr ⟨hquote, hslash, hc, rfl⟩)

section ScanString

variable {rest rest' : List Item} {pieces : List Piece}
  (h : scanString rest = some (pieces, rest'))

include h

theorem scanString_short {e c : Char} (he : shortEscape e = some c) :
    scanString (some '\\' :: some e :: rest) = some (.char c :: pieces, rest') := by
  have hu : e ≠ 'u' := by
    rintro rfl
    exact nomatch he
  rw [scanString, he, h]
  · rfl
  · rintro a b c d rest'' - heq
    exact hu heq

theorem scanString_control {c : Char} (hc : c.toNat < 0x20) :
    scanString (some '\\' :: some 'u' :: some '0' :: some '0' ::
      some (Decimal.digitChar (c.toNat / 16)) :: some (Decimal.digitChar (c.toNat % 16)) ::
        rest) = some (.unit c.toNat :: pieces, rest') := by
  have hhex : ∀ d, d < 16 → hexValue (Decimal.digitChar d) = some d := by decide
  rw [scanString, hhex _ (by omega), hhex _ (by omega), h]
  have hzero : hexValue '0' = some 0 := by decide
  simp [hzero]
  omega

theorem scanString_plain {c : Char} (hquote : c ≠ '"') (hslash : c ≠ '\\')
    (hc : ¬ c.toNat < 0x20) :
    scanString (some c :: rest) = some (.char c :: pieces, rest') := by
  rw [scanString.eq_def]
  split <;> simp_all

end ScanString

/-- What is written for a text is read as pieces that spell it. -/
theorem scanString_escape (cs : List Char) (rest : List Item) :
    ∃ pieces, scanString (items (cs.flatMap escape ++ ['"']) ++ rest) = some (pieces, rest) ∧
      joinPieces pieces = some cs := by
  induction cs with
  | nil => exact ⟨[], by simp [items, scanString], rfl⟩
  | cons c cs ih =>
      obtain ⟨pieces, hscan, hjoin⟩ := ih
      have hsplit : items ((c :: cs).flatMap escape ++ ['"']) ++ rest =
          items (escape c) ++ (items (cs.flatMap escape ++ ['"']) ++ rest) := by
        simp [items]
      rw [hsplit]
      rcases escape_cases c with ⟨e, he, hshort⟩ | ⟨hc, he⟩ | ⟨hquote, hslash, hc, he⟩
      · rw [he]
        exact ⟨_, scanString_short hscan hshort, by rw [joinPieces, hjoin]; rfl⟩
      · rw [he]
        refine ⟨_, scanString_control hscan hc, ?_⟩
        have hlow : ¬ 0xD800 ≤ c.toNat := by omega
        have hhigh : ¬ 0xDC00 ≤ c.toNat := by omega
        rw [joinPieces.eq_def]
        simp [hlow, hhigh, hjoin]
      · rw [he]
        exact ⟨_, scanString_plain hscan hquote hslash hc, by rw [joinPieces, hjoin]; rfl⟩

theorem scanToken_quote (s : String) (rest : List Item) :
    scanToken (items (quote s) ++ rest) = some (.str (some s), rest) := by
  obtain ⟨pieces, hscan, hjoin⟩ := scanString_escape s.toList rest
  have hsplit : items (quote s) ++ rest =
      some '"' :: (items (s.toList.flatMap escape ++ ['"']) ++ rest) := rfl
  rw [hsplit, scanToken, hscan]
  simp [hjoin]

/-! ## Numbers -/

/-- What follows a number so that the number ends there. -/
def Stops (rest : List Item) : Prop :=
  ∀ c, rest.head? = some (some c) → Decimal.isDigit c = false ∧ c ≠ '.' ∧ c ≠ 'e' ∧ c ≠ 'E'

theorem takeDigits_append {cs : List Char} (hcs : ∀ c ∈ cs, Decimal.isDigit c = true)
    {rest : List Item} (hrest : Stops rest) : takeDigits (items cs ++ rest) = (cs, rest) := by
  induction cs with
  | nil =>
      cases rest with
      | nil => rfl
      | cons i rest =>
          cases i with
          | none => rfl
          | some c => simp [items, takeDigits, (hrest c rfl).1]
  | cons c cs ih =>
      have hc := hcs c List.mem_cons_self
      have hrec := ih fun c hc => hcs c (List.mem_cons_of_mem _ hc)
      show takeDigits (some c :: (items cs ++ rest)) = _
      rw [takeDigits, if_pos hc, hrec]

theorem takeWhole_digits (n : Nat) {rest : List Item} (hrest : Stops rest) :
    takeWhole (items (Decimal.digits n) ++ rest) = some (Decimal.digits n, rest) := by
  obtain ⟨c, cs, hdigits, hzero⟩ := Decimal.digits_eq_cons n
  by_cases hc : c = '0'
  · rw [hzero hc]
    have h0 : Decimal.digits 0 = ['0'] := by decide +kernel
    rw [h0]
    rfl
  · have htake := takeDigits_append (fun c => Decimal.isDigit_of_mem_digits (n := n)) hrest
    rw [hdigits] at htake ⊢
    show takeWhole (some c :: (items cs ++ rest)) = _
    rw [takeWhole]
    · rw [show some c :: (items cs ++ rest) = items (c :: cs) ++ rest from rfl, htake]
      rfl
    · intro rest' h
      exact hc (Option.some.inj (List.cons.inj h).1)

theorem takeFraction_stops {rest : List Item} (hrest : Stops rest) :
    takeFraction rest = some (none, rest) := by
  unfold takeFraction
  split
  · next c _ => exact absurd rfl (hrest '.' rfl).2.1
  · rfl

theorem takeExponent_stops {rest : List Item} (hrest : Stops rest) :
    takeExponent rest = some (none, rest) := by
  unfold takeExponent
  split
  · next c _ =>
    have hc := (hrest c rfl).2.2
    rw [if_neg (by simp [hc])]
  · rfl

theorem absorb_eq {n : Nat} {cs : List Char}
    (h : cs.foldl (fun acc c => acc * 10 + (c.toNat - '0'.toNat)) n < UInt64.size) :
    absorb n cs = (cs.foldl (fun acc c => acc * 10 + (c.toNat - '0'.toNat)) n, []) := by
  -- reading on only makes the number greater
  have hgrow : ∀ (cs : List Char) n,
      n ≤ cs.foldl (fun acc c => acc * 10 + (c.toNat - '0'.toNat)) n := by
    intro cs
    induction cs with
    | nil => exact fun n => Nat.le_refl n
    | cons c cs ih =>
        intro n
        rw [List.foldl_cons]
        exact Nat.le_trans (by omega) (ih _)
  induction cs generalizing n with
  | nil => rfl
  | cons c cs ih =>
      rw [List.foldl_cons] at h ⊢
      rw [absorb, if_pos (Nat.lt_of_le_of_lt (hgrow cs _) h), ih h]

theorem isExcessive_digits {n : Nat} (h : n < UInt64.size) :
    isExcessive (Decimal.digits n) [] 0 = false := by
  have hvalue : Decimal.value (Decimal.digits n) < UInt64.size := by
    rw [Decimal.value_digits]
    exact h
  unfold isExcessive
  rw [absorb_eq hvalue]
  simp [absorb, Double.productOverflows]

theorem scanNumber_digits (negative : Bool) {n : Nat} (h : n < UInt64.size) {rest : List Item}
    (hrest : Stops rest) : scanNumber negative (items (Decimal.digits n) ++ rest) =
      some (if negative then if n = 0 then .real else .int (-n) else .int n, rest) := by
  unfold scanNumber
  rw [takeWhole_digits n hrest]
  simp only [Option.bind_eq_bind, Option.bind_some, takeFraction_stops hrest,
    takeExponent_stops hrest, Option.getD_none, isExcessive_digits h, Decimal.value_digits]
  rfl

/-- A number of 64 bits, signed or not. -/
def FitsWord (n : Int) : Prop := n.natAbs < UInt64.size

theorem scanToken_ofInt {n : Int} (h : FitsWord n) {rest : List Item} (hrest : Stops rest) :
    scanToken (items (Decimal.ofInt n) ++ rest) = some (.int n, rest) := by
  rw [Decimal.ofInt]
  by_cases hn : n < 0
  · rw [if_pos hn]
    show scanToken (some '-' :: (items (Decimal.digits n.natAbs) ++ rest)) = _
    rw [scanToken, scanNumber_digits true h hrest, if_pos rfl, if_neg (by omega)]
    have hval : -(n.natAbs : Int) = n := by omega
    rw [hval]
  · rw [if_neg hn]
    have hval : (n.natAbs : Int) = n := by omega
    have hnumber := scanNumber_digits false h hrest
    rw [hval] at hnumber
    obtain ⟨c, cs, hdigits, -⟩ := Decimal.digits_eq_cons n.natAbs
    have hc : Decimal.isDigit c = true :=
      Decimal.isDigit_of_mem_digits (n := n.natAbs) (hdigits ▸ List.mem_cons_self)
    rw [hdigits] at hnumber ⊢
    have hne : ∀ d, Decimal.isDigit d = false → c ≠ d := by
      rintro d hd rfl
      exact Bool.false_ne_true (hd.symm.trans hc)
    show scanToken (some c :: (items cs ++ rest)) = _
    rw [scanToken]
    · exact hnumber
    -- no other token begins with a digit
    all_goals
      intro rest' heq
      exact hne _ (by decide) (Option.some.inj (List.cons.inj heq).1)

end Lapse.Json
