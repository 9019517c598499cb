import Lapse.Proofs.Text.Decimal
import Mathlib.Data.Nat.Digits.Lemmas

/-!
# Numbers of at least so many places

A number is widened with zeros up to a least number of places, and beyond them it has no zero at its
beginning.  It is written in that way by one digit string only, so that a field of varying width says
which number was written in it.
-/

namespace Lapse.Decimal

variable {least places n : Nat} {cs ds : List Char}

/-- Digits of a number that fill at least so many places, with no zero at their beginning when they
fill more. -/
structure Numeral (least n : Nat) (cs : List Char) : Prop extends Spells cs.length n cs where
  wide : least ≤ cs.length
  tight : cs.head? = some '0' → cs.length = least

/-- **WIDENING**: what a number is widened to is its numeral. -/
theorem numeral_padded (hleast : 0 < least) (n : Nat) : Numeral least n (padded least n) := by
  by_cases h : (digits n).length ≤ least
  · have hspells := spells_padded h
    have hlength := hspells.length
    exact ⟨hlength.symm ▸ hspells, Nat.le_of_eq hlength.symm, fun _ => hlength⟩
  rw [padded_of_length_le (Nat.le_of_not_le h)]
  refine ⟨spells_digits n, Nat.le_of_not_le h, fun hzero => absurd ?_ h⟩
  -- only zero begins with a zero, and it fills one place
  obtain ⟨c, rest, hcons, hc⟩ := digits_eq_cons n
  rw [hcons, List.head?_cons, Option.some.injEq] at hzero
  rw [hc hzero, digits_eq, if_pos (by decide)]
  exact hleast

/-! ## One numeral for each number -/

/-- The values of digits, the last digit first. -/
def figures (cs : List Char) : List Nat := cs.reverse.map fun c => c.toNat - 48

theorem value_eq_ofDigits (cs : List Char) : value cs = Nat.ofDigits 10 (figures cs) := by
  induction cs using List.reverseRecOn with
  | nil => rfl
  | append_singleton cs c ih =>
      rw [value_append, ih, figures, figures, List.reverse_concat, List.map_cons, Nat.ofDigits_cons]
      omega

theorem figures_lt (h : ∀ c ∈ cs, isDigit c = true) : ∀ d ∈ figures cs, d < 10 := by
  intro d hd
  obtain ⟨c, hc, rfl⟩ := List.mem_map.mp hd
  have := isDigit_iff.mp (h c (List.mem_reverse.mp hc))
  omega

theorem length_figures (cs : List Char) : (figures cs).length = cs.length := by
  rw [figures, List.length_map, List.length_reverse]

theorem Spells.lt_pow (h : Spells places n cs) : n < 10 ^ places := by
  rw [← h.value, value_eq_ofDigits, ← h.length, ← length_figures]
  exact Nat.ofDigits_lt_base_pow_length (by decide) (figures_lt h.digits)

/-- Without a zero at its beginning, a number needs all its places. -/
theorem Spells.pow_le (h : Spells places n cs) (hplaces : 0 < places) (hzero : cs.head? ≠ some '0') :
    10 ^ places ≤ 10 * n := by
  obtain ⟨c, rest, rfl⟩ : ∃ c rest, cs = c :: rest := by
    refine List.exists_cons_of_length_pos ?_
    rwa [h.length]
  have hlast : figures (c :: rest) = figures rest ++ [c.toNat - 48] := by
    rw [figures, List.reverse_cons, List.map_append]
    rfl
  have hc : c.toNat - 48 ≠ 0 := by
    have hdigit := isDigit_iff.mp (h.digits c List.mem_cons_self)
    have hne : c.toNat ≠ 48 := fun heq => hzero (congrArg some (Char.toNat_inj.mp heq))
    omega
  rw [← h.value, value_eq_ofDigits, ← h.length, ← length_figures]
  refine @Nat.pow_length_le_mul_ofDigits 8 _ (hlast ▸ List.concat_ne_nil _ _) ?_
  simpa [hlast] using hc

/-- Digits are those of their values. -/
theorem map_digitChar_figures (h : ∀ c ∈ cs, isDigit c = true) :
    (figures cs).map digitChar = cs.reverse := by
  rw [figures, List.map_map]
  refine (List.map_congr_left fun c hc => ?_).trans (List.map_id _)
  have hdigit := isDigit_iff.mp (h c (List.mem_reverse.mp hc))
  refine Char.toNat_inj.mp ?_
  show (digitChar (c.toNat - 48)).toNat = c.toNat
  rw [toNat_digitChar (by omega)]
  omega

/-- Digit strings of one length are told apart by their values. -/
theorem Spells.eq (h : Spells places n cs) (h' : Spells places n ds) : cs = ds := by
  have hvalue := h.value.trans h'.value.symm
  rw [value_eq_ofDigits, value_eq_ofDigits] at hvalue
  have hfigures : figures cs = figures ds := by
    refine Nat.ofDigits_inj_of_len_eq (by decide) ?_ (figures_lt h.digits) (figures_lt h'.digits) hvalue
    rw [length_figures, length_figures, h.length, h'.length]
  rw [← List.reverse_inj, ← map_digitChar_figures h.digits, hfigures, map_digitChar_figures h'.digits]

/-- **ONE NUMERAL**: a number is written in one way. -/
theorem Numeral.eq (h : Numeral least n cs) (h' : Numeral least n ds) : cs = ds := by
  -- of two lengths the greater one is above the least, so that its string needs all its places
  have hlength : ∀ {cs ds}, Numeral least n cs → Numeral least n ds → ¬cs.length < ds.length := by
    intro cs ds h h' hlt
    have hwide := h.wide
    have hzero : ds.head? ≠ some '0' := fun hzero => by
      have := h'.tight hzero
      omega
    have hpow := h'.pow_le (by omega) hzero
    have hbound := Nat.mul_lt_mul_of_pos_left h.lt_pow (Nat.zero_lt_succ 9)
    have hpows : 10 ^ (cs.length + 1) ≤ 10 ^ ds.length := Nat.pow_le_pow_right (by decide) hlt
    rw [Nat.pow_succ] at hpows
    omega
  have hsame : cs.length = ds.length :=
    Nat.le_antisymm (Nat.not_lt.mp (hlength h' h)) (Nat.not_lt.mp (hlength h h'))
  exact h.toSpells.eq (hsame ▸ h'.toSpells)

theorem numeral_iff (hleast : 0 < least) : Numeral least n cs ↔ cs = padded least n :=
  ⟨fun h => h.eq (numeral_padded hleast n), fun h => h ▸ numeral_padded hleast n⟩

theorem padded_one (n : Nat) : padded 1 n = digits n :=
  padded_of_length_le (List.length_pos_iff.mpr (digitsIn_ne_nil 10 n))

/-! ## Reading -/

theorem digitValue_of_isDigit {c : Char} (h : isDigit c = true) :
    digitValue c = some (c.toNat - 48) := by
  rw [digitValue]
  exact if_pos h

theorem readDigits_of_digits (h : ∀ c ∈ cs, isDigit c = true) :
    readDigits 10 0 cs = some (value cs) := by
  induction cs using List.reverseRecOn with
  | nil => rfl
  | append_singleton cs c ih =>
      have hc := h c (List.mem_append_right cs List.mem_cons_self)
      have hlt : c.toNat - 48 < 10 := by
        have := isDigit_iff.mp hc
        omega
      rw [readDigits_append, ih fun d hd => h d (List.mem_append_left _ hd), Option.bind_some,
        readDigits, digitValue_of_isDigit hc, value_append]
      exact if_pos hlt

/-- **READING BACK**: a digit string reads as its value, also with zeros at its beginning. -/
theorem Spells.read (h : Spells places n cs) (hplaces : 0 < places) :
    Decimal.read 10 cs = some n := by
  have hcs : cs.isEmpty = false := by
    rw [List.isEmpty_eq_false_iff, ← List.length_pos_iff, h.length]
    exact hplaces
  rw [Decimal.read, hcs, if_neg Bool.false_ne_true, readDigits_of_digits h.digits, h.value]

end Lapse.Decimal
