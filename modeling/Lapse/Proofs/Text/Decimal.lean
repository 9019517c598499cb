import Lapse.Text.Decimal
import Mathlib.Algebra.Group.Nat.Defs

/-!
# Reading back numbers

The decimal digits of a number are digits, they begin with a zero only for zero itself, and their value
is the number.  In every base the digits of a number read as the number, whatever becomes of the case of
their letters and whatever zeros come before them.
-/

namespace Lapse.Decimal

theorem toNat_digitChar {d : Nat} (h : d < 10) : (digitChar d).toNat = 48 + d := by
  have hvalid : (48 + d).isValidChar := .inl (by omega)
  rw [digitChar, if_pos h]
  show (Char.ofNat (48 + d)).toNat = 48 + d
  rw [Char.ofNat, dif_pos hvalid]
  rfl

theorem isDigit_iff {c : Char} : isDigit c = true ↔ 48 ≤ c.toNat ∧ c.toNat ≤ 57 := by
  simp [isDigit]

theorem digits_eq (n : Nat) :
    digits n = if n < 10 then [digitChar n] else digits (n / 10) ++ [digitChar (n % 10)] := by
  rw [digits, digitsIn]
  by_cases h : n < 10
  · rw [dif_pos (.inl h), if_pos h]
  · rw [dif_neg (by omega), if_neg h]
    rfl

/-- **DIGITS**: every character of a number is a digit. -/
theorem isDigit_of_mem_digits {n : Nat} {c : Char} (h : c ∈ digits n) : isDigit c = true := by
  have hdigit : ∀ d, d < 10 → isDigit (digitChar d) = true := by
    intro d hd
    rw [isDigit_iff, toNat_digitChar hd]
    omega
  induction n using Nat.strongRecOn with
  | ind n ih =>
      rw [digits_eq] at h
      split at h
      · next hn =>
        rw [List.mem_singleton.mp h]
        exact hdigit n hn
      · rcases List.mem_append.mp h with h | h
        · exact ih (n / 10) (by omega) h
        · rw [List.mem_singleton.mp h]
          exact hdigit _ (by omega)

/-- The first digit is a zero for zero only. -/
theorem digits_eq_cons (n : Nat) : ∃ c rest, digits n = c :: rest ∧ (c = '0' → n = 0) := by
  induction n using Nat.strongRecOn with
  | ind n ih =>
      rw [digits_eq]
      split
      · next hn =>
        refine ⟨digitChar n, [], rfl, fun h => ?_⟩
        have hval := toNat_digitChar hn
        rw [h] at hval
        have : ('0' : Char).toNat = 48 := rfl
        omega
      · obtain ⟨c, rest, heq, hzero⟩ := ih (n / 10) (by omega)
        refine ⟨c, rest ++ [digitChar (n % 10)], by rw [heq]; rfl, fun h => ?_⟩
        have := hzero h
        omega

theorem value_append (cs : List Char) (c : Char) :
    value (cs ++ [c]) = value cs * 10 + (c.toNat - 48) := by
  rw [value, List.foldl_append]
  rfl

/-- **VALUE**: the digits of a number have it as their value. -/
theorem value_digits (n : Nat) : value (digits n) = n := by
  induction n using Nat.strongRecOn with
  | ind n ih =>
      rw [digits_eq]
      split
      · next hn =>
        show 0 * 10 + ((digitChar n).toNat - 48) = n
        rw [toNat_digitChar hn]
        omega
      · rw [value_append, ih (n / 10) (by omega), toNat_digitChar (by omega)]
        omega

/-! ## Any base -/

theorem readDigits_append (base acc : Nat) (cs ds : List Char) :
    readDigits base acc (cs ++ ds) = (readDigits base acc cs).bind (readDigits base · ds) := by
  induction cs generalizing acc with
  | nil => rfl
  | cons c cs ih =>
      rw [List.cons_append, readDigits, readDigits]
      split
      · split
        · exact ih _
        · rfl
      · rfl

/-- Digits read as the number that they are of, also when they are spelled otherwise. -/
theorem readDigits_digitsIn {base : Nat} (hbase : 2 ≤ base) {spell : Char → Char}
    (hspell : ∀ d, d < base → digitValue (spell (digitChar d)) = some d) (n : Nat) :
    readDigits base 0 ((digitsIn base n).map spell) = some n := by
  induction n using Nat.strongRecOn with
  | ind n ih =>
      rw [digitsIn]
      by_cases hn : n < base
      · rw [dif_pos (.inl hn), List.map_singleton, readDigits, hspell n hn]
        simp [hn, readDigits]
      · have hmod : n % base < base := Nat.mod_lt n (by omega)
        rw [dif_neg (by omega), List.map_append, readDigits_append,
          ih _ (Nat.div_lt_self (by omega) hbase), List.map_singleton, Option.bind_some, readDigits,
          hspell _ hmod]
        simp [hmod, readDigits, Nat.div_add_mod, Nat.mul_comm]

theorem readDigits_zeros (base k : Nat) (hbase : 0 < base) (cs : List Char) :
    readDigits base 0 (List.replicate k '0' ++ cs) = readDigits base 0 cs := by
  have hzero : digitValue '0' = some 0 := by decide
  induction k with
  | zero => rfl
  | succ k ih =>
      rw [List.replicate_succ, List.cons_append, readDigits, hzero]
      simp [hbase, ih]

theorem digitsIn_ne_nil (base n : Nat) : digitsIn base n ≠ [] := by
  rw [digitsIn]
  split
  · exact List.cons_ne_nil _ _
  · exact List.append_ne_nil_of_right_ne_nil _ (List.cons_ne_nil _ _)

/-- A number below a power of the base has no more digits than that. -/
theorem length_digitsIn_le {base : Nat} (hbase : 2 ≤ base) {width n : Nat} (hwidth : 0 < width)
    (hn : n < base ^ width) : (digitsIn base n).length ≤ width := by
  induction width generalizing n with
  | zero => omega
  | succ width ih =>
      rw [digitsIn]
      by_cases hsmall : n < base
      · rw [dif_pos (.inl hsmall)]
        exact hwidth
      · have hmore : 0 < width := by
          refine Nat.pos_of_ne_zero fun hzero => hsmall ?_
          rwa [hzero, Nat.zero_add, Nat.pow_one] at hn
        have hdiv : n / base < base ^ width := by
          rw [Nat.div_lt_iff_lt_mul (by omega)]
          rwa [Nat.pow_succ] at hn
        rw [dif_neg (by omega), List.length_append]
        exact Nat.succ_le_succ (ih hmore hdiv)

theorem digitValue_digitChar : ∀ d, d < 10 → digitValue (digitChar d) = some d := by
  decide

/-- **READING BACK**: the decimal digits of a number read as the number. -/
theorem read_digits (n : Nat) : read 10 (digits n) = some n := by
  have hread := @readDigits_digitsIn 10 (by decide) id digitValue_digitChar n
  rw [List.map_id] at hread
  rw [read, if_neg (by simp [digits, digitsIn_ne_nil]), digits, hread]

/-! ## Lean's own numerals -/

theorem digits_eq_toDigits (n : Nat) : digits n = Nat.toDigits 10 n := by
  have hdigit : ∀ d, d < 10 → digitChar d = Nat.digitChar d := by decide
  induction n using Nat.strongRecOn with
  | ind n ih =>
      rw [digits_eq, Nat.toDigits_eq_if (by decide)]
      split
      · next hn => rw [hdigit n hn]
      · rw [ih (n / 10) (by omega), hdigit _ (by omega)]

/-- **DECIMALS**: a whole number is written as Lean writes it. -/
theorem ofList_ofInt (n : Int) : String.ofList (ofInt n) = toString n := by
  rw [Int.toString_eq_repr, Int.repr_eq_if, ofInt]
  by_cases h : n < 0
  · have hneg : (-n).toNat = n.natAbs := by omega
    rw [if_pos h, if_neg (by omega), hneg, Nat.repr_eq_ofList_toDigits, digits_eq_toDigits,
      ← List.singleton_append, String.ofList_append]
  · have hpos : n.toNat = n.natAbs := by omega
    rw [if_neg h, if_pos (by omega), hpos, Nat.repr_eq_ofList_toDigits, digits_eq_toDigits]

theorem ofInt_injective {m n : Int} (h : ofInt m = ofInt n) : m = n := by
  have hdash : ∀ k, '-' ∉ digits k := fun k hmem => nomatch isDigit_of_mem_digits hmem
  rw [ofInt, ofInt] at h
  split at h
  · split at h
    · have hvalue := congrArg value (List.cons.inj h).2
      rw [value_digits, value_digits] at hvalue
      omega
    · exact absurd (h ▸ List.mem_cons_self) (hdash _)
  · split at h
    · exact absurd (h.symm ▸ List.mem_cons_self) (hdash _)
    · have hvalue := congrArg value h
      rw [value_digits, value_digits] at hvalue
      omega

/-! ## A given number of places -/

/-- Digits, as many as there are places, that have a number as their value. -/
structure Spells (places n : Nat) (cs : List Char) : Prop where
  digits : ∀ c ∈ cs, isDigit c = true
  length : cs.length = places
  value : value cs = n

/-- The same digits are those of one number. -/
theorem Spells.unique {places places' n n' : Nat} {cs : List Char} (h : Spells places n cs)
    (h' : Spells places' n' cs) : n = n' :=
  h.value.symm.trans h'.value

/-- A number of so many places at the end of a text is told apart from what is before it. -/
theorem Spells.append_inj {places n n' : Nat} {before before' cs cs' : List Char} {mark : Char}
    (h : Spells places n cs) (h' : Spells places n' cs')
    (htext : before ++ mark :: cs = before' ++ mark :: cs') : before = before' ∧ n = n' := by
  have hlength : (mark :: cs).length = (mark :: cs').length := by
    rw [List.length_cons, List.length_cons, h.length, h'.length]
  obtain ⟨hbefore, hrest⟩ := List.append_inj' htext hlength
  obtain rfl : cs = cs' := (List.cons.inj hrest).2
  exact ⟨hbefore, h.unique h'⟩

theorem value_zeros (k : Nat) (cs : List Char) : value (List.replicate k '0' ++ cs) = value cs := by
  induction k with
  | zero => rfl
  | succ k ih => exact ih

theorem spells_digits (n : Nat) : Spells (digits n).length n (digits n) :=
  ⟨fun _ hc => isDigit_of_mem_digits hc, rfl, value_digits n⟩

/-- **PLACES**: a number that needs no more places is widened to them. -/
theorem spells_padded {places n : Nat} (h : (digits n).length ≤ places) :
    Spells places n (padded places n) where
  digits := by
    intro c hc
    rcases List.mem_append.mp hc with hc | hc
    · rw [List.eq_of_mem_replicate hc]
      rfl
    · exact isDigit_of_mem_digits hc
  length := by
    rw [padded, List.length_append, List.length_replicate]
    omega
  value := by rw [padded, value_zeros, value_digits]

theorem padded_of_length_le {places n : Nat} (h : places ≤ (digits n).length) :
    padded places n = digits n := by
  rw [padded, Nat.sub_eq_zero_of_le h]
  rfl

theorem length_digits_le {places n : Nat} (hplaces : 0 < places) (h : n < 10 ^ places) :
    (digits n).length ≤ places := length_digitsIn_le (by decide) hplaces h

theorem spells_padded_of_lt {places n : Nat} (hplaces : 0 < places) (h : n < 10 ^ places) :
    Spells places n (padded places n) :=
  spells_padded (length_digits_le hplaces h)

end Lapse.Decimal
