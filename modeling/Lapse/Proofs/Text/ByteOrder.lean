import Lapse.Proofs.Text.Utf8
import Mathlib.Data.List.Lex
import Mathlib.Data.String.Basic
import Mathlib.Tactic.SplitIfs

/-!
# The order of bytes

UTF-8 keeps the order of texts: of two texts the one that comes first by its characters comes first
by its bytes.  So a table in the byte order of its keys is one in the order of its keys.
-/

namespace Lapse.Utf8

theorem cons_byte_lt_iff {m n : Nat} (hm : m < 256) (hn : n < 256) (x y : Bytes) :
    byte m :: x < byte n :: y ↔ m < n ∨ m = n ∧ x < y := by
  rw [List.cons_lt_cons_iff, UInt8.lt_iff_toNat_lt, ← UInt8.toNat_inj, toNat_byte hm, toNat_byte hn]

/-- The bytes of the lesser of two characters are the lesser, whatever comes after them. -/
theorem encodeChar_append_lt {c d : Char} (h : c < d) (x y : Bytes) :
    encodeChar c ++ x < encodeChar d ++ y := by
  have hlt : c.toNat < d.toNat := h
  have hc := toNat_valid c
  have hd := toNat_valid d
  -- each group of six bits of the lesser is at most that of the greater, while those above agree
  have hsix : c.toNat / 64 ≤ d.toNat / 64 := Nat.div_le_div_right hlt.le
  have htwelve : c.toNat / 4096 ≤ d.toNat / 4096 := Nat.div_le_div_right hlt.le
  have height : c.toNat / 262144 ≤ d.toNat / 262144 := Nat.div_le_div_right hlt.le
  have hdiv : ∀ n, n / 64 / 64 = n / 4096 := fun n => Nat.div_div_eq_div_mul ..
  have hdiv' : ∀ n, n / 4096 / 64 = n / 262144 := fun n => Nat.div_div_eq_div_mul ..
  have hcs := hdiv c.toNat
  have hds := hdiv d.toNat
  have hct := hdiv' c.toNat
  have hdt := hdiv' d.toNat
  -- a character of fewer bytes has the lesser first byte
  unfold encodeChar
  dsimp only
  split_ifs <;>
    simp (disch := omega) only [List.cons_append, List.nil_append, cons_byte_lt_iff] <;>
    omega

theorem encodeChar_ne_nil (c : Char) : encodeChar c ≠ [] := by
  obtain ⟨a, tail, hbytes, -⟩ := first_encodeChar c
  rw [hbytes]
  exact List.cons_ne_nil a tail

theorem encodeChars_cons (c : Char) (cs : List Char) :
    encodeChars (c :: cs) = encodeChar c ++ encodeChars cs := List.flatMap_cons

theorem append_lt_append_left {x y : Bytes} (z : Bytes) (h : x < y) : z ++ x < z ++ y := by
  induction z with
  | nil => exact h
  | cons b z ih => exact List.cons_lt_cons_iff.mpr (.inr ⟨rfl, ih⟩)

theorem encodeChars_lt {cs ds : List Char} (h : cs < ds) : encodeChars cs < encodeChars ds := by
  induction cs generalizing ds with
  | nil =>
      cases ds with
      | nil => exact absurd h (List.not_lt_nil [])
      | cons d ds =>
          obtain ⟨b, tail, hbytes⟩ := List.exists_cons_of_ne_nil (encodeChar_ne_nil d)
          rw [encodeChars_cons, hbytes]
          exact List.nil_lt_cons _ _
  | cons c cs ih =>
      cases ds with
      | nil => exact absurd h (List.not_lt_nil _)
      | cons d ds =>
          rw [encodeChars_cons, encodeChars_cons]
          rcases List.cons_lt_cons_iff.mp h with hlt | ⟨rfl, hrest⟩
          · exact encodeChar_append_lt hlt _ _
          · exact append_lt_append_left _ (ih hrest)

/-- **ORDER**: texts are in the order of their bytes. -/
theorem encode_lt_iff {s t : String} : encode s < encode t ↔ s < t := by
  rw [String.lt_iff_toList_lt]
  refine ⟨fun h => ?_, encodeChars_lt⟩
  by_contra hnot
  rcases lt_or_eq_of_le (not_lt.mp hnot) with hlt | heq
  · exact List.lt_asymm h (encodeChars_lt hlt)
  · rw [encode, encode, heq] at h
    exact List.lt_irrefl _ h

end Lapse.Utf8
