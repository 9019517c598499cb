import Lapse.Text.Utf8

/-!
# Reading back UTF-8

The bytes of a text read as its characters, and no byte is left over: the first byte of a
character tells how many follow it and where the second one lies, and the ranges of the table leave
out exactly what is no character.
-/

namespace Lapse.Utf8

theorem toNat_byte {n : Nat} (h : n < 256) : (byte n).toNat = n := by
  rw [byte, UInt8.toNat_ofNat']
  exact Nat.mod_eq_of_lt h

/-- The numbers of characters. -/
theorem toNat_valid (c : Char) :
    c.toNat < 0xD800 ∨ 0xDFFF < c.toNat ∧ c.toNat < 0x110000 := c.valid

theorem isTail_byte {n : Nat} (h : 0x80 ≤ n ∧ n ≤ 0xBF) : isTail (byte n) = true := by
  rw [isTail, toNat_byte (by omega)]
  simp [h]

/-! ## One character, by the number of its bytes -/

theorem first_one {a : Nat} (h : a < 0x80) (rest : Bytes) :
    first (byte a) rest = (some (Char.ofNat a), 0) := by
  unfold first
  rw [toNat_byte (by omega), if_pos h]

theorem first_two {a b low high : Nat} (ha : 0x80 ≤ a ∧ a < 256)
    (hshape : shape (byte a) = some (1, low, high)) (hb : low ≤ b ∧ b ≤ high) (hlt : b < 256)
    (rest : Bytes) :
    first (byte a) (byte b :: rest) = (some (Char.ofNat (a % 32 * 64 + b % 64)), 1) := by
  unfold first
  rw [hshape, toNat_byte ha.2, if_neg (by omega)]
  simp [toNat_byte hlt, payload, hb]

theorem first_three {a b c low high : Nat} (ha : 0x80 ≤ a ∧ a < 256)
    (hshape : shape (byte a) = some (2, low, high)) (hb : low ≤ b ∧ b ≤ high) (hlt : b < 256)
    (hc : 0x80 ≤ c ∧ c ≤ 0xBF) (rest : Bytes) :
    first (byte a) (byte b :: byte c :: rest) =
      (some (Char.ofNat (a % 16 * 4096 + b % 64 * 64 + c % 64)), 2) := by
  unfold first
  rw [hshape, toNat_byte ha.2, if_neg (by omega)]
  simp [toNat_byte hlt, toNat_byte (show c < 256 by omega), isTail_byte hc, payload, hb]

theorem first_four {a b c d low high : Nat} (ha : 0x80 ≤ a ∧ a < 256)
    (hshape : shape (byte a) = some (3, low, high)) (hb : low ≤ b ∧ b ≤ high) (hlt : b < 256)
    (hc : 0x80 ≤ c ∧ c ≤ 0xBF) (hd : 0x80 ≤ d ∧ d ≤ 0xBF) (rest : Bytes) :
    first (byte a) (byte b :: byte c :: byte d :: rest) =
      (some (Char.ofNat (a % 8 * 262144 + b % 64 * 4096 + c % 64 * 64 + d % 64)), 3) := by
  unfold first
  rw [hshape, toNat_byte ha.2, if_neg (by omega)]
  simp [toNat_byte hlt, toNat_byte (show c < 256 by omega), toNat_byte (show d < 256 by omega),
    isTail_byte hc, isTail_byte hd, payload, hb]

/-- A first byte of two, of three and of four, and the range that the table gives the next one. -/
theorem shape_two {a : Nat} (h : 0xC2 ≤ a ∧ a ≤ 0xDF) :
    shape (byte a) = some (1, 0x80, 0xBF) := by
  simp only [shape, toNat_byte (show a < 256 by omega)]
  simp [h]

theorem shape_three {a b : Nat} (ha : 0xE0 ≤ a ∧ a ≤ 0xEF) (hb : 0x80 ≤ b ∧ b ≤ 0xBF)
    (hlow : a = 0xE0 → 0xA0 ≤ b) (hhigh : a = 0xED → b ≤ 0x9F) :
    ∃ low high, shape (byte a) = some (2, low, high) ∧ low ≤ b ∧ b ≤ high := by
  simp only [shape, toNat_byte (show a < 256 by omega)]
  by_cases h0 : a = 0xE0
  · exact ⟨0xA0, 0xBF, by simp [h0], hlow h0, hb.2⟩
  by_cases hd : a = 0xED
  · exact ⟨0x80, 0x9F, by simp [hd], hb.1, hhigh hd⟩
  refine ⟨0x80, 0xBF, ?_, hb⟩
  have h1 : 0xE1 ≤ a := by omega
  have h2 : ¬ a ≤ 0xDF := by omega
  simp [h0, hd, h1, h2, ha]

theorem shape_four {a b : Nat} (ha : 0xF0 ≤ a ∧ a ≤ 0xF4) (hb : 0x80 ≤ b ∧ b ≤ 0xBF)
    (hlow : a = 0xF0 → 0x90 ≤ b) (hhigh : a = 0xF4 → b ≤ 0x8F) :
    ∃ low high, shape (byte a) = some (3, low, high) ∧ low ≤ b ∧ b ≤ high := by
  simp only [shape, toNat_byte (show a < 256 by omega)]
  by_cases h0 : a = 0xF0
  · exact ⟨0x90, 0xBF, by simp [h0], hlow h0, hb.2⟩
  by_cases h4 : a = 0xF4
  · exact ⟨0x80, 0x8F, by simp [h4], hb.1, hhigh h4⟩
  refine ⟨0x80, 0xBF, ?_, hb⟩
  have h1 : 0xF1 ≤ a := by omega
  have h3 : a ≤ 0xF3 := by omega
  have h2 : ¬ a ≤ 0xDF := by omega
  have h5 : ¬ a ≤ 0xEF := by omega
  have h6 : a ≠ 0xE0 := by omega
  have h7 : a ≠ 0xED := by omega
  simp [h0, h1, h2, h3, h5, h6, h7]

/-- **ONE CHARACTER**: its bytes begin with one that reads as the character, and takes the others
along. -/
theorem first_encodeChar (c : Char) :
    ∃ a tail, encodeChar c = a :: tail ∧
      ∀ rest, first a (tail ++ rest) = (some c, tail.length) := by
  have hc : ∀ n, n = c.toNat → Char.ofNat n = c := fun n h => h ▸ Char.ofNat_toNat c
  have hvalid := toNat_valid c
  unfold encodeChar
  dsimp only
  split
  · next h => exact ⟨_, [], rfl, fun rest => by rw [List.nil_append, first_one h, hc _ rfl]; rfl⟩
  split
  · next h =>
    refine ⟨_, [_], rfl, fun rest => ?_⟩
    rw [List.cons_append, first_two (by omega) (shape_two (by omega)) (by omega) (by omega),
      hc _ (by omega)]
    rfl
  split
  · next h =>
    obtain ⟨low, high, hshape, hb⟩ := shape_three (a := 0xE0 + c.toNat / 4096)
      (b := 0x80 + c.toNat / 64 % 64) (by omega) (by omega) (by omega) (by omega)
    refine ⟨_, [_, _], rfl, fun rest => ?_⟩
    rw [List.cons_append, List.cons_append,
      first_three (by omega) hshape hb (by omega) (by omega), hc _ (by omega)]
    rfl
  · obtain ⟨low, high, hshape, hb⟩ := shape_four (a := 0xF0 + c.toNat / 262144)
      (b := 0x80 + c.toNat / 4096 % 64) (by omega) (by omega) (by omega) (by omega)
    refine ⟨_, [_, _, _], rfl, fun rest => ?_⟩
    rw [List.cons_append, List.cons_append, List.cons_append,
      first_four (by omega) hshape hb (by omega) (by omega) (by omega), hc _ (by omega)]
    rfl

/-- **READING BACK**: the bytes of a text read as its characters. -/
theorem decode_encodeChars (cs : List Char) : decode (encodeChars cs) = cs.map some := by
  induction cs with
  | nil => rw [encodeChars, List.flatMap_nil, decode]; rfl
  | cons c cs ih =>
      obtain ⟨a, tail, hbytes, hfirst⟩ := first_encodeChar c
      have hsplit : encodeChars (c :: cs) = a :: (tail ++ encodeChars cs) := by
        rw [encodeChars, List.flatMap_cons, hbytes]
        rfl
      rw [hsplit, decode, hfirst]
      dsimp only
      rw [List.drop_left, ih]
      rfl

/-- The bytes of a text are UTF-8 throughout. -/
theorem decode?_encodeChars (cs : List Char) : decode? (encodeChars cs) = some cs := by
  rw [decode?, decode_encodeChars]
  induction cs with
  | nil => rfl
  | cons c cs ih =>
      rw [List.map_cons, List.mapM_cons, ih]
      rfl

/-- Every character has a byte. -/
theorem length_le_encodeChars (cs : List Char) : cs.length ≤ (encodeChars cs).length := by
  induction cs with
  | nil => exact Nat.le_refl 0
  | cons c cs ih =>
      obtain ⟨a, tail, hbytes, -⟩ := first_encodeChar c
      rw [encodeChars] at ih ⊢
      rw [List.flatMap_cons, hbytes, List.length_append, List.length_cons, List.length_cons]
      omega

end Lapse.Utf8
