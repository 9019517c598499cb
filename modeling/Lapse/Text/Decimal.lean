/-!
# Numbers in decimal and other bases

Whole numbers are written without leading zeros, signs only before negative ones.  A reader takes a
digit string in a given base.  `Double.overflows` tells which decimal fractions lie beyond the
greatest double, so that rounding to nearest gives no finite number.
-/

namespace Lapse

namespace Decimal

/-- The character of a digit below 36, letters in lower case. -/
def digitChar (d : Nat) : Char :=
  if d < 10 then Char.ofNat ('0'.toNat + d) else Char.ofNat ('a'.toNat + (d - 10))

/-- The digits of a number in a base, most significant first. -/
def digitsIn (base : Nat) (n : Nat) : List Char :=
  if _small : n < base ∨ base < 2 then [digitChar n]
  else digitsIn base (n / base) ++ [digitChar (n % base)]
termination_by n
decreasing_by exact Nat.div_lt_self (by omega) (by omega)

/-- The decimal digits of a number. -/
def digits (n : Nat) : List Char := digitsIn 10 n

/-- A whole number in decimal. -/
def ofInt (n : Int) : List Char :=
  if n < 0 then '-' :: digits n.natAbs else digits n.natAbs

/-- Digits widened with zeros on the left. -/
def padded (width n : Nat) : List Char :=
  List.replicate (width - (digits n).length) '0' ++ digits n

/-- The value of a digit, letters in either case. -/
def digitValue (c : Char) : Option Nat :=
  let n := c.toNat
  if '0'.toNat ≤ n && n ≤ '9'.toNat then some (n - '0'.toNat)
  else if 'a'.toNat ≤ n && n ≤ 'z'.toNat then some (n - 'a'.toNat + 10)
  else if 'A'.toNat ≤ n && n ≤ 'Z'.toNat then some (n - 'A'.toNat + 10)
  else none

/-- Read further digits after the number `acc`. -/
def readDigits (base : Nat) (acc : Nat) : List Char → Option Nat
  | [] => some acc
  | c :: rest =>
    match digitValue c with
    | some d => if d < base then readDigits base (acc * base + d) rest else none
    | none => none

/-- The number that a nonempty digit string denotes in a base. -/
def read (base : Nat) (cs : List Char) : Option Nat :=
  if cs.isEmpty then none else readDigits base 0 cs

/-- Whether a character is a decimal digit. -/
def isDigit (c : Char) : Bool := '0'.toNat ≤ c.toNat && c.toNat ≤ '9'.toNat

/-- The number of a string of decimal digits, which may be empty. -/
def value (cs : List Char) : Nat :=
  cs.foldl (fun acc c => acc * 10 + (c.toNat - '0'.toNat)) 0

end Decimal

namespace Double

/-- The least number that rounds beyond every double: half a step above the greatest one. -/
def limit : Nat := Nat.pow 2 1024 - Nat.pow 2 970

/-- Whether `mantissa * 10 ^ exponent` lies beyond the doubles; `size` bounds the digits of the
mantissa, so that far exponents are settled without the power. -/
def overflows (mantissa : Nat) (size : Nat) (exponent : Int) : Bool :=
  if mantissa = 0 then false
  else if exponent > 310 then true
  else if exponent ≥ 0 then decide (limit ≤ mantissa * Nat.pow 10 exponent.toNat)
  else if exponent.natAbs > size then false
  else decide (limit * Nat.pow 10 exponent.natAbs ≤ mantissa)

/-- A number rounded to 53 significant bits, a half to the even neighbour. -/
def round53 (n : Nat) : Nat :=
  let shift := n.log2 + 1 - 53
  let step := Nat.pow 2 shift
  let low := n / step
  let rest := n % step
  let up := decide (step < 2 * rest) || (decide (2 * rest = step) && low % 2 == 1)
  (if up then low + 1 else low) * step

/-- Whether the product of `mantissa` and `10 ^ exponent`, each rounded first, is too great. -/
def productOverflows (mantissa : Nat) (exponent : Int) : Bool :=
  if mantissa = 0 then false
  else if exponent > 308 then true
  else if exponent ≤ 0 then false
  else decide (limit ≤ round53 mantissa * round53 (Nat.pow 10 exponent.toNat))

end Double

end Lapse
