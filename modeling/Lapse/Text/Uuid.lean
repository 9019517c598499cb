import Lapse.Text.Decimal

/-!
# Identifiers

An identifier is a number of 122 bits, written as 32 hexadecimal digits in groups of 8, 4, 4, 4 and
12.  The first digit of the third group and two bits of the fourth say that it was drawn at random.
-/

namespace Lapse.Uuid

/-- The last digits of a number in hexadecimal. -/
def hex (width n : Nat) : List Char :=
  let digits := Decimal.digitsIn 16 (n % Nat.pow 16 width)
  List.replicate (width - digits.length) '0' ++ digits

/-- A number without its last binary digits. -/
def above (bits n : Nat) : Nat := n / Nat.pow 2 bits

/-- The identifier of a number. -/
def text (n : Nat) : String :=
  String.ofList <|
    hex 8 n ++ '-' :: hex 4 (above 32 n) ++ '-' :: '4' :: hex 3 (above 48 n) ++
      '-' :: hex 4 (0x8000 + above 60 n % 0x4000) ++ '-' :: hex 12 (above 74 n)

end Lapse.Uuid
