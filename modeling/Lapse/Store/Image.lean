import Lapse.Store
import Lapse.Text.Decimal

/-!
# Stores as bytes

A store is kept in a file as a heading and its records.  A record is its key and its value, each
after its length in decimal and a colon, so that any bytes can stand in them.
-/

namespace Lapse.Store

/-- What every file of a store begins with. -/
def heading : Bytes := Utf8.encode "expiring actions\n"

/-- Bytes after their length. -/
def sized (bytes : Bytes) : Bytes :=
  Utf8.encodeChars (Decimal.digits bytes.length ++ [':']) ++ bytes

/-- The bytes of a store. -/
def toBytes (store : Store) : Bytes :=
  heading ++ store.entries.flatMap fun e => sized (Utf8.encode e.1) ++ sized e.2

/-- Whether a byte is a decimal digit. -/
def isDigitByte (b : UInt8) : Bool := 0x30 ≤ b.toNat && b.toNat ≤ 0x39

/-- Take bytes after their length. -/
def takeSized (bytes : Bytes) : Option (Bytes × Bytes) := do
  let digits := bytes.takeWhile isDigitByte
  let length ← Decimal.read 10 (digits.map fun b => Char.ofNat b.toNat)
  match bytes.drop digits.length with
  | [] => none
  | mark :: rest =>
    if mark = Utf8.byte ':'.toNat && length ≤ rest.length then
      some (rest.take length, rest.drop length)
    else none

/-- Take records until the bytes end; `fuel` is at least their number. -/
def takeRecords : (fuel : Nat) → Bytes → Option (List (String × Bytes))
  | _, [] => some []
  | 0, _ => none
  | fuel + 1, bytes => do
    let (key, rest) ← takeSized bytes
    let key ← Utf8.decode? key
    let (value, rest) ← takeSized rest
    let records ← takeRecords fuel rest
    some ((String.ofList key, value) :: records)

/-- The store that bytes keep. -/
def ofBytes? (bytes : Bytes) : Option Store :=
  if heading.isPrefixOf bytes then
    let rest := bytes.drop heading.length
    (takeRecords rest.length rest).map .ofList
  else none

end Lapse.Store
