/-!
# UTF-8

Text is written as UTF-8 bytes.  Reading bytes gives one item per character, and one empty item for
every run of bytes that begins no character: such a run is as long as the start of some character,
or else a single byte.
-/

namespace Lapse

/-- The contents of a file or of a stored record. -/
abbrev Bytes := List UInt8

namespace Utf8

/-- The byte of a number below 256. -/
def byte (n : Nat) : UInt8 := UInt8.ofNat n

/-- The bytes of one character. -/
def encodeChar (c : Char) : Bytes :=
  let n := c.toNat
  if n < 0x80 then [byte n]
  else if n < 0x800 then [byte (0xC0 + n / 64), byte (0x80 + n % 64)]
  else if n < 0x10000 then
    [byte (0xE0 + n / 4096), byte (0x80 + n / 64 % 64), byte (0x80 + n % 64)]
  else
    [byte (0xF0 + n / 262144), byte (0x80 + n / 4096 % 64), byte (0x80 + n / 64 % 64),
      byte (0x80 + n % 64)]

/-- The bytes of a list of characters. -/
def encodeChars (cs : List Char) : Bytes := cs.flatMap encodeChar

/-- The bytes of a text. -/
def encode (s : String) : Bytes := encodeChars s.toList

/-- The number of bytes of a character. -/
def width (c : Char) : Nat := (encodeChar c).length

/-- Whether a byte continues a character. -/
def isTail (b : UInt8) : Bool := 0x80 ≤ b.toNat && b.toNat ≤ 0xBF

/-- How a first byte goes on: the number of bytes after it and the range of the next one. -/
def shape (b : UInt8) : Option (Nat × Nat × Nat) :=
  let n := b.toNat
  if 0xC2 ≤ n && n ≤ 0xDF then some (1, 0x80, 0xBF)
  else if n = 0xE0 then some (2, 0xA0, 0xBF)
  else if n = 0xED then some (2, 0x80, 0x9F)
  else if 0xE1 ≤ n && n ≤ 0xEF then some (2, 0x80, 0xBF)
  else if n = 0xF0 then some (3, 0x90, 0xBF)
  else if 0xF1 ≤ n && n ≤ 0xF3 then some (3, 0x80, 0xBF)
  else if n = 0xF4 then some (3, 0x80, 0x8F)
  else none

/-- The six low bits of a byte that continues a character. -/
def payload (b : UInt8) : Nat := b.toNat % 64

/-- The item that starts with byte `a`, and how many of the bytes after it belong to it. -/
def first (a : UInt8) (rest : Bytes) : Option Char × Nat :=
  if a.toNat < 0x80 then (some (Char.ofNat a.toNat), 0)
  else
    match shape a, rest with
    | none, _ => (none, 0)
    | some _, [] => (none, 0)
    | some (more, low, high), b :: rest =>
      if low ≤ b.toNat && b.toNat ≤ high then
        if more = 1 then (some (Char.ofNat (a.toNat % 32 * 64 + payload b)), 1)
        else
          match rest with
          | [] => (none, 1)
          | c :: rest =>
            if isTail c then
              if more = 2 then
                (some (Char.ofNat (a.toNat % 16 * 4096 + payload b * 64 + payload c)), 2)
              else
                match rest with
                | [] => (none, 2)
                | d :: _ =>
                  if isTail d then
                    (some (Char.ofNat (a.toNat % 8 * 262144 + payload b * 4096 + payload c * 64
                      + payload d)), 3)
                  else (none, 2)
            else (none, 1)
      else (none, 0)

/-- The characters of a byte sequence; an empty item stands for bytes that form none. -/
def decode : Bytes → List (Option Char)
  | [] => []
  | a :: rest =>
    let (item, used) := first a rest
    item :: decode (rest.drop used)
termination_by bytes => bytes.length
decreasing_by simp only [List.length_drop, List.length_cons]; omega

/-- The text of a byte sequence that is UTF-8 throughout. -/
def decode? (bytes : Bytes) : Option (List Char) := (decode bytes).mapM id

/-- The text of a byte sequence, with U+FFFD for bytes that form no character. -/
def decodeLossy (bytes : Bytes) : String :=
  String.ofList ((decode bytes).map (·.getD '\uFFFD'))

end Utf8

end Lapse
