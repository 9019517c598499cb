import Lapse.Text.Utf8
import Lapse.Text.Decimal

/-!
# The words of JSON

A JSON text is cut into tokens: punctuation, the three literal names, numbers and strings.  Bytes
that form no character, and escapes of half a surrogate pair, are no fault of the text as such;
a string that holds one is a token without a value, which a reader may only pass over.
-/

namespace Lapse.Json

/-- One word of a JSON text. -/
inductive Token where
  | leftBrace
  | rightBrace
  | leftBracket
  | rightBracket
  | comma
  | colon
  | null
  | bool (b : Bool)
  /-- A whole number; minus zero is none, nor is a number beyond the doubles. -/
  | int (n : Int)
  /-- Any other number within the range of the doubles. -/
  | real
  /-- A number beyond the doubles. -/
  | excessive
  /-- A string, if it is text. -/
  | str (s : Option String)
  deriving DecidableEq

/-- A character of the input, or bytes that form none. -/
abbrev Item := Option Char

/-- Whether an item is white space between tokens. -/
def isSpace : Item → Bool
  | some c => c == ' ' || c == '\n' || c == '\t' || c == '\r'
  | none => false

/-- A part of a string as written. -/
inductive Piece where
  | char (c : Char)
  /-- A UTF-16 code unit, given by an escape. -/
  | unit (n : Nat)
  /-- Bytes that form no character. -/
  | stray

/-- The text that the pieces of a string spell: two code units may form one character. -/
def joinPieces : List Piece → Option (List Char)
  | [] => some []
  | .char c :: rest => (joinPieces rest).map (c :: ·)
  | .stray :: _ => none
  | .unit n :: rest =>
    if 0xD800 ≤ n && n ≤ 0xDBFF then
      match rest with
      | .unit m :: rest =>
        if 0xDC00 ≤ m && m ≤ 0xDFFF then
          (joinPieces rest).map
            (Char.ofNat (0x10000 + (n - 0xD800) * 0x400 + (m - 0xDC00)) :: ·)
        else none
      | _ => none
    else if 0xDC00 ≤ n && n ≤ 0xDFFF then none
    else (joinPieces rest).map (Char.ofNat n :: ·)

/-- The character of a short escape. -/
def shortEscape : Char → Option Char
  | '"' => some '"'
  | '\\' => some '\\'
  | '/' => some '/'
  | 'b' => some '\x08'
  | 'f' => some '\x0c'
  | 'n' => some '\n'
  | 'r' => some '\r'
  | 't' => some '\t'
  | _ => none

/-- The value of a hexadecimal digit. -/
def hexValue (c : Char) : Option Nat := (Decimal.digitValue c).filter (· < 16)

/-- The pieces of a string up to its closing quote, and what follows. -/
def scanString : List Item → Option (List Piece × List Item)
  | some '"' :: rest => some ([], rest)
  | some '\\' :: some 'u' :: some a :: some b :: some c :: some d :: rest => do
    let n := (← hexValue a) * 4096 + (← hexValue b) * 256 + (← hexValue c) * 16 + (← hexValue d)
    let (pieces, rest) ← scanString rest
    some (.unit n :: pieces, rest)
  | some '\\' :: some e :: rest => do
    let c ← shortEscape e
    let (pieces, rest) ← scanString rest
    some (.char c :: pieces, rest)
  | some c :: rest =>
    if c == '\\' || c.toNat < 0x20 then none
    else do
      let (pieces, rest) ← scanString rest
      some (.char c :: pieces, rest)
  | none :: rest => do
    let (pieces, rest) ← scanString rest
    some (.stray :: pieces, rest)
  | [] => none

/-- The digits at the head of the input. -/
def takeDigits : List Item → List Char × List Item
  | some c :: rest =>
    if Decimal.isDigit c then
      let (digits, rest) := takeDigits rest
      (c :: digits, rest)
    else ([], some c :: rest)
  | input => ([], input)

/-- The digits of a whole part: a zero stands alone. -/
def takeWhole : List Item → Option (List Char × List Item)
  | some '0' :: rest => some (['0'], rest)
  | input =>
    let (digits, rest) := takeDigits input
    if digits.isEmpty then none else some (digits, rest)

/-- The digits after a decimal point, if there is one. -/
def takeFraction : List Item → Option (Option (List Char) × List Item)
  | some '.' :: rest =>
    let (digits, rest) := takeDigits rest
    if digits.isEmpty then none else some (some digits, rest)
  | input => some (none, input)

/-- The exponent, if there is one. -/
def takeExponent : List Item → Option (Option Int × List Item)
  | some e :: rest =>
    if e == 'e' || e == 'E' then
      let (negative, rest) :=
        match rest with
        | some '-' :: rest => (true, rest)
        | some '+' :: rest => (false, rest)
        | rest => (false, rest)
      let (digits, rest) := takeDigits rest
      if digits.isEmpty then none
      else
        let n : Int := Decimal.value digits
        some (some (if negative then -n else n), rest)
    else some (none, some e :: rest)
  | input => some (none, input)

/-- Add digits to a number while it fits 64 bits; the digits left over are returned. -/
def absorb (n : Nat) : List Char → Nat × List Char
  | [] => (n, [])
  | c :: rest =>
    let m := n * 10 + (c.toNat - '0'.toNat)
    if m < UInt64.size then absorb m rest else (n, c :: rest)

/-- Whether a number is beyond the doubles, from its first digits and its power of ten. -/
def isExcessive (whole fraction : List Char) (exponent : Int) : Bool :=
  let (n, wholeLeft) := absorb 0 whole
  let (n, fractionLeft) := absorb n fraction
  Double.productOverflows n
    (wholeLeft.length - (fraction.length - fractionLeft.length : Nat) + exponent)

/-- A number, sign already read. -/
def scanNumber (negative : Bool) (input : List Item) : Option (Token × List Item) := do
  let (whole, rest) ← takeWhole input
  let (fraction, rest) ← takeFraction rest
  let (exponent, rest) ← takeExponent rest
  let token :=
    if isExcessive whole (fraction.getD []) (exponent.getD 0) then Token.excessive
    else
      match fraction, exponent with
      | none, none =>
        let n := Decimal.value whole
        if negative then if n = 0 then .real else .int (-n) else .int n
      | _, _ => .real
  some (token, rest)

/-- The first token of an input that does not begin with white space, and what follows. -/
def scanToken : List Item → Option (Token × List Item)
  | some '{' :: rest => some (.leftBrace, rest)
  | some '}' :: rest => some (.rightBrace, rest)
  | some '[' :: rest => some (.leftBracket, rest)
  | some ']' :: rest => some (.rightBracket, rest)
  | some ',' :: rest => some (.comma, rest)
  | some ':' :: rest => some (.colon, rest)
  | some 'n' :: some 'u' :: some 'l' :: some 'l' :: rest => some (.null, rest)
  | some 't' :: some 'r' :: some 'u' :: some 'e' :: rest => some (.bool true, rest)
  | some 'f' :: some 'a' :: some 'l' :: some 's' :: some 'e' :: rest => some (.bool false, rest)
  | some '"' :: rest => do
    let (pieces, rest) ← scanString rest
    some (.str ((joinPieces pieces).map String.ofList), rest)
  | some '-' :: rest => scanNumber true rest
  | input => scanNumber false input

/-- The tokens of an input; `fuel` is at least its length. -/
def scanTokens : (fuel : Nat) → List Item → Option (List Token)
  | 0, input => if input.all isSpace then some [] else none
  | fuel + 1, input =>
    match input.dropWhile isSpace with
    | [] => some []
    | input => do
      let (token, rest) ← scanToken input
      (scanTokens fuel rest).map (token :: ·)

/-- The tokens of a JSON text. -/
def tokens (input : List Item) : Option (List Token) := scanTokens input.length input

end Lapse.Json
