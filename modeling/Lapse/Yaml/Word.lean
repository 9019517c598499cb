import Lapse.Text.Decimal

/-!
# Words with a meaning

A plain scalar may spell nothing, a truth value or a number.  These readings are those of the
scalar's text; text that has one of them is quoted when it is written as text.
-/

namespace Lapse.Yaml.Word

/-- The words for nothing. -/
def isNull (text : List Char) : Bool :=
  ["null", "Null", "NULL", "~"].any fun word => word.toList == text

/-- The truth value of a word. -/
def flag? (text : List Char) : Option Bool :=
  if ["true", "True", "TRUE"].any fun word => word.toList == text then some true
  else if ["false", "False", "FALSE"].any fun word => word.toList == text then some false
  else none

/-- Whether digits begin with a zero that is not all of them; they are no number. -/
def isZeroLed (digits : List Char) : Bool :=
  match digits with
  | '0' :: rest => !rest.isEmpty && rest.all Decimal.isDigit
  | _ => false

/-- A number without sign, in decimal or in the base that its first two characters name. -/
def magnitude? (text : List Char) : Option Nat :=
  match text with
  | '0' :: 'x' :: rest => Decimal.read 16 rest
  | '0' :: 'o' :: rest => Decimal.read 8 rest
  | '0' :: 'b' :: rest => Decimal.read 2 rest
  | _ => if isZeroLed text then none else Decimal.read 10 text

/-- The whole number without sign, or with a plus, that a word spells. -/
def natural? (text : List Char) : Option Nat :=
  match text with
  | '+' :: rest => magnitude? rest
  | _ => magnitude? text

/-- The whole number that a word spells. -/
def integer? (text : List Char) : Option Int :=
  match text with
  | '-' :: rest => (magnitude? rest).map fun n => -(n : Int)
  | _ => (natural? text).map fun n => (n : Int)

/-- The word without its sign. -/
def unsigned (text : List Char) : List Char :=
  match text with
  | '+' :: rest => rest
  | '-' :: rest => rest
  | _ => text

/-- The exponent of a decimal fraction. -/
def exponent? (text : List Char) : Option Int :=
  match text with
  | '-' :: rest => (Decimal.read 10 rest).map fun n => -(n : Int)
  | '+' :: rest => (Decimal.read 10 rest).map fun n => (n : Int)
  | _ => (Decimal.read 10 text).map fun n => (n : Int)

/-- Whether a text without sign is a decimal fraction within the doubles. -/
def isFraction (text : List Char) : Bool :=
  let whole := text.takeWhile Decimal.isDigit
  let rest := text.dropWhile Decimal.isDigit
  let (fraction, rest) :=
    match rest with
    | '.' :: rest => (rest.takeWhile Decimal.isDigit, rest.dropWhile Decimal.isDigit)
    | _ => ([], rest)
  let digits := whole ++ fraction
  let exponent? :=
    match rest with
    | [] => some 0
    | c :: rest => if c = 'e' || c = 'E' then exponent? rest else none
  match exponent? with
  | none => false
  | some exponent =>
    !digits.isEmpty &&
      !Double.overflows (Decimal.value digits) digits.length (exponent - fraction.length)

/-- Whether a word spells a number that is not written as a whole number. -/
def isReal (text : List Char) : Bool :=
  [".inf", ".Inf", ".INF"].any (fun word => word.toList == unsigned text) ||
    [".nan", ".NaN", ".NAN"].any (fun word => word.toList == text) ||
    isFraction (unsigned text)

/-- Whether a word spells a whole number of at most 128 bits. -/
def isWhole (text : List Char) : Bool :=
  match integer? text with
  | none => false
  | some n => -(Nat.pow 2 127 : Int) ≤ n && n < (Nat.pow 2 128 : Int)

/-- Whether a word that is meant as text would be taken for something else. -/
def isTyped (text : List Char) : Bool :=
  text.isEmpty || isNull text || (flag? text).isSome || isWhole text ||
    isZeroLed (unsigned text) || isReal text

end Lapse.Yaml.Word
