import Lapse.Text.Decimal
import Lapse.Yaml.Plain

/-!
# Quoted scalars

Between single quotes every character is itself and a quote is written twice.  Between double quotes
a backslash begins an escape, so that every character can be written.  Both may go on over several
lines, whose ends and margins are gaps.
-/

namespace Lapse.Yaml

/-- A number of spaces. -/
def spaces (n : Nat) : List Char := List.replicate n ' '

/-! ## Single quotes -/

namespace Single

/-- Whether a character before another one keeps a text out of single quotes: a space beside a line
end would be lost. -/
def loses (c d : Char) : Bool := (c = ' ' && endsLine d) || (endsLine c && d = ' ')

/-- Whether no two neighbours in a text satisfy a test. -/
def noneBeside (test : Char → Char → Bool) : List Char → Bool
  | c :: d :: rest => !test c d && noneBeside test (d :: rest)
  | _ => true

/-- Whether a text can be written between single quotes. -/
def isSingle (text : List Char) : Bool := text.all isPrintable && noneBeside loses text

/-- What stands between the quotes: after a line end the text goes on at `margin`. -/
def body (margin : Nat) : (fresh : Bool) → List Char → List Char
  | fresh, [] => if fresh then spaces margin else []
  | fresh, c :: rest =>
    if isBreak c then c :: body margin true rest
    else
      (if fresh then spaces margin else []) ++
        (if c = '\'' then ['\'', '\''] else [c]) ++ body margin false rest

/-- A text between single quotes. -/
def write (margin : Nat) (text : List Char) : List Char :=
  '\'' :: body margin false text ++ ['\'']

/-- Take the rest of a text between single quotes, after a gap inside it. -/
def read : Gap → List Glyph → Option (List Char × List Glyph)
  | _, [] => none
  | gap, g :: rest =>
    if isSpace g.char then read (gap.add g.char) rest
    else if atBoundary (g :: rest) then none
    else if g.char = '\'' then
      match rest with
      | [] => some (gap.text, [])
      | h :: after =>
        if h.char = '\'' then do
          let (text, after) ← read .none after
          some (gap.text ++ '\'' :: text, after)
        else some (gap.text, h :: after)
    else do
      let (text, after) ← read .none rest
      some (gap.text ++ g.char :: text, after)

end Single

/-! ## Double quotes -/

namespace Double

/-- The escapes of single characters. -/
def escapes : List (Char × Char) :=
  [('0', '\x00'), ('a', '\x07'), ('b', '\x08'), ('t', '\t'), ('n', '\n'), ('v', '\x0b'),
    ('f', '\x0c'), ('r', '\r'), ('e', '\x1b'), ('"', '"'), ('\\', '\\'), ('N', '\u0085'),
    ('_', '\u00A0'), ('L', lineSeparator), ('P', paragraphSeparator)]

/-- Characters that may be escaped though nothing writes them so. -/
def spareEscapes : List (Char × Char) := [('\t', '\t'), (' ', ' '), ('/', '/')]

/-- How many digits follow the letter of an escape by number. -/
def digitCount (c : Char) : Option Nat :=
  if c = 'x' then some 2 else if c = 'u' then some 4 else if c = 'U' then some 8 else none

/-- A number in hexadecimal with capital letters, of at least this width. -/
def hex (width n : Nat) : List Char :=
  let digits := (Decimal.digitsIn 16 n).map Char.toUpper
  List.replicate (width - digits.length) '0' ++ digits

/-- The escape of a character by number. -/
def escapeNumber (n : Nat) : List Char :=
  if n ≤ 0xFF then '\\' :: 'x' :: hex 2 n
  else if n ≤ 0xFFFF then '\\' :: 'u' :: hex 4 n
  else '\\' :: 'U' :: hex 8 n

/-- A character between double quotes. -/
def escape (c : Char) : List Char :=
  if isPrintable c && !endsLine c && c ≠ '"' && c ≠ '\\' then [c]
  else
    match escapes.find? fun e => e.2 = c with
    | some e => ['\\', e.1]
    | none => escapeNumber c.toNat

/-- A text between double quotes. -/
def write (text : List Char) : List Char := '"' :: text.flatMap escape ++ ['"']

/-- The character that an escape by number stands for. -/
def numbered (digits : List Char) : Option Char := do
  let n ← Decimal.read 16 digits
  if n < 0xD800 || (0xDFFF < n && n ≤ 0x10FFFF) then some (Char.ofNat n) else none

/-- The character that a letter after a backslash stands for. -/
def escaped (c : Char) : Option Char := (escapes ++ spareEscapes).lookup c

/-- Take the rest of a text between double quotes, after a gap inside it. -/
def read (gap : Gap) : List Glyph → Option (List Char × List Glyph)
  | [] => none
  | g :: rest =>
    if isSpace g.char then read (gap.add g.char) rest
    else if atBoundary (g :: rest) then none
    else if g.char = '"' then some (gap.text, rest)
    else if g.char = '\\' then
      match rest with
      | [] => none
      | h :: rest =>
        if isBreak h.char then do
          let (text, after) ← read (.breaks none []) rest
          some (gap.text ++ text, after)
        else
          match escaped h.char, digitCount h.char with
          | some c, _ => do
            let (text, after) ← read .none rest
            some (gap.text ++ c :: text, after)
          | none, some n =>
            let digits := chars (rest.take n)
            if digits.length = n then do
              let c ← numbered digits
              let (text, after) ← read .none (rest.drop n)
              some (gap.text ++ c :: text, after)
            else none
          | none, none => none
    else do
      let (text, after) ← read .none rest
      some (gap.text ++ g.char :: text, after)
termination_by input => input.length
decreasing_by all_goals simp only [List.length_drop, List.length_cons]; omega

end Double

end Lapse.Yaml
