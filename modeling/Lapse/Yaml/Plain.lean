import Lapse.Yaml.Gap

/-!
# Plain scalars

A plain scalar has no quotes, so its text must not look like anything else: it neither begins with
an indicator nor holds a colon or a number sign where one would count.  `isPlain` says which texts
can be written so, and `Plain.read` takes a plain scalar from the input.
-/

namespace Lapse.Yaml

/-- Whether a character can be shown as it is. -/
def isPrintable (c : Char) : Bool :=
  let n := c.toNat
  n = 0x0A || (0x20 ≤ n && n ≤ 0x7E) || (0xA0 ≤ n && n ≤ 0xFFFD && n ≠ 0xFEFF) || 0x10000 ≤ n

/-- Whether a character ends a line in a text that is to be written. -/
def endsLine (c : Char) : Bool := isBreak c || c = '\r' || c = '\u0085'

namespace Plain

/-- The characters that no plain scalar begins with. -/
def indicators : List Char :=
  ['#', ',', '[', ']', '\x7b', '\x7d', '&', '*', '!', '|', '>', '\'', '"', '%', '@', '\x60']

/-- Whether a text has nothing or a space here. -/
def isApart : List Char → Bool
  | [] => true
  | c :: _ => c = ' '

/-- Whether a text can begin a plain scalar. -/
def startsPlain : List Char → Bool
  | [] => false
  | c :: rest =>
    c ≠ ' ' && !indicators.contains c && !(['-', '?', ':'].contains c && isApart rest)

/-- Whether a text begins like the marker of a document. -/
def startsMarker (text : List Char) : Bool :=
  ['-', '-', '-'].isPrefixOf text || ['.', '.', '.'].isPrefixOf text

/-- Whether no colon before a space or the end, and no number sign after a space, is in a text; the
flag tells whether the character before it is a space. -/
def isFree : (afterSpace : Bool) → List Char → Bool
  | _, [] => true
  | afterSpace, c :: rest =>
    !(c = ':' && isApart rest) && !(c = '#' && afterSpace) && isFree (c = ' ') rest

/-- Whether a text can be written as a plain scalar. -/
def isPlain (text : List Char) : Bool :=
  startsPlain text && !startsMarker text && isFree false text && text.getLast? ≠ some ' '
    && text.all fun c => isPrintable c && !endsLine c

/-- Whether an indicator of lists and maps in brackets comes next. -/
def atBracket : List Glyph → Bool
  | [] => false
  | g :: _ => [',', '[', ']', '\x7b', '\x7d'].contains g.char

/-- Whether a plain scalar can begin with the next glyph. -/
def starts (inFlow : Bool) : List Glyph → Bool
  | [] => false
  | g :: rest =>
    if g.char = '-' then !(rest.head?.map fun g => isBlank g.char).getD false
    else if g.char = '?' || g.char = ':' then !inFlow && !atSpace rest
    else !isSpace g.char && !indicators.contains g.char

/-- Take a plain scalar from the input, after a gap inside it.  Outside brackets a line that does
not stand deeper than the scalar's surroundings ends it, as `floor` tells.  The answer is its text,
whether the gap after it has line ends, and what is left after that gap. -/
def read (inFlow : Bool) (floor : Nat) : Gap → List Glyph →
    Option (List Char × Bool × List Glyph)
  | gap, [] => some ([], gap.isBroken, [])
  | gap, g :: rest =>
    if isSpace g.char then
      if gap.isBroken && g.column < floor && g.char = '\t' then none
      else read inFlow floor (gap.add g.char) rest
    else if gap ≠ .none && (g.char = '#' || (!inFlow && g.column < floor) ||
        atBoundary (g :: rest)) then
      some ([], gap.isBroken, g :: rest)
    else if inFlow && g.char = ':' && (atBracket rest || isNext '?' rest) then none
    else if (g.char = ':' && atSpace rest) || (inFlow && atBracket (g :: rest)) then
      some ([], gap.isBroken, g :: rest)
    else do
      let (text, broken, rest) ← read inFlow floor .none rest
      some (gap.text ++ g.char :: text, broken, rest)

end Plain

end Lapse.Yaml
