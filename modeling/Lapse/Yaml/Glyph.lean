/-!
# Characters with their places

YAML gives meaning to lines and columns.  A text is therefore read as a list of glyphs: characters
that know where they stand.  Before that all ways to end a line become one, except the separators of
lines and paragraphs, which stay themselves when they end a line inside a scalar.
-/

namespace Lapse.Yaml

/-- A character and its place, both counted from zero. -/
structure Glyph where
  char : Char
  line : Nat
  column : Nat
  deriving DecidableEq

/-- The separator of lines. -/
def lineSeparator : Char := '\u2028'

/-- The separator of paragraphs. -/
def paragraphSeparator : Char := '\u2029'

/-- The mark that may stand before a text. -/
def byteOrderMark : Char := '\uFEFF'

/-- Whether a character ends a line, once line ends are unified. -/
def isBreak (c : Char) : Bool := c = '\n' || c = lineSeparator || c = paragraphSeparator

/-- Whether a character is a space or a tab. -/
def isBlank (c : Char) : Bool := c = ' ' || c = '\t'

/-- Whether a character separates words. -/
def isSpace (c : Char) : Bool := isBlank c || isBreak c

/-- Whether a character may stand in the names of anchors and handles. -/
def isWord (c : Char) : Bool := c.isAlphanum || c = '_' || c = '-'

/-- Whether a character may stand in a text at all. -/
def isAllowed (c : Char) : Bool :=
  let n := c.toNat
  n = 0x09 || n = 0x0A || n = 0x0D || (0x20 ≤ n && n ≤ 0x7E) || n = 0x85
    || (0xA0 ≤ n && n ≤ 0xD7FF) || (0xE000 ≤ n && n ≤ 0xFFFD) || 0x10000 ≤ n

/-- Let every line end with a line feed, a separator of lines or a separator of paragraphs. -/
def unifyBreaks : List Char → List Char
  | [] => []
  | '\r' :: '\n' :: rest => '\n' :: unifyBreaks rest
  | c :: rest => (if c = '\r' || c = '\u0085' then '\n' else c) :: unifyBreaks rest

/-- Give characters their places, from a place on. -/
def place (line column : Nat) : List Char → List Glyph
  | [] => []
  | c :: rest =>
    ⟨c, line, column⟩ :: if isBreak c then place (line + 1) 0 rest else place line (column + 1) rest

/-- The glyphs of a text, unless it holds a character that may not stand there. -/
def glyphs (text : List Char) : Option (List Glyph) :=
  let text := if text.head? = some byteOrderMark then text.drop 1 else text
  if text.all isAllowed then some (place 0 0 (unifyBreaks text)) else none

/-- Whether the next glyph is a space, a tab or the end of a line, or there is none. -/
def atSpace : List Glyph → Bool
  | [] => true
  | g :: _ => isSpace g.char

/-- Whether the next glyph, if there is one, ends a line. -/
def atBreak : List Glyph → Bool
  | [] => true
  | g :: _ => isBreak g.char

/-- Whether a line begins here with three of this character, and nothing is attached to them. -/
def atMarker (c : Char) : List Glyph → Bool
  | a :: b :: d :: rest =>
    a.column = 0 && a.char = c && b.char = c && d.char = c && atSpace rest
  | _ => false

/-- Whether a line begins here with the marker of a document. -/
def atBoundary (input : List Glyph) : Bool := atMarker '-' input || atMarker '.' input

/-- What is left after spaces and tabs. -/
def skipBlanks (input : List Glyph) : List Glyph := input.dropWhile fun g => isBlank g.char

/-- What is left of a line after a comment, if one begins here. -/
def skipComment (input : List Glyph) : List Glyph :=
  match input with
  | [] => []
  | g :: _ => if g.char = '#' then input.dropWhile fun g => !isBreak g.char else input

/-- Whether the next glyph is this character. -/
def isNext (c : Char) : List Glyph → Bool
  | [] => false
  | g :: _ => g.char = c

/-- The characters of glyphs. -/
def chars (input : List Glyph) : List Char := input.map Glyph.char

end Lapse.Yaml
