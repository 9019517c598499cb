import Lapse.Yaml.Scalar
import Lapse.Yaml.Tag

/-!
# The words of YAML

A YAML text is cut into tokens: scalars and what stands around them.  Some tokens have no characters
of their own.  A list or a map that is set off by its margin begins where the margin first grows and
ends where it shrinks again, and a key on one line is known for one only at the colon after it: the
place where it began is kept as a candidate, and the token is put in there later.
-/

namespace Lapse.Yaml

/-- One word of a YAML text. -/
inductive Token where
  | directive (d : Directive)
  | documentStart
  | documentEnd
  /-- A list begins at a new margin. -/
  | blockList
  /-- A map begins at a new margin. -/
  | blockMap
  | blockEnd
  | leftBracket
  | rightBracket
  | leftBrace
  | rightBrace
  | comma
  | dash
  | key
  | value
  /-- The name of the next node, as the number of the name. -/
  | anchor (id : Nat)
  /-- A node that has the name with this number. -/
  | reference (id : Nat)
  | tag (t : Tag)
  | scalar (style : Style) (text : List Char)
  deriving DecidableEq

/-- A place where the key of an entry may have begun. -/
structure Candidate where
  line : Nat
  column : Nat
  /-- How many tokens there were before. -/
  before : Nat
  /-- Whether nothing but a key can stand there. -/
  required : Bool
  deriving DecidableEq

/-- How far a text is cut into tokens. -/
structure Scan where
  input : List Glyph
  /-- The tokens so far, the latest first. -/
  tokens : List Token := []
  /-- The columns of the open lists and maps that have a margin, the innermost first. -/
  margins : List Nat := []
  candidate : Option Candidate := none
  /-- The candidates outside the brackets that are open, the innermost first. -/
  outer : List (Option Candidate) := []
  /-- Whether a key may begin here. -/
  ready : Bool := true
  /-- The numbers of the names of nodes. -/
  names : List (List Char × Nat) := []

namespace Scan

/-- Whether a bracket is open. -/
def inFlow (s : Scan) : Bool := !s.outer.isEmpty

/-- Add a token. -/
def push (s : Scan) (t : Token) : Scan := { s with tokens := t :: s.tokens }

/-- The least column at which text inside the current surroundings may stand. -/
def floor (s : Scan) : Nat :=
  match s.margins with
  | [] => 0
  | margin :: _ => margin + 1

/-! ## Between tokens -/

/-- What is left after white space and comments, and whether a key may begin there: outside brackets
it may after the end of a line.  Tabs are no white space where a key may begin outside brackets. -/
def blankRest (inFlow : Bool) : (ready comment : Bool) → List Glyph → Bool × List Glyph
  | ready, _, [] => (ready, [])
  | ready, comment, g :: rest =>
    if isBreak g.char then blankRest inFlow (ready || !inFlow) false rest
    else if comment || g.char = ' ' || (g.char = '\t' && (inFlow || !ready)) ||
        (g.char = byteOrderMark && g.column = 0) then
      blankRest inFlow ready comment rest
    else if g.char = '#' then blankRest inFlow ready true rest
    else (ready, g :: rest)

/-- Go on to the next token. -/
def skip (s : Scan) : Scan :=
  let (ready, input) := blankRest s.inFlow s.ready false s.input
  { s with ready, input }

/-! ## Margins -/

/-- Close the innermost margins that do not satisfy a test; inside brackets they stay. -/
def close (s : Scan) (stays : Nat → Bool) : Scan :=
  if s.inFlow then s
  else
    let closed := s.margins.takeWhile fun margin => !stays margin
    { s with
      margins := s.margins.drop closed.length
      tokens := closed.map (fun _ => Token.blockEnd) ++ s.tokens }

/-- Whether a column would open a new margin. -/
def opens (s : Scan) (column : Nat) : Bool :=
  !s.inFlow && (match s.margins with
    | [] => true
    | margin :: _ => margin < column)

/-- Begin a list or a map at a column, unless one is open there. -/
def openAt (s : Scan) (column : Nat) (t : Token) : Scan :=
  if s.opens column then { s.push t with margins := column :: s.margins } else s

/-! ## Keys on one line -/

/-- Give up the candidate; one that was required is a fault. -/
def dropCandidate (s : Scan) : Option Scan :=
  if s.candidate.any Candidate.required then none else some { s with candidate := none }

/-- Note that a key may begin with the next token, if it may. -/
def offer (s : Scan) (g : Glyph) : Option Scan :=
  if !s.ready then some s
  else do
    let required := !s.inFlow && s.margins.head? = some g.column
    let s ← s.dropCandidate
    some { s with candidate := some ⟨g.line, g.column, s.tokens.length, required⟩ }

/-- How long a key on one line may be. -/
def maxKeyLength : Nat := 1024

/-- Whether the key that began at a candidate may end before this glyph. -/
def Candidate.reaches (c : Candidate) (g : Glyph) : Bool :=
  c.line = g.line && g.column ≤ c.column + maxKeyLength

/-- Put the token of a key in where it began, and begin a map there unless one is open. -/
def insertKey (s : Scan) (c : Candidate) : Scan :=
  let after := s.tokens.length - c.before
  let opening := if s.opens c.column then [Token.blockMap] else []
  { s with
    tokens := s.tokens.take after ++ Token.key :: opening ++ s.tokens.drop after
    margins := if s.opens c.column then c.column :: s.margins else s.margins }

/-! ## Single tokens -/

/-- The marker of a document, which closes everything. -/
def boundary (s : Scan) (t : Token) : Option Scan := do
  let s ← (s.close fun _ => false).dropCandidate
  some ({ s with ready := false, input := s.input.drop 3 }.push t)

/-- A directive. -/
def directive (s : Scan) (rest : List Glyph) : Option Scan := do
  let s ← (s.close fun _ => false).dropCandidate
  let (d, rest) ← Directive.read rest
  some ({ s with ready := false, input := rest }.push (.directive d))

/-- An opening bracket or brace. -/
def openBracket (s : Scan) (g : Glyph) (rest : List Glyph) (t : Token) : Option Scan := do
  let s ← s.offer g
  some ({ s with
    candidate := none, outer := s.candidate :: s.outer, ready := true, input := rest }.push t)

/-- A closing bracket or brace. -/
def closeBracket (s : Scan) (rest : List Glyph) (t : Token) : Option Scan := do
  let s ← s.dropCandidate
  some ({ s with
    candidate := s.outer.head?.join, outer := s.outer.tail, ready := false
    input := rest }.push t)

/-- A comma between brackets. -/
def comma (s : Scan) (rest : List Glyph) : Option Scan := do
  let s ← s.dropCandidate
  some ({ s with ready := true, input := rest }.push .comma)

/-- The dash before an item of a list. -/
def dash (s : Scan) (g : Glyph) (rest : List Glyph) : Option Scan := do
  if !s.inFlow && !s.ready then none
  else
    let s ← (s.openAt g.column .blockList).dropCandidate
    some ({ s with ready := true, input := rest }.push .dash)

/-- The question mark before a key. -/
def question (s : Scan) (g : Glyph) (rest : List Glyph) : Option Scan := do
  if !s.inFlow && !s.ready then none
  else
    let s ← (s.openAt g.column .blockMap).dropCandidate
    some ({ s with ready := !s.inFlow, input := rest }.push .key)

/-- The colon before a value: after a key on one line, or else after a key of its own. -/
def colon (s : Scan) (g : Glyph) (rest : List Glyph) : Option Scan := do
  match s.candidate.filter (Candidate.reaches · g) with
  | some c =>
    let s := s.insertKey c
    some ({ s with candidate := none, ready := false, input := rest }.push .value)
  | none =>
    let s ← s.dropCandidate
    if !s.inFlow && !s.ready then none
    else
      let s := s.openAt g.column .blockMap
      some ({ s with ready := !s.inFlow, input := rest }.push .value)

/-- Whether the name of an anchor may end here. -/
def nameEnds : List Glyph → Bool
  | [] => true
  | g :: _ => isSpace g.char || ['?', ':', ',', ']', '\x7d', '%', '@', '\x60'].contains g.char

/-- Take a name. -/
def readName (input : List Glyph) : Option (List Char × List Glyph) :=
  let name := chars (input.takeWhile fun g => isWord g.char)
  let rest := input.drop name.length
  if name.isEmpty || !nameEnds rest then none else some (name, rest)

/-- A name is given to the next node.  The names get numbers; a name that is given again gets the
number of names so far. -/
def anchor (s : Scan) (g : Glyph) (rest : List Glyph) : Option Scan := do
  let s ← s.offer g
  let (name, rest) ← readName rest
  let id := s.names.length
  let names := (name, id) :: s.names.filter fun e => e.1 ≠ name
  some ({ s with ready := false, names, input := rest }.push (.anchor id))

/-- A node that was named before. -/
def reference (s : Scan) (g : Glyph) (rest : List Glyph) : Option Scan := do
  let s ← s.offer g
  let (name, rest) ← readName rest
  let id ← s.names.lookup name
  some ({ s with ready := false, input := rest }.push (.reference id))

/-- A tag. -/
def tag (s : Scan) (g : Glyph) : Option Scan := do
  let s ← s.offer g
  let (t, rest) ← Tag.read s.inFlow s.input
  some ({ s with ready := false, input := rest }.push (.tag t))

/-- A block scalar. -/
def block (s : Scan) (rest : List Glyph) (style : Style) : Option Scan := do
  let s ← s.dropCandidate
  let (text, rest) ← Block.read (style = .folded) s.floor (s.margins.head?.getD 0) rest
  some ({ s with ready := true, input := rest }.push (.scalar style text))

/-- A scalar between single quotes. -/
def single (s : Scan) (g : Glyph) (rest : List Glyph) : Option Scan := do
  let s ← s.offer g
  let (text, rest) ← Single.read .none rest
  some ({ s with ready := false, input := rest }.push (.scalar .single text))

/-- A scalar between double quotes. -/
def double (s : Scan) (g : Glyph) (rest : List Glyph) : Option Scan := do
  let s ← s.offer g
  let (text, rest) ← Double.read .none rest
  some ({ s with ready := false, input := rest }.push (.scalar .double text))

/-- A plain scalar; a key may begin after it if it took the end of its line. -/
def plain (s : Scan) (g : Glyph) : Option Scan := do
  let s ← s.offer g
  let (text, broken, rest) ← Plain.read s.inFlow s.floor .none s.input
  some ({ s with ready := broken, input := rest }.push (.scalar .plain text))

/-- The next token, which begins with this glyph. -/
def next (s : Scan) (g : Glyph) (rest : List Glyph) : Option Scan :=
  if g.column = 0 && g.char = '%' then s.directive rest
  else if atMarker '-' (g :: rest) then s.boundary .documentStart
  else if atMarker '.' (g :: rest) then s.boundary .documentEnd
  else if g.char = '[' then s.openBracket g rest .leftBracket
  else if g.char = '\x7b' then s.openBracket g rest .leftBrace
  else if g.char = ']' then s.closeBracket rest .rightBracket
  else if g.char = '\x7d' then s.closeBracket rest .rightBrace
  else if g.char = ',' then s.comma rest
  else if g.char = '-' && atSpace rest then s.dash g rest
  else if g.char = '?' && (s.inFlow || atSpace rest) then s.question g rest
  else if g.char = ':' && (s.inFlow || atSpace rest) then s.colon g rest
  else if g.char = '*' then s.reference g rest
  else if g.char = '&' then s.anchor g rest
  else if g.char = '!' then s.tag g
  else if g.char = '|' && !s.inFlow then s.block rest .literal
  else if g.char = '>' && !s.inFlow then s.block rest .folded
  else if g.char = '\'' then s.single g rest
  else if g.char = '"' then s.double g rest
  else if Plain.starts s.inFlow (g :: rest) then s.plain g
  else none

/-- The tokens of a text that ends here. -/
def finish (s : Scan) : Option (List Token) := do
  let s ← (s.close fun _ => false).dropCandidate
  if s.inFlow then none else some s.tokens.reverse

/-- Cut the text into tokens; `fuel` is greater than the length of the input. -/
def run : (fuel : Nat) → Scan → Option (List Token)
  | 0, _ => none
  | fuel + 1, s =>
    let s := s.skip
    match s.input with
    | [] => s.finish
    | g :: rest => do run fuel (← (s.close fun margin => margin ≤ g.column).next g rest)

end Scan

/-- The tokens of a text. -/
def tokens (input : List Glyph) : Option (List Token) := Scan.run (input.length + 1) { input }

end Lapse.Yaml
