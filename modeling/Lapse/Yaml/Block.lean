import Lapse.Yaml.Quoted

/-!
# Block scalars

A block scalar is set off from the rest of the text by its margin, and its lines are kept as they
are.  The header says what becomes of the line ends at its end and, where the first line does not
show it, how wide the margin is.  A folded block scalar also joins lines that begin with no blank.
-/

namespace Lapse.Yaml.Block

/-- What becomes of the line ends after the last line. -/
inductive Chomp where
  | strip
  /-- The first one is kept. -/
  | clip
  | keep
  deriving DecidableEq

/-- What the header of a block scalar says. -/
structure Header where
  chomp : Chomp := .clip
  /-- The width of the margin beyond that of the surroundings. -/
  width : Option Nat := none
  deriving DecidableEq

/-! ## Writing -/

/-- Whether a text can be written as a block scalar: a space at the end of a line would be lost. -/
def isBlock (text : List Char) : Bool :=
  text.all isPrintable && text.getLast? ≠ some ' ' &&
    Single.noneBeside (fun c d => c = ' ' && endsLine d) text

/-- What a text needs to become of its last line ends. -/
def Chomp.ofText (text : List Char) : Chomp :=
  match text.reverse with
  | [] => .strip
  | [c] => if endsLine c then .keep else .strip
  | c :: d :: _ => if !endsLine c then .strip else if endsLine d then .keep else .clip

/-- The sign of a way to treat the last line ends. -/
def Chomp.sign : Chomp → List Char
  | .strip => ['-']
  | .clip => []
  | .keep => ['+']

/-- Whether the first character of a text hides the margin. -/
def hidesMargin : List Char → Bool
  | [] => false
  | c :: _ => c = ' ' || endsLine c

/-- The lines of a text, each after its margin; line ends that follow one another have none. -/
def body (margin : Nat) : (fresh : Bool) → List Char → List Char
  | _, [] => []
  | fresh, c :: rest =>
    if isBreak c then c :: body margin true rest
    else (if fresh then spaces margin else []) ++ c :: body margin false rest

/-- A text as a block scalar, from its indicator on. -/
def write (margin : Nat) (text : List Char) : List Char :=
  '|' :: (if hidesMargin text then ['2'] else []) ++ (Chomp.ofText text).sign ++
    '\n' :: body margin true text

/-! ## Reading -/

/-- The line ends after a line: the one that ends it and those of empty lines. -/
structure Ends where
  first : Option Char := none
  more : List Char := []
  deriving DecidableEq

/-- The way that a sign stands for. -/
def Chomp.ofSign? (c : Char) : Option Chomp :=
  if c = '+' then some .keep else if c = '-' then some .strip else none

/-- Take the signs of a header: a sign, a digit, or both in either order. -/
def readSigns : List Glyph → Option (Header × List Glyph)
  | [] => some ({}, [])
  | g :: rest =>
    match Chomp.ofSign? g.char with
    | some chomp =>
      match rest with
      | [] => some ({ chomp }, [])
      | h :: rest =>
        if h.char = '0' then none
        else if Decimal.isDigit h.char then
          some ({ chomp, width := some (Decimal.value [h.char]) }, rest)
        else some ({ chomp }, h :: rest)
    | none =>
      if g.char = '0' then none
      else if Decimal.isDigit g.char then
        let width := some (Decimal.value [g.char])
        match rest with
        | [] => some ({ width }, [])
        | h :: rest =>
          match Chomp.ofSign? h.char with
          | some chomp => some ({ chomp, width }, rest)
          | none => some ({ width }, h :: rest)
      else some ({}, g :: rest)

/-- Take a header and the line that it stands on. -/
def readHeader (input : List Glyph) : Option (Header × List Glyph) := do
  let (header, rest) ← readSigns input
  let rest := skipComment (skipBlanks rest)
  if atBreak rest then some (header, rest.drop 1) else none

/-- Look for the margin: the empty lines before the first line with text, the greatest column that
one of them or that line begins its text at, and what is left from there. -/
def findMargin : (deepest : Nat) → List Glyph → Option (Nat × List Char × List Glyph)
  | deepest, [] => some (deepest, [], [])
  | deepest, g :: rest =>
    if g.char = ' ' then findMargin deepest rest
    else if g.char = '\t' then none
    else
      let deepest := max deepest g.column
      if isBreak g.char then do
        let (deepest, breaks, rest) ← findMargin deepest rest
        some (deepest, g.char :: breaks, rest)
      else some (deepest, [], g :: rest)

/-- What stands between two lines. -/
def join (folded : Bool) (ends : Ends) (wasBlank blank : Bool) : List Char :=
  if folded && ends.first = some '\n' && !wasBlank && !blank then
    (if ends.more.isEmpty then [' '] else []) ++ ends.more
  else ends.first.toList ++ ends.more

mutual

/-- Take lines, from inside a margin on; `wasBlank` tells whether the line before it began with a
blank.  The answer is the text without its last line ends, those, and what is left. -/
def readLines (margin : Nat) (folded : Bool) (ends : Ends) (wasBlank : Bool) :
    List Glyph → Option (List Char × Ends × List Glyph)
  | [] => some ([], ends, [])
  | g :: rest =>
    if g.column < margin && g.char = ' ' then readLines margin folded ends wasBlank rest
    else if g.column < margin && g.char = '\t' then none
    else if isBreak g.char then
      readLines margin folded { ends with more := ends.more ++ [g.char] } wasBlank rest
    else if g.column = margin then do
      let blank := isBlank g.char
      let (text, after) ← readLine margin folded blank rest
      some (join folded ends wasBlank blank ++ g.char :: text, after)
    else some ([], ends, g :: rest)

/-- Take the rest of a line, and the lines after it. -/
def readLine (margin : Nat) (folded : Bool) (wasBlank : Bool) :
    List Glyph → Option (List Char × Ends × List Glyph)
  | [] => some ([], {}, [])
  | g :: rest =>
    if isBreak g.char then readLines margin folded { first := some g.char } wasBlank rest
    else do
      let (text, after) ← readLine margin folded wasBlank rest
      some (g.char :: text, after)

end

/-- What becomes of the last line ends. -/
def Chomp.apply (ends : Ends) : Chomp → List Char
  | .strip => []
  | .clip => ends.first.toList
  | .keep => ends.first.toList ++ ends.more

/-- Take a block scalar, after its indicator.  `floor` is the least column of a margin, and `base`
that from which its width is counted. -/
def read (folded : Bool) (floor base : Nat) (input : List Glyph) :
    Option (List Char × List Glyph) := do
  let (header, rest) ← readHeader input
  let (text, ends, rest) ←
    match header.width with
    | some width => readLines (base + width) folded {} false rest
    | none => do
      let (deepest, breaks, rest) ← findMargin 0 rest
      readLines (max deepest (max floor 1)) folded { more := breaks } false rest
  some (text ++ header.chomp.apply ends, rest)

end Lapse.Yaml.Block
