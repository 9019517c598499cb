import Lapse.Text.Utf8
import Lapse.Yaml.Quoted

/-!
# Tags and directives

A tag is a handle and what follows it; the directives before a document say what the handles stand
for.  What follows a handle may hold characters given by the numbers of their bytes.
-/

namespace Lapse.Yaml

/-- A tag as written: a handle, which may be empty, and what follows. -/
structure Tag where
  handle : List Char
  suffix : List Char
  deriving DecidableEq

namespace Tag

/-- Whether a character may stand in a tag; between angle brackets there are three more. -/
def isTagChar (bracketed : Bool) (c : Char) : Bool :=
  isWord c || [';', '/', '?', ':', '@', '&', '=', '+', '$', '.', '%', '!', '~', '*', '\'', '(',
    ')'].contains c || (bracketed && [',', '[', ']'].contains c)

/-- The byte that a percent sign and two digits stand for. -/
def readByte (input : List Glyph) : Option UInt8 :=
  match chars (input.take 3) with
  | ['%', a, b] => (Decimal.read 16 [a, b]).map UInt8.ofNat
  | _ => none

/-- How many bytes a character with this first byte has. -/
def byteCount (b : UInt8) : Option Nat :=
  let n := b.toNat
  if n < 0x80 then some 1
  else if 0xC0 ≤ n && n < 0xE0 then some 2
  else if 0xE0 ≤ n && n < 0xF0 then some 3
  else if 0xF0 ≤ n && n < 0xF8 then some 4
  else none

/-- Take further bytes of a character. -/
def readTail : (count : Nat) → List Glyph → Option Bytes
  | 0, _ => some []
  | count + 1, input => do
    let b ← readByte input
    if Utf8.isTail b then do return b :: (← readTail count (input.drop 3)) else none

/-- Take a character that is given by the numbers of its bytes. -/
def readEscape (input : List Glyph) : Option (List Char × Nat) := do
  let b ← readByte input
  let count ← byteCount b
  let tail ← readTail (count - 1) (input.drop 3)
  let text := (Utf8.decode (b :: tail)).map (·.getD '\uFFFD')
  some (text, 3 * count)

/-- Take characters of a tag while there are some.  `fuel` is at least the length of the input. -/
def readUri (bracketed : Bool) : (fuel : Nat) → List Glyph → Option (List Char × List Glyph)
  | 0, input => some ([], input)
  | _, [] => some ([], [])
  | fuel + 1, g :: rest =>
    if !isTagChar bracketed g.char then some ([], g :: rest)
    else if g.char = '%' then do
      let (text, count) ← readEscape (g :: rest)
      let (more, rest) ← readUri bracketed fuel (rest.drop (count - 1))
      some (text ++ more, rest)
    else do
      let (more, rest) ← readUri bracketed fuel rest
      some (g.char :: more, rest)

/-- Take characters of a tag. -/
def uri (bracketed : Bool) (input : List Glyph) : Option (List Char × List Glyph) :=
  readUri bracketed input.length input

/-- Take a handle, whose first exclamation mark comes next: letters after it and, if there is one,
a second mark. -/
def readHandle (input : List Glyph) : List Char × List Glyph :=
  match input with
  | [] => ([], [])
  | mark :: rest =>
    let word := rest.takeWhile fun g => isWord g.char
    match rest.dropWhile fun g => isWord g.char with
    | [] => (mark.char :: chars word, [])
    | g :: after =>
      if g.char = '!' then (mark.char :: chars word ++ ['!'], after)
      else (mark.char :: chars word, g :: after)

/-- Whether a handle has a mark at either end. -/
def isClosed (handle : List Char) : Bool := 2 ≤ handle.length && handle.getLast? = some '!'

/-- Whether a tag may end here. -/
def ends (inFlow : Bool) (input : List Glyph) : Bool :=
  atSpace input || (inFlow && isNext ',' input)

/-- Take a tag, whose exclamation mark comes next.  A mark alone has an empty handle. -/
def read (inFlow : Bool) (input : List Glyph) : Option (Tag × List Glyph) := do
  let (tag, rest) ←
    if isNext '<' (input.drop 1) then do
      let (suffix, rest) ← uri true (input.drop 2)
      if suffix.isEmpty || !isNext '>' rest then none
      else some (⟨[], suffix⟩, rest.drop 1)
    else do
      let (head, rest) := readHandle input
      let (suffix, rest) ← uri false rest
      if isClosed head then
        if suffix.isEmpty then none else some (⟨head, suffix⟩, rest)
      else
        let suffix := head.drop 1 ++ suffix
        some (if suffix.isEmpty then ⟨[], ['!']⟩ else ⟨['!'], suffix⟩, rest)
  if ends inFlow rest then some (tag, rest) else none

end Tag

/-- A directive before a document. -/
inductive Directive where
  | version (major minor : Nat)
  | tag (handle meaning : List Char)
  deriving DecidableEq

namespace Directive

/-- Take a number of at most nine digits. -/
def number (input : List Glyph) : Option (Nat × List Glyph) :=
  let digits := chars (input.takeWhile fun g => Decimal.isDigit g.char)
  if digits.isEmpty || 9 < digits.length then none
  else some (Decimal.value digits, input.drop digits.length)

/-- Take the value of a directive about the version. -/
def readVersion (input : List Glyph) : Option (Directive × List Glyph) := do
  let (major, rest) ← number (skipBlanks input)
  if !isNext '.' rest then none
  else do
    let (minor, rest) ← number (rest.drop 1)
    some (.version major minor, rest)

/-- Take the value of a directive about a handle. -/
def readTag (input : List Glyph) : Option (Directive × List Glyph) := do
  let input := skipBlanks input
  if !isNext '!' input then none
  else
    let (handle, rest) := Tag.readHandle input
    if handle ≠ ['!'] && !Tag.isClosed handle then none
    else
      match rest with
      | [] => none
      | g :: _ =>
        if !isBlank g.char then none
        else do
          let (meaning, rest) ← Tag.uri true (skipBlanks rest)
          if meaning.isEmpty || !atSpace rest then none
          else some (.tag handle meaning, rest)

/-- Take a directive, after its percent sign, and the line that it stands on. -/
def read (input : List Glyph) : Option (Directive × List Glyph) := do
  let name := chars (input.takeWhile fun g => isWord g.char)
  let rest := input.drop name.length
  if !atSpace rest then none
  else do
    let (directive, rest) ←
      if name = "YAML".toList then readVersion rest
      else if name = "TAG".toList then readTag rest
      else none
    let rest := skipComment (skipBlanks rest)
    if atBreak rest then some (directive, rest.drop 1) else none

end Directive

end Lapse.Yaml
