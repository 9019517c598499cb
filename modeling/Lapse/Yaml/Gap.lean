import Lapse.Yaml.Glyph

/-!
# Gaps between words

Inside a scalar that may go on over several lines, words are separated by gaps.  A gap within a line
is kept.  A gap with line ends loses its blanks, and a single line feed in it becomes a space: when
there are several, the first is dropped and the others stay.
-/

namespace Lapse.Yaml

/-- What was met since the last word. -/
inductive Gap where
  /-- Spaces and tabs within a line. -/
  | blanks (kept : List Char)
  /-- Line ends: the first, unless it was taken back, and the others. -/
  | breaks (first : Option Char) (more : List Char)
  deriving DecidableEq

namespace Gap

/-- No gap at all. -/
def none : Gap := .blanks []

/-- A gap with one more blank or line end. -/
def add (c : Char) : Gap → Gap
  | .blanks kept => if isBreak c then .breaks (some c) [] else .blanks (kept ++ [c])
  | .breaks first more => if isBreak c then .breaks first (more ++ [c]) else .breaks first more

/-- Whether a gap has line ends. -/
def isBroken : Gap → Bool
  | .blanks _ => false
  | .breaks _ _ => true

/-- The text that a gap stands for. -/
def text : Gap → List Char
  | .blanks kept => kept
  | .breaks first more =>
    if first = some '\n' then (if more.isEmpty then [' '] else more) else first.toList ++ more

end Gap

end Lapse.Yaml
