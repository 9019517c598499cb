import Lapse.Text.Utf8
import Lapse.Yaml.Block
import Lapse.Yaml.Word

/-!
# How a text is written

A text of several lines becomes a block scalar; any other text stays plain when a plain scalar says
the same, and is quoted when it would be taken for something else.  What no other style can hold is
written between double quotes.
-/

namespace Lapse.Yaml

/-- The styles of scalars. -/
inductive Style where
  | plain
  | single
  | double
  | literal
  | folded
  deriving DecidableEq

namespace Style

/-- The style in which a text is written. -/
def ofText (text : List Char) : Style :=
  if text.contains '\n' then if Block.isBlock text then .literal else .double
  else if Plain.isPlain text && !Word.isTyped text then .plain
  else if Single.isSingle text then .single
  else .double

/-- A text in a style; lines after the first stand at `margin`. -/
def write (margin : Nat) (text : List Char) : Style → List Char
  | .plain => text
  | .single => Single.write margin text
  | .double => Double.write text
  | .literal | .folded => Block.write margin text

end Style

/-- A text as a scalar. -/
def writeText (margin : Nat) (text : List Char) : List Char :=
  (Style.ofText text).write margin text

/-- Whether a text can be the key of an entry that is written on one line. -/
def isShortKey (text : List Char) : Bool :=
  (Utf8.encodeChars text).length ≤ 128 && !text.any endsLine

end Lapse.Yaml
