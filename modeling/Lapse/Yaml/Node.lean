import Lapse.Yaml.Token

/-!
# The nodes of YAML

The tokens of a text form a tree of scalars, lists and maps, in which a node may also stand for
another one that was named before.  `ofTokens` reads the tree of the only document of a text; a text
without a document is sound and has no tree.
-/

namespace Lapse.Yaml

/-- A node of a document. -/
inductive Node where
  | reference (id : Nat)
  | scalar (anchor : Option Nat) (tag : Option (List Char)) (style : Style) (text : List Char)
  | list (anchor : Option Nat) (items : List Node)
  | map (anchor : Option Nat) (entries : List (Node × Node))

namespace Node

/-- What handles of tags stand for. -/
abbrev Handles := List (List Char × List Char)

/-- What handles stand for where no directive says anything else. -/
def defaultHandles : Handles := [(['!'], ['!']), (['!', '!'], "tag:yaml.org,2002:".toList)]

/-- What may stand before a node. -/
structure Properties where
  anchor : Option Nat := none
  tag : Option (List Char) := none
  deriving DecidableEq

/-- The whole text of a tag. -/
def expand (handles : Handles) (t : Tag) : Option (List Char) :=
  if t.handle.isEmpty then some t.suffix
  else (handles.lookup t.handle).map fun meaning => meaning ++ t.suffix

/-- Take a name and a tag, in either order, if they are there. -/
def properties (handles : Handles) : List Token → Option (Properties × List Token)
  | .anchor id :: .tag t :: rest => do
    some ({ anchor := some id, tag := some (← expand handles t) }, rest)
  | .tag t :: .anchor id :: rest => do
    some ({ anchor := some id, tag := some (← expand handles t) }, rest)
  | .anchor id :: rest => some ({ anchor := some id }, rest)
  | .tag t :: rest => do some ({ tag := some (← expand handles t) }, rest)
  | input => some ({}, input)

/-- The scalar without text that stands where a node is missing. -/
def missing : Node := .scalar none none .plain []

/-- A scalar with properties; the tag that is a mark alone says nothing. -/
def ofScalar (p : Properties) (style : Style) (text : List Char) : Node :=
  .scalar p.anchor (p.tag.filter fun tag => tag ≠ ['!']) style text

/-- Where no node follows its properties, they belong to a scalar without text. -/
def absent (p : Properties) (rest : List Token) : Option (Node × List Token) :=
  if p = {} then none else some (.scalar p.anchor p.tag .plain [], rest)

/-- Whether an item of a list with a margin is missing here. -/
def endsItem : List Token → Bool
  | .dash :: _ | .blockEnd :: _ => true
  | _ => false

/-- Whether an item of a list without a margin of its own is missing here. -/
def endsLooseItem : List Token → Bool
  | .dash :: _ | .key :: _ | .value :: _ | .blockEnd :: _ => true
  | _ => false

/-- Whether a key or a value of a map with a margin is missing here. -/
def endsEntry : List Token → Bool
  | .key :: _ | .value :: _ | .blockEnd :: _ => true
  | _ => false

/-- Whether a value between brackets is missing here. -/
def endsInBrackets : List Token → Bool
  | .comma :: _ | .rightBracket :: _ => true
  | _ => false

/-- Whether a value between braces is missing here. -/
def endsInBraces : List Token → Bool
  | .comma :: _ | .rightBrace :: _ => true
  | _ => false

mutual

/-- The next node.  `inBlock` tells whether lists and maps with a margin may stand here, and `loose`
whether the items of a list may stand at the margin of the map around it. -/
def read (handles : Handles) : (fuel : Nat) → (inBlock loose : Bool) → List Token →
    Option (Node × List Token)
  | 0, _, _, _ => none
  | _ + 1, _, _, .reference id :: rest => some (.reference id, rest)
  | fuel + 1, inBlock, loose, input => do
    let (p, input) ← properties handles input
    match input with
    | .scalar style text :: rest => some (ofScalar p style text, rest)
    | .leftBracket :: rest => do
      let (items, rest) ← readBrackets handles fuel true rest
      some (.list p.anchor items, rest)
    | .leftBrace :: rest => do
      let (entries, rest) ← readBraces handles fuel true rest
      some (.map p.anchor entries, rest)
    | .blockList :: rest =>
      if inBlock then do
        let (items, rest) ← readItems handles fuel rest
        some (.list p.anchor items, rest)
      else absent p input
    | .blockMap :: rest =>
      if inBlock then do
        let (entries, rest) ← readEntries handles fuel rest
        some (.map p.anchor entries, rest)
      else absent p input
    | .dash :: _ =>
      if loose then do
        let (items, rest) ← readLooseItems handles fuel input
        some (.list p.anchor items, rest)
      else absent p input
    | _ => absent p input

/-- The items of a list with a margin, and its end. -/
def readItems (handles : Handles) : (fuel : Nat) → List Token → Option (List Node × List Token)
  | fuel + 1, .dash :: rest => do
    let (item, rest) ←
      if endsItem rest then some (missing, rest) else read handles fuel true false rest
    let (items, rest) ← readItems handles fuel rest
    some (item :: items, rest)
  | _ + 1, .blockEnd :: rest => some ([], rest)
  | _, _ => none

/-- The items of a list without a margin of its own. -/
def readLooseItems (handles : Handles) : (fuel : Nat) → List Token →
    Option (List Node × List Token)
  | fuel + 1, .dash :: rest => do
    let (item, rest) ←
      if endsLooseItem rest then some (missing, rest) else read handles fuel true false rest
    let (items, rest) ← readLooseItems handles fuel rest
    some (item :: items, rest)
  | _ + 1, input => some ([], input)
  | 0, _ => none

/-- The entries of a map with a margin, and its end. -/
def readEntries (handles : Handles) : (fuel : Nat) → List Token →
    Option (List (Node × Node) × List Token)
  | fuel + 1, .key :: rest => do
    let (key, rest) ←
      if endsEntry rest then some (missing, rest) else read handles fuel true true rest
    let (value, rest) ←
      match rest with
      | .value :: rest =>
        if endsEntry rest then some (missing, rest) else read handles fuel true true rest
      | _ => some (missing, rest)
    let (entries, rest) ← readEntries handles fuel rest
    some ((key, value) :: entries, rest)
  | _ + 1, .blockEnd :: rest => some ([], rest)
  | _, _ => none

/-- The items of a list between brackets, and its end.  Items after the first follow a comma; an
item may be a map of one entry. -/
def readBrackets (handles : Handles) : (fuel : Nat) → (first : Bool) → List Token →
    Option (List Node × List Token)
  | 0, _, _ => none
  | _ + 1, _, .rightBracket :: rest => some ([], rest)
  | fuel + 1, first, input => do
    let input ←
      match first, input with
      | true, _ => some input
      | false, .comma :: rest => some rest
      | false, _ => none
    match input with
    | .rightBracket :: rest => some ([], rest)
    | .key :: rest => do
      let (entry, rest) ← readSingleEntry handles fuel rest
      let (items, rest) ← readBrackets handles fuel false rest
      some (.map none [entry] :: items, rest)
    | _ => do
      let (item, rest) ← read handles fuel false false input
      let (items, rest) ← readBrackets handles fuel false rest
      some (item :: items, rest)

/-- The only entry of a map between brackets, after the token of its key.  Where the key is missing
the next token is passed over. -/
def readSingleEntry (handles : Handles) : (fuel : Nat) → List Token →
    Option ((Node × Node) × List Token)
  | 0, _ => none
  | fuel + 1, input => do
    let (key, rest) ←
      match input with
      | .value :: rest => some (missing, rest)
      | .comma :: rest => some (missing, rest)
      | .rightBracket :: rest => some (missing, rest)
      | _ => read handles fuel false false input
    let (value, rest) ←
      match rest with
      | .value :: rest =>
        if endsInBrackets rest then some (missing, rest) else read handles fuel false false rest
      | _ => some (missing, rest)
    some ((key, value), rest)

/-- The entries of a map between braces, and its end.  Entries after the first follow a comma. -/
def readBraces (handles : Handles) : (fuel : Nat) → (first : Bool) → List Token →
    Option (List (Node × Node) × List Token)
  | 0, _, _ => none
  | _ + 1, _, .rightBrace :: rest => some ([], rest)
  | fuel + 1, first, input => do
    let input ←
      match first, input with
      | true, _ => some input
      | false, .comma :: rest => some rest
      | false, _ => none
    match input with
    | .rightBrace :: rest => some ([], rest)
    | .key :: rest => do
      let (key, rest) ←
        match rest with
        | .value :: _ => some (missing, rest)
        | _ => if endsInBraces rest then some (missing, rest) else read handles fuel false false rest
      let (value, rest) ←
        match rest with
        | .value :: rest =>
          if endsInBraces rest then some (missing, rest) else read handles fuel false false rest
        | _ => some (missing, rest)
      let (entries, rest) ← readBraces handles fuel false rest
      some ((key, value) :: entries, rest)
    | _ => do
      let (key, rest) ← read handles fuel false false input
      let (entries, rest) ← readBraces handles fuel false rest
      some ((key, missing) :: entries, rest)

end

/-! ## Documents -/

/-- Take the directives before a document, each of which may be given once. -/
def readDirectives : (versioned : Bool) → Handles → List Token → Option (Handles × List Token)
  | versioned, handles, .directive (.version major minor) :: rest =>
    if versioned || major ≠ 1 || (minor ≠ 1 && minor ≠ 2) then none
    else readDirectives true handles rest
  | versioned, handles, .directive (.tag handle meaning) :: rest =>
    if (handles.lookup handle).isSome then none
    else readDirectives versioned (handles ++ [(handle, meaning)]) rest
  | _, handles, rest => some (handles, rest)

/-- Whether a document without a node ends here. -/
def endsDocument : List Token → Bool
  | [] => true
  | .directive _ :: _ | .documentStart :: _ | .documentEnd :: _ => true
  | _ => false

/-- The only document of a text, if there is one. -/
def ofTokens (input : List Token) : Option (Option Node) :=
  let fuel := 2 * input.length + 2
  match input with
  | [] => some none
  | .directive _ :: _ | .documentStart :: _ => do
    let (handles, rest) ← readDirectives false [] input
    match rest with
    | .documentStart :: rest => do
      let (node, rest) ←
        if endsDocument rest then some (missing, rest)
        else read (handles ++ defaultHandles) fuel true false rest
      if (rest.dropWhile (· = .documentEnd)).isEmpty then some (some node) else none
    | _ => none
  | _ => do
    let (node, rest) ← read defaultHandles fuel true false input
    if (rest.dropWhile (· = .documentEnd)).isEmpty then some (some node) else none

/-! ## Names -/

mutual

/-- The last node below or at this one that has the name with a number. -/
def named (id : Nat) : Node → Option Node
  | .reference _ => none
  | .scalar anchor tag style text =>
    if anchor = some id then some (.scalar anchor tag style text) else none
  | .list anchor items =>
    namedItem id items <|> if anchor = some id then some (.list anchor items) else none
  | .map anchor entries =>
    namedEntry id entries <|> if anchor = some id then some (.map anchor entries) else none

/-- The last node in a list that has the name with a number. -/
def namedItem (id : Nat) : List Node → Option Node
  | [] => none
  | item :: rest => namedItem id rest <|> named id item

/-- The last node in the entries of a map that has the name with a number. -/
def namedEntry (id : Nat) : List (Node × Node) → Option Node
  | [] => none
  | (key, value) :: rest => namedEntry id rest <|> named id value <|> named id key

end

end Node

end Lapse.Yaml
