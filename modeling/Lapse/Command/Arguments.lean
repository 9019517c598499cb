import Lapse.Text.Decimal

/-!
# Arguments

A command line names a command, with options before and after it.  The options about the root and
about JSON may stand on either side, those of a command only after it, and on neither side may an
option be given twice.  After the command counts more than before it, and both count more than the
environment.
-/

namespace Lapse.Command

/-- A command with its own options. -/
inductive Verb where
  | poll
  | daemon (everyMillis : Option UInt64)
  | list (kind : Option String)
  deriving DecidableEq

/-- What a command line asks for. -/
structure Invocation where
  root : Option String
  json : Bool
  verb : Verb
  deriving DecidableEq

/-- Why a command line runs no command. -/
inductive Refusal where
  /-- It asks for help, or for the version. -/
  | help
  | misuse
  deriving DecidableEq

/-- The commands by name. -/
inductive Side where
  | before
  | poll
  | daemon
  | list
  deriving DecidableEq

/-- The options given on one side of the command. -/
structure Given where
  root : Option String := none
  json : Bool := false
  everyMillis : Option UInt64 := none
  kind : Option String := none
  deriving DecidableEq

/-- A whole number of 64 bits, which may have a plus. -/
def readMillis (text : List Char) : Option UInt64 := do
  let n ← Decimal.read 10 (match text with
    | '+' :: rest => rest
    | _ => text)
  if n < UInt64.size then some (UInt64.ofNat n) else none

/-- Whether an argument looks like an option. -/
def looksLikeOption (arg : String) : Bool :=
  match arg.toList with
  | '-' :: _ :: _ => true
  | _ => false

/-- Whether an option takes a value on a side. -/
def takesValue (side : Side) (name : String) : Bool :=
  name = "root" || (side = .daemon && name = "every-millis") || (side = .list && name = "kind")

namespace Given

/-- Give an option a value; none is given twice. -/
def setValue (g : Given) (name value : String) : Except Refusal Given :=
  if name = "root" then
    if g.root.isSome || value.isEmpty then .error .misuse else .ok { g with root := some value }
  else if name = "every-millis" then
    match g.everyMillis, readMillis value.toList with
    | none, some n => .ok { g with everyMillis := some n }
    | _, _ => .error .misuse
  else if g.kind.isSome then .error .misuse
  else .ok { g with kind := some value }

/-- Ask for JSON, once. -/
def setJson (g : Given) : Except Refusal Given :=
  if g.json then .error .misuse else .ok { g with json := true }

/-- Give an option without a value. -/
def setFlag (g : Given) (name : String) : Except Refusal Given :=
  if name = "json" then g.setJson
  else if name = "help" || name = "version" then .error .help
  else .error .misuse

/-- Give options by their letters. -/
def setLetters (g : Given) : List Char → Except Refusal Given
  | [] => .ok g
  | c :: rest => do
    let g ← if c = 'j' then g.setJson
      else if c = 'h' || c = 'V' then .error .help
      else .error .misuse
    setLetters g rest

end Given

/-- The parts of a long option: its name, and its value after an equals sign. -/
def splitOption (text : List Char) : String × Option String :=
  let name := String.ofList (text.takeWhile (· ≠ '='))
  match text.dropWhile (· ≠ '=') with
  | [] => (name, none)
  | _ :: value => (name, some (String.ofList value))

/-- Read options up to the first argument that is none; that argument and those after it are left.
Two hyphens alone end the options. -/
def readOptions (side : Side) : Given → List String → Except Refusal (Given × List String)
  | g, [] => .ok (g, [])
  | g, arg :: rest =>
    match arg.toList with
    | ['-', '-'] => if rest.isEmpty then .ok (g, []) else .error .misuse
    | '-' :: '-' :: text =>
      match splitOption text with
      | (name, some value) =>
        if takesValue side name then do readOptions side (← g.setValue name value) rest
        else .error .misuse
      | (name, none) =>
        if takesValue side name then
          match rest with
          | [] => .error .misuse
          | value :: rest =>
            if looksLikeOption value then .error .misuse
            else do readOptions side (← g.setValue name value) rest
        else do readOptions side (← g.setFlag name) rest
    | '-' :: c :: letters => do readOptions side (← g.setLetters (c :: letters)) rest
    | _ => .ok (g, arg :: rest)

/-- The side after a command. -/
def Side.ofWord? (word : String) : Option Side :=
  if word = "poll" then some .poll
  else if word = "daemon" then some .daemon
  else if word = "list" then some .list
  else none

/-- What words after a request for help mean. -/
def readHelp : List String → Refusal
  | [] => .help
  | [word] => if word = "help" || (Side.ofWord? word).isSome then .help else .misuse
  | _ => .misuse

/-- The command on a side, with its options. -/
def verbOf (g : Given) : Side → Verb
  | .daemon => .daemon g.everyMillis
  | .list => .list g.kind
  | .poll | .before => .poll

/-- The root of a side, where the environment may name one. -/
def checkRoot (environment : Option String) (g : Given) : Except Refusal Unit :=
  if g.root.isNone && environment = some "" then .error .misuse else .ok ()

/-- Read a command line. -/
def readArguments (environment : Option String) (args : List String) :
    Except Refusal Invocation := do
  let (before, rest) ← readOptions .before {} args
  match rest with
  | [] => .error .misuse
  | word :: rest =>
    if word = "help" then .error (readHelp rest)
    else
      match Side.ofWord? word with
      | none => .error .misuse
      | some side => do
        let (after, rest) ← readOptions side {} rest
        if !rest.isEmpty then .error .misuse
        else do
          checkRoot environment before
          checkRoot environment after
          .ok {
            root := after.root <|> before.root <|> environment
            json := before.json || after.json
            verb := verbOf after side }

end Lapse.Command
