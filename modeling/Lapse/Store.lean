import Lapse.Action.Basic
import Lapse.Log

/-!
# The store of expiring actions

The store holds at most one action of each kind for each request.  It is a table of byte strings,
in the byte order of their keys; the key of an action is its kind and its request.  A record that
does not read as an action can never be processed, so listing a kind removes those of that kind.
-/

namespace Lapse

/-- The table of stored records. -/
abbrev Store := OrderedMap String Bytes

namespace Store

/-- What the keys of a kind begin with. -/
def keyHead (kind : Kind) : String := kind.name ++ "/"

/-- The key of the record of a kind for a request. -/
def key (kind : Kind) (requestId : String) : String := keyHead kind ++ requestId

/-- Whether a key belongs to a kind: it lies between the kind's name with a slash and the name with
the character after the slash. -/
def isKeyOf (kind : Kind) (k : String) : Bool :=
  (compare (kind.name ++ "/") k).isLE && compare k (kind.name ++ "0") == .lt

/-- The record of an action, in place of an earlier one of its kind and request. -/
def save (store : Store) (a : Action) : Store := store.insert (key a.kind a.requestId) a.encode

/-- Remove the record of a kind for a request. -/
def remove (store : Store) (kind : Kind) (requestId : String) : Store :=
  store.erase (key kind requestId)

/-- The entries of a kind. -/
def ofKind (store : Store) (kind : Kind) : List (String × Bytes) :=
  store.entries.filter fun e => isKeyOf kind e.1

/-- The actions stored under a kind, in the order of their keys. -/
def actions (store : Store) (kind : Kind) : List Action :=
  (store.ofKind kind).filterMap fun e => Action.decode e.2

/-- The store without the records of a kind that do not read as actions. -/
def healed (store : Store) (kind : Kind) : Store :=
  store.filter fun k bytes => !isKeyOf kind k || (Action.decode bytes).isSome

/-- List a kind: the actions, the store without the records that are none, and a warning for each
of those. -/
def list (store : Store) (kind : Kind) : List Action × Store × List LogLine :=
  let lost := (store.ofKind kind).filter fun e => (Action.decode e.2).isNone
  (store.actions kind, store.healed kind,
    lost.map fun _ => ⟨.warn, "discarding undecodable expiring " ++ kind.name ++ " action"⟩)

/-- Every stored action, in the order of the keys. -/
def all (store : Store) : List Action :=
  store.entries.filterMap fun e => Action.decode e.2

/-- The warnings that go with listing every action. -/
def allWarnings (store : Store) : List LogLine :=
  (store.entries.filter fun e => (Action.decode e.2).isNone).map fun _ =>
    ⟨.warn, "skipping undecodable expiring action"⟩

end Store

end Lapse
