import Lapse.Proofs.Action

/-!
# Surviving as JSON

Every type that is kept as JSON survives it: what is written for a value is decoded as that value, and
so is every text that comes of it by putting the members of objects into another order and white space
between the tokens.
-/

namespace Lapse.Json

variable {α : Type} [ToData α]

/-- Decoding a type undoes encoding it, also after somebody has put the members of objects into another
order and white space around tokens; so a text that was decoded can be written again. -/
structure Survives (α : Type) [ToData α] (decode : Bytes → Option α) : Prop where
  encoded : ∀ a, decode (encode a) = some a
  edited : ∀ a d text, Rearranged (toData a) d → Spaced (words d) text →
    decode (Utf8.encodeChars text) = some a
  again : ∀ bytes, ((decode bytes).map encode).bind decode = decode bytes

/-- What is read from the trees of its data survives. -/
theorem Survives.of_stands {reading : Json → Option α} {depth : Nat}
    (h : ∀ a v, Stands (toData a) v → reading v = some a) (hnested : Nested depth α)
    (hdepth : depth ≤ maxDepth) : Survives α fun bytes => (parse bytes).bind reading := by
  have hencoded : ∀ a, (parse (encode a)).bind reading = some a := by
    intro a
    rw [encode, parse_compact (hnested.fits hdepth a), Option.bind_some]
    exact h a _ ⟨_, .refl _, rfl⟩
  refine ⟨hencoded, fun a d text hd htext => ?_, fun bytes => ?_⟩
  · rw [parse_spaced ((hnested.fits hdepth a).rearranged hd) htext, Option.bind_some]
    exact h a _ ⟨d, hd, rfl⟩
  · cases (parse bytes).bind reading with
    | none => rfl
    | some a => exact hencoded a

/-- What is read back from every faithful source survives. -/
theorem Survives.of_restores [Readable α] {depth : Nat} (h : Restores Stands α)
    (hnested : Nested depth α) (hdepth : depth ≤ maxDepth) : Survives α decode :=
  .of_stands h hnested hdepth

/-- **SURVIVAL**: decoding undoes encoding for every type that is kept as JSON. -/
theorem survives :
    Survives Action Action.decode ∧
    Survives Action.Undo (fun bytes => (parse bytes).bind Action.Undo.ofJson) ∧
    Survives Action.Terms decode ∧
    Survives Request decode ∧
    Survives Request.Entry decode ∧
    Survives Request.Cleanup decode ∧
    Survives Request.Record decode ∧
    Survives Request.Pending decode ∧
    Survives Task.Id decode ∧
    Survives Task.Cleanup decode ∧
    Survives Task.Update decode ∧
    Survives Task.History decode ∧
    Survives Notification decode ∧
    Survives Cluster decode ∧
    Survives Config decode ∧
    Survives Config.Finding decode ∧
    Survives Kind decode ∧
    Survives Request.State decode ∧
    Survives Request.Event decode ∧
    Survives Request.CleanupReason decode ∧
    Survives Request.PendingReason decode ∧
    Survives Task.State decode ∧
    Survives Creation decode ∧
    Survives Config.Severity decode :=
  ⟨.of_stands Action.restores Action.nested (by decide),
    .of_stands Action.Undo.restores Action.Undo.nested (by decide),
    .of_restores (Action.Terms.restores faithful) Action.Terms.nested (by decide),
    .of_restores (Request.restores faithful) Request.nested (by decide),
    .of_restores (Request.Entry.restores faithful) Request.Entry.nested (by decide),
    .of_restores (Request.Cleanup.restores faithful) Request.Cleanup.nested (by decide),
    .of_restores (Request.Record.restores faithful) Request.Record.nested (by decide),
    .of_restores (Request.Pending.restores faithful) Request.Pending.nested (by decide),
    .of_restores (Task.Id.restores faithful) Task.Id.nested (by decide),
    .of_restores (Task.Cleanup.restores faithful) Task.Cleanup.nested (by decide),
    .of_restores (Task.Update.restores faithful) Task.Update.nested (by decide),
    .of_restores (Task.History.restores faithful) Task.History.nested (by decide),
    .of_restores (Notification.restores faithful) Notification.nested (by decide),
    .of_restores (Cluster.restores faithful) Cluster.nested (by decide),
    .of_restores (Config.restores faithful) Config.nested (by decide),
    .of_restores (Config.Finding.restores faithful) Config.Finding.nested (by decide),
    .of_restores (Kind.restores faithful) nested_cases (by decide),
    .of_restores (Request.State.restores faithful) nested_cases (by decide),
    .of_restores (Request.Event.restores faithful) nested_cases (by decide),
    .of_restores (Request.CleanupReason.restores faithful) nested_cases (by decide),
    .of_restores (Request.PendingReason.restores faithful) nested_cases (by decide),
    .of_restores (Task.State.restores faithful) nested_cases (by decide),
    .of_restores (Creation.restores faithful) nested_cases (by decide),
    .of_restores (Config.Severity.restores faithful) nested_cases (by decide)⟩

-- the kind stands last
example : (parse (Utf8.encode "\x7b \"revert_to_instances\": 3,\n\"kind\" :\"scale\" \x7d")).bind
    Action.Undo.ofJson = some (.scale 3) := by decide +kernel

end Lapse.Json
