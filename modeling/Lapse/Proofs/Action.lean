import Lapse.Proofs.Json.Depth
import Lapse.Proofs.Json.Rearranged
import Lapse.Proofs.Records

/-!
# Reading back actions

The record of an action reads as that action: each field finds in the tree what was written for it,
also where nothing was, and what it takes to undo the action is told apart by the kind among its
members, wherever that stands.
-/

namespace Lapse

namespace Action

/-- What it takes to undo an action names its kind among its members, wherever it stands there. -/
theorem Undo.tagged?_object {u : Undo} {es : List (String × Json)}
    (husable : (Json.object es).isUsable = true)
    (h : Arranged Json.Stands (toData u).members es) :
    ∃ es', (Json.object es).tagged? "kind" = some (u.kind.name, .object es') ∧
      Arranged Json.Stands u.members es' := by
  have hkind : (toData u).members.filter (fun m => m.1 == "kind") =
      [("kind", .str u.kind.name)] := by
    cases u <;> rfl
  have hothers : (toData u).members.filter (fun m => m.1 != "kind") = u.members := by
    cases u <;> rfl
  have htag := h.filter (· == "kind")
  rw [hkind] at htag
  obtain ⟨v, hv, d, hd, rfl⟩ := htag.eq_singleton
  cases hd
  refine ⟨es.filter fun e => e.1 != "kind", ?_, hothers ▸ h.filter (· != "kind")⟩
  rw [Json.tagged?, if_pos husable, hv]
  rfl

/-- **UNDO**: what it takes to undo an action is read back, in whatever order its members are. -/
theorem Undo.restores (u : Undo) (v : Json) (hv : Json.Stands (toData u) v) :
    Undo.ofJson v = some u := by
  obtain ⟨d, hd, rfl⟩ := hv
  have husable := Json.isUsable_ofData d
  cases hd with
  | @record _ ms hmembers =>
  obtain ⟨es, htagged, hes⟩ := Undo.tagged?_object husable (Json.stands_members hmembers)
  have hkeys : (u.members.map Prod.fst).Nodup := by
    cases u <;> exact of_decide_eq_true rfl
  have hfields (names : List String) : Json.fields? names (.object es) = some (.named es) :=
    Json.fields?_object (hes.keys_perm.nodup_iff.mp hkeys) names
  have h := hes.holds hkeys
  show ((Json.object (Json.ofFields ms)).tagged? "kind").bind _ = _
  rw [htagged, Option.bind_some]
  cases u with
  | bounce deployId =>
      show (Json.fields? ["deploy_id"] (.object es)).bind _ = _
      rw [hfields, Option.bind_some,
        h.required 0 "deploy_id" deployId Json.faithful.string rfl]
      rfl
  | pause => rfl
  | scale instances =>
      show (Json.fields? ["revert_to_instances"] (.object es)).bind _ = _
      rw [hfields, Option.bind_some,
        h.required 0 "revert_to_instances" instances Json.faithful.uint32 rfl]
      rfl
  | skipHealthchecks flag =>
      show (Json.fields? ["revert_to_skip_healthchecks"] (.object es)).bind _ = _
      rw [hfields, Option.bind_some,
        h.orElse 0 "revert_to_skip_healthchecks" flag none Json.faithful.optionalFlag rfl]
      rfl

/-- **ACTIONS**: an action is read back, in whatever order its members and theirs are. -/
theorem restores (a : Action) (v : Json) (hv : Json.Stands (toData a) v) :
    ofJson v = some a := by
  obtain ⟨requestId, actionId, user, startMillis, terms, undo⟩ := a
  obtain ⟨es, hfields, h⟩ := Json.faithful.record hv (of_decide_eq_true rfl) _
  have hpayload : (toData (Action.mk requestId actionId user startMillis terms undo)).members.lookup
      "payload" = some (toData undo) := rfl
  obtain ⟨w, hw, hundo⟩ := h.found hpayload
  have hread : ((Fields.named es).at? 5 "payload").bind Undo.ofJson = some undo := by
    rw [Fields.at?, hw, Option.bind_some, Undo.restores undo w hundo]
  show (Source.fields? _ v).bind _ = _
  rw [hfields, Option.bind_some, h.required 0 "request_id" requestId Json.faithful.string rfl,
    h.required 1 "action_id" actionId Json.faithful.string rfl,
    h.required 2 "user" user Json.faithful.string rfl,
    h.required 3 "start_millis" startMillis Json.faithful.int64 rfl,
    h.required 4 "api_request" terms (Terms.restores Json.faithful) rfl, hread]
  rfl

/-- **READING BACK**: the record of an action reads as that action. -/
theorem decode_encode (a : Action) : decode a.encode = some a := by
  have hparse : Json.parse a.encode = some (Json.ofData (toData a)) := Json.parse_compact (nested.fits (by decide) a)
  rw [decode, hparse]
  exact a.restores _ ⟨_, .refl _, rfl⟩

end Action

end Lapse
