import Lapse.Action.Basic
import Lapse.Cluster
import Lapse.Config
import Lapse.Proofs.Reading

/-!
# Reading back every type

Each type that is kept as text is read back from whatever format is faithful to it: each of its fields
finds what was laid out for it, also where nothing was.
-/

namespace Lapse

variable {σ : Type} [Source σ] {R : Data → σ → Prop} (hR : Faithful R)

include hR

theorem Faithful.optionalText : Restores R (Option String) := hR.option solid_string hR.string

theorem Faithful.optionalFlag : Restores R (Option Bool) := hR.option solid_bool hR.bool

/-! ## Settings and terms -/

theorem Kind.restores : Restores R Kind := hR.cases fun a => by cases a <;> rfl

theorem Config.Severity.restores : Restores R Config.Severity :=
  hR.cases fun a => by cases a <;> rfl

theorem Config.restores : Restores R Config := by
  rintro ⟨every, bounce⟩ v hv
  obtain ⟨es, hfields, h⟩ := hR.record hv (of_decide_eq_true rfl) _
  show (Source.fields? _ v).bind _ = _
  rw [hfields, Option.bind_some,
    h.orElse 0 "check_expiring_user_action_every_millis" every 45000 hR.uint64 rfl,
    h.orElse 1 "default_bounce_expiration_minutes" bounce 60 hR.uint64 rfl]
  rfl

theorem Config.Finding.restores : Restores R Config.Finding := by
  rintro ⟨severity, message⟩ v hv
  obtain ⟨es, hfields, h⟩ := hR.record hv (of_decide_eq_true rfl) _
  show (Source.fields? _ v).bind _ = _
  rw [hfields, Option.bind_some, h.required 0 "level" severity (Config.Severity.restores hR) rfl,
    h.required 1 "message" message hR.string rfl]
  rfl

theorem Action.Terms.restores : Restores R Action.Terms := by
  rintro ⟨duration, message⟩ v hv
  obtain ⟨es, hfields, h⟩ := hR.record hv (by
    cases duration <;> cases message <;> exact of_decide_eq_true rfl) _
  show (Source.fields? _ v).bind _ = _
  rw [hfields, Option.bind_some,
    h.ifAny 0 "duration_millis" duration (hR.option solid_uint64 hR.uint64) (by
      cases duration <;> cases message <;> rfl),
    h.ifAny 1 "message" message hR.optionalText (by cases duration <;> cases message <;> rfl)]
  rfl

/-! ## Requests -/

theorem Creation.restores : Restores R Creation := hR.cases fun a => by cases a <;> rfl

theorem Request.State.restores : Restores R Request.State :=
  hR.cases fun a => by cases a <;> rfl

theorem Request.Event.restores : Restores R Request.Event :=
  hR.cases fun a => by cases a <;> rfl

theorem Request.CleanupReason.restores : Restores R Request.CleanupReason :=
  hR.cases fun a => by cases a <;> rfl

theorem Request.PendingReason.restores : Restores R Request.PendingReason :=
  hR.cases fun a => by cases a <;> rfl

theorem Request.restores : Restores R Request := by
  rintro ⟨id, instances, skip, bounce⟩ v hv
  obtain ⟨es, hfields, h⟩ := hR.record hv (by
    cases skip <;> cases bounce <;> exact of_decide_eq_true rfl) _
  show (Source.fields? _ v).bind _ = _
  rw [hfields, Option.bind_some, h.required 0 "id" id hR.string rfl,
    h.orElse 1 "instances" instances 1 hR.uint32 rfl,
    h.ifAny 2 "skip_healthchecks" skip hR.optionalFlag (by cases skip <;> cases bounce <;> rfl),
    h.ifAny 3 "bounce_after_scale" bounce hR.optionalFlag (by
      cases skip <;> cases bounce <;> rfl)]
  rfl

theorem Request.Entry.restores : Restores R Request.Entry := by
  rintro ⟨request, state⟩ v hv
  obtain ⟨es, hfields, h⟩ := hR.record hv (of_decide_eq_true rfl) _
  show (Source.fields? _ v).bind _ = _
  rw [hfields, Option.bind_some, h.required 0 "request" request (Request.restores hR) rfl,
    h.required 1 "state" state (Request.State.restores hR) rfl]
  rfl

theorem Request.Record.restores : Restores R Request.Record := by
  rintro ⟨requestId, event, user, timestamp, instances, message⟩ v hv
  obtain ⟨es, hfields, h⟩ := hR.record hv (of_decide_eq_true rfl) _
  show (Source.fields? _ v).bind _ = _
  rw [hfields, Option.bind_some, h.required 0 "request_id" requestId hR.string rfl,
    h.required 1 "history_type" event (Request.Event.restores hR) rfl,
    h.required 2 "user" user hR.string rfl, h.required 3 "timestamp" timestamp hR.int64 rfl,
    h.required 4 "instances" instances hR.uint32 rfl,
    h.optional 5 "message" message hR.optionalText rfl]
  rfl

theorem Request.Cleanup.restores : Restores R Request.Cleanup := by
  rintro ⟨user, reason, timestamp, requestId, deployId, message, actionId⟩ v hv
  obtain ⟨es, hfields, h⟩ := hR.record hv (of_decide_eq_true rfl) _
  show (Source.fields? _ v).bind _ = _
  rw [hfields, Option.bind_some, h.required 0 "user" user hR.string rfl,
    h.required 1 "cleanup_type" reason (Request.CleanupReason.restores hR) rfl,
    h.required 2 "timestamp" timestamp hR.int64 rfl,
    h.required 3 "request_id" requestId hR.string rfl,
    h.optional 4 "deploy_id" deployId hR.optionalText rfl,
    h.optional 5 "message" message hR.optionalText rfl,
    h.optional 6 "action_id" actionId hR.optionalText rfl]
  rfl

theorem Request.Pending.restores : Restores R Request.Pending := by
  rintro ⟨requestId, deployId, timestamp, user, reason, message, actionId, skip⟩ v hv
  obtain ⟨es, hfields, h⟩ := hR.record hv (by cases skip <;> exact of_decide_eq_true rfl) _
  show (Source.fields? _ v).bind _ = _
  rw [hfields, Option.bind_some, h.required 0 "request_id" requestId hR.string rfl,
    h.required 1 "deploy_id" deployId hR.string rfl,
    h.required 2 "timestamp" timestamp hR.int64 rfl, h.required 3 "user" user hR.string rfl,
    h.required 4 "pending_type" reason (Request.PendingReason.restores hR) rfl,
    h.optional 5 "message" message hR.optionalText rfl,
    h.optional 6 "action_id" actionId hR.optionalText rfl,
    h.ifAny 7 "skip_healthchecks" skip hR.optionalFlag (by cases skip <;> rfl)]
  rfl

/-! ## Tasks -/

theorem Task.State.restores : Restores R Task.State := hR.cases fun a => by cases a <;> rfl

theorem Task.Id.restores : Restores R Task.Id := by
  rintro ⟨requestId, deployId, startedAt, instanceNo, host⟩ v hv
  obtain ⟨es, hfields, h⟩ := hR.record hv (of_decide_eq_true rfl) _
  show (Source.fields? _ v).bind _ = _
  rw [hfields, Option.bind_some, h.required 0 "request_id" requestId hR.string rfl,
    h.required 1 "deploy_id" deployId hR.string rfl,
    h.required 2 "started_at" startedAt hR.int64 rfl,
    h.required 3 "instance_no" instanceNo hR.uint32 rfl, h.required 4 "host" host hR.string rfl]
  rfl

theorem Task.Cleanup.restores : Restores R Task.Cleanup := by
  rintro ⟨taskId, user, timestamp, message, actionId⟩ v hv
  obtain ⟨es, hfields, h⟩ := hR.record hv (of_decide_eq_true rfl) _
  show (Source.fields? _ v).bind _ = _
  rw [hfields, Option.bind_some, h.required 0 "task_id" taskId (Task.Id.restores hR) rfl,
    h.required 1 "user" user hR.string rfl, h.required 2 "timestamp" timestamp hR.int64 rfl,
    h.optional 3 "message" message hR.optionalText rfl,
    h.optional 4 "action_id" actionId hR.optionalText rfl]
  rfl

theorem Task.Update.restores : Restores R Task.Update := by
  rintro ⟨taskId, state, timestamp, statusMessage⟩ v hv
  obtain ⟨es, hfields, h⟩ := hR.record hv (of_decide_eq_true rfl) _
  show (Source.fields? _ v).bind _ = _
  rw [hfields, Option.bind_some, h.required 0 "task_id" taskId (Task.Id.restores hR) rfl,
    h.required 1 "state" state (Task.State.restores hR) rfl,
    h.required 2 "timestamp" timestamp hR.int64 rfl,
    h.optional 3 "status_message" statusMessage hR.optionalText rfl]
  rfl

omit [Source σ] hR in
theorem Task.Update.solid : Solid Task.Update :=
  fun _ h => nomatch (show Data.record _ = .null from h)

theorem Task.History.restores : Restores R Task.History := by
  rintro ⟨taskId, updates, latest⟩ v hv
  obtain ⟨es, hfields, h⟩ := hR.record hv (of_decide_eq_true rfl) _
  show (Source.fields? _ v).bind _ = _
  rw [hfields, Option.bind_some, h.required 0 "task_id" taskId (Task.Id.restores hR) rfl,
    h.orElse 1 "updates" updates [] (hR.list (Task.Update.restores hR)) rfl,
    h.orElse 2 "latest" latest none (hR.option Task.Update.solid (Task.Update.restores hR)) rfl]
  rfl

/-! ## The cluster -/

theorem Notification.restores : Restores R Notification := by
  rintro ⟨requestId, oldInstances, newInstances, user, timestamp⟩ v hv
  obtain ⟨es, hfields, h⟩ := hR.record hv (of_decide_eq_true rfl) _
  show (Source.fields? _ v).bind _ = _
  rw [hfields, Option.bind_some, h.required 0 "request_id" requestId hR.string rfl,
    h.required 1 "old_instances" oldInstances hR.uint32 rfl,
    h.required 2 "new_instances" newInstances hR.uint32 rfl,
    h.required 3 "user" user hR.string rfl, h.required 4 "timestamp" timestamp hR.int64 rfl]
  rfl

theorem Cluster.restores : Restores R Cluster := by
  rintro ⟨requests, inUseDeploys, taskCleanups, taskHistories, pending, requestCleanups,
    requestHistory, notifications⟩ v hv
  obtain ⟨es, hfields, h⟩ := hR.record hv (of_decide_eq_true rfl) _
  show (Source.fields? _ v).bind _ = _
  rw [hfields, Option.bind_some,
    h.orElse 0 "requests" requests .empty (hR.map (Request.Entry.restores hR)) rfl,
    h.orElse 1 "in_use_deploys" inUseDeploys .empty (hR.map hR.string) rfl,
    h.orElse 2 "task_cleanups" taskCleanups [] (hR.list (Task.Cleanup.restores hR)) rfl,
    h.orElse 3 "task_history" taskHistories [] (hR.list (Task.History.restores hR)) rfl,
    h.orElse 4 "pending_requests" pending [] (hR.list (Request.Pending.restores hR)) rfl,
    h.orElse 5 "request_cleanups" requestCleanups [] (hR.list (Request.Cleanup.restores hR)) rfl,
    h.orElse 6 "request_history" requestHistory [] (hR.list (Request.Record.restores hR)) rfl,
    h.orElse 7 "notifications" notifications [] (hR.list (Notification.restores hR)) rfl]
  rfl

end Lapse
