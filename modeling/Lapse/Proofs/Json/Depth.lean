import Lapse.Action.Basic
import Lapse.Cluster
import Lapse.Config
import Lapse.Proofs.Json.Value

/-!
# How deep data is nested

The text of data is read as long as its numbers have 64 bits and its lists and records are not nested
too deep.  Each type has its own depth, one more than the deepest of its parts; the cluster, with the
histories of its tasks, is six deep.
-/

namespace Lapse

namespace Json

/-- The data of a type is nested so deep at most, and its numbers have 64 bits. -/
def Nested (depth : Nat) (α : Type) [ToData α] : Prop :=
  ∀ (room : Nat) (a : α), Fits (room + depth) (toData a)

/-! ## Basic types -/

theorem nested_string : Nested 0 String := fun _ _ => trivial

theorem nested_bool : Nested 0 Bool := fun _ _ => trivial

theorem nested_uint32 : Nested 0 UInt32 := by
  intro room n
  have hlt : n.toNat < 2 ^ 32 := n.toNat_lt
  show n.toNat < UInt64.size
  rw [UInt64.size]
  omega

theorem nested_uint64 : Nested 0 UInt64 := fun _ n => n.toNat_lt

theorem nested_int64 : Nested 0 Int64 := by
  intro room n
  have hlo := n.le_toInt
  have hhi := n.toInt_lt
  show n.toInt.natAbs < UInt64.size
  rw [UInt64.size]
  omega

theorem nested_cases {α : Type} [Cases α] : Nested 0 α := fun _ _ => trivial

/-! ## Optional values, lists and maps -/

variable {α : Type} [ToData α] {depth : Nat}

theorem Nested.fits (h : Nested depth α) (hdepth : depth ≤ maxDepth) (a : α) :
    Fits maxDepth (toData a) := by
  have hfits := h (maxDepth - depth) a
  rwa [Nat.sub_add_cancel hdepth] at hfits

theorem Nested.option (h : Nested depth α) : Nested depth (Option α) := by
  intro room a
  cases a with
  | none => exact trivial
  | some a => exact h room a

theorem Nested.list (h : Nested depth α) : Nested (depth + 1) (List α) := by
  intro room l
  refine ⟨Nat.succ_pos _, ?_⟩
  show ItemsFit (room + depth) (l.map toData)
  induction l with
  | nil => exact trivial
  | cons a l ih => exact ⟨h room a, ih⟩

theorem Nested.map (h : Nested depth α) : Nested (depth + 1) (OrderedMap String α) := by
  intro room m
  refine ⟨Nat.succ_pos _, membersFit_iff.mpr fun e he => ?_⟩
  obtain ⟨entry, -, rfl⟩ := List.mem_map.mp he
  exact h room entry.2

theorem nested_text : Nested 0 (Option String) := nested_string.option

/-! ## Records -/

theorem MembersFit.append {room : Nat} {ms ms' : List (String × Data)} (h : MembersFit room ms)
    (h' : MembersFit room ms') : MembersFit room (ms ++ ms') := by
  rw [membersFit_iff] at h h' ⊢
  exact List.forall_mem_append.mpr ⟨h, h'⟩

theorem Nested.memberIfAny (h : Nested depth α) (room : Nat) (name : String) (a : Option α) :
    MembersFit (room + depth) (Data.memberIfAny name a) := by
  cases a with
  | none => exact trivial
  | some a => exact ⟨h room a, trivial⟩

end Json

open Json

theorem Config.nested : Nested 1 Config := fun room c =>
  ⟨Nat.succ_pos _, nested_uint64 room c.everyMillis, nested_uint64 room c.bounceMinutes, trivial⟩

theorem Config.Finding.nested : Nested 1 Config.Finding := fun _ _ =>
  ⟨Nat.succ_pos _, trivial, trivial, trivial⟩

namespace Action

theorem Terms.nested : Nested 1 Terms := fun room t =>
  ⟨Nat.succ_pos _, (nested_uint64.memberIfAny room "duration_millis" t.durationMillis).append
    (nested_string.memberIfAny room "message" t.message)⟩

theorem Undo.nested : Nested 1 Undo := by
  intro room u
  refine ⟨Nat.succ_pos _, trivial, ?_⟩
  cases u with
  | bounce deployId => exact ⟨trivial, trivial⟩
  | pause => exact trivial
  | scale n => exact ⟨nested_uint32 room n, trivial⟩
  | skipHealthchecks flag => exact ⟨nested_bool.option room flag, trivial⟩

theorem nested : Nested 2 Action := fun room a =>
  ⟨Nat.succ_pos _, trivial, trivial, trivial, nested_int64 _ a.startMillis,
    Terms.nested room a.terms, Undo.nested room a.undo, trivial⟩

end Action

namespace Request

theorem nested : Nested 1 Request := fun room r =>
  ⟨Nat.succ_pos _, trivial, nested_uint32 room r.instances,
    (nested_bool.memberIfAny room "skip_healthchecks" r.skipHealthchecks).append
      (nested_bool.memberIfAny room "bounce_after_scale" r.bounceAfterScale)⟩

theorem Entry.nested : Nested 2 Entry := fun room e =>
  ⟨Nat.succ_pos _, Request.nested room e.request, trivial, trivial⟩

theorem Record.nested : Nested 1 Record := fun room r =>
  ⟨Nat.succ_pos _, trivial, trivial, trivial, nested_int64 room r.timestamp,
    nested_uint32 room r.instances, nested_text room r.message, trivial⟩

theorem Cleanup.nested : Nested 1 Cleanup := fun room c =>
  ⟨Nat.succ_pos _, trivial, trivial, nested_int64 room c.timestamp, trivial,
    nested_text room c.deployId, nested_text room c.message, nested_text room c.actionId, trivial⟩

theorem Pending.nested : Nested 1 Pending := fun room p =>
  ⟨Nat.succ_pos _, trivial, trivial, nested_int64 room p.timestamp, trivial, trivial,
    nested_text room p.message, nested_text room p.actionId,
    nested_bool.memberIfAny room "skip_healthchecks" p.skipHealthchecks⟩

end Request

namespace Task

theorem Id.nested : Nested 1 Id := fun room t =>
  ⟨Nat.succ_pos _, trivial, trivial, nested_int64 room t.startedAt,
    nested_uint32 room t.instanceNo, trivial, trivial⟩

theorem Cleanup.nested : Nested 2 Cleanup := fun room c =>
  ⟨Nat.succ_pos _, Id.nested room c.taskId, trivial, nested_int64 _ c.timestamp,
    nested_text _ c.message, nested_text _ c.actionId, trivial⟩

theorem Update.nested : Nested 2 Update := fun room u =>
  ⟨Nat.succ_pos _, Id.nested room u.taskId, trivial, nested_int64 _ u.timestamp,
    nested_text _ u.statusMessage, trivial⟩

theorem History.nested : Nested 4 History := fun room h =>
  ⟨Nat.succ_pos _, Id.nested (room + 2) h.taskId, Update.nested.list room h.updates,
    Update.nested.option (room + 1) h.latest, trivial⟩

end Task

theorem Notification.nested : Nested 1 Notification := fun room n =>
  ⟨Nat.succ_pos _, trivial, nested_uint32 room n.oldInstances, nested_uint32 room n.newInstances,
    trivial, nested_int64 room n.timestamp, trivial⟩

theorem Cluster.nested : Nested 6 Cluster := fun room c =>
  ⟨Nat.succ_pos _, Request.Entry.nested.map (room + 2) c.requests,
    nested_string.map (room + 4) c.inUseDeploys, Task.Cleanup.nested.list (room + 2) c.taskCleanups,
    Task.History.nested.list room c.taskHistories, Request.Pending.nested.list (room + 3) c.pending,
    Request.Cleanup.nested.list (room + 3) c.requestCleanups,
    Request.Record.nested.list (room + 3) c.requestHistory,
    Notification.nested.list (room + 3) c.notifications, trivial⟩

end Lapse
