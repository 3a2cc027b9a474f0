import JetCore.Ref.ClientTasks

/-!
# Heartbeats after `subscribe`, and everything after `close`

Calling `subscribe` again changes nothing in the subscriptions, but every call
starts a heartbeat: there is one for each subject and service exactly as long
as no subject is subscribed to that has one (`idempotent_iff`).

`close` gets to the end exactly if none of the tasks has been ended by an
exception (`close_released_iff`). It awaits each with nothing but
`CancelledError` suppressed, so a watch that a directory entry ended long ago
raises here, and the caches after it and the connection stay open.
-/

namespace JetCore

open Lib

namespace ClientState

/-! ## `subscribe` -/

/-- The subject and service id of every heartbeat that runs. -/
def heartbeats (c : ClientState) : List (String × String) :=
  (c.backgroundTasks.filter fun t => t.state = .running).map
    fun t => (t.subject, t.serviceId)

/-- The heartbeats that calls of this client start. -/
def started (c : ClientState) (calls : List SubscribeCall) :
    List (String × String) :=
  (calls.filter fun call => call.registered = .ok ()).map
    fun call => (call.subject, c.serviceId)

/-- The calls leave the subscriptions and the heartbeats that they would have
left without their repeats, and one heartbeat for each subject and service. -/
structure Idempotent (c : ClientState) (calls : List SubscribeCall) :
    Prop where
  subscriptions : ∀ durableName,
    (c.subscribeAll calls).subscriptions.get? durableName =
      (c.subscribeAll calls.dedup).subscriptions.get? durableName
  heartbeats : (c.subscribeAll calls).heartbeats.Perm
    (c.subscribeAll calls.dedup).heartbeats
  one : ∀ slot ∈ (c.subscribeAll calls).heartbeats,
    (c.subscribeAll calls).heartbeats.count slot = 1

/-- The durable name a call sets, if both its awaits return. -/
def sets (serviceId : String) (call : SubscribeCall) : Option String :=
  if call.registered = .ok () ∧ call.pulled = .ok () then
    some (call.durable serviceId)
  else none

theorem subscribe_serviceId (c : ClientState) (call : SubscribeCall) :
    (c.subscribe call).2.serviceId = c.serviceId := by
  rw [subscribe]
  split
  · rfl
  · split <;> rfl

theorem subscribe_subscriptions (c : ClientState) (call : SubscribeCall)
    (d : String) :
    (c.subscribe call).2.subscriptions.get? d =
      if sets c.serviceId call = some d then some call.subject
      else c.subscriptions.get? d := by
  rw [subscribe, sets]
  cases call.registered with
  | error e => simp
  | ok _ =>
      cases call.pulled with
      | error e => simp
      | ok _ => simp [Dict.get?_set, eq_comm]

theorem subscribe_heartbeats (c : ClientState) (call : SubscribeCall) :
    (c.subscribe call).2.heartbeats = c.heartbeats ++ c.started [call] := by
  rw [subscribe, started]
  cases hreg : call.registered with
  | error e => simp [hreg]
  | ok _ =>
      cases call.pulled with
      | error e => simp [heartbeats, hreg]
      | ok _ => simp [heartbeats, hreg]

theorem subscribeAll_heartbeats (calls : List SubscribeCall) :
    ∀ c : ClientState, (c.subscribeAll calls).heartbeats =
      c.heartbeats ++ c.started calls := by
  induction calls with
  | nil => exact fun c => (List.append_nil _).symm
  | cons call rest ih =>
      intro c
      have hstarted : (c.subscribe call).2.started rest = c.started rest := by
        rw [started, started, subscribe_serviceId]
      show ((c.subscribe call).2.subscribeAll rest).heartbeats = _
      rw [ih, subscribe_heartbeats, hstarted, List.append_assoc]
      congr 1
      rw [started, started, started, ← List.map_append,
        ← List.filter_append]
      rfl

/-- A durable name has the subject of the last call that set it. -/
theorem subscribeAll_subscriptions (c : ClientState)
    (calls : List SubscribeCall) (d : String) :
    (c.subscribeAll calls).subscriptions.get? d =
      (lastOn (sets c.serviceId) (some d) calls).elim
        (c.subscriptions.get? d) fun call => some call.subject := by
  have hstep : ∀ call ∈ calls, ∀ c' : ClientState,
      c'.serviceId = c.serviceId →
      (c'.subscribe call).2.serviceId = c.serviceId ∧ ∀ k : Option String,
        k.bind (c'.subscribe call).2.subscriptions.get? =
          if sets c.serviceId call = k then
            (sets c.serviceId call).map fun _ => call.subject
          else k.bind c'.subscriptions.get? := by
    intro call _ c' hid
    refine ⟨(subscribe_serviceId c' call).trans hid, fun k => ?_⟩
    cases k with
    | none =>
        cases sets c.serviceId call with
        | none => rfl
        | some d' => rfl
    | some d' =>
        rw [Option.bind_some, subscribe_subscriptions, hid]
        split
        · next hset => rw [hset, Option.map_some]
        · rfl
  have hlook := (look_replay
    (fun (c' : ClientState) (k : Option String) =>
      k.bind c'.subscriptions.get?)
    (fun c' => c'.serviceId = c.serviceId) hstep rfl).2 (some d)
  rw [Option.bind_some, Option.bind_some] at hlook
  refine hlook.trans ?_
  cases hlast : lastOn (sets c.serviceId) (some d) calls with
  | none => rfl
  | some call =>
      rw [Option.elim_some, (lastOn_mem hlast).2, Option.map_some]
      rfl

/-- Whichever way, the repeats of a call set nothing. -/
theorem subscriptions_dedup (c : ClientState) (calls : List SubscribeCall)
    (d : String) :
    (c.subscribeAll calls).subscriptions.get? d =
      (c.subscribeAll calls.dedup).subscriptions.get? d := by
  rw [subscribeAll_subscriptions, subscribeAll_subscriptions, lastOn_dedup]

/-- One heartbeat for each subject and service exactly if no call subscribes to
a subject that has one. -/
theorem idempotent_iff (c : ClientState) (calls : List SubscribeCall) :
    c.Idempotent calls ↔ (c.heartbeats ++ c.started calls).Nodup := by
  constructor
  · intro h
    rw [← subscribeAll_heartbeats]
    exact List.nodup_iff_count_eq_one.mpr h.one
  · intro h
    have hdedup : (c.heartbeats ++ c.started calls.dedup).Nodup := by
      refine h.sublist (List.Sublist.append_left ?_ _)
      exact ((List.dedup_sublist calls).filter _).map _
    refine ⟨subscriptions_dedup c calls, ?_, fun slot hslot => ?_⟩
    · rw [subscribeAll_heartbeats, subscribeAll_heartbeats,
        List.perm_ext_iff_of_nodup h hdedup]
      intro slot
      rw [List.mem_append, List.mem_append]
      refine or_congr_right ?_
      simp only [started, List.mem_map, List.mem_filter, List.mem_dedup]
    · rw [subscribeAll_heartbeats] at hslot ⊢
      exact List.count_eq_one_of_mem h hslot

/-! ## `close` -/

variable {c : ClientState}

/-- `close` has returned; every background task has ended and been awaited,
every cache is stopped and the connection is closed. -/
structure Released (c : ClientState) (run : Ended × ClientState) : Prop where
  returned : run.1 = .returned
  background : run.2.backgroundTasks.length = c.backgroundTasks.length ∧
    ∀ task ∈ run.2.backgroundTasks,
      task.state ≠ .running ∧ task.awaited = true
  stopped : run.2.recipientCaches.length = c.recipientCaches.length ∧
    ∀ cache ∈ run.2.recipientCaches, cache = none
  closed : run.2.connected = false

/-- No task of the client has been ended by an exception. -/
structure Healthy (c : ClientState) : Prop where
  background : ∀ task ∈ c.backgroundTasks, ∀ e, task.state ≠ .failed e
  watches : ∀ state, some state ∈ c.recipientCaches → ∀ e, state ≠ .failed e

section inTurn

variable {α : Type} {f : α → Ended × α}

theorem inTurn_of_returned {l : List α}
    (h : ∀ a ∈ l, (f a).1 = .returned) :
    inTurn f l = (.returned, l.map fun a => (f a).2) := by
  induction l with
  | nil => rfl
  | cons a rest ih =>
      have ha := h a List.mem_cons_self
      have hrest := ih fun b hb => h b (List.mem_cons_of_mem a hb)
      rw [inTurn, List.map_cons, hrest]
      rcases hf : f a with ⟨ended, a'⟩
      rw [hf] at ha
      cases ha
      rfl

/-- A loop that returns has come through each of its turns. -/
theorem returned_of_inTurn {l : List α}
    (h : (inTurn f l).1 = .returned) : ∀ a ∈ l, (f a).1 = .returned := by
  induction l with
  | nil => simp
  | cons a rest ih =>
      rw [inTurn] at h
      refine List.forall_mem_cons.mpr ?_
      rcases hf : f a with ⟨ended, a'⟩
      rw [hf] at h
      cases ended with
      | returned => exact ⟨rfl, ih h⟩
      | raised why => cases h
      | never => cases h

end inTurn

theorem cancel_awaitSuppressed (state : TaskState) :
    state.cancel.awaitSuppressed = .returned ↔ ∀ e, state ≠ .failed e := by
  cases state with
  | running => simp [TaskState.cancel, TaskState.awaitSuppressed]
  | cancelled => simp [TaskState.cancel, TaskState.awaitSuppressed]
  | failed why => simp [TaskState.cancel, TaskState.awaitSuppressed]

theorem stopCache_returned (cache : Option TaskState) :
    (stopCache cache).1 = .returned ↔
      ∀ state, cache = some state → ∀ e, state ≠ .failed e := by
  cases cache with
  | none => exact iff_of_true rfl (by simp)
  | some state =>
      rw [stopCache]
      cases state with
      | running => exact iff_of_true rfl (by simp)
      | cancelled => exact iff_of_true rfl (by simp)
      | failed why =>
          refine iff_of_false (fun h => by cases h) fun h => ?_
          exact h _ rfl why rfl

theorem stopCache_stopped {cache : Option TaskState}
    (h : (stopCache cache).1 = .returned) : (stopCache cache).2 = none := by
  cases cache with
  | none => rfl
  | some state =>
      cases state with
      | running => rfl
      | cancelled => rfl
      | failed why => cases h

theorem cancel_ne_running (state : TaskState) : state.cancel ≠ .running := by
  cases state <;> simp [TaskState.cancel]

/-- What `close` has done when it returns. -/
theorem close_returned (h : c.close.1 = .returned) :
    c.Healthy := by
  rw [close] at h
  split at h
  · next tasks htasks =>
      split at h
      · next caches hcaches =>
          have htasks' := returned_of_inTurn (congrArg Prod.fst htasks)
          have hcaches' := returned_of_inTurn (congrArg Prod.fst hcaches)
          refine ⟨fun task htask => ?_, fun state hstate => ?_⟩
          · exact (cancel_awaitSuppressed task.state).mp
              (htasks' _ (List.mem_map_of_mem htask))
          · exact (stopCache_returned _).mp (hcaches' _ hstate) state rfl
      · next ended caches hended hcaches =>
          exact (hended h).elim
  · next ended tasks hended htasks =>
      exact (hended h).elim

theorem close_of_healthy (h : c.Healthy) :
    c.close = (.returned, { c with
      backgroundTasks := c.backgroundTasks.map fun task =>
        (awaitTask (cancelTask task)).2
      recipientCaches := c.recipientCaches.map fun cache =>
        (stopCache cache).2
      connected := false }) := by
  have htasks := inTurn_of_returned (f := awaitTask)
    (l := c.backgroundTasks.map cancelTask) fun task htask => by
      obtain ⟨task', htask', rfl⟩ := List.mem_map.mp htask
      exact (cancel_awaitSuppressed _).mpr (h.background task' htask')
  have hcaches := inTurn_of_returned (f := stopCache)
    (l := c.recipientCaches) fun cache hcache => by
      refine (stopCache_returned cache).mpr fun state hstate => ?_
      exact h.watches state (hstate ▸ hcache)
  rw [close, htasks, hcaches, List.map_map]
  rfl

/-- Everything is released exactly if no task has been ended by an
exception. -/
theorem close_released_iff (c : ClientState) :
    c.Released c.close ↔ c.Healthy := by
  refine ⟨fun h => close_returned h.returned, fun h => ?_⟩
  rw [close_of_healthy h]
  refine ⟨rfl, ⟨List.length_map _, fun task htask => ?_⟩,
    ⟨List.length_map _, fun cache hcache => ?_⟩, rfl⟩
  · obtain ⟨task', -, rfl⟩ := List.mem_map.mp htask
    exact ⟨cancel_ne_running task'.state, rfl⟩
  · obtain ⟨cache', hcache', rfl⟩ := List.mem_map.mp hcache
    refine stopCache_stopped ((stopCache_returned cache').mpr ?_)
    exact fun state hstate => h.watches state (hstate ▸ hcache')

end ClientState

namespace Sample

def idleClient : ClientState where
  serviceId := "orders-api-01"
  subscriptions := Dict.empty
  backgroundTasks := []
  recipientCaches := []
  connected := true

def subscribeOrders : SubscribeCall :=
  ⟨"events.orders.OrderPersisted", none, .ok (), .ok ()⟩

/-- One heartbeat, and two caches the first of which met an array among the
values of its directory. -/
def deadWatchClient : ClientState where
  serviceId := "orders-api-01"
  subscriptions := Dict.empty
  backgroundTasks := [{
    subject := "events.orders.OrderPersisted"
    serviceId := "orders-api-01" }]
  recipientCaches := [some (.failed .typeError), some .running]
  connected := true

end Sample

/-- Two heartbeats for one subject. -/
theorem resubscribe_not_idempotent :
    ¬ Sample.idleClient.Idempotent
        [Sample.subscribeOrders, Sample.subscribeOrders] ∧
      (Sample.idleClient.subscribeAll
        [Sample.subscribeOrders, Sample.subscribeOrders]).heartbeats =
        [("events.orders.OrderPersisted", "orders-api-01"),
          ("events.orders.OrderPersisted", "orders-api-01")] := by
  refine ⟨fun h => ?_, by decide +kernel⟩
  have hone := h.one ("events.orders.OrderPersisted", "orders-api-01")
    (by decide +kernel)
  revert hone
  decide +kernel

/-- The exception comes out of `close`, the other watch runs on and the
connection is open. -/
theorem deadWatch_not_released :
    ¬ Sample.deadWatchClient.Released Sample.deadWatchClient.close ∧
      Sample.deadWatchClient.close.1 = .raised .typeError ∧
      Sample.deadWatchClient.close.2.recipientCaches =
        [some (.failed .typeError), some .running] ∧
      Sample.deadWatchClient.close.2.connected = true := by
  refine ⟨fun h => ?_, rfl, rfl, rfl⟩
  have hreturned := h.returned
  cases hreturned

end JetCore
