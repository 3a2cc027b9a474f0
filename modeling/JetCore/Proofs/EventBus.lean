import JetCore.Lib.Causes
import JetCore.Proofs.Sample
import JetCore.Spec.EventBus

/-!
# No event storms

A delivery publishes one message at most, a consumer is handed a message five
times at most, and results rank below requests, so what is stored is bounded by
what comes from outside, unless a trigger listens to what the triggers publish:
then one message is enough for any number (`bounded_iff`).
-/

namespace JetCore

open Lib

namespace EventBus

/-! ## One publish -/

def Silent (a : HandlerAct) : Prop := a.published? = none

/-- It publishes one of these. -/
def PublishesOn (subjects : List String) (a : HandlerAct) : Prop :=
  ∃ args, a.published? = some args ∧ args.subject ∈ subjects

def fileResults : List String := [
  "events.files.FileCreateCompleted", "events.files.FileWriteCompleted",
  "events.files.FileReadCompleted", "events.files.FileListCompleted",
  "events.files.FileDeleteCompleted", "events.files.FileOperationFailed"]

/-- The subjects a file handler publishes on. -/
def fileResultsOf : FileHandler → List String
  | .write => [
      "events.files.FileCreateCompleted", "events.files.FileWriteCompleted"]
  | .read => [
      "events.files.FileReadCompleted", "events.files.FileOperationFailed"]
  | .delete => [
      "events.files.FileDeleteCompleted", "events.files.FileOperationFailed"]
  | .list => [
      "events.files.FileListCompleted", "events.files.FileOperationFailed"]

/-- What is not published by a call of the file adapter. -/
abbrev QuietFile {α : Type} (p : FileProg α) : Prop :=
  Prog.Only (fun a => Silent (.file a)) p

/-- One result at most, of those of the handler. -/
abbrev OneResult {α : Type} (handler : FileHandler) (p : FileProg α) : Prop :=
  Prog.Once (fun a => Silent (.file a))
    (fun a => PublishesOn (fileResultsOf handler) (.file a)) p

variable {handler : FileHandler}

theorem call_quiet (a : FileAct) (h : Silent (.file a)) :
    QuietFile (FileAct.call a) := .act h

/-- A log line, and an ack or a nak. -/
theorem settles_oneResult {line : FileLogLine} {x : FileProg Unit}
    (hx : QuietFile x) : OneResult handler (do FileAct.call (.log line); x) :=
  (Prog.Only.bind (fun _ => hx) (call_quiet (.log line) rfl)).once

theorem resolveWithin_quiet (root : PosixPath) (relative : Text) :
    QuietFile (resolveWithin root relative) := by
  rw [resolveWithin]
  split
  · trivial
  · refine .bind (fun rootResolved => ?_) (.act rfl)
    refine .bind (fun candidate => ?_) (.act rfl)
    split
    · trivial
    · trivial

theorem publishAndAck_oneResult {event : ReceivedEvent}
    {subject eventType : String} {payload : Bytes}
    (hsubject : subject ∈ fileResultsOf handler) :
    OneResult handler (publishAndAck event subject eventType payload) :=
  .act_bind ⟨_, rfl, hsubject⟩ fun _ => .act rfl

theorem operationFailed_oneResult (event : ReceivedEvent) (path : Text)
    (operation reason occurredAt : String) (h : handler ≠ .write) :
    OneResult handler
      (operationFailed event path operation reason occurredAt) := by
  refine publishAndAck_oneResult ?_
  cases handler with
  | write => exact absurd rfl h
  | read => decide
  | delete => decide
  | list => decide

theorem orNak_oneResult {α : Type} {doing : String} {target : PosixPath}
    {event : ReceivedEvent} {x : FileProg α} {rest : α → FileProg Unit}
    (hx : QuietFile x) (hrest : ∀ a, OneResult handler (rest a)) :
    OneResult handler (orNak doing target event x rest) := by
  refine .bind (fun r => ?_) hx.attempt
  cases r with
  | error e =>
      show Prog.Once _ _ (ite _ _ _)
      split
      · exact settles_oneResult (call_quiet .nak rfl)
      · trivial
  | ok a => exact hrest a

theorem withTarget_oneResult {α : Type} {watchDir : PosixPath}
    {eventType : String} {event : ReceivedEvent} {decoded : Except Exn α}
    {path : α → Text} {body : α → PosixPath → FileProg Unit}
    (hbody : ∀ request target, OneResult handler (body request target)) :
    OneResult handler (withTarget watchDir eventType event decoded path body) := by
  cases decoded with
  | error e =>
      show Prog.Once _ _ (ite _ _ _)
      split
      · exact settles_oneResult (call_quiet .ack rfl)
      · trivial
  | ok request =>
      refine .bind (fun r => ?_) (resolveWithin_quiet _ _).attempt
      cases r with
      | error e =>
          show Prog.Once _ _ (ite _ _ _)
          split
          · exact settles_oneResult (call_quiet .ack rfl)
          · trivial
      | ok target => exact hbody request target

theorem writeTarget_oneResult (self : FileAdapter) (occurredAt : String)
    (event : ReceivedEvent) (request : WriteRequest) (target : PosixPath) :
    OneResult .write (writeTarget self occurredAt event request target) := by
  refine .bind (fun existedBefore => ?_) (.act rfl)
  refine orNak_oneResult ?_ fun _ => .bind (fun _ => ?_) ?_
  · exact .bind (fun _ => .bind (fun file => call_quiet (.write file _) rfl)
      (call_quiet (.openWrite target) rfl)) (call_quiet (.mkdir _) rfl)
  · split
    · exact publishAndAck_oneResult (by decide)
    · exact publishAndAck_oneResult (by decide)
  · rw [markRecent]
    split
    · exact .act rfl
    · trivial

theorem readTarget_oneResult (occurredAt : String) (event : ReceivedEvent)
    (path : Text) (target : PosixPath) :
    OneResult .read (readTarget occurredAt event path target) := by
  refine .bind (fun isFile => ?_) (.act rfl)
  split
  · exact operationFailed_oneResult _ _ _ _ _ (by decide)
  · exact orNak_oneResult (.act rfl) fun _ =>
      publishAndAck_oneResult (by decide)

theorem deleteTarget_oneResult (occurredAt : String) (event : ReceivedEvent)
    (path : Text) (target : PosixPath) :
    OneResult .delete (deleteTarget occurredAt event path target) := by
  refine .bind (fun isFile => ?_) (.act rfl)
  split
  · exact operationFailed_oneResult _ _ _ _ _ (by decide)
  · exact orNak_oneResult (.act rfl) fun _ =>
      publishAndAck_oneResult (by decide)

theorem listEntry_quiet (child : PosixPath) : QuietFile (listEntry child) := by
  refine .bind (fun isDirectory => .bind (fun sizeBytes => ?_) ?_)
    (call_quiet (.isDir child) rfl)
  · trivial
  · refine .bind (fun isDir => ?_) (call_quiet (.isDir child) rfl)
    split
    · trivial
    · exact .act rfl

theorem each_quiet (children : List PosixPath) :
    QuietFile (Prog.each listEntry children) := by
  induction children with
  | nil => trivial
  | cons child rest ih =>
      refine .bind (fun b => .bind (fun bs => ?_) ih) (listEntry_quiet child)
      trivial

theorem listTarget_oneResult (occurredAt : String) (event : ReceivedEvent)
    (path : Text) (target : PosixPath) :
    OneResult .list (listTarget occurredAt event path target) := by
  refine .bind (fun _ => ?_) (.act rfl)
  split
  · exact operationFailed_oneResult _ _ _ _ _ (by decide)
  · refine .bind (fun _ => ?_) (.act rfl)
    split
    · exact operationFailed_oneResult _ _ _ _ _ (by decide)
    · refine orNak_oneResult ?_ fun _ => publishAndAck_oneResult (by decide)
      exact .bind (fun _ => each_quiet _) (.act rfl)

theorem handle_oneResult (handler : FileHandler) (self : FileAdapter)
    (occurredAt : String) (event : ReceivedEvent) :
    OneResult handler (handler.handle self occurredAt event) := by
  cases handler with
  | write => exact withTarget_oneResult (writeTarget_oneResult _ _ _)
  | read => exact withTarget_oneResult (readTarget_oneResult _ _)
  | delete => exact withTarget_oneResult (deleteTarget_oneResult _ _)
  | list => exact withTarget_oneResult (listTarget_oneResult _ _)

theorem handleOrderCreated_once (occurredAt : String) (event : ReceivedEvent) :
    Prog.Once (fun a => Silent (.db a))
      (fun a => PublishesOn ["events.orders.OrderPersisted"] (.db a))
      (handleOrderCreated occurredAt event) := by
  have hquiet : ∀ a, Silent (.db a) →
      Prog.Only (fun a => Silent (.db a)) (DbAct.call a) :=
    fun a ha => .act ha
  rw [handleOrderCreated]
  split
  · exact (Prog.Only.bind (fun _ => hquiet .ack rfl) (hquiet (.log _) rfl)).once
  · trivial
  · refine .bind (fun r => ?_) (hquiet (.upsert _) rfl).attempt
    split
    · exact (Prog.Only.bind (fun _ => hquiet .nak rfl)
        (hquiet (.log _) rfl)).once
    · trivial
    · exact .act_bind ⟨_, rfl, List.mem_singleton_self _⟩ fun _ => .act rfl

theorem handleTrigger_once (self : TriggerHandler) (occurredAt : String)
    (event : ReceivedEvent) :
    Prog.Once (fun a => Silent (.http a))
      (fun a => PublishesOn ["events.http.RequestCompleted"] (.http a))
      (handleTrigger self occurredAt event) := by
  have hquiet : ∀ a, Silent (.http a) →
      Prog.Only (fun a => Silent (.http a)) (HttpAct.call a) :=
    fun a ha => .act ha
  refine .bind (fun r => ?_) (hquiet (.post _ _ _) rfl).attempt
  split
  · exact (Prog.Only.bind (fun _ => hquiet .nak rfl) (hquiet (.log _) rfl)).once
  · trivial
  · exact .act_bind ⟨_, rfl, List.mem_singleton_self _⟩ fun _ => .act rfl

/-- The subjects a consumer publishes on. -/
def results : EventConsumer → List String
  | .file handler => fileResultsOf handler
  | .orders => ["events.orders.OrderPersisted"]
  | .trigger _ => ["events.http.RequestCompleted"]

theorem handle_once (d : Deployment) (h : EventDelivery) :
    Prog.Once Silent (PublishesOn (results h.consumer)) (d.handle h) := by
  rw [Deployment.handle]
  split
  · next handler hc =>
      rw [hc]
      exact (handle_oneResult handler d.files h.occurredAt h.event).embed
  · next hc =>
      rw [hc]
      exact (handleOrderCreated_once h.occurredAt h.event).embed
  · next i hc =>
      rw [hc]
      split
      · trivial
      · next self _ =>
          exact (handleTrigger_once self h.occurredAt h.event).embed

/-! ## What a step does -/

variable {d : Deployment} {s s' : EventBus}

/-- A delivery's call is answered, and its publish may be stored. -/
theorem step_answer {i : ℕ} {r : (a : HandlerAct) → Except Exn a.Resp}
    {done : Bool} {call : Call}
    (h : s.step d (.answer i r done call) = some s') :
    s.deliveries.step d.handle (.answer i r) = some s'.deliveries ∧
    ∃ a, s.calling i = some a ∧
      (s'.stored = s.stored ∨ ∃ c args, a.published? = some args ∧
        c.args = args ∧ s'.stored = s.stored ++ [(c, some i)]) := by
  rw [step, Option.bind_eq_some_iff] at h
  obtain ⟨a, ha, h⟩ := h
  rw [Option.map_eq_some_iff] at h
  obtain ⟨deliveries, hstep, rfl⟩ := h
  refine ⟨hstep, a, ha, ?_⟩
  by_cases hdone : (done || (r a).isOk) = true
  · simp only [if_pos hdone, worked]
    split
    · next args hargs => exact .inr ⟨_, args, hargs, rfl, rfl⟩
    · exact .inl (List.append_nil _)
  · simp only [if_neg hdone]
    exact .inl (List.append_nil _)

theorem step_deliver {h : EventDelivery}
    (hstep : s.step d (.deliver h) = some s') :
    (∃ m, s.stored[h.message]? = some m ∧
      d.subject? h.consumer = some m.1.args.subject) ∧
    s.attempts h.consumer h.message < maxDeliverAttempts ∧
    s' = { s with deliveries := { s.deliveries with
      started := s.deliveries.started ++ [(h, d.handle h)] } } := by
  rw [step] at hstep
  split at hstep
  · next hmay =>
      rw [mayDeliver, Bool.and_eq_true, Option.any_eq_true] at hmay
      obtain ⟨⟨m, hm, hsubject⟩, hattempts⟩ := hmay
      exact ⟨⟨m, hm, of_decide_eq_true hsubject⟩,
        of_decide_eq_true hattempts, (Option.some.inj hstep).symm⟩
  · cases hstep

theorem calling_eq {i : ℕ} {a : HandlerAct} : s.calling i = some a ↔
    ∃ h k, s.deliveries.started[i]? = some (h, .call a k) := by
  rw [calling]
  constructor
  · intro hcalling
    split at hcalling
    · next h b k hget =>
        cases hcalling
        exact ⟨h, k, hget⟩
    · cases hcalling
  · intro hget
    obtain ⟨h, k, hget⟩ := hget
    rw [hget]

/-! ## The invariant -/

/-- The deliveries that published. -/
def origins (s : EventBus) : List ℕ := s.stored.filterMap Prod.snd

structure Sound (d : Deployment) (s : EventBus) : Prop where
  /-- What is left of a delivery publishes once at most, and not at all if it
  has published. -/
  task : ∀ i h p, s.deliveries.started[i]? = some (h, p) →
    Prog.Once Silent (PublishesOn (results h.consumer)) p ∧
      (i ∈ s.origins → Prog.Only Silent p)
  once : s.origins.Nodup
  origin : ∀ c i, (c, some i) ∈ s.stored → ∃ h,
    s.deliveries.subject? i = some h ∧ c.args.subject ∈ results h.consumer
  delivered : ∀ i h, s.deliveries.subject? i = some h → ∃ m,
    s.stored[h.message]? = some m ∧
      d.subject? h.consumer = some m.1.args.subject
  attempts : ∀ consumer message,
    s.attempts consumer message ≤ maxDeliverAttempts

theorem sound_init : Sound d {} where
  task := by
    intro i h p hget
    cases hget
  once := List.nodup_nil
  origin := by
    intro c i hmem
    cases hmem
  delivered := by
    intro i h hget
    cases hget
  attempts := fun _ _ => Nat.zero_le _

theorem of_getElem?_concat {α : Type*} {l : List α} {a b : α} {i : ℕ}
    (h : (l ++ [a])[i]? = some b) : l[i]? = some b ∨ i = l.length ∧ b = a := by
  by_cases hlt : i < l.length
  · rw [List.getElem?_append_left hlt] at h
    exact .inl h
  · obtain ⟨hle, -⟩ := List.getElem?_eq_some_iff.mp h
    rw [List.length_append, List.length_singleton] at hle
    obtain rfl : i = l.length := by omega
    rw [List.getElem?_concat_length] at h
    exact .inr ⟨rfl, (Option.some.inj h).symm⟩

/-- The messages there are stay where they are. -/
theorem stored_append {new : List (Call × Option ℕ)} {i : ℕ}
    {m : Call × Option ℕ} (h : s.stored[i]? = some m) :
    (s.stored ++ new)[i]? = some m := by
  obtain ⟨hlt, -⟩ := List.getElem?_eq_some_iff.mp h
  exact (List.getElem?_append_left hlt).trans h

theorem sound_publish (hs : s.Sound d) (call : Call) :
    Sound d { s with stored := s.stored ++ [(call, none)] } := by
  have horigins : origins { s with stored := s.stored ++ [(call, none)] } =
      s.origins := by
    rw [origins, List.filterMap_append]
    exact List.append_nil _
  refine ⟨?_, ?_, fun c i hmem => ?_, fun i h hget => ?_, hs.attempts⟩
  · rw [horigins]
    exact hs.task
  · rw [horigins]
    exact hs.once
  · rcases List.mem_append.mp hmem with hmem | hmem
    · exact hs.origin c i hmem
    · cases List.mem_singleton.mp hmem
  · obtain ⟨m, hm, hsubject⟩ := hs.delivered i h hget
    exact ⟨m, stored_append hm, hsubject⟩

/-- Only a delivery that was started has published. -/
theorem Sound.origin_lt (hs : s.Sound d) {i : ℕ} (hi : i ∈ s.origins) :
    i < s.deliveries.started.length := by
  obtain ⟨⟨c, origin⟩, hmem, rfl⟩ := List.mem_filterMap.mp hi
  obtain ⟨h, hsubject, -⟩ := hs.origin c i hmem
  obtain ⟨p, hget⟩ := Tasks.subject?_eq.mp hsubject
  exact (List.getElem?_eq_some_iff.mp hget).1

theorem sound_deliver (hs : s.Sound d) {h : EventDelivery}
    (hstep : s.step d (.deliver h) = some s') : s'.Sound d := by
  obtain ⟨hmessage, hattempts, rfl⟩ := step_deliver hstep
  have hkept : ∀ i h', s.deliveries.subject? i = some h' →
      Tasks.subject? { s.deliveries with
        started := s.deliveries.started ++ [(h, d.handle h)] } i = some h' :=
    fun i h' hi => by
      have hstart : s.deliveries.step d.handle (.start h) = some _ := rfl
      exact Tasks.subject?_step hstart hi
  refine ⟨fun i h' p hget => ?_, hs.once, fun c i hmem => ?_,
    fun i h' hget => ?_, fun consumer message => ?_⟩
  · rcases of_getElem?_concat hget with hold | ⟨rfl, heq⟩
    · exact hs.task i h' p hold
    · cases heq
      refine ⟨handle_once d h, fun hi => ?_⟩
      exact absurd (hs.origin_lt hi) (Nat.lt_irrefl _)
  · obtain ⟨h', hget, hsubject⟩ := hs.origin c i hmem
    exact ⟨h', hkept i h' hget, hsubject⟩
  · obtain ⟨p, hget⟩ := Tasks.subject?_eq.mp hget
    rcases of_getElem?_concat hget with hold | ⟨rfl, heq⟩
    · exact hs.delivered i h' (Tasks.subject?_eq.mpr ⟨p, hold⟩)
    · cases heq
      exact hmessage
  · have hbefore := hs.attempts consumer message
    show List.countP _ (_ ++ _) ≤ _
    rw [List.countP_append, List.countP_singleton]
    show s.attempts consumer message + _ ≤ _
    split
    · next heq =>
        obtain ⟨rfl, rfl⟩ := of_decide_eq_true heq
        exact hattempts
    · omega

/-- An answer changes none of the deliveries there are. -/
theorem attempts_answer {i : ℕ} {r : (a : HandlerAct) → Except Exn a.Resp}
    (hstep : s.deliveries.step d.handle (.answer i r) = some s'.deliveries)
    (consumer : EventConsumer) (message : ℕ) :
    s'.attempts consumer message = s.attempts consumer message := by
  have hsame : s'.deliveries.started.map Prod.fst =
      s.deliveries.started.map Prod.fst := by
    refine List.ext_getElem? fun j => ?_
    rw [List.getElem?_map, List.getElem?_map]
    exact Tasks.subject?_answer hstep j
  have hcount := congrArg (List.countP fun h =>
    h.consumer = consumer ∧ h.message = message) hsame
  rw [List.countP_map, List.countP_map] at hcount
  exact hcount

theorem sound_answer (hs : s.Sound d) {i : ℕ}
    {r : (a : HandlerAct) → Except Exn a.Resp} {done : Bool} {call : Call}
    (h : s.step d (.answer i r done call) = some s') : s'.Sound d := by
  obtain ⟨hstep, a, hcalling, hstored⟩ := step_answer h
  have hsubject := Tasks.subject?_answer hstep
  obtain ⟨h, a', k, hget, hstarted, -⟩ := Tasks.step_answer hstep
  obtain rfl : a' = a := by
    obtain ⟨h', k', hget'⟩ := calling_eq.mp hcalling
    rw [hget] at hget'
    cases hget'
    rfl
  obtain ⟨honce, honly⟩ := hs.task i h _ hget
  obtain ⟨hlt, -⟩ := List.getElem?_eq_some_iff.mp hget
  -- a call that publishes is the last that does
  have hcall : (∃ args, a'.published? = some args) → i ∉ s.origins ∧
      Prog.Only Silent (k (r a')) ∧ PublishesOn (results h.consumer) a' := by
    intro hpublishes
    obtain ⟨args, hargs⟩ := hpublishes
    have hloud : ¬ Silent a' := fun hsilent => by
      rw [Silent, hargs] at hsilent
      cases hsilent
    refine ⟨fun hi => hloud (honly hi).1, ?_⟩
    rcases honce with ⟨hsilent, -⟩ | ⟨hon, hk⟩
    · exact absurd hsilent hloud
    · exact ⟨hk (r a'), hon⟩
  have horigins : s'.origins = s.origins ∨
      s'.origins = s.origins ++ [i] ∧ ∃ args, a'.published? = some args := by
    rcases hstored with heq | ⟨c, args, hargs, -, heq⟩
    · exact .inl (by rw [origins, heq, origins])
    · refine .inr ⟨?_, args, hargs⟩
      rw [origins, heq, List.filterMap_append]
      rfl
  refine ⟨fun j h' p hj => ?_, ?_, fun c j hmem => ?_, fun j h' hj => ?_,
    fun consumer message => ?_⟩
  · rw [hstarted] at hj
    by_cases hij : i = j
    · subst hij
      rw [List.getElem?_set_self hlt] at hj
      cases hj
      have hk : Prog.Once Silent (PublishesOn (results h.consumer))
          (k (r a')) := by
        rcases honce with ⟨-, hk⟩ | ⟨-, hk⟩
        · exact hk (r a')
        · exact (hk (r a')).once
      refine ⟨hk, fun hi => ?_⟩
      rcases horigins with heq | ⟨-, hpublishes⟩
      · rw [heq] at hi
        exact (honly hi).2 (r a')
      · exact (hcall hpublishes).2.1
    · rw [List.getElem?_set_ne hij] at hj
      obtain ⟨hp, hquiet⟩ := hs.task j h' p hj
      refine ⟨hp, fun hi => hquiet ?_⟩
      rcases horigins with heq | ⟨heq, -⟩
      · rwa [heq] at hi
      · rw [heq] at hi
        rcases List.mem_append.mp hi with hi | hi
        · exact hi
        · exact absurd (List.mem_singleton.mp hi).symm hij
  · rcases horigins with heq | ⟨heq, hpublishes⟩
    · rw [heq]
      exact hs.once
    · rw [heq, ← List.concat_eq_append]
      exact hs.once.concat (hcall hpublishes).1
  · rw [hsubject]
    rcases hstored with heq | ⟨c', args, hargs, rfl, heq⟩
    · rw [heq] at hmem
      exact hs.origin c j hmem
    · rw [heq] at hmem
      rcases List.mem_append.mp hmem with hmem | hmem
      · exact hs.origin c j hmem
      · cases List.mem_singleton.mp hmem
        obtain ⟨args, hargs', hon⟩ := (hcall ⟨_, hargs⟩).2.2
        rw [hargs] at hargs'
        cases hargs'
        exact ⟨h, Tasks.subject?_eq.mpr ⟨_, hget⟩, hon⟩
  · rw [hsubject] at hj
    obtain ⟨m, hm, hlistens⟩ := hs.delivered j h' hj
    rcases hstored with heq | ⟨c, args, -, -, heq⟩
    · exact ⟨m, by rw [heq]; exact hm, hlistens⟩
    · exact ⟨m, by rw [heq]; exact stored_append hm, hlistens⟩
  · rw [attempts_answer hstep]
    exact hs.attempts consumer message

theorem sound_of_reached {acts : List EventBusAct} (h : Reached d acts s) :
    s.Sound d := by
  refine Run.invariant (I := Sound d) ?_ h sound_init
  intro s act s' hs _ hstep
  cases act with
  | publish call =>
      cases hstep
      exact sound_publish hs call
  | deliver h => exact sound_deliver hs hstep
  | answer i r done call => exact sound_answer hs hstep

/-! ## The bound -/

/-- No trigger listens to what the triggers publish. -/
def Calm (d : Deployment) : Prop :=
  ∀ t ∈ d.triggers, t.subject ≠ "events.http.RequestCompleted"

def causes (s : EventBus) : Causes Call EventConsumer where
  messages := s.stored
  reactions := s.deliveries.started.map fun e => (e.1.consumer, e.1.message)

def consumers (d : Deployment) : Finset EventConsumer :=
  {.file .write, .file .read, .file .delete, .file .list, .orders} ∪
    (Finset.range d.triggers.length).image .trigger

theorem mem_consumers {consumer : EventConsumer} {subject : String}
    (h : d.subject? consumer = some subject) : consumer ∈ consumers d := by
  rw [consumers, Finset.mem_union]
  cases consumer with
  | file handler =>
      refine .inl ?_
      cases handler with
      | write => decide
      | read => decide
      | delete => decide
      | list => decide
  | orders => exact .inl (by decide)
  | trigger i =>
      obtain ⟨t, ht, -⟩ := Option.map_eq_some_iff.mp h
      obtain ⟨hlt, -⟩ := List.getElem?_eq_some_iff.mp ht
      exact .inr (Finset.mem_image_of_mem _ (Finset.mem_range.mpr hlt))

/-- Requests and the like, results, and what triggers publish. -/
def rank (c : Call) : ℕ :=
  if c.args.subject = "events.http.RequestCompleted" then 0
  else if c.args.subject ∈ "events.orders.OrderPersisted" :: fileResults then 1
  else 2

theorem fileResultsOf_subset (handler : FileHandler) :
    fileResultsOf handler ⊆ fileResults := by
  cases handler with
  | write => decide
  | read => decide
  | delete => decide
  | list => decide

theorem rank_le (c : Call) : rank c ≤ 2 := by
  rw [rank]
  split
  · omega
  · split
    · omega
    · omega

/-- What is published ranks below what it answers. -/
theorem rank_lt (hcalm : Calm d) {consumer : EventConsumer} {c cause : Call}
    (hlistens : d.subject? consumer = some cause.args.subject)
    (hresult : c.args.subject ∈ results consumer) : rank c < rank cause := by
  cases consumer with
  | file handler =>
      have hcause : rank cause = 2 := by
        have hsubject := (Option.some.inj hlistens).symm
        rw [rank, hsubject]
        cases handler with
        | write => decide
        | read => decide
        | delete => decide
        | list => decide
      have hc : rank c ≤ 1 := by
        have hresult : c.args.subject ∈ fileResults :=
          fileResultsOf_subset handler hresult
        rw [rank, if_pos (List.mem_cons_of_mem _ hresult)]
        split
        · omega
        · omega
      omega
  | orders =>
      have hcause : rank cause = 2 := by
        have hsubject := (Option.some.inj hlistens).symm
        rw [rank, hsubject]
        decide
      have hc : rank c = 1 := by
        rw [rank, List.mem_singleton.mp hresult]
        decide
      omega
  | trigger i =>
      have hc : rank c = 0 := if_pos (List.mem_singleton.mp hresult)
      obtain ⟨t, ht, hsubject⟩ := Option.map_eq_some_iff.mp hlistens
      have hne := hcalm t (List.mem_of_getElem? ht)
      rw [hsubject] at hne
      rw [hc, rank, if_neg hne]
      split
      · omega
      · omega

theorem Sound.causes_sound (hs : s.Sound d) (hcalm : Calm d) :
    s.causes.Sound (consumers d) maxDeliverAttempts rank where
  once := hs.once
  known := by
    intro r hr
    obtain ⟨⟨h, p⟩, hmem, rfl⟩ := List.mem_map.mp hr
    obtain ⟨i, hget⟩ := List.mem_iff_getElem?.mp hmem
    obtain ⟨m, -, hlistens⟩ :=
      hs.delivered i h (Tasks.subject?_eq.mpr ⟨p, hget⟩)
    exact mem_consumers hlistens
  limited := by
    intro r
    refine le_trans (le_of_eq ?_) (hs.attempts r.1 r.2)
    rw [causes, List.count, List.countP_map]
    refine List.countP_congr fun e _ => ?_
    simp [Prod.ext_iff]
  lower := by
    intro c i hmem
    obtain ⟨h, hsubject, hresult⟩ := hs.origin c i hmem
    obtain ⟨m, hm, hlistens⟩ := hs.delivered i h hsubject
    obtain ⟨p, hget⟩ := Tasks.subject?_eq.mp hsubject
    refine ⟨h.consumer, h.message, ?_, m, hm, rank_lt hcalm hlistens hresult⟩
    rw [causes, List.getElem?_map, hget]
    rfl

/-- So many messages come of one from outside, with `n` triggers. -/
def gain (n : ℕ) : ℕ :=
  ∑ k ∈ Finset.range 3, (maxDeliverAttempts * (5 + n)) ^ k

theorem card_consumers_le (d : Deployment) :
    (consumers d).card ≤ 5 + d.triggers.length := by
  refine (Finset.card_union_le _ _).trans
    (Nat.add_le_add Finset.card_le_five ?_)
  exact Finset.card_image_le.trans (Finset.card_range _).le

theorem Sound.length_stored_le (hs : s.Sound d) (hcalm : Calm d) :
    s.stored.length ≤ gain d.triggers.length * s.fromOutside := by
  have htop : ∀ m ∈ s.causes.messages, rank m.1 ≤ 2 := fun m _ => rank_le m.1
  have hle := (hs.causes_sound hcalm).length_le htop
  rw [Nat.mul_comm]
  refine hle.trans (Nat.mul_le_mul_left _ (Finset.sum_le_sum fun k _ => ?_))
  exact Nat.pow_le_pow_left
    (Nat.mul_le_mul_left _ (card_consumers_le d)) k

/-! ## The storm -/

/-- The event a consumer makes of a message. -/
def received (c : Call) : ReceivedEvent where
  event := ⟨⟨{
      eventId := c.eventId
      eventCreated := c.draws.built.now
      eventType := c.args.eventType
      eventSchemaVersion := "1.0.0"
      sourceServiceId := c.client.serviceId
      correlationId := c.args.correlationId },
    ⟨encryptionAlgorithm, []⟩, ""⟩⟩
  payload := c.args.payload
  msg := ⟨1, c.args.subject, [], 1⟩

/-- The `n`-th message of a storm, each with an id of its own. -/
def stormCall (n : ℕ) (args : PublishArgs) : Call :=
  { Sample.orderCall none with
    draws := { Sample.draws with built := ⟨toString n, Sample.newYear⟩ }
    args := args }

/-- A path is what it resolves to, and nothing is there. -/
def fileReturns : (a : FileAct) → a.Resp
  | .resolve path => path
  | .exists _ | .isFile _ | .isDir _ => false
  | .iterdir _ => []
  | .size _ => 0
  | .openWrite _ => []
  | .read _ => []
  | .mkdir _ | .write .. | .unlink _ | .mark _ | .log _ | .publish _ => ()
  | .ack | .nak => ()

/-- Every call returns, and the other side answers 200. -/
def obliging : (a : HandlerAct) → Except Exn a.Resp
  | .http (.post ..) => .ok ⟨200, []⟩
  | .http (.publish _) | .http (.log _) | .http .ack | .http .nak => .ok ()
  | .db _ => .ok ()
  | .file a => .ok (fileReturns a)

theorem obliging_own (a : HandlerAct) : AnswersOwn a (obliging a) := by
  intro path h
  cases a with
  | file a => cases h
  | db a => cases h
  | http a => cases a <;> cases h

def stormDelivery (i n : ℕ) (c : Call) : EventDelivery where
  consumer := .trigger i
  message := n
  event := received c
  occurredAt := Sample.newYearText

/-- The last message is one of the triggers', and has not been delivered. -/
structure Stormy (d : Deployment) (n : ℕ) (s : EventBus) : Prop where
  length : s.stored.length = n + 1
  outside : s.fromOutside = 1
  last : ∃ m, s.stored[n]? = some m ∧
    m.1.args.subject = "events.http.RequestCompleted"
  undelivered : ∀ e ∈ s.deliveries.started, e.1.message < n

/-- The next call of the delivery that was started last, answered. -/
theorem answer_last (stored : List (Call × Option ℕ))
    (started : List (EventDelivery × HandlerProg Unit))
    (log : List (ℕ × CallEvent HandlerAct HandlerAct.Resp Exn))
    (h : EventDelivery) {a : HandlerAct} {p : HandlerProg Unit}
    (k : Except Exn a.Resp → HandlerProg Unit)
    {stored' : List (Call × Option ℕ)}
    {r : (a : HandlerAct) → Except Exn a.Resp} {done : Bool} {call : Call}
    (hstored : stored' = stored ++
      if done || (r a).isOk then worked started.length call a else [])
    (hp : k (r a) = p) :
    ∃ log', step d ⟨stored, ⟨started ++ [(h, .call a k)], log⟩⟩
        (.answer started.length r done call) =
      some ⟨stored', ⟨started ++ [(h, p)], log'⟩⟩ := by
  have hget : (started ++ [(h, Prog.call a k)])[started.length]? =
      some (h, .call a k) := List.getElem?_concat_length
  refine ⟨log ++ [(started.length, ⟨a, r a⟩)], ?_⟩
  rw [step, calling, hget, Option.bind_some, Tasks.step, hget,
    Option.bind_some, Tasks.answer, List.set_append_right _ _ (Nat.le_refl _),
    Nat.sub_self, hstored, ← hp]
  rfl

/-- A trigger's delivery, up to its publish. -/
theorem handle_trigger {i : ℕ} {self : TriggerHandler} {h : EventDelivery}
    (hi : d.triggers[i]? = some self) (hc : h.consumer = .trigger i) :
    ∃ k k', d.handle h = .call (.http
        (.post self.targetBaseUrl h.event.payload self.headers)) k ∧
      k (.ok ⟨200, []⟩) = .call (.http (.publish (requestCompleted ⟨200, []⟩
        h.occurredAt h.event.details.eventId))) k' := by
  simp only [Deployment.handle, hc, hi]
  exact ⟨_, _, rfl, rfl⟩

/-- A trigger that listens answers the last message with another. -/
theorem stormy_succ {i : ℕ} {self : TriggerHandler}
    (hi : d.triggers[i]? = some self)
    (hsubject : self.subject = "events.http.RequestCompleted") {n : ℕ}
    (hs : Stormy d n s) :
    ∃ acts s', Run (step d) Carries s acts s' ∧ Stormy d (n + 1) s' := by
  obtain ⟨⟨c, origin⟩, hlast, hc⟩ := hs.last
  let h : EventDelivery := stormDelivery i n c
  have hfresh : s.attempts (.trigger i) n = 0 := by
    rw [attempts, List.countP_eq_zero]
    intro e he hboth
    have hlt := hs.undelivered e he
    have heq := (of_decide_eq_true hboth).2
    omega
  have hmay : s.mayDeliver d h = true := by
    show (Option.any _ s.stored[n]? && decide (s.attempts (.trigger i) n < _)) =
      true
    rw [hlast, hfresh, Option.any_some, Bool.and_eq_true]
    refine ⟨decide_eq_true ?_, by decide⟩
    show (d.triggers[i]?).map _ = _
    rw [hi, Option.map_some, hsubject, hc]
  have hcarries : Carries s (.deliver h) :=
    ⟨(c, origin), hlast, rfl, rfl, rfl, rfl, rfl, rfl⟩
  obtain ⟨k, k', hpost, hpublish⟩ := handle_trigger (h := h) hi rfl
  let j := s.deliveries.started.length
  let left (p : HandlerProg Unit) : List (EventDelivery × HandlerProg Unit) :=
    s.deliveries.started ++ [(h, p)]
  let args := requestCompleted ⟨200, []⟩ h.occurredAt h.event.details.eventId
  let next := stormCall (n + 1) args
  have hdeliver : s.step d (.deliver h) =
      some ⟨s.stored, ⟨left (d.handle h), s.deliveries.log⟩⟩ := by
    rw [step, if_pos hmay]
    rfl
  have hposted : ∃ log, step d ⟨s.stored, ⟨left (d.handle h),
      s.deliveries.log⟩⟩ (.answer j obliging false next) =
        some ⟨s.stored, ⟨left (.call (.http (.publish args)) k'), log⟩⟩ := by
    rw [hpost]
    exact answer_last _ _ _ _ _ (List.append_nil _).symm hpublish
  obtain ⟨log, hposted⟩ := hposted
  have hpublished : ∃ log', step d ⟨s.stored,
      ⟨left (.call (.http (.publish args)) k'), log⟩⟩
        (.answer j obliging false next) =
          some ⟨s.stored ++ [(next, some j)], ⟨left (k' (.ok ())), log'⟩⟩ :=
    answer_last _ _ _ _ _ rfl rfl
  obtain ⟨log', hpublished⟩ := hpublished
  refine ⟨[.deliver h, .answer j obliging false next,
    .answer j obliging false next], _, .cons hcarries hdeliver
    (.cons obliging_own hposted (.cons obliging_own hpublished (.nil _))), ?_⟩
  refine ⟨?_, ?_, ?_, ?_⟩
  · rw [List.length_append, hs.length]
    rfl
  · show List.countP _ (_ ++ _) = 1
    rw [List.countP_append]
    exact hs.outside
  · refine ⟨(next, some j), ?_, rfl⟩
    rw [← hs.length]
    exact List.getElem?_concat_length
  · intro e he
    rcases List.mem_append.mp he with he | he
    · have hlt := hs.undelivered e he
      omega
    · rw [List.mem_singleton.mp he]
      exact Nat.lt_succ_self n

/-- One message from outside, and any number of messages. -/
theorem stormy {i : ℕ} {self : TriggerHandler}
    (hi : d.triggers[i]? = some self)
    (hsubject : self.subject = "events.http.RequestCompleted") (n : ℕ) :
    ∃ acts s, Reached d acts s ∧ Stormy d n s := by
  induction n with
  | zero =>
      let first := stormCall 0 (requestCompleted ⟨200, []⟩ "" "")
      refine ⟨[.publish first], _, .cons trivial rfl (.nil _), rfl, rfl,
        ⟨(first, none), rfl, rfl⟩, ?_⟩
      intro e he
      cases he
  | succ n ih =>
      obtain ⟨acts, s, hrun, hs⟩ := ih
      obtain ⟨acts', s', hrun', hs'⟩ := stormy_succ hi hsubject hs
      exact ⟨acts ++ acts', s', hrun.append hrun', hs'⟩

/-- Over all runs, what is stored is bounded by a multiple of what comes from
outside exactly if no trigger listens to what triggers publish. -/
theorem bounded_iff (d : Deployment) :
    (∃ factor, ∀ acts s, Reached d acts s →
      s.stored.length ≤ factor * s.fromOutside) ↔ Calm d := by
  constructor
  · intro h t ht hsubject
    obtain ⟨factor, hbound⟩ := h
    obtain ⟨i, hi⟩ := List.mem_iff_getElem?.mp ht
    obtain ⟨acts, s, hrun, hs⟩ := stormy hi hsubject factor
    have hle := hbound acts s hrun
    rw [hs.length, hs.outside] at hle
    omega
  · intro hcalm
    exact ⟨gain d.triggers.length, fun acts s hrun =>
      (sound_of_reached hrun).length_stored_le hcalm⟩

end EventBus

end JetCore
