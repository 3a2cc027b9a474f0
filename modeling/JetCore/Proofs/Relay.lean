import JetCore.Proofs.FilePayloads
import JetCore.Ref.WebhookSender

/-!
# One attempt and one ack for each event

Whatever comes back of a request, a status or no response, the event is acked
and the batch goes on. What comes of an event before there is a request is
another matter: its type and its id are the text of another adapter, they go
into headers, and a character over 127 raises `UnicodeEncodeError`, which is no
`httpx.HTTPError`. The event is neither posted nor acked, and neither are the
ones behind it. So the discipline holds of a batch exactly if all its header
values are ASCII (`relays_iff`).
-/

namespace JetCore

open Lib

/-- What is at the other end: the batch that is fetched, and for every request
the response it gets, or none. It may depend on all that was done before. -/
structure RelayPeers where
  fetched : List ReceivedEvent
  response : List RelayAct → Option HttpResponse

def RelayPeers.answer (peers : RelayPeers) :
    (a : RelayAct) → List RelayAct → Except Exn a.Resp × List RelayAct
  | .fetch n b, made => (.ok peers.fetched, made ++ [.fetch n b])
  | .send u c h, made =>
      ((peers.response made).elim (.error .requestError) .ok,
        made ++ [.send u c h])
  | .log line, made => (.ok (), made ++ [.log line])
  | .ack msg, made => (.ok (), made ++ [.ack msg])

def RelayAct.isLog : RelayAct → Bool
  | .log _ => true
  | _ => false

namespace RelayHandler

variable (self : RelayHandler) (peers : RelayPeers)

/-- `_handle` returns, and but for log lines it has sent the request once and
then acked once. -/
def Handled (event : ReceivedEvent) : Prop :=
  ∀ made, ∃ calls,
    (self.handle event).exec peers.answer made = (.ok (), made ++ calls) ∧
    calls.filter (!·.isLog) = [self.request event, .ack event.msg]

/-- `run_once` returns, with every event of the batch handled. -/
def Relays (durableName : String) (batch : ℕ) : Prop :=
  ∃ calls, (self.runOnce durableName batch).exec peers.answer [] =
      (.ok peers.fetched.length, calls) ∧
    calls.filter (!·.isLog) = .fetch durableName batch ::
      peers.fetched.flatMap fun e => [self.request e, .ack e.msg]

/-- Every header value of the event's request is ASCII. -/
def Sendable (event : ReceivedEvent) : Prop :=
  isAscii event.details.eventType = true ∧
    isAscii event.details.eventId = true ∧
    ∀ s, self.outboundSecret = some s → isAscii s = true

variable {self} {peers} {event : ReceivedEvent}

/-! ## One event -/

theorem encodeHeaders_ok (h : self.Sendable event) :
    encodeHeaders (self.headers event) = .ok () := by
  obtain ⟨htype, hid, hsecret⟩ := h
  refine if_pos (List.all_eq_true.mpr fun x hx => ?_)
  simp only [headers, List.mem_append, List.mem_cons, List.not_mem_nil,
    or_false, List.mem_map, Option.mem_toList] at hx
  rcases hx with (rfl | rfl) | ⟨s, hs, rfl⟩
  · exact htype
  · exact hid
  · exact hsecret s hs

theorem encodeHeaders_error (h : ¬ self.Sendable event) :
    encodeHeaders (self.headers event) = .error .unicodeEncodeError := by
  refine if_neg fun hall => h ?_
  rw [List.all_eq_true] at hall
  refine ⟨hall ("X-Event-Type", _) (by simp [headers]),
    hall ("X-Event-Id", _) (by simp [headers]), fun s hs => ?_⟩
  exact hall ("X-Webhook-Secret", s) (by simp [headers, hs])

/-- What is logged of a request that gets this response. -/
def logged (self : RelayHandler) (event : ReceivedEvent)
    (response : Option HttpResponse) : List RelayAct :=
  if response.any HttpResponse.isSuccess then []
  else [.log (.failed event.details.eventId self.subject self.targetUrl)]

/-- The `try` block of an event that can be sent. -/
theorem post_exec (h : self.Sendable event) (made : List RelayAct) :
    (self.post event).exec peers.answer made =
      ((peers.response made).elim (.error .requestError) raiseForStatus,
        made ++ [self.request event]) := by
  rw [post, encodeHeaders_ok h]
  show Prog.exec _ (RelayAct.call
    (.send self.targetUrl event.payload (self.headers event)) >>= _) _ = _
  rw [Prog.exec_bind, RelayAct.call, Prog.exec_act]
  show Prog.resume _ _ ((peers.response made).elim _ _, _) = _
  cases peers.response made with
  | none => rfl
  | some response =>
      exact Prog.exec_ofExcept _ (raiseForStatus response) _

theorem handle_exec (h : self.Sendable event) (made : List RelayAct) :
    (self.handle event).exec peers.answer made =
      (.ok (), made ++ ([self.request event] ++
        self.logged event (peers.response made) ++ [.ack event.msg])) := by
  rw [handle, Prog.exec_bind, Prog.exec_attempt, post_exec h, Prog.resume_ok,
    logged]
  cases peers.response made with
  | none =>
      rw [← List.append_assoc, ← List.append_assoc]
      rfl
  | some response =>
      rw [← List.append_assoc, ← List.append_assoc, Option.any_some,
        Option.elim_some, raiseForStatus]
      split
      · rw [List.append_nil]
        rfl
      · rfl

theorem handle_exec_raises (h : ¬ self.Sendable event)
    (made : List RelayAct) :
    (self.handle event).exec peers.answer made =
      (.error .unicodeEncodeError, made) := by
  rw [handle, Prog.exec_bind, Prog.exec_attempt, post, encodeHeaders_error h]
  rfl

variable (peers) in
theorem handled_of_sendable (h : self.Sendable event) :
    self.Handled peers event := by
  intro made
  refine ⟨_, handle_exec h made, ?_⟩
  rw [logged]
  split
  · rfl
  · rfl

theorem handled_iff (self : RelayHandler) (peers : RelayPeers)
    (event : ReceivedEvent) :
    self.Handled peers event ↔ self.Sendable event := by
  refine ⟨fun h => ?_, handled_of_sendable peers⟩
  by_contra hsend
  obtain ⟨calls, hcalls, -⟩ := h []
  rw [handle_exec_raises hsend] at hcalls
  cases hcalls

/-! ## The batch -/

variable (peers) in
theorem each_handled {events : List ReceivedEvent}
    (h : ∀ e ∈ events, self.Sendable e) (made : List RelayAct) :
    ∃ us calls, (Prog.each self.handle events).exec peers.answer made =
        (.ok us, made ++ calls) ∧
      calls.filter (!·.isLog) =
        events.flatMap fun e => [self.request e, .ack e.msg] := by
  induction events generalizing made with
  | nil => exact ⟨[], [], by rw [List.append_nil]; rfl, rfl⟩
  | cons e rest ih =>
      obtain ⟨calls, hcalls, hfilter⟩ :=
        handled_of_sendable peers (h e List.mem_cons_self) made
      obtain ⟨us, more, hmore, hrest⟩ :=
        ih (fun e' he' => h e' (List.mem_cons_of_mem e he')) (made ++ calls)
      refine ⟨() :: us, calls ++ more, ?_, ?_⟩
      · rw [Prog.each, Prog.exec_bind, hcalls, Prog.resume_ok, Prog.exec_bind,
          hmore, Prog.resume_ok, Prog.exec_pure, List.append_assoc]
      · rw [List.filter_append, hfilter, hrest, List.flatMap_cons]

variable (peers) in
/-- The first event that cannot be sent ends the loop. -/
theorem each_raises {events : List ReceivedEvent}
    (h : ¬ ∀ e ∈ events, self.Sendable e) (made : List RelayAct) :
    ∃ t, (Prog.each self.handle events).exec peers.answer made =
      (.error .unicodeEncodeError, t) := by
  induction events generalizing made with
  | nil => exact absurd (by simp) h
  | cons e rest ih =>
      rw [Prog.each, Prog.exec_bind]
      by_cases he : self.Sendable e
      · have hrest : ¬ ∀ e' ∈ rest, self.Sendable e' :=
          fun hall => h (List.forall_mem_cons.mpr ⟨he, hall⟩)
        rw [handle_exec he, Prog.resume_ok, Prog.exec_bind]
        obtain ⟨t, ht⟩ := ih hrest (made ++ ([self.request e] ++
          self.logged e (peers.response made) ++ [.ack e.msg]))
        rw [ht]
        exact ⟨t, rfl⟩
      · rw [handle_exec_raises he]
        exact ⟨made, rfl⟩

theorem runOnce_exec (self : RelayHandler) (peers : RelayPeers)
    (durableName : String) (batch : ℕ) :
    (self.runOnce durableName batch).exec peers.answer [] =
      Prog.resume peers.answer
        (fun _ => pure peers.fetched.length)
        ((Prog.each self.handle peers.fetched).exec peers.answer
          [.fetch durableName batch]) := by
  rw [← Prog.exec_bind]
  rfl

theorem relays_of_sendable (h : ∀ e ∈ peers.fetched, self.Sendable e)
    (durableName : String) (batch : ℕ) :
    self.Relays peers durableName batch := by
  obtain ⟨us, calls, hcalls, hfilter⟩ :=
    each_handled peers h [.fetch durableName batch]
  refine ⟨[.fetch durableName batch] ++ calls, ?_, ?_⟩
  · rw [runOnce_exec, hcalls, Prog.resume_ok, Prog.exec_pure]
  · rw [List.filter_append, hfilter]
    rfl

/-- One attempt and one ack for an event, whatever comes back, exactly if its
header values are ASCII; and so for every event of a batch. -/
theorem relays_iff (self : RelayHandler) (peers : RelayPeers)
    (durableName : String) (batch : ℕ) :
    (∀ event, self.Handled peers event ↔ self.Sendable event) ∧
    (self.Relays peers durableName batch ↔
      ∀ e ∈ peers.fetched, self.Sendable e) := by
  refine ⟨handled_iff self peers, fun h => ?_, fun h =>
    relays_of_sendable h durableName batch⟩
  by_contra hsend
  obtain ⟨calls, hcalls, -⟩ := h
  obtain ⟨t, ht⟩ := each_raises peers hsend [.fetch durableName batch]
  rw [runOnce_exec, ht] at hcalls
  cases hcalls

end RelayHandler

namespace Sample

def relay : RelayHandler :=
  ⟨"events.orders.OrderCreated", "http://example.test/hook", none⟩

def relayedEvent (eventType : String) : ReceivedEvent :=
  fileMessage eventType (ascii "order")

/-- An end that answers 200, and a batch whose first event is of a type that
is spelled with an umlaut. -/
def umlautBatch : RelayPeers :=
  ⟨[relayedEvent "AuftragGeändert", relayedEvent "OrderCreated"],
    fun _ => some ⟨200, []⟩⟩

end Sample

/-- Neither event is posted and neither is acked. -/
theorem umlautBatch_stops :
    ¬ Sample.relay.Relays Sample.umlautBatch "relay" 10 ∧
      (Sample.relay.runOnce "relay" 10).exec Sample.umlautBatch.answer [] =
        (.error .unicodeEncodeError, [.fetch "relay" 10]) := by
  have hrun : (Sample.relay.runOnce "relay" 10).exec
      Sample.umlautBatch.answer [] =
        (.error .unicodeEncodeError, [.fetch "relay" 10]) := by
    rfl
  refine ⟨fun ⟨calls, hcalls, _⟩ => ?_, hrun⟩
  rw [hrun] at hcalls
  cases hcalls

end JetCore
