import JetCore.Proofs.RoundTrip

/-!
# One table of message ids for all subjects

A sequence of `publish` calls by any clients, into a stream that starts empty.
`Honoured` is what every caller expects: its own envelope is stored on its own
subject, or it is told the event id of an earlier publish of the same message
on the same subject, or the call raises and nothing was sent.

JetStream's table of recent message ids belongs to the stream, and the stream
holds every subject. `publish` passes the caller's key on unchanged, so a key
that is fresh on its subject may be taken on another one, and then the call
returns normally with the other message's id while its own envelope is gone.
`honoured_iff` says that this is the only way for a call to go wrong.

What makes the converse work is that each stored message is some earlier call's
envelope, under an event id of that call's own (`Stored`).
-/

namespace JetCore

open Lib

namespace Call

variable (P : Primitives) (w : Pydantic) (c : Call)

def Stores (world : World) : Prop :=
  ∃ e, c.event P = .ok e ∧
    (c.run P w world).1 = .ok e.event.eventDetails.eventId ∧
    (c.run P w world).2.stream.messages = world.stream.messages ++
      [⟨c.args.subject, e.toWire w, c.args.msgId, c.now⟩]

def Repeats (world : World) : Prop :=
  ∃ m ∈ (c.run P w world).2.stream.messages, m.subject = c.args.subject ∧
    m.msgId = c.args.msgId ∧ ∃ drawn e, Event.fromWire w drawn m.data = .ok e ∧
      (c.run P w world).1 = .ok e.event.eventDetails.eventId

def Refused (world : World) : Prop :=
  ¬ c.Sent P ∧ ∃ e, (c.run P w world).1 = .error e

def Honoured (world : World) : Prop :=
  c.Stores P w world ∨ c.Repeats P w world ∨ c.Refused P w world

end Call

variable {P : Primitives} {w : Pydantic} {c : Call} {world : World}

/-! ## One call -/

theorem run_refused (h : ¬ c.Sent P) : c.Refused P w world ∧
    (c.run P w world).2.stream = world.stream := by
  cases hevent : c.event P with
  | error e =>
      have hrun : ∃ log, c.run P w world =
          (.error e, { world with log := log }) := by
        rw [Call.event] at hevent
        simp only [Call.run, BusClient.publish, Bus.bind_apply, Bus.warnIf,
          Bus.act, Bus.of, hevent]
        exact ⟨_, rfl⟩
      obtain ⟨log, hlog⟩ := hrun
      exact ⟨⟨h, e, by rw [hlog]⟩, by rw [hlog]⟩
  | ok e =>
      have hcap : captured c.args.subject = false :=
        Bool.eq_false_iff.mpr fun hcap => h ⟨hcap, e, hevent⟩
      have hrun : ∃ log, c.run P w world =
          (.error .noStreamResponseError, { world with log := log }) := by
        rw [Call.event] at hevent
        simp only [Call.run, BusClient.publish, Bus.bind_apply, Bus.warnIf,
          Bus.act, Bus.of, hevent, jsPublish, hcap]
        exact ⟨_, rfl⟩
      obtain ⟨log, hlog⟩ := hrun
      exact ⟨⟨h, _, by rw [hlog]⟩, by rw [hlog]⟩

theorem run_stored {e : Event} (hcap : captured c.args.subject = true)
    (hevent : c.event P = .ok e)
    (hdup : world.stream.duplicateOf c.now c.args.msgId = none) :
    c.Stores P w world ∧ (c.run P w world).2.stream = { world.stream with
      messages := world.stream.messages ++
        [⟨c.args.subject, e.toWire w, c.args.msgId, c.now⟩] } := by
  obtain ⟨log, hlog⟩ := publish_of_not_duplicate (w := w) hevent hcap hdup
  rw [← Call.run] at hlog
  exact ⟨⟨e, hevent, by rw [hlog], by rw [hlog]⟩, by rw [hlog]⟩

/-- On the duplicate path the answer is the original's id. -/
theorem run_duplicate (hw : w.Faithful) (hsent : c.Sent P) {m : StoredMsg}
    {i : ℕ} (hdup : world.stream.duplicateOf c.now c.args.msgId = some (m, i))
    {original : Event} (hdata : m.data = original.toWire w) :
    ∃ log, c.run P w world = (.ok original.event.eventDetails.eventId,
      { world with log := log }) := by
  obtain ⟨hcap, e, hevent⟩ := hsent
  have hstored := (Stream.duplicateOf_mem hdup).1
  have hvalue : entryValue m.data = some (original.toWire w) := by
    rw [hdata, entryValue, if_neg (hw.nonempty original)]
  rw [Call.event] at hevent
  simp only [Call.run, BusClient.publish, Bus.bind_apply, Bus.warnIf, Bus.act,
    Bus.of, hevent, jsPublish, hcap, if_true, Stream.publish, hdup, jsGetMsg,
    Stream.getMsg, Nat.add_sub_cancel, hstored, hvalue,
    Event.fromWire_toWire hw]
  exact ⟨_, rfl⟩

/-! ## What the stream holds -/

/-- The stored messages are envelopes, whose ids are among `ids` in order. -/
def Stored (w : Pydantic) (world : World) (ids : List String) : Prop :=
  ∃ events : List Event,
    world.stream.messages.map StoredMsg.data = events.map (Event.toWire w) ∧
    (events.map fun e => e.event.eventDetails.eventId).Sublist ids

theorem Stored.event {ids : List String} (h : Stored w world ids)
    {m : StoredMsg} {i : ℕ} (hm : world.stream.messages[i]? = some m) :
    ∃ e : Event, m.data = e.toWire w ∧
      e.event.eventDetails.eventId ∈ ids := by
  obtain ⟨events, hdata, hids⟩ := h
  have hget := congrArg (·[i]?) hdata
  simp only [List.getElem?_map, hm, Option.map_some] at hget
  obtain ⟨e, he, heq⟩ := Option.map_eq_some_iff.mp hget.symm
  exact ⟨e, heq.symm, hids.subset
    (List.mem_map_of_mem (List.mem_of_getElem? he))⟩

/-- A stored message is known by its event's id. -/
theorem Stored.position_unique (hw : w.Faithful) {ids : List String}
    (h : Stored w world ids) (hids : ids.Nodup) {m m' : StoredMsg} {i j : ℕ}
    (hm : world.stream.messages[i]? = some m)
    (hm' : world.stream.messages[j]? = some m') {e e' : Event}
    (he : m.data = e.toWire w) (he' : m'.data = e'.toWire w)
    (hid : e.event.eventDetails.eventId = e'.event.eventDetails.eventId) :
    m = m' := by
  obtain ⟨events, hdata, hsub⟩ := h
  have hat : ∀ {k : ℕ} {n : StoredMsg} {f : Event},
      world.stream.messages[k]? = some n → n.data = f.toWire w →
      events[k]? = some f := by
    intro k n f hn hf
    have hget := congrArg (·[k]?) hdata
    simp only [List.getElem?_map, hn, Option.map_some, hf] at hget
    obtain ⟨g, hg, heq⟩ := Option.map_eq_some_iff.mp hget.symm
    rw [hg, Event.toWire_injective hw heq]
  have hnodup := hids.sublist hsub
  have hi := hat hm he
  have hj := hat hm' he'
  have hlen : i < (events.map fun e => e.event.eventDetails.eventId).length := by
    rw [List.length_map]
    exact (List.getElem?_eq_some_iff.mp hi).1
  have hij : i = j := (List.getElem?_inj hlen hnodup).mp (by
    rw [List.getElem?_map, List.getElem?_map, hi, hj]
    exact congrArg some hid)
  subst hij
  exact Option.some.inj (hm.symm.trans hm')

theorem event_eventId {e : Event} (h : c.event P = .ok e) :
    e.event.eventDetails.eventId = c.eventId := by
  obtain ⟨_, _, _, -, -, -, rfl⟩ := buildEvent_eq_ok.mp h
  rfl

theorem Stored.run (hw : w.Faithful) {ids : List String}
    (h : Stored w world ids) :
    Stored w (c.run P w world).2 (ids ++ [c.eventId]) := by
  obtain ⟨events, hdata, hids⟩ := h
  have hkeep : ∀ {world' : World}, world'.stream = world.stream →
      Stored w world' (ids ++ [c.eventId]) := by
    intro world' hs
    exact ⟨events, by rw [hs, hdata], hids.trans (List.sublist_append_left _ _)⟩
  by_cases hsent : c.Sent P
  · cases hdup : world.stream.duplicateOf c.now c.args.msgId with
    | some found =>
        obtain ⟨m, i⟩ := found
        obtain ⟨original, horiginal, -⟩ := Stored.event ⟨events, hdata, hids⟩
          (Stream.duplicateOf_mem hdup).1
        obtain ⟨log, hlog⟩ := run_duplicate hw hsent hdup horiginal
        exact hkeep (by rw [hlog])
    | none =>
        obtain ⟨hcap, e, hevent⟩ := hsent
        have hstream := (run_stored (w := w) hcap hevent hdup).2
        refine ⟨events ++ [e], ?_, ?_⟩
        · rw [hstream]
          simp only [List.map_append, hdata, List.map_cons, List.map_nil]
        · rw [List.map_append]
          refine hids.append ?_
          rw [List.map_cons, List.map_nil, event_eventId hevent]
  · exact hkeep (run_refused hsent).2

theorem Stored.worldAfter (hw : w.Faithful) {calls : List Call} :
    ∀ {world : World} {ids : List String}, Stored w world ids →
      Stored w (JetCore.worldAfter P w world calls)
        (ids ++ calls.map Call.eventId) := by
  induction calls with
  | nil =>
      intro world ids h
      rw [List.map_nil, List.append_nil]
      exact h
  | cons c rest ih =>
      intro world ids h
      have hrest := ih (h.run (c := c) (P := P) hw)
      rw [List.append_assoc] at hrest
      exact hrest

/-! ## Who is honoured -/

/-- One call, in a world where `Stored` holds. -/
theorem call_honoured_iff (hw : w.Faithful) {ids : List String}
    (hstored : Stored w world ids) (hids : ids.Nodup) :
    c.Honoured P w world ↔ (c.Sent P → ∀ m i,
      world.stream.duplicateOf c.now c.args.msgId = some (m, i) →
      m.subject = c.args.subject) := by
  by_cases hsent : c.Sent P
  case neg =>
    exact ⟨fun _ h => absurd h hsent, fun _ => .inr (.inr (run_refused hsent).1)⟩
  cases hdup : world.stream.duplicateOf c.now c.args.msgId with
  | none =>
      obtain ⟨hcap, e, hevent⟩ := hsent
      refine ⟨fun _ _ _ _ h => ?_,
        fun _ => .inl (run_stored hcap hevent hdup).1⟩
      cases h
  | some found =>
      obtain ⟨m, i⟩ := found
      obtain ⟨hm, -, hkey, -⟩ := Stream.duplicateOf_mem hdup
      obtain ⟨original, horiginal, -⟩ := hstored.event hm
      obtain ⟨log, hlog⟩ := run_duplicate hw hsent hdup horiginal
      constructor
      · rintro (⟨e, -, -, hmsgs⟩ | ⟨m', hm', hsubj, hkey', drawn, e', hread,
          hans⟩ | ⟨hno, -⟩) - m₀ i₀ heq
        · rw [hlog] at hmsgs
          exact absurd (congrArg List.length hmsgs) (by simp)
        · cases heq
          rw [hlog] at hm' hans
          obtain ⟨j, hj⟩ := List.getElem?_of_mem hm'
          obtain ⟨e, he, -⟩ := hstored.event hj
          rw [he, Event.fromWire_toWire hw] at hread
          obtain rfl := Except.ok.inj hread
          rw [hstored.position_unique hw hids hm hj horiginal he
            (Except.ok.inj hans)]
          exact hsubj
        · exact absurd hsent hno
      · intro h
        refine .inr (.inl ⟨m, ?_, h hsent m i rfl, hkey, ⟨"", 0⟩, original, ?_,
          ?_⟩)
        · rw [hlog]
          exact List.mem_of_getElem? hm
        · rw [horiginal, Event.fromWire_toWire hw]
        · rw [hlog]

/-- Over every sequence of calls that draw distinct event ids: each of them is
honoured if and only if none that reaches the stream finds its message id
taken, within the window, by a message on another subject. -/
theorem honoured_iff (hw : w.Faithful) {calls : List Call}
    (hids : (calls.map Call.eventId).Nodup) (duplicateWindow : ℕ) :
    (∀ before c later, calls = before ++ c :: later →
      c.Honoured P w (worldAfter P w (.empty duplicateWindow) before)) ↔
    ∀ before c later, calls = before ++ c :: later → c.Sent P → ∀ m i,
      (worldAfter P w (.empty duplicateWindow) before).stream.duplicateOf
        c.now c.args.msgId = some (m, i) → m.subject = c.args.subject := by
  refine forall_congr' fun before => forall_congr' fun c =>
    forall_congr' fun later => forall_congr' fun hsplit => ?_
  have hstored : Stored w (worldAfter P w (.empty duplicateWindow) before)
      (before.map Call.eventId) :=
    Stored.worldAfter hw (show Stored w _ [] from
      ⟨[], rfl, List.nil_sublist _⟩)
  rw [hsplit, List.map_append] at hids
  exact call_honoured_iff hw hstored (List.nodup_append.mp hids).1

/-- The order under its key once more, a second later, with what another call
draws. -/
def retriedCall (key : Option String) : Call :=
  { Sample.orderCall key with
    draws := { Sample.draws with
      built := ⟨"019b76da-ab91-7000-8000-000000000003", Sample.newYear⟩ }
    now := 1000000000 }

theorem orderCall_sent (key : Option String) :
    (Sample.orderCall key).Sent Sample.primitives := by
  have hcap : captured "events.orders.OrderCreated" = true := by decide
  exact ⟨hcap, sample_builds _ _⟩

/-- Under the same key the second call is honoured after the first: it is taken
for a duplicate of it. -/
theorem honoured_iff_retried :
    (retriedCall (some "key-1")).Honoured Sample.primitives Sample.text
      (worldAfter Sample.primitives Sample.text (.empty 120000000000)
        [Sample.orderCall (some "key-1")]) := by
  have hids : ([Sample.orderCall (some "key-1"),
      retriedCall (some "key-1")].map Call.eventId).Nodup := by decide
  refine (honoured_iff Sample.faithful hids _).mpr ?_
    [Sample.orderCall (some "key-1")] _ [] rfl
  intro before c later hsplit _ m i hdup
  obtain ⟨hget, -⟩ := Stream.duplicateOf_mem hdup
  cases before with
  | nil => cases hget
  | cons first rest =>
      obtain ⟨rfl, hrest⟩ := List.cons.inj hsplit
      cases rest with
      | nil =>
          obtain ⟨rfl, -⟩ := List.cons.inj hrest
          obtain ⟨hcap, e, he⟩ := orderCall_sent (some "key-1")
          have hfree : (World.empty 120000000000).stream.duplicateOf
              (Sample.orderCall (some "key-1")).now (some "key-1") = none := by
            rw [Stream.duplicateOf_eq_none]
            exact fun m hm => by cases hm
          have hstream :=
            (run_stored (w := Sample.text) hcap he hfree).2
          rw [worldAfter, List.foldl_cons, List.foldl_nil, hstream] at hget
          rw [List.mem_singleton.mp (List.mem_of_getElem? hget)]
          rfl
      | cons second rest =>
          have hlength := congrArg List.length hrest
          simp at hlength

/-! ## One key at two front doors -/

/-- A webhook's body under a caller's key a second later, as
`receive_webhook` publishes it. -/
def webhookCall (key : Option String) : Call where
  client := Sample.client
  recipients := Sample.recipients
  draws := { Sample.draws with
    built := ⟨"019b76da-ab91-7000-8000-000000000003", Sample.newYear⟩ }
  now := 1000000000
  args := {
    subject := "events.files.FileWriteRequested"
    payload := Sample.ale.payload
    eventType := "FileWriteRequested"
    msgId := key }

/-- Whatever is published second under a key, on another subject and within
the window, is lost without an error. -/
theorem second_not_honoured (hw : w.Faithful) {first second : Call}
    {duplicateWindow : ℕ} (hfirst : first.Sent P) (hsecond : second.Sent P)
    (hkey : first.args.msgId.isSome)
    (hsame : first.args.msgId = second.args.msgId)
    (hnow : second.now < first.now + duplicateWindow)
    (hsubject : first.args.subject ≠ second.args.subject) :
    ¬ second.Honoured P w
      (worldAfter P w (.empty duplicateWindow) [first]) := by
  obtain ⟨hcap, e, he⟩ := hfirst
  have hfree : (World.empty duplicateWindow).stream.duplicateOf first.now
      first.args.msgId = none := by
    rw [Stream.duplicateOf_eq_none]
    intro m hm
    cases hm
  have hstream := (run_stored (w := w) hcap he hfree).2
  have hstored : Stored w (worldAfter P w (.empty duplicateWindow) [first])
      [first.eventId] :=
    Stored.worldAfter hw (show Stored w _ [] from
      ⟨[], rfl, List.nil_sublist _⟩)
  rw [call_honoured_iff hw hstored (List.nodup_singleton _)]
  intro h
  refine hsubject (h hsecond
    ⟨first.args.subject, e.toWire w, first.args.msgId, first.now⟩ 0 ?_)
  rw [worldAfter, List.foldl_cons, List.foldl_nil, hstream]
  simp [Stream.duplicateOf, World.empty, ← hsame, hkey, hnow]

theorem webhookCall_sent (key : Option String) :
    (webhookCall key).Sent Sample.primitives := by
  have hcap : captured "events.files.FileWriteRequested" = true := by decide
  exact ⟨hcap, sample_builds _ _⟩

/-- The order takes the key and the webhook's body is gone: the call returns
the order's event id. -/
theorem webhook_not_honoured :
    ¬ ∀ before c later,
      [Sample.orderCall (some "key-1"), webhookCall (some "key-1")] =
        before ++ c :: later →
      c.Honoured Sample.primitives Sample.text (worldAfter Sample.primitives
        Sample.text (.empty 120000000000) before) := by
  intro h
  have hwrong := h [Sample.orderCall (some "key-1")]
    (webhookCall (some "key-1")) [] rfl
  have hnow : (webhookCall (some "key-1")).now <
      (Sample.orderCall (some "key-1")).now + 120000000000 := by
    simp [webhookCall, Sample.orderCall]
  exact second_not_honoured Sample.faithful (orderCall_sent _)
    (webhookCall_sent _) rfl rfl hnow (by simp [Sample.orderCall, webhookCall,
      Sample.order]) hwrong

end JetCore
