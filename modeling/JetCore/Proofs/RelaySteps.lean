import JetCore.Spec.RelayProcess

/-!
# The steps of the restarted sender

What a call of `_handle` does to the loop it is made in is a matter of how far
the handler is with its event (`Stage`): its request goes out first, and what is
left after it neither posts again nor raises, unless a call does. So each
delivery is good for one request at most, a process only has in hand what is
encrypted for it, and an event that raises does so once and for all (`Sound`).
-/

namespace JetCore

open Lib

/-! ## How far `_handle` is -/

namespace RelayHandler

/-- What follows the request: the `except` block and the ack. -/
def finish (self : RelayHandler) (event : ReceivedEvent)
    (posted : Except Exn Unit) : RelayProg Unit := do
  self.exceptHttpError event posted
  RelayAct.call (.ack event.msg)

/-- What is left of `_handle` with an event that can be sent, before its
request goes out and after. -/
inductive Stage (self : RelayHandler) (event : ReceivedEvent) :
    Bool → RelayProg Unit → Prop
  | sending (h : self.Sendable event) : Stage self event false
      (.call (self.request event) fun r =>
        self.finish event (r.bind raiseForStatus))
  | logging (line : RelayLogLine) : Stage self event true
      (.call (.log line) fun r =>
        (Prog.ofExcept r).bind fun () => RelayAct.call (.ack event.msg))
  | acking : Stage self event true (.call (.ack event.msg) Prog.ofExcept)

variable {self : RelayHandler} {event : ReceivedEvent}

theorem handle_eq (h : self.Sendable event) :
    self.handle event = .call (self.request event) fun r =>
      self.finish event (r.bind raiseForStatus) := by
  rw [handle, post, encodeHeaders_ok h]
  refine congrArg (Prog.call (self.request event)) (funext fun r => ?_)
  cases r with
  | error e => rfl
  | ok response =>
      show Prog.bind (Prog.attempt (Prog.ofExcept (raiseForStatus response))) _
        = self.finish event (raiseForStatus response)
      cases raiseForStatus response with
      | error e => rfl
      | ok u => rfl

theorem handle_eq_raise (h : ¬ self.Sendable event) :
    self.handle event = .raise .unicodeEncodeError := by
  rw [handle, post, encodeHeaders_error h]
  rfl

theorem finish_cases (posted : Except Exn Unit) :
    (∃ e, self.finish event posted = .raise e) ∨
      Stage self event true (self.finish event posted) := by
  cases posted with
  | ok u => exact .inr .acking
  | error e =>
      by_cases he : isHttpError e = true
      · refine .inr ?_
        rw [finish, exceptHttpError, if_pos he]
        exact .logging _
      · refine .inl ⟨e, ?_⟩
        rw [finish, exceptHttpError, if_neg he]
        rfl

/-- What comes of a call, whatever it is answered. -/
theorem Stage.answer {sent : Bool} {a : RelayAct}
    {k : Except Exn a.Resp → RelayProg Unit}
    (h : Stage self event sent (.call a k)) (r : Except Exn a.Resp) :
    a.isSend = !sent ∧ (k r = .pure () ∨ (∃ e, k r = .raise e) ∨
      Stage self event true (k r)) := by
  cases h with
  | sending h => exact ⟨rfl, .inr (finish_cases _)⟩
  | logging line =>
      refine ⟨rfl, .inr ?_⟩
      cases r with
      | error e => exact .inl ⟨e, rfl⟩
      | ok u => exact .inr .acking
  | acking =>
      refine ⟨rfl, ?_⟩
      cases r with
      | error e => exact .inr (.inl ⟨e, rfl⟩)
      | ok u => exact .inl rfl

theorem Stage.call {sent : Bool} {p : RelayProg Unit}
    (h : Stage self event sent p) : ∃ a k, p = .call a k := by
  cases h with
  | sending h => exact ⟨_, _, rfl⟩
  | logging line => exact ⟨_, _, rfl⟩
  | acking => exact ⟨_, _, rfl⟩

theorem Stage.sendable {p : RelayProg Unit} (h : Stage self event false p) :
    self.Sendable event := by
  cases h with
  | sending h => exact h

theorem raiseForStatus_cases (response : HttpResponse) :
    raiseForStatus response = .ok () ∨
      ∃ e, raiseForStatus response = .error e ∧ isHttpError e = true := by
  rw [raiseForStatus]
  split
  · exact .inl rfl
  · exact .inr ⟨_, rfl, rfl⟩

/-- No exception comes of calls that do not fail. -/
theorem Stage.answers_ne {sent : Bool} {a : RelayAct}
    {k : Except Exn a.Resp → RelayProg Unit}
    (h : Stage self event sent (.call a k)) (response : Option HttpResponse)
    (e : Exn) : k (RelayProcess.answers response a) ≠ .raise e := by
  cases h with
  | sending h =>
      have hposted : ∀ p : Except Exn Unit,
          (p = .ok () ∨ ∃ e, p = .error e ∧ isHttpError e = true) →
            self.finish event p ≠ .raise e := by
        intro p hp
        rcases hp with rfl | ⟨e, rfl, he⟩
        · exact fun h => by cases h
        · rw [finish, exceptHttpError, if_pos he]
          exact fun h => by cases h
      refine hposted _ ?_
      cases response with
      | none => exact .inr ⟨.requestError, rfl, rfl⟩
      | some response => exact raiseForStatus_cases response
  | logging line => exact fun h => by cases h
  | acking => exact fun h => by cases h

end RelayHandler

namespace RelayProcess

variable {d : RelayDeployment} {s s' : RelayProcess}

/-! ## What the messages are -/

theorem message?_eq {m : Relayed} {self : RelayHandler} {x : Addressed} :
    s.message? d m = some (self, x) ↔ d.handlers[m.loop]? = some self ∧
      s.stored[m.position]? = some x ∧ x.event.msg.subject = self.subject := by
  simp only [message?, Option.bind_eq_bind, Option.bind_eq_some_iff]
  constructor
  · intro h
    obtain ⟨self', hself, x', hx, h⟩ := h
    split at h
    · next hsubject =>
        cases h
        exact ⟨hself, hx, hsubject⟩
    · cases h
  · intro h
    obtain ⟨hself, hx, hsubject⟩ := h
    exact ⟨self, hself, x, hx, if_pos hsubject⟩

theorem message?_congr (h : s'.stored = s.stored) (m : Relayed) :
    s'.message? d m = s.message? d m := by
  rw [message?, message?, h]

/-- What is published later changes nothing about a message. -/
theorem message?_append {m : Relayed} {y : RelayHandler × Addressed}
    (more : List Addressed) (h : s.message? d m = some y) :
    message? d { s with stored := s.stored ++ more } m = some y := by
  obtain ⟨hself, hx, hsubject⟩ := message?_eq.mp h
  obtain ⟨hlt, -⟩ := List.getElem?_eq_some_iff.mp hx
  exact message?_eq.mpr
    ⟨hself, (List.getElem?_append_left hlt).trans hx, hsubject⟩

theorem readable_iff {m : Relayed} : s.Readable d m ↔ ∃ self x,
    s.message? d m = some (self, x) ∧ s.up = true ∧
      x.reader = some s.process := by
  constructor
  · intro h
    obtain ⟨x, hx, hup, hreader⟩ := h
    obtain ⟨⟨self, x'⟩, hmessage, rfl⟩ := Option.map_eq_some_iff.mp hx
    exact ⟨self, x', hmessage, hup, hreader⟩
  · intro h
    obtain ⟨self, x, hmessage, hup, hreader⟩ := h
    exact ⟨x, Option.map_eq_some_iff.mpr ⟨_, hmessage, rfl⟩, hup, hreader⟩

theorem readable_congr (hstored : s'.stored = s.stored) (hup : s'.up = s.up)
    (hprocess : s'.process = s.process) (m : Relayed) :
    s'.Readable d m ↔ s.Readable d m := by
  rw [readable_iff, readable_iff, message?_congr hstored, hup, hprocess]

/-! ## What a step does -/

theorem setLoop_self (l : ℕ) (loop : RelayLoop) :
    (s.setLoop l loop).loops l = loop := by
  simp only [setLoop, Function.update_self]

theorem setLoop_of_ne {l l' : ℕ} (h : l' ≠ l) (loop : RelayLoop) :
    (s.setLoop l loop).loops l' = s.loops l' := by
  simp only [setLoop, Function.update_of_ne h]

@[simp] theorem record_stored (m : Relayed) (a : RelayAct) :
    (s.record m a).stored = s.stored := by
  cases a <;> rfl

@[simp] theorem record_process (m : Relayed) (a : RelayAct) :
    (s.record m a).process = s.process := by
  cases a <;> rfl

@[simp] theorem record_up (m : Relayed) (a : RelayAct) :
    (s.record m a).up = s.up := by
  cases a <;> rfl

@[simp] theorem record_loops (m : Relayed) (a : RelayAct) :
    (s.record m a).loops = s.loops := by
  cases a <;> rfl

@[simp] theorem record_delivered (m : Relayed) (a : RelayAct) :
    (s.record m a).delivered = s.delivered := by
  cases a <;> rfl

@[simp] theorem record_acked (m : Relayed) (a : RelayAct) :
    (s.record m a).acked = s.acked := by
  cases a <;> rfl

@[simp] theorem record_raised (m : Relayed) (a : RelayAct) :
    (s.record m a).raised = s.raised := by
  cases a <;> rfl

theorem record_posts (m : Relayed) (a : RelayAct) : (s.record m a).posts =
    if a.isSend then (s.process, m) :: s.posts else s.posts := by
  cases a <;> rfl

theorem record_acks (m : Relayed) (a : RelayAct) :
    s.acks ⊆ (s.record m a).acks := by
  cases a with
  | ack msg => exact List.subset_cons_self m s.acks
  | fetch n b => exact List.Subset.refl _
  | send u c hs => exact List.Subset.refl _
  | log line => exact List.Subset.refl _

theorem mem_record_acks {m m' : Relayed} {a : RelayAct}
    (h : m' ∈ (s.record m a).acks) :
    m' ∈ s.acks ∨ m' = m ∧ ∃ msg, a = .ack msg := by
  cases a with
  | ack msg =>
      rcases List.mem_cons.mp h with rfl | h
      · exact .inr ⟨rfl, msg, rfl⟩
      · exact .inl h
  | fetch n b => exact .inl h
  | send u c hs => exact .inl h
  | log line => exact .inl h

theorem answer_eq {l : ℕ} {r : (a : RelayAct) → Except Exn a.Resp}
    (h : s.answer l r = some s') :
    ∃ m a k, (s.loops l).current = some (m, .call a k) ∧
      s' = (s.record m a).setLoop l
        (RelayLoop.goOn (s.loops l).batch m (k (r a))) := by
  rw [answer] at h
  split at h
  · next m a k hcurrent =>
      cases h
      exact ⟨m, a, k, hcurrent, rfl⟩
  · cases h

theorem step_publish {event : ReceivedEvent} {reader : Option ℕ}
    (h : s.step d (.publish event reader) = some s') :
    (∀ p ∈ reader, p ≤ s.process) ∧
      s' = { s with stored := s.stored ++ [⟨event, reader⟩] } := by
  rw [step] at h
  split at h
  · next hreader => exact ⟨hreader, (Option.some.inj h).symm⟩
  · cases h

theorem step_fetch {l : ℕ} {deliveries : List (ℕ × Bool)}
    (h : s.step d (.fetch l deliveries) = some s') :
    s.MayFetch d l deliveries ∧
      s' = { s.setLoop l { batch := received l deliveries } with
        delivered := arrived l deliveries ++ s.delivered } := by
  rw [step] at h
  split at h
  · next hmay => exact ⟨hmay, (Option.some.inj h).symm⟩
  · cases h

theorem step_settle {m : Relayed} (h : s.step d (.settle m) = some s') :
    m ∈ s.acks ∧ s' = { s with acked := m :: s.acked } := by
  rw [step] at h
  split at h
  · next hm => exact ⟨hm, (Option.some.inj h).symm⟩
  · cases h

theorem step_exit (h : s.step d .exit = some s') :
    (∃ l, (s.loops l).ended = true) ∧ s' = s.stopped := by
  rw [step] at h
  split at h
  · next hended =>
      obtain ⟨l, -, hl⟩ := hended
      exact ⟨⟨l, hl⟩, (Option.some.inj h).symm⟩
  · cases h

theorem step_kill (h : s.step d .kill = some s') : s' = s.stopped := by
  rw [step] at h
  split at h
  · exact (Option.some.inj h).symm
  · cases h

theorem step_restart (h : s.step d .restart = some s') : s.up = false ∧
    s' = { s with up := true, process := s.process + 1 } := by
  rw [step] at h
  split at h
  · cases h
  · next hup => exact ⟨Bool.of_not_eq_true hup, (Option.some.inj h).symm⟩

/-- The loop comes to an event: its handler is where it starts, or it raises
there and then. -/
theorem step_handle {l : ℕ} (h : s.step d (.handle l) = some s') :
    ∃ m rest self x, (s.loops l).current = none ∧
      (s.loops l).batch = m :: rest ∧ s.message? d m = some (self, x) ∧
      (self.Sendable x.event ∧ s' = s.setLoop l
          { batch := rest, current := some (m, self.handle x.event) } ∨
        ¬ self.Sendable x.event ∧ s' = { s.setLoop l { ended := true } with
          raised := m :: s.raised }) := by
  rw [step] at h
  split at h
  · next m rest hcurrent hbatch =>
      obtain ⟨⟨self, x⟩, hmessage, rfl⟩ := Option.map_eq_some_iff.mp h
      refine ⟨m, rest, self, x, hcurrent, hbatch, hmessage, ?_⟩
      by_cases hsend : self.Sendable x.event
      · refine .inl ⟨hsend, ?_⟩
        simp only [RelayHandler.handle_eq hsend]
        rfl
      · refine .inr ⟨hsend, ?_⟩
        simp only [RelayHandler.handle_eq_raise hsend]
        rfl
  · cases h

theorem step_fail {l : ℕ} {e : Exn} (h : s.step d (.fail l e) = some s') :
    s.up = true ∧ (s.loops l).Idle ∧ l < d.handlers.length ∧
        s' = s.setLoop l { ended := true } ∨
      s.answer l (fun _ => .error e) = some s' := by
  rw [step] at h
  split at h
  · next hidle =>
      cases h
      exact .inl ⟨hidle.1, hidle.2.1, hidle.2.2, rfl⟩
  · exact .inr h

/-! ## The invariant -/

/-- What a loop has in hand is its own, and this process reads it. -/
structure InHand (d : RelayDeployment) (s : RelayProcess) (l : ℕ)
    (loop : RelayLoop) : Prop where
  batch : ∀ m ∈ loop.batch, m.loop = l ∧ s.Readable d m
  current : ∀ m p, loop.current = some (m, p) → m.loop = l ∧ s.up = true ∧
    ∃ self x sent, s.message? d m = some (self, x) ∧
      x.reader = some s.process ∧ self.Stage x.event sent p ∧
      (sent = true → m ∈ s.posts.map Prod.snd)
  ended : loop.ended = true → loop.current = none ∧ loop.batch = []

structure Sound (d : RelayDeployment) (s : RelayProcess) : Prop where
  hand : ∀ l, InHand d s l (s.loops l)
  down : s.up = false → s.loops = fun _ => {}
  /-- No message is for a key that is still to be drawn. -/
  readers : ∀ x ∈ s.stored, ∀ p ∈ x.reader, p ≤ s.process
  posts : ∀ e ∈ s.posts, ∃ self x, s.message? d e.2 = some (self, x) ∧
    x.reader = some e.1 ∧ self.Sendable x.event
  raised : ∀ m ∈ s.raised, s.Poison d m ∧
    (s.Readable d m → (s.loops m.loop).ended = true)
  once : s.raised.Nodup
  /-- A delivery is good for one request. -/
  accounted : ∀ m, s.posted m + (s.loops m.loop).unposted.count m ≤
    s.delivered.count m
  limited : ∀ m, s.delivered.count m ≤ maxDeliverAttempts
  acks : ∀ m ∈ s.acks, m ∈ s.posts.map Prod.snd
  acked : ∀ m ∈ s.acked, m ∈ s.acks

theorem inHand_none (l : ℕ) (b : Bool) : InHand d s l { ended := b } where
  batch := nofun
  current := nofun
  ended := fun _ => ⟨rfl, rfl⟩

theorem InHand.mono {l : ℕ} {loop : RelayLoop} (h : InHand d s l loop)
    (hmessage : ∀ m y, s.message? d m = some y → s'.message? d m = some y)
    (hup : s'.up = s.up) (hprocess : s'.process = s.process)
    (hposts : s.posts ⊆ s'.posts) : InHand d s' l loop where
  batch := by
    intro m hm
    obtain ⟨hloop, hread⟩ := h.batch m hm
    obtain ⟨self, x, hx, hu, hreader⟩ := readable_iff.mp hread
    exact ⟨hloop, readable_iff.mpr
      ⟨self, x, hmessage m _ hx, hup.trans hu, by rw [hprocess, hreader]⟩⟩
  current := by
    intro m p hp
    obtain ⟨hloop, hu, self, x, sent, hx, hreader, hstage, hposted⟩ :=
      h.current m p hp
    exact ⟨hloop, hup.trans hu, self, x, sent, hmessage m _ hx,
      by rw [hprocess, hreader], hstage, fun hp =>
        List.map_subset Prod.snd hposts (hposted hp)⟩
  ended := h.ended

/-- So is what it has not posted. -/
theorem InHand.unposted_mem {l : ℕ} {loop : RelayLoop} (h : InHand d s l loop)
    {m : Relayed} (hm : m ∈ loop.unposted) : m.loop = l ∧ s.Readable d m := by
  rcases List.mem_append.mp hm with hm | hm
  · rw [RelayLoop.sending] at hm
    split at hm
    · next m' a k hcurrent =>
        obtain ⟨hloop, hup, self, x, sent, hx, hreader, -⟩ :=
          h.current m' _ hcurrent
        have hmm : m = m' := by
          split at hm
          · exact List.mem_singleton.mp hm
          · cases hm
        subst hmm
        exact ⟨hloop, readable_iff.mpr ⟨self, x, hx, hup, hreader⟩⟩
    · cases hm
  · exact h.batch m hm

theorem sound_init : Sound d {} where
  hand := fun l => inHand_none l false
  down := fun _ => rfl
  readers := nofun
  posts := nofun
  raised := nofun
  once := List.nodup_nil
  accounted := fun _ => Nat.le_refl _
  limited := fun _ => Nat.zero_le _
  acks := nofun
  acked := nofun

theorem sound_publish (hs : s.Sound d) {event : ReceivedEvent}
    {reader : Option ℕ} (hreader : ∀ p ∈ reader, p ≤ s.process) :
    Sound d { s with stored := s.stored ++ [⟨event, reader⟩] } := by
  have hmessage : ∀ m y, s.message? d m = some y →
      message? d { s with stored := s.stored ++ [⟨event, reader⟩] } m =
        some y := fun m y hy => message?_append _ hy
  refine ⟨fun l => (hs.hand l).mono hmessage rfl rfl (List.Subset.refl _),
    hs.down, ?_, ?_, ?_, hs.once, hs.accounted, hs.limited, hs.acks, hs.acked⟩
  · intro x hx
    rcases List.mem_append.mp hx with hx | hx
    · exact hs.readers x hx
    · rw [List.mem_singleton.mp hx]
      exact hreader
  · intro e he
    obtain ⟨self, x, hx, hrest⟩ := hs.posts e he
    exact ⟨self, x, hmessage _ _ hx, hrest⟩
  · intro m hm
    obtain ⟨⟨self, x, hx, hsend⟩, hended⟩ := hs.raised m hm
    refine ⟨⟨self, x, hmessage _ _ hx, hsend⟩, fun hread => hended ?_⟩
    obtain ⟨self', x', hx', hup, hreader'⟩ := readable_iff.mp hread
    rw [hmessage _ _ hx] at hx'
    cases hx'
    exact readable_iff.mpr ⟨self, x, hx, hup, hreader'⟩

/-- The loops of a process that is over, or has just been started. -/
theorem sound_idle (hs : s.Sound d) (hstored : s'.stored = s.stored)
    (hposts : s'.posts = s.posts) (hdelivered : s'.delivered = s.delivered)
    (hacks : s'.acks = s.acks) (hacked : s'.acked = s.acked)
    (hraised : s'.raised = s.raised) (hloops : s'.loops = fun _ => {})
    (hprocess : s.process ≤ s'.process)
    (hread : ∀ m, ¬ s'.Readable d m) : s'.Sound d where
  hand := by
    intro l
    rw [hloops]
    exact inHand_none l false
  down := fun _ => hloops
  readers := by
    rw [hstored]
    exact fun x hx p hp => (hs.readers x hx p hp).trans hprocess
  posts := by
    rw [hposts]
    intro e he
    rw [message?_congr hstored]
    exact hs.posts e he
  raised := by
    rw [hraised]
    intro m hm
    obtain ⟨⟨self, x, hx, hsend⟩, -⟩ := hs.raised m hm
    exact ⟨⟨self, x, (message?_congr hstored m).trans hx, hsend⟩,
      fun h => absurd h (hread m)⟩
  once := hraised ▸ hs.once
  accounted := by
    intro m
    have hle := hs.accounted m
    rw [posted, hposts, hdelivered, hloops]
    exact (Nat.le_add_right _ _).trans hle
  limited := hdelivered ▸ hs.limited
  acks := by
    rw [hacks, hposts]
    exact hs.acks
  acked := by
    rw [hacked, hacks]
    exact hs.acked

theorem sound_stopped (hs : s.Sound d) : s.stopped.Sound d :=
  sound_idle hs rfl rfl rfl rfl rfl rfl rfl (Nat.le_refl _) fun m h => by
    obtain ⟨_, _, _, hup, _⟩ := readable_iff.mp h
    cases hup

/-- The new process reads nothing of what is there. -/
theorem restart_unreadable (hs : s.Sound d) (m : Relayed) :
    ¬ Readable d { s with up := true, process := s.process + 1 } m := by
  intro h
  obtain ⟨self, x, hx, -, hreader⟩ := readable_iff.mp h
  obtain ⟨-, hget, -⟩ := message?_eq.mp hx
  have hle := hs.readers x (List.mem_of_getElem? hget) _ hreader
  exact absurd hle (Nat.not_succ_le_self _)

theorem sound_restart (hs : s.Sound d) (hdown : s.up = false) :
    Sound d { s with up := true, process := s.process + 1 } :=
  sound_idle hs rfl rfl rfl rfl rfl rfl (hs.down hdown) (Nat.le_succ _)
    (restart_unreadable hs)

/-- An event is in hand until its request is out. -/
theorem unposted_eq {loop : RelayLoop} {m : Relayed} {self : RelayHandler}
    {event : ReceivedEvent} {sent : Bool} {p : RelayProg Unit}
    (hstage : self.Stage event sent p)
    (hcurrent : loop.current = some (m, p)) :
    loop.unposted = (if sent then [] else [m]) ++ loop.batch := by
  obtain ⟨a, k, rfl⟩ := hstage.call
  obtain ⟨hsend, -⟩ := hstage.answer (.error .requestError)
  simp only [RelayLoop.unposted, RelayLoop.sending, hcurrent, hsend]
  cases sent with
  | false => rfl
  | true => rfl

/-- The next of a batch is, whether the loop has come to it or not. -/
theorem unposted_handle {loop : RelayLoop} {m : Relayed} {rest : List Relayed}
    {self : RelayHandler} {event : ReceivedEvent} (h : self.Sendable event)
    (hcurrent : loop.current = none) (hbatch : loop.batch = m :: rest) :
    RelayLoop.unposted { batch := rest, current := some (m, self.handle event) }
      = loop.unposted := by
  rw [RelayHandler.handle_eq h, unposted_eq (.sending h) rfl,
    RelayLoop.unposted, RelayLoop.sending, hcurrent, hbatch]
  rfl

/-- Then the rest of the batch is, unless the handler raises. -/
theorem unposted_goOn {m : Relayed} {self : RelayHandler}
    {event : ReceivedEvent} {p : RelayProg Unit}
    (hp : p = .pure () ∨ (∃ e, p = .raise e) ∨ self.Stage event true p)
    (batch : List Relayed) :
    (RelayLoop.goOn batch m p).unposted.Sublist batch ∧
      ((∀ e, p ≠ .raise e) → (RelayLoop.goOn batch m p).unposted = batch) := by
  rcases hp with rfl | ⟨e, rfl⟩ | hstage
  · exact ⟨List.Sublist.refl _, fun _ => rfl⟩
  · exact ⟨List.nil_sublist _, fun h => absurd rfl (h e)⟩
  · obtain ⟨a, k, rfl⟩ := hstage.call
    have heq : (RelayLoop.goOn batch m (.call a k)).unposted = batch :=
      unposted_eq hstage rfl
    rw [heq]
    exact ⟨List.Sublist.refl _, fun _ => rfl⟩

theorem posts_record {m : Relayed} {self : RelayHandler} {event : ReceivedEvent}
    {sent : Bool} {a : RelayAct} {k : Except Exn a.Resp → RelayProg Unit}
    (hstage : self.Stage event sent (.call a k)) : (s.record m a).posts =
      (if sent then [] else [(s.process, m)]) ++ s.posts := by
  rw [record_posts, (hstage.answer (.error .requestError)).1]
  cases sent with
  | true => rfl
  | false => rfl

theorem posted_record {m : Relayed} {self : RelayHandler}
    {event : ReceivedEvent} {sent : Bool} {a : RelayAct}
    {k : Except Exn a.Resp → RelayProg Unit}
    (hstage : self.Stage event sent (.call a k)) (m' : Relayed) :
    (s.record m a).posted m' =
      (if sent then [] else [m]).count m' + s.posted m' := by
  rw [posted, posts_record hstage, List.map_append, List.count_append]
  cases sent with
  | true => rfl
  | false => rfl

section Update

variable {l : ℕ} {loop : RelayLoop}

/-- One loop goes on, and the others stay where they are. -/
theorem Sound.hand_update (hs : s.Sound d) (hstored : s'.stored = s.stored)
    (hup : s'.up = s.up) (hprocess : s'.process = s.process)
    (hposts : s.posts ⊆ s'.posts) (hloop : InHand d s' l loop) (l' : ℕ) :
    InHand d s' l' (Function.update s.loops l loop l') := by
  by_cases hl : l' = l
  · rw [hl, Function.update_self]
    exact hloop
  · rw [Function.update_of_ne hl]
    exact (hs.hand l').mono
      (fun m _ h => (message?_congr hstored m).trans h) hup hprocess hposts

/-- One that goes on has not ended. -/
theorem Sound.raised_update (hs : s.Sound d) (hstored : s'.stored = s.stored)
    (hup : s'.up = s.up) (hprocess : s'.process = s.process)
    (hended : (s.loops l).ended = false) {m : Relayed} (hm : m ∈ s.raised) :
    s'.Poison d m ∧ (s'.Readable d m →
      (Function.update s.loops l loop m.loop).ended = true) := by
  obtain ⟨⟨self, x, hx, hsend⟩, hraised⟩ := hs.raised m hm
  refine ⟨⟨self, x, (message?_congr hstored m).trans hx, hsend⟩, fun h => ?_⟩
  have hold := hraised ((readable_congr hstored hup hprocess m).mp h)
  have hne : m.loop ≠ l := by
    intro heq
    rw [heq, hended] at hold
    cases hold
  rw [Function.update_of_ne hne]
  exact hold

theorem Sound.accounted_update (hs : s.Sound d)
    (hother : ∀ m, m.loop ≠ l → s'.posted m ≤ s.posted m ∧
      s.delivered.count m ≤ s'.delivered.count m)
    (hown : ∀ m, m.loop = l →
      s'.posted m + loop.unposted.count m ≤ s'.delivered.count m)
    (m : Relayed) :
    s'.posted m + (Function.update s.loops l loop m.loop).unposted.count m ≤
      s'.delivered.count m := by
  by_cases hl : m.loop = l
  · rw [hl, Function.update_self]
    exact hown m hl
  · obtain ⟨hposted, hdelivered⟩ := hother m hl
    have hle := hs.accounted m
    rw [Function.update_of_ne hl]
    omega

/-- A loop goes on with what it has in hand, or lays it down. -/
theorem sound_loop (hs : s.Sound d) (hstored : s'.stored = s.stored)
    (hup : s'.up = s.up) (hprocess : s'.process = s.process)
    (hdelivered : s'.delivered = s.delivered) (hraised : s'.raised = s.raised)
    (hacked : s'.acked = s.acked)
    (hloops : s'.loops = Function.update s.loops l loop)
    (hrunning : s.up = true ∧ (s.loops l).ended = false)
    (hloop : InHand d s' l loop) (hsub : s.posts ⊆ s'.posts)
    (hcounted : ∀ m, s'.posted m + loop.unposted.count m ≤
      s.posted m + (s.loops l).unposted.count m)
    (hposts : ∀ e ∈ s'.posts, e ∈ s.posts ∨ ∃ self x,
      s.message? d e.2 = some (self, x) ∧ x.reader = some e.1 ∧
        self.Sendable x.event)
    (hacks : s.acks ⊆ s'.acks)
    (hnew : ∀ m ∈ s'.acks, m ∈ s.acks ∨ m ∈ s'.posts.map Prod.snd) :
    s'.Sound d where
  hand := by
    rw [hloops]
    exact hs.hand_update hstored hup hprocess hsub hloop
  down := fun hdown => by
    rw [hup, hrunning.1] at hdown
    cases hdown
  readers := by
    rw [hstored, hprocess]
    exact hs.readers
  posts := by
    intro e he
    rw [message?_congr hstored]
    exact (hposts e he).elim (hs.posts e) id
  raised := by
    rw [hraised, hloops]
    exact fun m hm => hs.raised_update hstored hup hprocess hrunning.2 hm
  once := hraised ▸ hs.once
  accounted := by
    rw [hloops]
    refine hs.accounted_update (fun m hm => ?_) fun m hm => ?_
    · have hle := hcounted m
      have hnone : m ∉ (s.loops l).unposted :=
        fun h => hm ((hs.hand l).unposted_mem h).1
      rw [List.count_eq_zero_of_not_mem hnone] at hle
      exact ⟨by omega, (congrArg (List.count m) hdelivered).ge⟩
    · have hle := hs.accounted m
      rw [hm] at hle
      rw [hdelivered]
      exact (hcounted m).trans hle
  limited := hdelivered ▸ hs.limited
  acks := by
    intro m hm
    rcases hnew m hm with h | h
    · exact List.map_subset Prod.snd hsub (hs.acks m h)
    · exact h
  acked := by
    rw [hacked]
    exact fun m hm => hacks (hs.acked m hm)

/-- No call is made. -/
theorem sound_setLoop (hs : s.Sound d) (hloop : InHand d s l loop)
    (hrunning : s.up = true ∧ (s.loops l).ended = false)
    (hunposted : ∀ m, loop.unposted.count m ≤ (s.loops l).unposted.count m) :
    (s.setLoop l loop).Sound d :=
  sound_loop hs rfl rfl rfl rfl rfl rfl rfl hrunning
    (hloop.mono (fun _ _ h => h) rfl rfl (List.Subset.refl _))
    (List.Subset.refl _) (fun m => Nat.add_le_add_left (hunposted m) _)
    (fun _ h => .inl h) (List.Subset.refl _) fun _ h => .inl h

/-- A handler goes on once its request is out. -/
theorem inHand_goOn {m : Relayed} {self : RelayHandler} {x : Addressed}
    {p : RelayProg Unit} {batch : List Relayed}
    (hbatch : ∀ m' ∈ batch, m'.loop = l ∧ s.Readable d m') (hm : m.loop = l)
    (hup : s.up = true) (hx : s.message? d m = some (self, x))
    (hreader : x.reader = some s.process)
    (hposted : m ∈ s.posts.map Prod.snd)
    (hp : p = .pure () ∨ (∃ e, p = .raise e) ∨ self.Stage x.event true p) :
    InHand d s l (RelayLoop.goOn batch m p) := by
  rcases hp with rfl | ⟨e, rfl⟩ | hstage
  · exact ⟨hbatch, nofun, fun h => by cases h⟩
  · exact inHand_none l true
  · obtain ⟨a, k, rfl⟩ := hstage.call
    refine ⟨hbatch, fun m' p' h => ?_, fun h => by cases h⟩
    cases h
    exact ⟨hm, hup, self, x, true, hx, hreader, hstage, fun _ => hposted⟩

end Update

theorem count_received_le (l : ℕ) (deliveries : List (ℕ × Bool))
    (m : Relayed) :
    (received l deliveries).count m ≤ (arrived l deliveries).count m :=
  List.Sublist.count_le m (List.filter_sublist.map _)

theorem arrived_nodup {l : ℕ} {deliveries : List (ℕ × Bool)}
    (h : (deliveries.map Prod.fst).Nodup) : (arrived l deliveries).Nodup := by
  have harrived : arrived l deliveries =
      (deliveries.map Prod.fst).map (Relayed.mk l) := by
    rw [arrived, List.map_map]
    rfl
  rw [harrived]
  exact h.map fun _ _ heq => (Relayed.mk.inj heq).2

theorem mem_arrived {l : ℕ} {deliveries : List (ℕ × Bool)} {m : Relayed}
    (h : m ∈ arrived l deliveries) :
    ∃ x ∈ deliveries, m = ⟨l, x.1⟩ := by
  obtain ⟨x, hx, rfl⟩ := List.mem_map.mp h
  exact ⟨x, hx, rfl⟩

theorem sound_fetch (hs : s.Sound d) {l : ℕ} {deliveries : List (ℕ × Bool)}
    (hmay : s.MayFetch d l deliveries) :
    Sound d { s.setLoop l { batch := received l deliveries } with
      delivered := arrived l deliveries ++ s.delivered } := by
  obtain ⟨hup, ⟨hended, -, -⟩, -, hnodup, hall⟩ := hmay
  have hloop : InHand d s l { batch := received l deliveries } := by
    refine ⟨fun m hm => ?_, nofun, fun h => by cases h⟩
    obtain ⟨x, hx, rfl⟩ := List.mem_map.mp hm
    obtain ⟨hmem, hgot⟩ := List.mem_filter.mp hx
    exact ⟨rfl, (hall x hmem).2 hgot⟩
  have hcount : ∀ m,
      (arrived l deliveries ++ s.delivered).count m =
        (arrived l deliveries).count m + s.delivered.count m :=
    fun m => List.count_append
  exact {
    hand := hs.hand_update rfl rfl rfl (List.Subset.refl _)
      (hloop.mono (fun _ _ h => h) rfl rfl (List.Subset.refl _))
    down := fun hdown => by
      rw [show s.up = false from hdown] at hup
      cases hup
    readers := hs.readers
    posts := hs.posts
    raised := fun _ hm => hs.raised_update rfl rfl rfl hended hm
    once := hs.once
    accounted := by
      refine hs.accounted_update (fun m hm => ⟨Nat.le_refl _, ?_⟩) fun m hm =>
        ?_
      · rw [hcount]
        omega
      · have hle := hs.accounted m
        have hreceived := count_received_le l deliveries m
        rw [hcount]
        show s.posted m + (received l deliveries).count m ≤ _
        omega
    limited := by
      intro m
      rw [hcount]
      by_cases hm : m ∈ arrived l deliveries
      · obtain ⟨x, hx, rfl⟩ := mem_arrived hm
        have hlt := (hall x hx).1.2.2
        have hone := List.nodup_iff_count_le_one.mp
          (arrived_nodup (l := l) hnodup) ⟨l, x.1⟩
        omega
      · rw [List.count_eq_zero_of_not_mem hm]
        have hle := hs.limited m
        omega
    acks := hs.acks
    acked := hs.acked }

/-- An event that raises is one that has not raised before. -/
theorem sound_raise (hs : s.Sound d) {m : Relayed} (hpoison : s.Poison d m)
    (hended : (s.loops m.loop).ended = true) (hnew : m ∉ s.raised) :
    Sound d { s with raised := m :: s.raised } where
  hand := fun l => (hs.hand l).mono (fun _ _ h => h) rfl rfl
    (List.Subset.refl _)
  down := hs.down
  readers := hs.readers
  posts := hs.posts
  raised := by
    intro m' hm'
    rcases List.mem_cons.mp hm' with rfl | hm'
    · exact ⟨hpoison, fun _ => hended⟩
    · exact hs.raised m' hm'
  once := List.nodup_cons.mpr ⟨hnew, hs.once⟩
  accounted := hs.accounted
  limited := hs.limited
  acks := hs.acks
  acked := hs.acked

theorem sound_handle (hs : s.Sound d) {l : ℕ}
    (h : s.step d (.handle l) = some s') : s'.Sound d := by
  obtain ⟨m, rest, self, x, hcurrent, hbatch, hx, h⟩ := step_handle h
  have hhand := hs.hand l
  have hmem : m ∈ (s.loops l).batch := by simp [hbatch]
  obtain ⟨rfl, hread⟩ := hhand.batch m hmem
  obtain ⟨self', x', hx', hup, hreader⟩ := readable_iff.mp hread
  rw [hx] at hx'
  cases hx'
  have hended : (s.loops m.loop).ended = false := by
    by_contra htrue
    have hnil := (hhand.ended (Bool.of_not_eq_false htrue)).2
    rw [hbatch] at hnil
    cases hnil
  have hrest : ∀ m' ∈ rest, m'.loop = m.loop ∧ s.Readable d m' :=
    fun m' hm' => hhand.batch m' (by simp [hbatch, hm'])
  rcases h with ⟨hsend, rfl⟩ | ⟨hsend, rfl⟩
  · refine sound_setLoop hs ⟨hrest, fun m' p h => ?_, fun h => by cases h⟩
      ⟨hup, hended⟩ fun m' => ?_
    · cases h
      rw [RelayHandler.handle_eq hsend]
      exact ⟨rfl, hup, self, x, false, hx, hreader, .sending hsend,
        fun h => by cases h⟩
    · rw [unposted_handle hsend hcurrent hbatch]
  · have hlaid : (s.setLoop m.loop { ended := true }).Sound d :=
      sound_setLoop hs (inHand_none m.loop true) ⟨hup, hended⟩
        fun _ => Nat.zero_le _
    refine sound_raise hlaid ⟨self, x, hx, hsend⟩ ?_ fun hm => ?_
    · rw [setLoop_self]
    · rw [(hs.raised m hm).2 hread] at hended
      cases hended

/-- A call of a handler: its request goes out, or it is out already. -/
theorem sound_answer (hs : s.Sound d) {l : ℕ}
    {r : (a : RelayAct) → Except Exn a.Resp} (h : s.answer l r = some s') :
    s'.Sound d := by
  obtain ⟨m, a, k, hcurrent, rfl⟩ := answer_eq h
  have hhand := hs.hand l
  obtain ⟨rfl, hup, self, x, sent, hx, hreader, hstage, hposted⟩ :=
    hhand.current m _ hcurrent
  have hended : (s.loops m.loop).ended = false := by
    by_contra htrue
    have hnone := (hhand.ended (Bool.of_not_eq_false htrue)).1
    rw [hcurrent] at hnone
    cases hnone
  obtain ⟨-, hnext⟩ := hstage.answer (r a)
  have hposts := posts_record (s := s) (m := m) hstage
  have hsub : s.posts ⊆ (s.record m a).posts := by
    rw [hposts]
    exact List.subset_append_right _ _
  have hin : m ∈ (s.record m a).posts.map Prod.snd := by
    cases sent with
    | true => exact List.map_subset Prod.snd hsub (hposted rfl)
    | false =>
        rw [hposts]
        exact List.mem_cons_self
  have hread : ∀ m', (s.record m a).Readable d m' ↔ s.Readable d m' :=
    readable_congr (record_stored m a) (record_up m a) (record_process m a)
  have hgoOn := inHand_goOn (d := d) (s := s.record m a)
    (fun m' hm' => ⟨(hhand.batch m' hm').1,
      (hread m').mpr (hhand.batch m' hm').2⟩) rfl
    ((record_up m a).trans hup)
    ((message?_congr (record_stored m a) m).trans hx)
    (by rw [record_process]; exact hreader) hin hnext
  have hcounted : ∀ m', (s.record m a).posted m' + (RelayLoop.goOn
      (s.loops m.loop).batch m (k (r a))).unposted.count m' ≤
        s.posted m' + (s.loops m.loop).unposted.count m' := by
    intro m'
    have hle := (unposted_goOn (m := m) hnext
      (s.loops m.loop).batch).1.count_le m'
    rw [posted_record hstage, unposted_eq hstage hcurrent, List.count_append]
    omega
  refine sound_loop hs (record_stored m a) (record_up m a)
    (record_process m a) (record_delivered m a) (record_raised m a)
    (record_acked m a) (by rw [setLoop, record_loops]) ⟨hup, hended⟩
    (hgoOn.mono (fun _ _ h => h) rfl rfl (List.Subset.refl _)) hsub hcounted
    (fun e he => ?_) (record_acks m a) fun m' hm' => ?_
  · have he : e ∈ (s.record m a).posts := he
    rw [hposts] at he
    rcases List.mem_append.mp he with he | he
    · cases sent with
      | true => cases he
      | false =>
          rw [List.mem_singleton.mp he]
          exact .inr ⟨self, x, hx, hreader, hstage.sendable⟩
    · exact .inl he
  · rcases mem_record_acks hm' with hm' | ⟨rfl, msg, rfl⟩
    · exact .inl hm'
    · exact .inr hin

theorem sound_step (hs : s.Sound d) {act : RelayProcessAct}
    (h : s.step d act = some s') : s'.Sound d := by
  cases act with
  | publish event reader =>
      obtain ⟨hreader, rfl⟩ := step_publish h
      exact sound_publish hs hreader
  | fetch l deliveries =>
      obtain ⟨hmay, rfl⟩ := step_fetch h
      exact sound_fetch hs hmay
  | handle l => exact sound_handle hs h
  | call l response => exact sound_answer hs h
  | fail l e =>
      rcases step_fail h with ⟨hup, hidle, -, rfl⟩ | h
      · exact sound_setLoop hs (inHand_none l true) ⟨hup, hidle.1⟩
          fun _ => Nat.zero_le _
      · exact sound_answer hs h
  | settle m =>
      obtain ⟨hm, rfl⟩ := step_settle h
      exact {
        hand := fun l => (hs.hand l).mono (fun _ _ h => h) rfl rfl
          (List.Subset.refl _)
        down := hs.down
        readers := hs.readers
        posts := hs.posts
        raised := hs.raised
        once := hs.once
        accounted := hs.accounted
        limited := hs.limited
        acks := hs.acks
        acked := List.forall_mem_cons.mpr ⟨hm, hs.acked⟩ }
  | exit =>
      obtain ⟨-, rfl⟩ := step_exit h
      exact sound_stopped hs
  | kill =>
      rw [step_kill h]
      exact sound_stopped hs
  | restart =>
      obtain ⟨hdown, rfl⟩ := step_restart h
      exact sound_restart hs hdown

theorem sound_of_reached {acts : List RelayProcessAct} (h : Reached d acts s) :
    s.Sound d :=
  Run.invariant (I := Sound d) (fun hs _ hstep => sound_step hs hstep) h
    sound_init

end RelayProcess

end JetCore
