import JetCore.Proofs.RelaySteps
import JetCore.Proofs.Sample

/-!
# What one bad event costs

Each process has a key of its own, so an event whose request cannot be built
raises in one process only, the one that it is encrypted for: the process is
not restarted more often than there are such events, but for what comes from
outside. The other side of it is that whatever else that process had not posted
is lost, on other subjects too, and no later delivery of it is of any use. One
bad event is enough (`lost_iff`).
-/

namespace JetCore

open Lib

namespace RelayProcess

variable {d : RelayDeployment} {s s' : RelayProcess}

/-! ## Why a process ends -/

/-- It is over, or one of its loops is. -/
def Stopping (s : RelayProcess) : Prop :=
  s.up = false ∨ ∃ l, (s.loops l).ended = true

/-- As many have come to their end as events have raised and `n` more. -/
def Within (s : RelayProcess) (n : ℕ) : Prop :=
  s.process ≤ s.raised.length + n ∧
    (s.Stopping → s.process < s.raised.length + n)

theorem Within.congr {n : ℕ} (h : s.Within n)
    (hprocess : s'.process = s.process) (hraised : s'.raised = s.raised)
    (hstopping : s'.Stopping → s.Stopping) : s'.Within n := by
  rw [Within, hprocess, hraised]
  exact ⟨h.1, fun hs => h.2 (hstopping hs)⟩

/-- A loop that goes on. -/
theorem Stopping.of_setLoop {l : ℕ} {loop : RelayLoop}
    (h : (s.setLoop l loop).Stopping) (hloop : loop.ended = false) :
    s.Stopping := by
  rcases h with hup | ⟨l', hl'⟩
  · exact .inl hup
  · by_cases hl : l' = l
    · rw [hl, setLoop_self, hloop] at hl'
      cases hl'
    · rw [setLoop_of_ne hl] at hl'
      exact .inr ⟨l', hl'⟩

theorem goOn_ended {batch : List Relayed} {m : Relayed} {p : RelayProg Unit}
    (h : ∀ e, p ≠ .raise e) : (RelayLoop.goOn batch m p).ended = false := by
  cases p with
  | pure u => rfl
  | raise e => exact absurd rfl (h e)
  | call a k => rfl

/-- What does not fail ends a loop only if an event raises. -/
theorem within_step {n : ℕ} (hs : s.Sound d) (hn : s.Within n)
    {act : RelayProcessAct} (hfault : act.isFault = false)
    (h : s.step d act = some s') : s'.Within n := by
  cases act with
  | publish event reader =>
      obtain ⟨-, rfl⟩ := step_publish h
      exact hn.congr rfl rfl id
  | fetch l deliveries =>
      obtain ⟨-, rfl⟩ := step_fetch h
      exact hn.congr rfl rfl fun hstop => Stopping.of_setLoop hstop rfl
  | handle l =>
      obtain ⟨m, rest, self, x, -, -, -, ⟨-, rfl⟩ | ⟨-, rfl⟩⟩ := step_handle h
      · exact hn.congr rfl rfl fun hstop => hstop.of_setLoop rfl
      · have hle := hn.1
        show s.process ≤ s.raised.length + 1 + n ∧
          (_ → s.process < s.raised.length + 1 + n)
        omega
  | call l response =>
      obtain ⟨m, a, k, hcurrent, rfl⟩ := answer_eq h
      obtain ⟨-, -, self, x, sent, -, -, hstage, -⟩ :=
        (hs.hand l).current m _ hcurrent
      refine hn.congr (record_process m a) (record_raised m a) fun hstop => ?_
      have hstop := hstop.of_setLoop
        (goOn_ended fun e => hstage.answers_ne response e)
      rw [Stopping, record_up, record_loops] at hstop
      exact hstop
  | settle m =>
      obtain ⟨-, rfl⟩ := step_settle h
      exact hn.congr rfl rfl id
  | exit =>
      obtain ⟨hended, rfl⟩ := step_exit h
      exact ⟨hn.1, fun _ => hn.2 (.inr hended)⟩
  | restart =>
      obtain ⟨hdown, rfl⟩ := step_restart h
      refine ⟨hn.2 (.inl hdown), fun hstop => ?_⟩
      rw [Stopping, show ({ s with up := true, process := s.process + 1 } :
        RelayProcess).loops = fun _ => {} from hs.down hdown] at hstop
      rcases hstop with hstop | ⟨l, hl⟩
      · cases hstop
      · cases hl
  | fail l e => cases hfault
  | kill => cases hfault

/-- A fault makes room for one more. -/
theorem within_fault {n : ℕ} (hn : s.Within n) {act : RelayProcessAct}
    (hfault : act.isFault = true) (h : s.step d act = some s') :
    s'.Within (n + 1) := by
  have hframe : s'.process = s.process ∧ s'.raised = s.raised := by
    cases act with
    | fail l e =>
        rcases step_fail h with ⟨-, -, -, rfl⟩ | h
        · exact ⟨rfl, rfl⟩
        · obtain ⟨m, a, k, -, rfl⟩ := answer_eq h
          exact ⟨record_process m a, record_raised m a⟩
    | kill =>
        rw [step_kill h]
        exact ⟨rfl, rfl⟩
    | _ => cases hfault
  have hle := hn.1
  rw [Within, hframe.1, hframe.2]
  omega

theorem within_of_reached {acts : List RelayProcessAct} (h : Reached d acts s) :
    s.Within (acts.countP RelayProcessAct.isFault) := by
  refine Run.history (I := fun acts s =>
    s.Within (acts.countP RelayProcessAct.isFault)) ?_ ?_ h
  · refine ⟨Nat.le_refl _, fun hstop => ?_⟩
    rcases hstop with hstop | ⟨l, hl⟩
    · cases hstop
    · cases hl
  · intro acts s act s' hrun hn _ hstep
    rw [List.countP_append, List.countP_singleton]
    split
    · next hfault => exact within_fault hn hfault hstep
    · next hfault =>
        exact within_step (sound_of_reached hrun) hn
          (Bool.of_not_eq_true hfault) hstep

open Classical in
/-- The messages whose request cannot be built. -/
noncomputable def poison (d : RelayDeployment) (s : RelayProcess) :
    Finset Relayed :=
  ((Finset.range d.handlers.length ×ˢ Finset.range s.stored.length).image
    fun m => ⟨m.1, m.2⟩).filter (s.Poison d)

theorem mem_poison {m : Relayed} : m ∈ s.poison d ↔ s.Poison d m := by
  simp only [poison, Finset.mem_filter, and_iff_right_iff_imp]
  intro h
  obtain ⟨self, x, hmessage, -⟩ := h
  obtain ⟨hself, hx, -⟩ := message?_eq.mp hmessage
  refine Finset.mem_image.mpr ⟨(m.loop, m.position), ?_, rfl⟩
  rw [Finset.mem_product, Finset.mem_range, Finset.mem_range]
  exact ⟨(List.getElem?_eq_some_iff.mp hself).1,
    (List.getElem?_eq_some_iff.mp hx).1⟩

theorem raised_le (hs : s.Sound d) : s.raised.length ≤ (s.poison d).card :=
  calc s.raised.length
      = s.raised.toFinset.card := (List.toFinset_card_of_nodup hs.once).symm
    _ ≤ (s.poison d).card := Finset.card_le_card fun m hm =>
        mem_poison.mpr (hs.raised m (List.mem_toFinset.mp hm)).1

/-! ## One message -/

/-- What a step can do to a message that is there. -/
structure Kept (d : RelayDeployment) (s s' : RelayProcess) (m : Relayed) :
    Prop where
  message : ∀ y, s.message? d m = some y → s'.message? d m = some y
  readable : s'.Readable d m → s.Readable d m ∨ s.message? d m = none
  delivered : s'.delivered.count m = s.delivered.count m ∨ s.Pending d m
  hand : m ∈ (s'.loops m.loop).unposted →
    m ∈ (s.loops m.loop).unposted ∨ s.Pending d m
  posted : s'.posted m = s.posted m ∨ m ∈ (s.loops m.loop).unposted

/-- One that is not delivered, and has not gone out. -/
theorem kept_of_frame (hstored : s'.stored = s.stored) {m : Relayed}
    (hread : s'.Readable d m → s.Readable d m)
    (hdelivered : s'.delivered = s.delivered)
    (hhand : m ∈ (s'.loops m.loop).unposted → m ∈ (s.loops m.loop).unposted)
    (hposted : s'.posted m = s.posted m ∨ m ∈ (s.loops m.loop).unposted) :
    Kept d s s' m where
  message := fun _ h => (message?_congr hstored m).trans h
  readable := fun h => .inl (hread h)
  delivered := .inl (congrArg (List.count m) hdelivered)
  hand := fun h => .inl (hhand h)
  posted := hposted

theorem unposted_setLoop {l : ℕ} {loop : RelayLoop} {m : Relayed}
    (hsub : loop.unposted ⊆ (s.loops l).unposted)
    (h : m ∈ ((s.setLoop l loop).loops m.loop).unposted) :
    m ∈ (s.loops m.loop).unposted := by
  by_cases hl : m.loop = l
  · rw [hl, setLoop_self] at h
    rw [hl]
    exact hsub h
  · rw [setLoop_of_ne hl] at h
    exact h

theorem kept_setLoop {l : ℕ} {loop : RelayLoop} {raised : List Relayed}
    (hsub : loop.unposted ⊆ (s.loops l).unposted) (m : Relayed) :
    Kept d s { s.setLoop l loop with raised := raised } m := by
  refine kept_of_frame ?_ ?_ ?_ ?_ ?_
  · rfl
  · exact (readable_congr rfl rfl rfl m).mp
  · rfl
  · exact unposted_setLoop hsub
  · exact .inl rfl

theorem kept_answer (hs : s.Sound d) {l : ℕ}
    {r : (a : RelayAct) → Except Exn a.Resp} (h : s.answer l r = some s')
    (m : Relayed) : Kept d s s' m := by
  obtain ⟨m', a, k, hcurrent, rfl⟩ := answer_eq h
  obtain ⟨rfl, -, self, x, sent, -, -, hstage, -⟩ :=
    (hs.hand l).current m' _ hcurrent
  have hunposted := unposted_eq hstage hcurrent
  refine kept_of_frame ?_ ?_ ?_ (fun hm => ?_) ?_
  · exact record_stored m' a
  · exact (readable_congr (record_stored m' a) (record_up m' a)
      (record_process m' a) m).mp
  · exact record_delivered m' a
  · have hsub : (RelayLoop.goOn (s.loops m'.loop).batch m' (k (r a))).unposted ⊆
        ((s.record m' a).loops m'.loop).unposted := by
      rw [record_loops, hunposted]
      exact List.Subset.trans
        (unposted_goOn (m := m') (hstage.answer (r a)).2 _).1.subset
        (List.subset_append_right _ _)
    have hold := unposted_setLoop hsub hm
    rw [record_loops] at hold
    exact hold
  · show (s.record m' a).posted m = _ ∨ _
    rw [posted_record hstage]
    by_cases hm : m ∈ (if sent then [] else [m'])
    · have heq : m = m' := by
        cases sent with
        | true => cases hm
        | false => exact List.mem_singleton.mp hm
      subst heq
      rw [hunposted]
      exact .inr (List.mem_append_left _ hm)
    · rw [List.count_eq_zero_of_not_mem hm, Nat.zero_add]
      exact .inl rfl

theorem kept_fetch {l : ℕ} {deliveries : List (ℕ × Bool)}
    (hall : ∀ x ∈ deliveries, s.Pending d ⟨l, x.1⟩) (m : Relayed) :
    Kept d s { s.setLoop l { batch := received l deliveries } with
      delivered := arrived l deliveries ++ s.delivered } m := by
  have hpending : m ∈ arrived l deliveries → s.Pending d m := by
    intro hm
    obtain ⟨x, hx, rfl⟩ := mem_arrived hm
    exact hall x hx
  refine ⟨fun _ h => h, fun h => .inl ((readable_congr rfl rfl rfl m).mp h), ?_,
    fun hm => ?_, .inl rfl⟩
  · by_cases hm : m ∈ arrived l deliveries
    · exact .inr (hpending hm)
    · refine .inl ?_
      rw [List.count_append, List.count_eq_zero_of_not_mem hm, Nat.zero_add]
  · by_cases hl : m.loop = l
    · have hm : m ∈ ((s.setLoop l { batch := received l deliveries }).loops
          m.loop).unposted := hm
      rw [hl, setLoop_self] at hm
      exact .inr (hpending ((List.filter_sublist.map _).subset hm))
    · have hm : m ∈ ((s.setLoop l { batch := received l deliveries }).loops
          m.loop).unposted := hm
      rw [setLoop_of_ne hl] at hm
      exact .inl hm

theorem kept_stopped (m : Relayed) : Kept d s s.stopped m := by
  refine kept_of_frame ?_ (fun h => ?_) ?_ (fun h => ?_) ?_
  · rfl
  · obtain ⟨_, _, _, hup, _⟩ := readable_iff.mp h
    cases hup
  · rfl
  · cases h
  · exact .inl rfl

theorem kept_publish (event : ReceivedEvent) (reader : Option ℕ)
    (m : Relayed) :
    Kept d s { s with stored := s.stored ++ [⟨event, reader⟩] } m := by
  refine ⟨fun y => message?_append _, fun h => ?_, .inl rfl, .inl, .inl rfl⟩
  obtain ⟨self, x, hx, hup, hreader⟩ := readable_iff.mp h
  cases hold : s.message? d m with
  | none => exact .inr rfl
  | some y =>
      have hy := message?_append [⟨event, reader⟩] hold
      rw [hx] at hy
      cases hy
      exact .inl (readable_iff.mpr ⟨self, x, hold, hup, hreader⟩)

theorem kept_step (hs : s.Sound d) {act : RelayProcessAct}
    (h : s.step d act = some s') (m : Relayed) : Kept d s s' m := by
  cases act with
  | publish event reader =>
      obtain ⟨-, rfl⟩ := step_publish h
      exact kept_publish event reader m
  | fetch l deliveries =>
      obtain ⟨⟨-, -, -, -, hall⟩, rfl⟩ := step_fetch h
      exact kept_fetch (fun x hx => (hall x hx).1) m
  | handle l =>
      obtain ⟨m', rest, self, x, hcurrent, hbatch, -, h⟩ := step_handle h
      rcases h with ⟨hsend, rfl⟩ | ⟨-, rfl⟩
      · refine kept_setLoop ?_ m
        rw [unposted_handle hsend hcurrent hbatch]
        exact List.Subset.refl _
      · exact kept_setLoop (List.nil_subset _) m
  | call l response => exact kept_answer hs h m
  | fail l e =>
      rcases step_fail h with ⟨-, -, -, rfl⟩ | h
      · exact kept_setLoop (List.nil_subset _) m
      · exact kept_answer hs h m
  | settle m' =>
      obtain ⟨-, rfl⟩ := step_settle h
      refine kept_of_frame ?_ ?_ ?_ ?_ ?_
      · rfl
      · exact (readable_congr rfl rfl rfl m).mp
      · rfl
      · exact id
      · exact .inl rfl
  | exit =>
      obtain ⟨-, rfl⟩ := step_exit h
      exact kept_stopped m
  | kill =>
      rw [step_kill h]
      exact kept_stopped m
  | restart =>
      obtain ⟨-, rfl⟩ := step_restart h
      refine kept_of_frame ?_ (fun h => ?_) ?_ ?_ ?_
      · rfl
      · exact absurd h (restart_unreadable hs m)
      · rfl
      · exact id
      · exact .inl rfl

/-- Once it is over with a message, nothing more comes of it. -/
theorem over_step (hs : s.Sound d) {m : Relayed} (hover : s.Over d m)
    {act : RelayProcessAct} (h : s.step d act = some s') :
    s'.Over d m ∧ s'.posted m = s.posted m := by
  have hkept := kept_step hs h m
  obtain ⟨⟨self, x, p, hx, hreader⟩, hrest⟩ := hover
  have hhand : m ∉ (s.loops m.loop).unposted := by
    rcases hrest with hread | ⟨-, hhand⟩
    · exact fun hm => hread ((hs.hand m.loop).unposted_mem hm).2
    · exact hhand
  refine ⟨⟨⟨self, x, p, hkept.message _ hx, hreader⟩, ?_⟩,
    hkept.posted.resolve_right hhand⟩
  rcases hrest with hread | ⟨hdelivered, -⟩
  · refine .inl fun h => ?_
    rcases hkept.readable h with h | h
    · exact hread h
    · rw [hx] at h
      cases h
  · have hpending : ¬ s.Pending d m := fun h => absurd h.2.2 (by omega)
    refine .inr ⟨?_, fun h => ?_⟩
    · rw [hkept.delivered.resolve_right hpending, hdelivered]
    · exact (hkept.hand h).elim hhand hpending

theorem over_run (hs : s.Sound d) {m : Relayed} (hover : s.Over d m)
    {acts : List RelayProcessAct} (h : Run (step d) always s acts s') :
    s'.posted m = s.posted m :=
  (Run.invariant (I := fun t => t.Sound d ∧ t.Over d m ∧
      t.posted m = s.posted m) (fun ht _ hstep => by
    obtain ⟨ht, hover, hposted⟩ := ht
    obtain ⟨hover', hposted'⟩ := over_step ht hover hstep
    exact ⟨sound_step ht hstep, hover', hposted'.trans hposted⟩) h
    ⟨hs, hover, rfl⟩).2.2

/-- The process is started again once for each event whose request cannot be
built at most, and for each fault. An event is posted by the process that it is
encrypted for, if it can be sent, and not more often than it is delivered to it;
an ack follows a request. Once it is over with an event, it stays so, whatever
comes. -/
theorem restarts_bounded {acts : List RelayProcessAct} (h : Reached d acts s) :
    s.process ≤ (s.poison d).card + acts.countP RelayProcessAct.isFault ∧
    (∀ e ∈ s.posts, ∃ self x, s.message? d e.2 = some (self, x) ∧
      x.reader = some e.1 ∧ self.Sendable x.event) ∧
    ∀ m, s.posted m ≤ s.delivered.count m ∧
      s.delivered.count m ≤ maxDeliverAttempts ∧
      (m ∈ s.acked → 0 < s.posted m) ∧
      (s.Over d m → ∀ acts' t, Run (step d) always s acts' t →
        t.posted m = s.posted m) := by
  have hs := sound_of_reached h
  have hwithin := (within_of_reached h).1
  have hraised := raised_le hs
  refine ⟨by omega, hs.posts, fun m => ⟨?_, hs.limited m, fun hm => ?_,
    fun hover acts' t hrun => over_run hs hover hrun⟩⟩
  · have hle := hs.accounted m
    omega
  · exact List.count_pos_iff.mpr (hs.acks m (hs.acked m hm))

/-! ## One that is posted, and one that is lost -/

def orderRelay : RelayDeployment where
  serviceId := "webhook-sender-01"
  handlers := [Sample.relay]
  apart := List.nodup_singleton _

def orderEvent (eventType : String) : ReceivedEvent :=
  { Sample.relayedEvent eventType with
    msg := ⟨1, Sample.relay.subject, [], 1⟩ }

/-- The second event is of a type that is spelled with an umlaut, and the third
is in the same batch. -/
def umlautActs : List RelayProcessAct := [
  .publish (orderEvent "OrderCreated") (some 0),
  .publish (orderEvent "AuftragGeändert") (some 0),
  .publish (orderEvent "OrderCreated") (some 0),
  .fetch 0 [(0, true), (1, true), (2, true)],
  .handle 0, .call 0 (some ⟨200, []⟩), .call 0 none, .settle ⟨0, 0⟩,
  .handle 0, .exit, .restart, .fetch 0 [(2, false)]]

theorem restarts_bounded_umlaut : ∃ s, Reached orderRelay umlautActs s ∧
    s.process = 1 ∧ s.raised = [⟨0, 1⟩] ∧ s.posted ⟨0, 0⟩ = 1 ∧
    s.Lost orderRelay ⟨0, 2⟩ ∧
    s.process ≤ (s.poison orderRelay).card ∧
    ∀ acts t, Run (step orderRelay) always s acts t → t.posted ⟨0, 2⟩ = 0 := by
  have hrun : ∃ s, Reached orderRelay umlautActs s ∧ s.process = 1 ∧
      s.raised = [⟨0, 1⟩] ∧ s.posted ⟨0, 0⟩ = 1 ∧ s.posted ⟨0, 2⟩ = 0 ∧
      ¬ s.Readable orderRelay ⟨0, 2⟩ ∧ s.message? orderRelay ⟨0, 2⟩ =
        some (Sample.relay, ⟨orderEvent "OrderCreated", some 0⟩) := by
    refine ⟨_, .cons trivial rfl (.cons trivial rfl (.cons trivial rfl
      (.cons trivial rfl (.cons trivial rfl (.cons trivial rfl
        (.cons trivial rfl (.cons trivial rfl (.cons trivial rfl
          (.cons trivial rfl (.cons trivial rfl (.cons trivial rfl
            (.nil _)))))))))))), ?_, ?_, ?_, ?_, ?_, ?_⟩
    · rfl
    · rfl
    · rfl
    · rfl
    · decide
    · rfl
  obtain ⟨s, hrun, hprocess, hraised, hposted, hnot, hread, hmessage⟩ := hrun
  have hover : s.Over orderRelay ⟨0, 2⟩ :=
    ⟨⟨_, _, 0, hmessage, rfl⟩, .inl hread⟩
  have hbounded := restarts_bounded hrun
  exact ⟨s, hrun, hprocess, hraised, hposted, ⟨hover, hnot⟩, hbounded.1,
    fun acts t ht => ((hbounded.2.2 ⟨0, 2⟩).2.2.2 hover acts t ht).trans hnot⟩

/-! ## A loss -/

/-- What was published and what has raised stay so. -/
theorem step_log {act : RelayProcessAct} (h : s.step d act = some s') :
    s.raised ⊆ s'.raised ∧ (s'.stored = s.stored ∨ ∃ event reader,
      act = .publish event reader ∧
        s'.stored = s.stored ++ [⟨event, reader⟩]) := by
  have hanswer : ∀ {l r}, s.answer l r = some s' →
      s.raised ⊆ s'.raised ∧ s'.stored = s.stored := by
    intro l r h
    obtain ⟨m, a, k, -, rfl⟩ := answer_eq h
    refine ⟨?_, record_stored m a⟩
    show s.raised ⊆ (s.record m a).raised
    rw [record_raised]
    exact List.Subset.refl _
  cases act with
  | publish event reader =>
      obtain ⟨-, rfl⟩ := step_publish h
      exact ⟨List.Subset.refl _, .inr ⟨event, reader, rfl, rfl⟩⟩
  | fetch l deliveries =>
      obtain ⟨-, rfl⟩ := step_fetch h
      exact ⟨List.Subset.refl _, .inl rfl⟩
  | handle l =>
      obtain ⟨m, rest, self, x, -, -, -, ⟨-, rfl⟩ | ⟨-, rfl⟩⟩ := step_handle h
      · exact ⟨List.Subset.refl _, .inl rfl⟩
      · exact ⟨List.subset_cons_self _ _, .inl rfl⟩
  | call l response => exact (hanswer h).imp_right .inl
  | fail l e =>
      rcases step_fail h with ⟨-, -, -, rfl⟩ | h
      · exact ⟨List.Subset.refl _, .inl rfl⟩
      · exact (hanswer h).imp_right .inl
  | settle m =>
      obtain ⟨-, rfl⟩ := step_settle h
      exact ⟨List.Subset.refl _, .inl rfl⟩
  | exit =>
      obtain ⟨-, rfl⟩ := step_exit h
      exact ⟨List.Subset.refl _, .inl rfl⟩
  | kill =>
      rw [step_kill h]
      exact ⟨List.Subset.refl _, .inl rfl⟩
  | restart =>
      obtain ⟨-, rfl⟩ := step_restart h
      exact ⟨List.Subset.refl _, .inl rfl⟩

/-- As long as nothing raises it is the first process that runs, and what it
can read is either posted or in hand once it is delivered. -/
structure Steady (d : RelayDeployment) (s : RelayProcess) : Prop where
  process : s.process = 0
  running : ¬ s.Stopping
  known : ∀ m ∈ s.delivered, s.message? d m ≠ none
  accounted : ∀ m, s.Readable d m → s.delivered.count m ≤
    s.posted m + (s.loops m.loop).unposted.count m

theorem steady_init : Steady d {} where
  process := rfl
  running := fun h => by
    rcases h with h | ⟨l, h⟩
    · cases h
    · cases h
  known := nofun
  accounted := fun _ _ => Nat.zero_le _

/-- Everything readable that is delivered is handed over. -/
theorem count_received {l : ℕ} {deliveries : List (ℕ × Bool)} {m : Relayed}
    (h : ∀ x ∈ deliveries, m = ⟨l, x.1⟩ → x.2 = true) :
    (received l deliveries).count m = (arrived l deliveries).count m := by
  rw [received, arrived, arrived, List.count_eq_countP, List.countP_map,
    List.count_eq_countP, List.countP_map, List.countP_filter]
  refine List.countP_congr fun x hx => ?_
  simp only [Function.comp_apply, Bool.and_eq_true, beq_iff_eq]
  exact ⟨fun h => h.1, fun heq => ⟨heq, h x hx heq.symm⟩⟩

theorem steady_publish (hst : Steady d s) (event : ReceivedEvent)
    (reader : Option ℕ) :
    Steady d { s with stored := s.stored ++ [⟨event, reader⟩] } where
  process := hst.process
  running := hst.running
  known := by
    intro m hm
    obtain ⟨y, hy⟩ := Option.ne_none_iff_exists'.mp (hst.known m hm)
    rw [message?_append _ hy]
    exact Option.some_ne_none y
  accounted := by
    intro m hread
    by_cases hm : m ∈ s.delivered
    · obtain ⟨y, hy⟩ := Option.ne_none_iff_exists'.mp (hst.known m hm)
      obtain ⟨self, x, hx, hup, hreader⟩ := readable_iff.mp hread
      rw [message?_append _ hy] at hx
      cases hx
      exact hst.accounted m (readable_iff.mpr ⟨self, x, hy, hup, hreader⟩)
    · show s.delivered.count m ≤ _
      rw [List.count_eq_zero_of_not_mem hm]
      exact Nat.zero_le _

theorem steady_fetch (hst : Steady d s) {l : ℕ} {deliveries : List (ℕ × Bool)}
    (hpending : ∀ x ∈ deliveries, s.Pending d ⟨l, x.1⟩)
    (hidle : (s.loops l).unposted = [])
    (hall : ∀ x ∈ deliveries, s.Readable d ⟨l, x.1⟩ → x.2 = true) :
    Steady d { s.setLoop l { batch := received l deliveries } with
      delivered := arrived l deliveries ++ s.delivered } where
  process := hst.process
  running := fun h => hst.running (Stopping.of_setLoop h rfl)
  known := by
    intro m hm
    rcases List.mem_append.mp hm with hm | hm
    · obtain ⟨x, hx, rfl⟩ := mem_arrived hm
      exact Option.isSome_iff_ne_none.mp (hpending x hx).1
    · exact hst.known m hm
  accounted := by
    intro m hread
    have hold := (readable_congr (s := s) rfl rfl rfl m).mp hread
    have hle := hst.accounted m hold
    have hcount := count_received (l := l) (m := m)
      (fun x hx heq => hall x hx (heq ▸ hold))
    show (arrived l deliveries ++ s.delivered).count m ≤ s.posted m +
      ((s.setLoop l { batch := received l deliveries }).loops
        m.loop).unposted.count m
    rw [List.count_append]
    by_cases hl : m.loop = l
    · rw [hl, hidle] at hle
      rw [hl, setLoop_self, ← hcount]
      show _ ≤ _ + (received l deliveries).count m
      rw [List.count_nil] at hle
      omega
    · have hnot : m ∉ arrived l deliveries := by
        intro hm
        obtain ⟨x, -, rfl⟩ := mem_arrived hm
        exact hl rfl
      rw [setLoop_of_ne hl, List.count_eq_zero_of_not_mem hnot]
      omega

/-- A loop goes on, with nothing lost. -/
theorem steady_loop (hst : Steady d s) {t : RelayProcess} {l : ℕ}
    {loop : RelayLoop} (hstored : t.stored = s.stored) (hup : t.up = s.up)
    (hprocess : t.process = s.process) (hloops : t.loops = s.loops)
    (hdelivered : t.delivered = s.delivered) (hended : loop.ended = false)
    (hown : ∀ m, s.posted m + (s.loops l).unposted.count m ≤
      t.posted m + loop.unposted.count m)
    (hposted : ∀ m, s.posted m ≤ t.posted m) :
    (t.setLoop l loop).Steady d where
  process := hprocess.trans hst.process
  running := fun h => hst.running (by
    have h := h.of_setLoop hended
    rw [Stopping, hup, hloops] at h
    exact h)
  known := by
    intro m hm
    rw [show (t.setLoop l loop).message? d m = s.message? d m from
      message?_congr hstored m]
    exact hst.known m (hdelivered ▸ hm)
  accounted := by
    intro m hread
    have hle := hst.accounted m
      ((readable_congr hstored hup hprocess m).mp hread)
    show t.delivered.count m ≤
      t.posted m + ((t.setLoop l loop).loops m.loop).unposted.count m
    rw [hdelivered]
    by_cases hl : m.loop = l
    · rw [hl] at hle
      rw [hl, setLoop_self]
      exact hle.trans (hown m)
    · have hmore := hposted m
      rw [setLoop_of_ne hl, hloops]
      omega

theorem steady_step {produced : ReceivedEvent → Prop} (hs : s.Sound d)
    (hst : Steady d s) {act : RelayProcessAct}
    (hok : Undisturbed d produced s act) (h : s.step d act = some s') :
    Steady d s' ∨ s'.raised ≠ [] := by
  cases act with
  | publish event reader =>
      obtain ⟨-, rfl⟩ := step_publish h
      exact .inl (steady_publish hst event reader)
  | fetch l deliveries =>
      obtain ⟨⟨-, ⟨-, hcurrent, hbatch⟩, -, -, hall⟩, rfl⟩ := step_fetch h
      have hidle : (s.loops l).unposted = [] := by
        rw [RelayLoop.unposted, RelayLoop.sending,
          Option.isNone_iff_eq_none.mp hcurrent, hbatch]
        rfl
      exact .inl (steady_fetch hst (fun x hx => (hall x hx).1) hidle hok)
  | handle l =>
      obtain ⟨m, rest, self, x, hcurrent, hbatch, -, h⟩ := step_handle h
      rcases h with ⟨hsend, rfl⟩ | ⟨-, rfl⟩
      · refine .inl (steady_loop hst rfl rfl rfl rfl rfl rfl (fun m' => ?_)
          fun m' => Nat.le_refl _)
        rw [unposted_handle hsend hcurrent hbatch]
      · exact .inr (List.cons_ne_nil _ _)
  | call l response =>
      obtain ⟨m, a, k, hcurrent, rfl⟩ := answer_eq h
      obtain ⟨rfl, -, self, x, sent, -, -, hstage, -⟩ :=
        (hs.hand l).current m _ hcurrent
      have hraise := hstage.answers_ne response
      have hunposted := (unposted_goOn (m := m)
        (hstage.answer (answers response a)).2 (s.loops m.loop).batch).2 hraise
      refine .inl (steady_loop hst (record_stored m a) (record_up m a)
        (record_process m a) (record_loops m a) (record_delivered m a)
        (goOn_ended hraise) (fun m' => ?_) fun m' => ?_)
      · rw [hunposted, posted_record hstage, unposted_eq hstage hcurrent,
          List.count_append]
        omega
      · rw [posted_record hstage]
        omega
  | settle m =>
      obtain ⟨-, rfl⟩ := step_settle h
      exact .inl ⟨hst.process, hst.running, hst.known, fun m' hread =>
        hst.accounted m' ((readable_congr rfl rfl rfl m').mp hread)⟩
  | exit => exact absurd (.inr (step_exit h).1) hst.running
  | restart => exact absurd (.inl (step_restart h).1) hst.running
  | fail l e => cases hok
  | kill => cases hok

/-- Of a run in which nothing goes wrong but what the code does. -/
theorem steady_of_undisturbed {produced : ReceivedEvent → Prop}
    {acts : List RelayProcessAct}
    (h : Run (step d) (Undisturbed d produced) {} acts s) :
    s.Sound d ∧ (Steady d s ∨ s.raised ≠ []) ∧
      ∀ x ∈ s.stored, produced x.event := by
  refine Run.invariant (I := fun s => s.Sound d ∧
    (Steady d s ∨ s.raised ≠ []) ∧ ∀ x ∈ s.stored, produced x.event)
    ?_ h ⟨sound_init, .inl steady_init, nofun⟩
  intro s act s' hs hok hstep
  obtain ⟨hs, hsteady, hproduced⟩ := hs
  obtain ⟨hraised, hstored⟩ := step_log hstep
  refine ⟨sound_step hs hstep, ?_, fun x hx => ?_⟩
  · rcases hsteady with hsteady | hne
    · exact steady_step hs hsteady hok hstep
    · refine .inr fun hnil => hne (List.eq_nil_iff_forall_not_mem.mpr ?_)
      exact fun m hm => List.not_mem_nil (hnil ▸ hraised hm)
  · rcases hstored with hsame | ⟨event, reader, rfl, happend⟩
    · exact hproduced x (hsame ▸ hx)
    · rw [happend] at hx
      rcases List.mem_append.mp hx with hx | hx
      · exact hproduced x hx
      · rw [List.mem_singleton.mp hx]
        exact hok

/-- Nothing is lost as long as nothing raises. -/
theorem Steady.not_lost (hst : Steady d s) (hs : s.Sound d) (m : Relayed) :
    ¬ s.Lost d m := by
  intro hlost
  obtain ⟨⟨⟨self, x, p, hx, hreader⟩, hover⟩, hposted⟩ := hlost
  have hup : s.up = true := Bool.of_not_eq_false fun h => hst.running (.inl h)
  have hread : s.Readable d m := by
    obtain ⟨-, hget, -⟩ := message?_eq.mp hx
    have hle := hs.readers x (List.mem_of_getElem? hget) p hreader
    have hzero := hst.process
    have hp : p = s.process := by omega
    exact readable_iff.mpr ⟨self, x, hx, hup, hp ▸ hreader⟩
  rcases hover with hnot | ⟨hdelivered, hhand⟩
  · exact hnot hread
  · have hle := hst.accounted m hread
    rw [hdelivered, hposted, List.count_eq_zero_of_not_mem hhand] at hle
    exact absurd hle (by decide)

theorem step_handle_raises {l : ℕ} {m : Relayed} {rest : List Relayed}
    {self : RelayHandler} {x : Addressed}
    (hcurrent : (s.loops l).current = none)
    (hbatch : (s.loops l).batch = m :: rest)
    (hx : s.message? d m = some (self, x)) (hsend : ¬ self.Sendable x.event) :
    s.step d (.handle l) = some { s.setLoop l { ended := true } with
      raised := m :: s.raised } := by
  rw [step, hcurrent, hbatch]
  simp only [hx, Option.map_some, RelayHandler.handle_eq_raise hsend,
    RelayLoop.goOn]

/-- A good event is published while a bad one is in hand. -/
theorem lost_of_poison {good bad : ReceivedEvent} {i j : ℕ}
    {self self' : RelayHandler} (hi : d.handlers[i]? = some self)
    (hj : d.handlers[j]? = some self')
    (hgood : good.msg.subject = self.subject)
    (hbad : bad.msg.subject = self'.subject) (hsend : ¬ self'.Sendable bad)
    {produced : ReceivedEvent → Prop} (hproduced : produced good)
    (hproduced' : produced bad) : ∃ acts s,
      Run (step d) (Undisturbed d produced) {} acts s ∧
        s.message? d ⟨i, 1⟩ = some (self, ⟨good, some 0⟩) ∧
        s.Lost d ⟨i, 1⟩ := by
  let s₁ : RelayProcess := { stored := [⟨bad, some 0⟩] }
  let s₂ : RelayProcess := { s₁.setLoop j { batch := [⟨j, 0⟩] } with
    delivered := [⟨j, 0⟩] }
  let s₃ : RelayProcess := { s₂ with stored := s₂.stored ++ [⟨good, some 0⟩] }
  let s₄ : RelayProcess := { s₃.setLoop j { ended := true } with
    raised := [⟨j, 0⟩] }
  have hx₁ : s₁.message? d ⟨j, 0⟩ = some (self', ⟨bad, some 0⟩) :=
    message?_eq.mpr ⟨hj, rfl, hbad⟩
  have hmay : s₁.MayFetch d j [(0, true)] := by
    refine ⟨rfl, ⟨rfl, rfl, rfl⟩, by decide, List.nodup_singleton _,
      List.forall_mem_singleton.mpr ⟨⟨?_, List.not_mem_nil,
        (by decide : 0 < maxDeliverAttempts)⟩,
        fun _ => readable_iff.mpr ⟨self', _, hx₁, rfl, rfl⟩⟩⟩
    rw [hx₁]
    rfl
  have hfetch : s₁.step d (.fetch j [(0, true)]) = some s₂ := if_pos hmay
  have hx₃ : s₃.message? d ⟨j, 0⟩ = some (self', ⟨bad, some 0⟩) :=
    message?_eq.mpr ⟨hj, rfl, hbad⟩
  have hloop : s₃.loops j = { batch := [⟨j, 0⟩] } := setLoop_self j _
  have hhandle : s₃.step d (.handle j) = some s₄ :=
    step_handle_raises (by rw [hloop]) (by rw [hloop]) hx₃ hsend
  have hexit : s₄.step d .exit = some s₄.stopped := by
    refine if_pos ⟨j, (List.getElem?_eq_some_iff.mp hj).1, ?_⟩
    rw [show s₄.loops j = { ended := true } from setLoop_self j _]
  have hmessage : s₄.stopped.message? d ⟨i, 1⟩ =
      some (self, ⟨good, some 0⟩) := message?_eq.mpr ⟨hi, rfl, hgood⟩
  refine ⟨[.publish bad (some 0), .fetch j [(0, true)],
    .publish good (some 0), .handle j, .exit], s₄.stopped, ?_, hmessage,
    ⟨⟨_, _, 0, hmessage, rfl⟩, .inl fun h => ?_⟩, rfl⟩
  · exact .cons hproduced' rfl (.cons
      (fun x hx _ => by rw [List.mem_singleton.mp hx]) hfetch
      (.cons hproduced rfl (.cons rfl hhandle (.cons rfl hexit (.nil _)))))
  · obtain ⟨_, _, _, hup, _⟩ := readable_iff.mp h
    cases hup

/-- Without a fault, an event that can be sent is lost in some run exactly if
there is such an event at all and one whose request cannot be built, for a loop
of the process each. -/
theorem lost_iff (d : RelayDeployment) (produced : ReceivedEvent → Prop) :
    (∃ acts s m, Run (step d) (Undisturbed d produced) {} acts s ∧
      s.CanSend d m ∧ s.Lost d m) ↔
    (∃ self ∈ d.handlers, ∃ event, produced event ∧
      event.msg.subject = self.subject ∧ self.Sendable event) ∧
    (∃ self ∈ d.handlers, ∃ event, produced event ∧
      event.msg.subject = self.subject ∧ ¬ self.Sendable event) := by
  constructor
  · intro h
    obtain ⟨acts, s, m, hrun, hgood, hlost⟩ := h
    obtain ⟨hs, hsteady, hproduced⟩ := steady_of_undisturbed hrun
    have hof : ∀ {m self x}, s.message? d m = some (self, x) →
        self ∈ d.handlers ∧ produced x.event ∧
          x.event.msg.subject = self.subject := by
      intro m self x hx
      obtain ⟨hself, hget, hsubject⟩ := message?_eq.mp hx
      exact ⟨List.mem_of_getElem? hself,
        hproduced x (List.mem_of_getElem? hget), hsubject⟩
    have hraised : s.raised ≠ [] :=
      hsteady.resolve_left fun hst => hst.not_lost hs m hlost
    obtain ⟨bad, hmem⟩ := List.exists_mem_of_ne_nil _ hraised
    obtain ⟨self, x, hx, hsend⟩ := hgood
    obtain ⟨⟨self', x', hx', hsend'⟩, -⟩ := hs.raised bad hmem
    obtain ⟨hself, hevent, hsubject⟩ := hof hx
    obtain ⟨hself', hevent', hsubject'⟩ := hof hx'
    exact ⟨⟨self, hself, x.event, hevent, hsubject, hsend⟩,
      self', hself', x'.event, hevent', hsubject', hsend'⟩
  · intro h
    obtain ⟨⟨self, hself, event, hevent, hsubject, hsend⟩,
      self', hself', event', hevent', hsubject', hsend'⟩ := h
    obtain ⟨i, hi⟩ := List.mem_iff_getElem?.mp hself
    obtain ⟨j, hj⟩ := List.mem_iff_getElem?.mp hself'
    obtain ⟨acts, s, hrun, hx, hlost⟩ := lost_of_poison hi hj hsubject
      hsubject' hsend' hevent hevent'
    exact ⟨acts, s, ⟨i, 1⟩, hrun, ⟨self, _, hx, hsend⟩, hlost⟩

end RelayProcess

end JetCore
