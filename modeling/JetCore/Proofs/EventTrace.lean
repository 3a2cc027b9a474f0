import JetCore.Proofs.AckAfterWork
import JetCore.Proofs.EventBus
import JetCore.Proofs.FilePayloads
import JetCore.Proofs.OrderFlow
import JetCore.Spec.EventTrace

/-!
# Every event can be traced to one from outside

What is known of one handler's calls holds of the same calls in the record of
the whole bus, and a run of the bus is a run of its deliveries
(`deliveries_run`). A message comes after the one it answers, so following the
correlation ids ends at a message from outside, after two steps at most if no
trigger listens to what the triggers publish.
-/

namespace JetCore

open Lib

namespace EventBus

variable {d : Deployment} {s s' : EventBus} {acts : List EventBusAct}

/-! ## One delivery -/

/-- What the record of a delivery allows it to publish, and when it may ack. -/
structure Tells (d : Deployment) (h : EventDelivery)
    (log : Calls HandlerAct HandlerAct.Resp) (a : HandlerAct) : Prop where
  publish : ∀ args, a.published? = some args →
    args.correlationId = some h.event.details.eventId ∧ d.Done h args log
  ack : BusCalls.isAck a = true →
    d.Refused h log ∨ Answered h.event.details.eventId log

theorem embed_tells {A : Type} {R : A → Type} [BusCalls A]
    {f : A → HandlerAct}
    {back : ∀ a, Except Exn (f a).Resp → Except Exn (R a)}
    (own? : CallEvent HandlerAct HandlerAct.Resp Exn →
      Option (CallEvent A R Exn))
    (hown : ∀ a r, own? ⟨f a, r⟩ = some ⟨a, back a r⟩)
    (hback : ∀ e e', own? e = some e' →
      BusCalls.published? e.1 = BusCalls.published? e'.1 ∧
        ∀ x, e'.2 = .ok x → ∃ y, e.2 = .ok y)
    (hallowed : ∀ a r, AnswersOwn (f a) r → AnswersOwn a (back a r))
    (hpublished : ∀ a, (f a).published? = BusCalls.published? a)
    (hack : ∀ a, BusCalls.isAck (f a) = BusCalls.isAck a)
    {p : Delivered → Prog A R Exn Unit} {rejected : Delivered → Calls A R → Prop}
    {done : Delivered → PublishArgs → Calls A R → Prop}
    (hp : Handles p rejected done) {h : EventDelivery}
    (hrejected : ∀ log, rejected h.delivered (log.filterMap own?) →
      d.Refused h log)
    (hdone : ∀ args log, done h.delivered args (log.filterMap own?) →
      d.Done h args log) :
    ((p h.delivered).embed f back).wp (Prog.records AnswersOwn) (Tells d h)
      (fun _ _ => True) [] := by
  refine Prog.wp_weaken ?_ (Prog.wp_embed_records own? hown hallowed
    (h := []) (hp h.delivered))
  intro log b hb
  obtain ⟨a, rfl, hhonest⟩ := hb
  refine ⟨fun args hargs => ?_, fun hacked => ?_⟩
  · rw [hpublished] at hargs
    obtain ⟨hcorrelated, hwork, -⟩ := hhonest.publish args hargs
    exact ⟨hcorrelated, hdone args log hwork⟩
  · rw [hack] at hacked
    rcases hhonest.ack hacked with hrefused | hanswered
    · exact .inl (hrejected log hrefused)
    · obtain ⟨e', he', args, hargs, hcorrelated, x, hx⟩ := hanswered
      obtain ⟨e, he, hsame⟩ := List.mem_filterMap.mp he'
      obtain ⟨hpublishes, hreturned⟩ := hback e e' hsame
      exact .inr ⟨e, he, args, hpublishes.trans hargs, hcorrelated,
        hreturned x hx⟩

theorem fileCall?_back (e : CallEvent HandlerAct HandlerAct.Resp Exn)
    (e' : CallEvent FileAct FileAct.Resp Exn) (h : fileCall? e = some e') :
    BusCalls.published? e.1 = BusCalls.published? e'.1 ∧
      ∀ x, e'.2 = .ok x → ∃ y, e.2 = .ok y := by
  obtain ⟨a, r⟩ := e
  cases a with
  | file a =>
      cases h
      refine ⟨?_, fun x hx => ⟨x, hx⟩⟩
      cases a <;> rfl
  | db a => cases h
  | http a => cases h

theorem dbCall?_back (e : CallEvent HandlerAct HandlerAct.Resp Exn)
    (e' : CallEvent DbAct DbAct.Resp Exn) (h : dbCall? e = some e') :
    BusCalls.published? e.1 = BusCalls.published? e'.1 ∧
      ∀ x, e'.2 = .ok x → ∃ y, e.2 = .ok y := by
  obtain ⟨a, r⟩ := e
  cases a with
  | file a => cases h
  | db a =>
      cases h
      refine ⟨?_, fun x hx => ⟨x, hx⟩⟩
      cases a <;> rfl
  | http a => cases h

theorem httpCall?_back (e : CallEvent HandlerAct HandlerAct.Resp Exn)
    (e' : CallEvent HttpAct HttpAct.Resp Exn) (h : httpCall? e = some e') :
    BusCalls.published? e.1 = BusCalls.published? e'.1 ∧
      ∀ x, e'.2 = .ok x → ∃ y, e.2 = .ok y := by
  obtain ⟨a, r⟩ := e
  cases a with
  | file a => cases h
  | db a => cases h
  | http a =>
      cases h
      refine ⟨?_, fun x hx => ⟨x, hx⟩⟩
      cases a <;> rfl

theorem file_tells {h : EventDelivery} {p : Delivered → FileProg Unit}
    {rejected : Delivered → FileCalls → Prop}
    {done : Delivered → PublishArgs → FileCalls → Prop}
    (hp : Handles p rejected done)
    (hrejected : ∀ log, rejected h.delivered (log.filterMap fileCall?) →
      d.Refused h log)
    (hdone : ∀ args log, done h.delivered args (log.filterMap fileCall?) →
      d.Done h args log) :
    ((p h.delivered).embed HandlerAct.file fun _ r => r).wp
      (Prog.records AnswersOwn) (Tells d h) (fun _ _ => True) [] :=
  embed_tells fileCall? (fun _ _ => rfl) fileCall?_back (fun _ _ hr => hr)
    (fun a => by cases a <;> rfl) (fun _ => rfl) hp hrejected hdone

theorem handle_tells (d : Deployment) (h : EventDelivery) :
    (d.handle h).wp (Prog.records AnswersOwn) (Tells d h)
      (fun _ _ => True) [] := by
  rw [Deployment.handle]
  split
  · next handler hc =>
      cases handler with
      | write =>
          exact file_tells (handles_write d.files)
            (fun log hrefused => by rw [Deployment.Refused, hc]; exact hrefused)
            fun args log hwork => by rw [Deployment.Done, hc]; exact hwork
      | read =>
          exact file_tells (handles_read d.files)
            (fun log hrefused => by rw [Deployment.Refused, hc]; exact hrefused)
            fun args log hwork => by rw [Deployment.Done, hc]; exact hwork
      | delete =>
          exact file_tells (handles_delete d.files)
            (fun log hrefused => by rw [Deployment.Refused, hc]; exact hrefused)
            fun args log hwork => by rw [Deployment.Done, hc]; exact hwork
      | list =>
          exact file_tells (handles_list d.files)
            (fun log hrefused => by rw [Deployment.Refused, hc]; exact hrefused)
            fun args log hwork => by rw [Deployment.Done, hc]; exact hwork
  · next hc =>
      exact embed_tells dbCall? (fun _ _ => rfl) dbCall?_back
        (fun _ _ hr => hr) (fun a => by cases a <;> rfl) (fun _ => rfl)
        handles_orderCreated
        (fun log hrefused => by rw [Deployment.Refused, hc]; exact hrefused)
        fun args log hwork => by rw [Deployment.Done, hc]; exact hwork
  · next i hc =>
      split
      · trivial
      · next self hi =>
          exact embed_tells httpCall? (fun _ _ => rfl) httpCall?_back
            (fun _ _ hr => hr) (fun a => by cases a <;> rfl) (fun _ => rfl)
            (handles_trigger self) (fun log hrefused => hrefused.elim)
            fun args log hwork => by
              rw [Deployment.Done, hc]
              exact ⟨self, hi, hwork⟩

/-! ## The run of the deliveries -/

theorem deliveries_run (h : Reached d acts s) :
    ∃ acts', Run (Tasks.step d.handle) (Tasks.Allows AnswersOwn) {} acts'
      s.deliveries := by
  refine Run.history (I := fun _ s => ∃ acts', Run (Tasks.step d.handle)
    (Tasks.Allows AnswersOwn) {} acts' s.deliveries) ⟨[], .nil _⟩ ?_ h
  intro acts m act t _ ih hcarries hstep
  obtain ⟨acts', hrun⟩ := ih
  cases act with
  | publish call =>
      cases hstep
      exact ⟨acts', hrun⟩
  | deliver h =>
      obtain ⟨-, -, rfl⟩ := step_deliver hstep
      have hallows : Tasks.Allows AnswersOwn m.deliveries (.start h) := trivial
      exact ⟨acts' ++ [.start h], hrun.snoc hallows rfl⟩
  | answer i r done call =>
      obtain ⟨hstep, -⟩ := step_answer hstep
      have hallows : Tasks.Allows AnswersOwn m.deliveries (.answer i r) :=
        hcarries
      exact ⟨acts' ++ [.answer i r], hrun.snoc hallows hstep⟩

/-- A publish that returns has done its work. -/
theorem stored_of_returned {i : ℕ} {r : (a : HandlerAct) → Except Exn a.Resp}
    {done : Bool} {call : Call}
    (h : s.step d (.answer i r done call) = some s') {a : HandlerAct}
    (ha : s.calling i = some a) {x : a.Resp} (hx : r a = .ok x)
    {args : PublishArgs} (hargs : a.published? = some args) :
    ∃ c : Call, c.args = args ∧ (c, some i) ∈ s'.stored := by
  rw [step, Option.bind_eq_some_iff] at h
  obtain ⟨a', ha', h⟩ := h
  obtain rfl : a' = a := Option.some.inj (ha'.symm.trans ha)
  obtain ⟨deliveries, -, rfl⟩ := Option.map_eq_some_iff.mp h
  have hok : (done || (r a').isOk) = true := by
    rw [hx]
    exact Bool.or_true done
  refine ⟨{ call with args := args }, rfl, ?_⟩
  simp only [if_pos hok, worked, hargs]
  exact List.mem_append_right _ (List.mem_singleton_self _)

/-- The stream only grows. -/
theorem stored_step {a : EventBusAct} (h : s.step d a = some s')
    {m : Call × Option ℕ} (hm : m ∈ s.stored) : m ∈ s'.stored := by
  cases a with
  | publish call =>
      cases h
      exact List.mem_append_left _ hm
  | deliver e =>
      obtain ⟨-, -, rfl⟩ := step_deliver h
      exact hm
  | answer i r done call =>
      obtain ⟨-, a, -, hsame | ⟨c, args, -, -, heq⟩⟩ := step_answer h
      · rw [hsame]
        exact hm
      · rw [heq]
        exact List.mem_append_left _ hm

/-- What the run so far leaves of where the messages come from. -/
structure Traced (s : EventBus) : Prop where
  /-- It was published by a call of its delivery. -/
  logged : ∀ c i, (c, some i) ∈ s.stored → ∃ before e after,
    s.deliveries.log = before ++ (i, e) :: after ∧
      e.1.published? = some c.args
  originates : ∀ i h, s.deliveries.subject? i = some h →
    ∃ m, s.stored[h.message]? = some m ∧ m.1.Originates h.event
  /-- It comes after what it answers. -/
  later : ∀ p c i h, s.stored[p]? = some (c, some i) →
    s.deliveries.subject? i = some h → h.message < p
  /-- What was published is there. -/
  kept : ∀ i a x args, (i, ⟨a, .ok x⟩) ∈ s.deliveries.log →
    a.published? = some args → ∃ c : Call, c.args = args ∧
      (c, some i) ∈ s.stored

theorem traced_init : Traced {} where
  logged := fun _ _ h => by cases h
  originates := fun _ _ h => by cases h
  later := fun _ _ _ _ h => by cases h
  kept := fun _ _ _ _ h => by cases h

theorem traced_publish (ht : s.Traced) (call : Call) :
    Traced { s with stored := s.stored ++ [(call, none)] } := by
  refine ⟨fun c i hmem => ?_, fun i h hi => ?_, fun p c i h hp hi => ?_,
    fun i a x args hlog hargs => ?_⟩
  · rcases List.mem_append.mp hmem with hmem | hmem
    · exact ht.logged c i hmem
    · cases List.mem_singleton.mp hmem
  · obtain ⟨m, hm, horiginates⟩ := ht.originates i h hi
    exact ⟨m, stored_append hm, horiginates⟩
  · rcases of_getElem?_concat hp with hp | ⟨-, heq⟩
    · exact ht.later p c i h hp hi
    · cases heq
  · obtain ⟨c, hc, hmem⟩ := ht.kept i a x args hlog hargs
    exact ⟨c, hc, List.mem_append_left _ hmem⟩

theorem traced_deliver (ht : s.Traced) (hs : s.Sound d) {h : EventDelivery}
    (hcarries : s.Carries (.deliver h))
    (hstep : s.step d (.deliver h) = some s') : s'.Traced := by
  obtain ⟨-, -, rfl⟩ := step_deliver hstep
  have hcases : ∀ i h', Tasks.subject? { s.deliveries with
        started := s.deliveries.started ++ [(h, d.handle h)] } i = some h' →
      s.deliveries.subject? i = some h' ∨
        i = s.deliveries.started.length ∧ h' = h := by
    intro i h' hi
    obtain ⟨p, hget⟩ := Tasks.subject?_eq.mp hi
    rcases of_getElem?_concat hget with hold | ⟨rfl, heq⟩
    · exact .inl (Tasks.subject?_eq.mpr ⟨p, hold⟩)
    · cases heq
      exact .inr ⟨rfl, rfl⟩
  refine ⟨ht.logged, fun i h' hi => ?_, fun p c i h' hp hi => ?_, ht.kept⟩
  · rcases hcases i h' hi with hold | ⟨-, rfl⟩
    · exact ht.originates i h' hold
    · exact hcarries
  · rcases hcases i h' hi with hold | ⟨rfl, -⟩
    · exact ht.later p c i h' hp hold
    · have hmem : s.deliveries.started.length ∈ s.origins :=
        List.mem_filterMap.mpr ⟨_, List.mem_of_getElem? hp, rfl⟩
      exact absurd (hs.origin_lt hmem) (Nat.lt_irrefl _)

theorem traced_answer (ht : s.Traced) {i : ℕ}
    {r : (a : HandlerAct) → Except Exn a.Resp} {done : Bool} {call : Call}
    (h : s.step d (.answer i r done call) = some s') : s'.Traced := by
  obtain ⟨hstep, a, hcalling, hstored⟩ := step_answer h
  have hsubject := Tasks.subject?_answer hstep
  have hreturned := fun {x} => stored_of_returned h hcalling (x := x)
  have hmore := fun {m} => stored_step h (m := m)
  obtain ⟨h, a', k, hget, -, hlog⟩ := Tasks.step_answer hstep
  obtain rfl : a' = a := by
    obtain ⟨h', k', hget'⟩ := calling_eq.mp hcalling
    rw [hget] at hget'
    cases hget'
    rfl
  have hkept : ∀ c j, (c, some j) ∈ s.stored → ∃ before e after,
      s'.deliveries.log = before ++ (j, e) :: after ∧
        e.1.published? = some c.args := by
    intro c j hmem
    obtain ⟨before, e, after, heq, hpublished⟩ := ht.logged c j hmem
    refine ⟨before, e, after ++ [(i, ⟨a', r a'⟩)], ?_, hpublished⟩
    rw [hlog, heq, List.append_assoc, List.cons_append]
  have hpublished : ∀ j b x args, (j, ⟨b, .ok x⟩) ∈ s'.deliveries.log →
      b.published? = some args → ∃ c : Call, c.args = args ∧
        (c, some j) ∈ s'.stored := by
    intro j b x args hmem hargs
    rw [hlog] at hmem
    rcases List.mem_append.mp hmem with hmem | hmem
    · obtain ⟨c, hc, hmem⟩ := ht.kept j b x args hmem hargs
      exact ⟨c, hc, hmore hmem⟩
    · obtain ⟨rfl, heq⟩ := Prod.mk.inj (List.mem_singleton.mp hmem)
      obtain ⟨rfl, hr⟩ := Sigma.mk.inj heq
      exact hreturned (eq_of_heq hr).symm hargs
  rcases hstored with hsame | ⟨c, args, hargs, rfl, heq⟩
  · refine ⟨fun c j hmem => ?_, fun j h' hj => ?_, fun p c j h' hp hj => ?_,
      hpublished⟩
    · rw [hsame] at hmem
      exact hkept c j hmem
    · rw [hsubject] at hj
      rw [hsame]
      exact ht.originates j h' hj
    · rw [hsame] at hp
      rw [hsubject] at hj
      exact ht.later p c j h' hp hj
  · refine ⟨fun c' j hmem => ?_, fun j h' hj => ?_, fun p c' j h' hp hj => ?_,
      hpublished⟩
    · rw [heq] at hmem
      rcases List.mem_append.mp hmem with hmem | hmem
      · exact hkept c' j hmem
      · cases List.mem_singleton.mp hmem
        exact ⟨s.deliveries.log, _, [], hlog, hargs⟩
    · rw [hsubject] at hj
      obtain ⟨m, hm, horiginates⟩ := ht.originates j h' hj
      exact ⟨m, by rw [heq]; exact stored_append hm, horiginates⟩
    · rw [heq] at hp
      rw [hsubject] at hj
      rcases of_getElem?_concat hp with hp | ⟨rfl, hlast⟩
      · exact ht.later p c' j h' hp hj
      · obtain ⟨m, hm, -⟩ := ht.originates j h' hj
        exact (List.getElem?_eq_some_iff.mp hm).1

theorem traced_of_reached (h : Reached d acts s) : s.Traced := by
  refine Run.history (I := fun _ s => s.Traced) traced_init ?_ h
  intro acts m act t hrun ht hcarries hstep
  cases act with
  | publish call =>
      cases hstep
      exact traced_publish ht call
  | deliver h => exact traced_deliver ht (sound_of_reached hrun) hcarries hstep
  | answer i r done call => exact traced_answer ht hstep

/-! ## What a message answers -/

theorem answers_of_stored (h : Reached d acts s) {p : ℕ} {c : Call} {i : ℕ}
    (hp : s.stored[p]? = some (c, some i)) : ∃ h q, q < p ∧
      s.AnswersBy d h p q := by
  have hs := sound_of_reached h
  have ht := traced_of_reached h
  have hmem := List.mem_of_getElem? hp
  obtain ⟨h', hi, -⟩ := hs.origin c i hmem
  obtain ⟨m, hm, horiginates⟩ := ht.originates i h' hi
  obtain ⟨m', hm', hlistens⟩ := hs.delivered i h' hi
  rw [hm] at hm'
  cases hm'
  obtain ⟨before, e, after, hlog, hpublished⟩ := ht.logged c i hmem
  obtain ⟨acts', hrun⟩ := deliveries_run h
  obtain ⟨h'', hi', htells⟩ := Tasks.logged_ok (handle_tells d) hrun hlog
  rw [hi] at hi'
  cases hi'
  obtain ⟨hcorrelated, hwork⟩ := htells.publish c.args hpublished
  have heventId : m.1.eventId = h'.event.details.eventId :=
    horiginates.2.2.2.2.2
  refine ⟨h', h'.message, ht.later p c i h' hp hi, rfl, c, i, hp, hi,
    ⟨m, hm, horiginates, hlistens, ?_⟩, Tasks.own i before, ?_, hwork⟩
  · rw [heventId]
    exact hcorrelated
  · rw [hlog, Tasks.own_append]
    exact List.prefix_append _ _

/-- A delivery that is acked was refused, or what it was answered with is
there. -/
theorem refused_or_stored (h : Reached d acts s)
    {before after : List (ℕ × CallEvent HandlerAct HandlerAct.Resp Exn)}
    {i : ℕ} {e : CallEvent HandlerAct HandlerAct.Resp Exn}
    (hlog : s.deliveries.log = before ++ (i, e) :: after)
    (hack : BusCalls.isAck e.1 = true) : ∃ h,
      s.deliveries.subject? i = some h ∧
        (d.Refused h (Tasks.own i before) ∨ ∃ c : Call,
          c.args.correlationId = some h.event.details.eventId ∧
            (c, some i) ∈ s.stored) := by
  obtain ⟨acts', hrun⟩ := deliveries_run h
  obtain ⟨h', hi, htells⟩ := Tasks.logged_ok (handle_tells d) hrun hlog
  refine ⟨h', hi, ?_⟩
  rcases htells.ack hack with hrefused | hanswered
  · exact .inl hrefused
  · obtain ⟨⟨a, r⟩, he, args, hargs, hcorrelated, x, hx⟩ := hanswered
    cases r with
    | error e => cases hx
    | ok y =>
        have hmem : (i, ⟨a, .ok y⟩) ∈ s.deliveries.log := by
          rw [hlog]
          exact List.mem_append_left _ (mem_own.mp he)
        obtain ⟨c, rfl, hc⟩ := (traced_of_reached h).kept i a y args hmem hargs
        exact .inr ⟨c, hcorrelated, hc⟩

/-- What a message answers ranks above it, if the deployment is calm. -/
theorem rank_of_answers (hcalm : Calm d) (hs : s.Sound d) {p q : ℕ}
    (h : s.Answers d p q) : ∃ m m', s.stored[p]? = some m ∧
      s.stored[q]? = some m' ∧ rank m.1 < rank m'.1 := by
  obtain ⟨h, -, c, i, hp, hi, ⟨m, hm, -, hlistens, -⟩, -⟩ := h
  obtain ⟨h', hi', hresult⟩ := hs.origin c i (List.mem_of_getElem? hp)
  rw [hi] at hi'
  cases hi'
  exact ⟨(c, some i), m, hp, hm, rank_lt hcalm hlistens hresult⟩

theorem fromOutside_or_answers (h : Reached d acts s) {p : ℕ}
    (hp : p < s.stored.length) :
    s.FromOutside p ∨ ∃ q, q < p ∧ s.Answers d p q := by
  obtain ⟨⟨c, origin⟩, hget⟩ : ∃ m, s.stored[p]? = some m :=
    ⟨_, List.getElem?_eq_getElem hp⟩
  cases origin with
  | none => exact .inl ⟨c, hget⟩
  | some i =>
      obtain ⟨h', q, hlt, hanswers⟩ := answers_of_stored h hget
      exact .inr ⟨q, hlt, h', hanswers⟩

/-- From any message the correlation ids lead to one from outside, and in a
calm deployment they are two at most. -/
theorem traced (h : Reached d acts s) {p : ℕ} (hp : p < s.stored.length) :
    (∃ q, s.FromOutside q ∧ Relation.ReflTransGen (s.Answers d) p q) ∧
    (Calm d → s.FromOutside p ∨ ∃ q, s.Answers d p q ∧
      (s.FromOutside q ∨ ∃ r, s.Answers d q r ∧ s.FromOutside r)) := by
  constructor
  · induction p using Nat.strong_induction_on with
    | _ p ih =>
        rcases fromOutside_or_answers h hp with hout | ⟨q, hlt, hanswers⟩
        · exact ⟨p, hout, .refl⟩
        · obtain ⟨r, hout, hchain⟩ := ih q hlt (by omega)
          exact ⟨r, hout, .head hanswers hchain⟩
  · intro hcalm
    have hs := sound_of_reached h
    rcases fromOutside_or_answers h hp with hout | ⟨q, hq, hpq⟩
    · exact .inl hout
    · rcases fromOutside_or_answers h (p := q) (by omega) with
        hout | ⟨r, hr, hqr⟩
      · exact .inr ⟨q, hpq, .inl hout⟩
      · rcases fromOutside_or_answers h (p := r) (by omega) with
          hout | ⟨t, -, hrt⟩
        · exact .inr ⟨q, hpq, .inr ⟨r, hqr, hout⟩⟩
        · -- three answers would need four ranks
          obtain ⟨m, m', hm, hm', hlt⟩ := rank_of_answers hcalm hs hpq
          obtain ⟨n, n', hn, hn', hlt'⟩ := rank_of_answers hcalm hs hqr
          obtain ⟨o, o', ho, ho', hlt''⟩ := rank_of_answers hcalm hs hrt
          rw [hm'] at hn
          rw [hn'] at ho
          cases hn
          cases ho
          have hle := rank_le o'.1
          omega

/-! ## An order -/

/-- A delivery may be answered to its end. -/
theorem played {r : (a : HandlerAct) → Except Exn a.Resp}
    (hr : ∀ a, AnswersOwn a (r a)) (call : Call) {i : ℕ} {h : EventDelivery}
    (p : HandlerProg Unit) : ∀ {s : EventBus},
    s.deliveries.started[i]? = some (h, p) →
      ∃ acts s', Run (step d) Carries s acts s' ∧
        (∀ a ∈ acts, a = .answer i r false call) ∧
        (∀ e ∈ s.deliveries.log, e ∈ s'.deliveries.log) ∧
        ∀ e ∈ p.transcript r, (i, e) ∈ s'.deliveries.log := by
  induction p with
  | pure a =>
      exact fun _ => ⟨[], _, .nil _, fun _ ha => (by cases ha),
        fun _ he => he, fun _ he => by cases he⟩
  | raise e =>
      exact fun _ => ⟨[], _, .nil _, fun _ ha => (by cases ha),
        fun _ he => he, fun _ he => by cases he⟩
  | call a k ih =>
      intro s hget
      have hanswered : ∃ s₁, s.step d (.answer i r false call) = some s₁ := by
        rw [step, calling, hget, Option.bind_some, Tasks.step, hget]
        exact ⟨_, rfl⟩
      obtain ⟨s₁, hstep⟩ := hanswered
      have htasks := (step_answer hstep).1
      obtain ⟨h', a', k', hget', hstarted, hlog⟩ := Tasks.step_answer htasks
      rw [hget] at hget'
      cases hget'
      obtain ⟨hlt, -⟩ := List.getElem?_eq_some_iff.mp hget
      have hnext : s₁.deliveries.started[i]? = some (h, k (r a)) := by
        rw [hstarted, List.getElem?_set_self hlt]
      obtain ⟨acts, s', hrun, hacts, hmore, hcalls⟩ := ih (r a) hnext
      refine ⟨.answer i r false call :: acts, s', .cons hr hstep hrun,
        fun b hb => ?_, fun e he => hmore e ?_, fun e he => ?_⟩
      · rcases List.mem_cons.mp hb with rfl | hb
        · rfl
        · exact hacts b hb
      · rw [hlog]
        exact List.mem_append_left _ he
      · rcases List.mem_cons.mp he with rfl | he
        · refine hmore _ ?_
          rw [hlog]
          exact List.mem_append_right _ (List.mem_singleton_self _)
        · exact hcalls e he

def orderDeployment : Deployment := ⟨Sample.fileAdapter, []⟩

def teaDelivery : EventDelivery where
  consumer := .orders
  message := 0
  event := OrderFlow.teaDelivered.event
  occurredAt := Sample.newYearText

theorem transcript_teaDelivery :
    ⟨.db (.publish (orderPersisted OrderFlow.teaRequest.orderId
      Sample.newYearText OrderFlow.teaCall.eventId)), .ok ()⟩ ∈
        (orderDeployment.handle teaDelivery).transcript obliging := by
  obtain ⟨k, k', hupsert, hpublish⟩ := OrderFlow.teaDelivered_program
  have hprogram : orderDeployment.handle teaDelivery =
      (handleDelivered OrderFlow.teaDelivered).embed .db fun _ r => r := by
    rw [Deployment.handle]
    rfl
  rw [hprogram, hupsert]
  refine List.mem_cons_of_mem _ ?_
  show _ ∈ ((k (.ok ())).embed HandlerAct.db fun _ r => r).transcript obliging
  rw [hpublish]
  exact List.mem_cons_self

theorem delivered_tea : ∃ s, Reached orderDeployment
    [.publish OrderFlow.teaCall, .deliver teaDelivery] s ∧
      s.deliveries.started[0]? =
        some (teaDelivery, orderDeployment.handle teaDelivery) := by
  refine ⟨_, .cons trivial rfl (.cons ?_ rfl (.nil _)), rfl⟩
  exact ⟨_, rfl, rfl, rfl, rfl, rfl, rfl, rfl⟩

/-- An order is published, delivered, upserted and answered. -/
theorem answered_tea : ∃ acts, ∃ (s : EventBus) (c : Call) (p : ℕ),
    Reached orderDeployment acts s ∧ s.stored[p]? = some (c, some 0) ∧
    ∀ call, .publish call ∈ acts → call = OrderFlow.teaCall := by
  obtain ⟨s, hrun, hstarted⟩ := delivered_tea
  obtain ⟨acts, s', hplayed, hacts, -, hcalls⟩ :=
    played obliging_own OrderFlow.teaCall _ hstarted
  have hreached := Run.append hrun hplayed
  obtain ⟨c, -, hmem⟩ := (traced_of_reached hreached).kept 0 _ _ _
    (hcalls _ transcript_teaDelivery) rfl
  obtain ⟨p, hp⟩ := List.getElem?_of_mem hmem
  refine ⟨_, s', c, p, hreached, hp, fun call hcall => ?_⟩
  rcases List.mem_append.mp hcall with hcall | hcall
  · simpa using hcall
  · cases hacts _ hcall

theorem traced_tea : ∃ acts s c p, Reached orderDeployment acts s ∧
    s.stored[p]? = some (c, some 0) ∧ ∃ q, s.FromOutside q ∧
      Relation.ReflTransGen (s.Answers orderDeployment) p q := by
  obtain ⟨acts, s, c, p, hreached, hp, -⟩ := answered_tea
  obtain ⟨hlt, -⟩ := List.getElem?_eq_some_iff.mp hp
  exact ⟨acts, s, c, p, hreached, hp, (traced hreached hlt).1⟩

end EventBus

end JetCore
