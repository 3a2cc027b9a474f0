import JetCore.Proofs.EventTrace
import JetCore.Proofs.Webhook
import JetCore.Spec.WebhookFlow

/-!
# What a webhook comes to

A caller who gets a 202 knows the secret, and its path and body are on the
stream, or are taken for a duplicate of what is there under the same key. And
whatever the write handler reports, however often a message is delivered, is
the body of such a request, written to a file under `watch_dir` to which the
path led. What it acks it has reported, unless the path leaves `watch_dir`.
-/

namespace JetCore

open Lib

namespace WebhookFlow

variable {d : Deployment} {expectedSecret : String} {s s' : WebhookFlow}
  {acts : List WebhookFlowAct}

/-! ## One request -/

theorem secret_of_admitted {header : Option String}
    (h : admitted expectedSecret header = .ok true) :
    header = some expectedSecret := by
  cases header with
  | none => cases h
  | some header =>
      rw [admitted, compareDigest] at h
      split at h
      · have heq := Except.ok.inj h
        rw [eq_of_beq heq]
      · cases h

/-- What a request that is served may call. -/
def Serves (expectedSecret : String) (r : WebhookRequest)
    (log : List (CallEvent WebhookAct WebhookAct.Resp Exn))
    (a : WebhookAct) : Prop :=
  ∀ args, a = .publish args → Admitted expectedSecret r ∧
    ∃ body, ⟨.body, .ok body⟩ ∈ log ∧ args = fileWriteRequested r body

/-- What a 202 means. -/
def Accepted (expectedSecret : String) (r : WebhookRequest)
    (log : List (CallEvent WebhookAct WebhookAct.Resp Exn))
    (statusCode : Except Exn ℕ) : Prop :=
  statusCode = .ok 202 → Admitted expectedSecret r ∧
    ∃ body eventId, ⟨.body, .ok body⟩ ∈ log ∧
      ⟨.publish (fileWriteRequested r body), .ok eventId⟩ ∈ log

theorem receiveWebhook_serves (expectedSecret : String) (r : WebhookRequest) :
    (receiveWebhook expectedSecret r).wp (Prog.records fun _ _ => True)
      (Serves expectedSecret r)
      (fun statusCode log => Accepted expectedSecret r log statusCode) [] := by
  rw [receiveWebhook]
  refine Prog.wp_bind.mpr ((Prog.wp_ofExcept _ _ _).mpr ?_)
  cases hadmitted : admitted expectedSecret r.webhookSecret with
  | error e => exact fun h => by cases h
  | ok known =>
      cases known with
      | false => exact fun h => by cases h
      | true =>
          show Prog.wp _ _ (if r.path = "" then _ else _ : WebhookProg ℕ) _ _
          split
          · exact fun h => by cases h
          · next hpath =>
              have hok : Admitted expectedSecret r :=
                ⟨secret_of_admitted hadmitted, hpath⟩
              refine Prog.wp_bind.mpr (Prog.wp_act.mpr
                ⟨(fun args hargs => by cases hargs), ?_⟩)
              intro body log hbody
              obtain ⟨-, rfl⟩ := hbody
              cases body with
              | error e => exact fun h => by cases h
              | ok body =>
                  refine Prog.wp_bind.mpr (Prog.wp_act.mpr ⟨?_, ?_⟩)
                  · intro args hargs
                    cases hargs
                    exact ⟨hok, body, List.mem_cons_self, rfl⟩
                  · intro eventId log hpublish
                    obtain ⟨-, rfl⟩ := hpublish
                    cases eventId with
                    | error e => exact fun h => by cases h
                    | ok eventId =>
                        exact fun _ => ⟨hok, body, eventId, by simp, by simp⟩

/-! ## The runs of the two -/

theorem step_request {r : WebhookRequest}
    (h : s.step d expectedSecret (.request r) = some s') :
    s.listener.step (receiveWebhook expectedSecret) (.start r) =
      some s'.listener ∧ s'.bus = s.bus ∧
      s'.listener.log = s.listener.log := by
  rw [step] at h
  obtain ⟨listener, hstep, rfl⟩ := Option.map_eq_some_iff.mp h
  refine ⟨hstep, rfl, ?_⟩
  cases hstep
  rfl

theorem step_answer {task : ℕ} {r : (a : WebhookAct) → Except Exn a.Resp}
    {stored : Bool} {call : Call}
    (h : s.step d expectedSecret (.answer task r stored call) = some s') :
    ∃ a, s.calling task = some a ∧ s.listener.step
        (receiveWebhook expectedSecret) (.answer task r) = some s'.listener ∧
      s'.listener.log = s.listener.log ++ [(task, ⟨a, r a⟩)] ∧
      s'.bus = if stored then s.store (a.published call) else s.bus := by
  rw [step, Option.bind_eq_some_iff] at h
  obtain ⟨a, hcalling, h⟩ := h
  obtain ⟨listener, hstep, rfl⟩ := Option.map_eq_some_iff.mp h
  obtain ⟨rq, a', k, hget, -, hlog⟩ := Tasks.step_answer hstep
  have hsame : a' = a := by
    rw [calling, hget] at hcalling
    exact Option.some.inj hcalling
  subst hsame
  exact ⟨a', hcalling, hstep, hlog, rfl⟩

theorem step_other {a : EventBusAct}
    (h : s.step d expectedSecret (.other a) = some s') :
    a.asksForWrite = false ∧ s.bus.step d a = some s'.bus ∧
      s'.listener = s.listener := by
  rw [step] at h
  split at h
  · cases h
  · next hasks =>
      obtain ⟨bus, hstep, rfl⟩ := Option.map_eq_some_iff.mp h
      exact ⟨Bool.eq_false_iff.mpr hasks, hstep, rfl⟩

theorem listener_run (h : Reached d expectedSecret acts s) :
    ∃ acts', Run (Tasks.step (receiveWebhook expectedSecret))
      (Tasks.Allows fun _ _ => True) {} acts' s.listener := by
  refine Run.history (I := fun _ s => ∃ acts',
    Run (Tasks.step (receiveWebhook expectedSecret))
      (Tasks.Allows fun _ _ => True) {} acts' s.listener) ⟨[], .nil _⟩ ?_ h
  intro acts m act t _ ih _ hstep
  obtain ⟨acts', hrun⟩ := ih
  cases act with
  | request r =>
      obtain ⟨hlistener, -, -⟩ := step_request hstep
      have hallows : Tasks.Allows (fun _ _ => True) m.listener (.start r) :=
        trivial
      exact ⟨acts' ++ [.start r], hrun.snoc hallows hlistener⟩
  | answer task r stored call =>
      obtain ⟨a, -, hlistener, -⟩ := step_answer hstep
      have hallows : Tasks.Allows (fun _ _ => True) m.listener
          (.answer task r) := fun _ => trivial
      exact ⟨acts' ++ [.answer task r], hrun.snoc hallows hlistener⟩
  | other a =>
      obtain ⟨-, -, hsame⟩ := step_other hstep
      exact ⟨acts', by rw [hsame]; exact hrun⟩

theorem bus_run (h : Reached d expectedSecret acts s) :
    ∃ acts', EventBus.Reached d acts' s.bus := by
  have hinit : EventBus.Reached d [] {} := .nil _
  refine Run.history (I := fun _ s => ∃ acts', EventBus.Reached d acts' s.bus)
    ⟨[], hinit⟩ ?_ h
  intro acts m act t _ ih hcarries hstep
  obtain ⟨acts', hrun⟩ := ih
  cases act with
  | request r =>
      obtain ⟨-, hsame, -⟩ := step_request hstep
      exact ⟨acts', by rw [hsame]; exact hrun⟩
  | answer task r stored call =>
      obtain ⟨a, -, -, -, hbus⟩ := step_answer hstep
      cases stored with
      | false => exact ⟨acts', by rw [hbus]; exact hrun⟩
      | true =>
          rw [if_pos rfl] at hbus
          cases a with
          | body =>
              rw [store, WebhookAct.published, List.map_nil,
                List.append_nil] at hbus
              exact ⟨acts', by rw [hbus]; exact hrun⟩
          | publish args =>
              have hcarries : m.bus.Carries
                (.publish { call with args := args }) := trivial
              exact ⟨acts' ++ [.publish { call with args := args }],
                by rw [hbus]; exact Run.snoc hrun hcarries rfl⟩
  | other a =>
      obtain ⟨-, hbus, -⟩ := step_other hstep
      exact ⟨acts' ++ [a], Run.snoc hrun hcarries hbus⟩

/-! ## What is on the stream -/

/-- The stream only grows. -/
theorem stored_step {a : WebhookFlowAct}
    (h : s.step d expectedSecret a = some s') {m : Call × Option ℕ}
    (hm : m ∈ s.bus.stored) : m ∈ s'.bus.stored := by
  cases a with
  | request r =>
      obtain ⟨-, hsame, -⟩ := step_request h
      rw [hsame]
      exact hm
  | answer task r stored call =>
      obtain ⟨a, -, -, -, hbus⟩ := step_answer h
      rw [hbus]
      split
      · exact List.mem_append_left _ hm
      · exact hm
  | other a =>
      obtain ⟨-, hbus, -⟩ := step_other h
      exact EventBus.stored_step hbus hm

/-- The stream and the listener's calls agree. -/
structure Agree (s : WebhookFlow) : Prop where
  /-- A message that asks for a file to be written was published by a call. -/
  called : ∀ c, (c, none) ∈ s.bus.stored →
    c.args.subject = writeRequestedSubject →
      ∃ task r, (task, ⟨.publish c.args, r⟩) ∈ s.listener.log
  kept : ∀ task args eventId,
    (task, ⟨.publish args, .ok eventId⟩) ∈ s.listener.log →
      s.OnStream args eventId

theorem OnStream.step {a : WebhookFlowAct}
    (hstep : s.step d expectedSecret a = some s') {args : PublishArgs}
    {eventId : String} (h : s.OnStream args eventId) :
    s'.OnStream args eventId := by
  rcases h with ⟨c, hc, heq⟩ | ⟨hkey, m, hm, heq⟩
  · exact .inl ⟨c, stored_step hstep hc, heq⟩
  · exact .inr ⟨hkey, m, stored_step hstep hm, heq⟩

theorem agree_of_reached (h : Reached d expectedSecret acts s) : s.Agree := by
  refine Run.history (I := fun _ s => s.Agree)
    ⟨(fun _ h => by cases h), (fun _ _ _ h => by cases h)⟩ ?_ h
  intro acts m act t _ ih hcarries hstep
  cases act with
  | request r =>
      obtain ⟨-, hbus, hlog⟩ := step_request hstep
      refine ⟨fun c hc hsubject => ?_, fun task args eventId hcall => ?_⟩
      · rw [hbus] at hc
        rw [hlog]
        exact ih.called c hc hsubject
      · rw [hlog] at hcall
        exact (ih.kept task args eventId hcall).step hstep
  | answer task r stored call =>
      obtain ⟨a, -, -, hlog, hbus⟩ := step_answer hstep
      refine ⟨fun c hc hsubject => ?_, fun task' args eventId hcall => ?_⟩
      · have hnew : (c, none) ∈ m.bus.stored ∨ a = .publish c.args := by
          rw [hbus] at hc
          split at hc
          · rcases List.mem_append.mp hc with hc | hc
            · exact .inl hc
            · cases a with
              | body => cases hc
              | publish args =>
                  cases List.mem_singleton.mp hc
                  exact .inr rfl
          · exact .inl hc
        rw [hlog]
        rcases hnew with hold | rfl
        · obtain ⟨task', r', hcalled⟩ := ih.called c hold hsubject
          exact ⟨task', r', List.mem_append_left _ hcalled⟩
        · exact ⟨task, r _, List.mem_append_right _
            (List.mem_singleton_self _)⟩
      · rw [hlog] at hcall
        rcases List.mem_append.mp hcall with hcall | hcall
        · exact (ih.kept task' args eventId hcall).step hstep
        · obtain ⟨-, heq⟩ := Prod.mk.inj (List.mem_singleton.mp hcall)
          obtain ⟨rfl, hr⟩ := Sigma.mk.inj heq
          have hreturned := (eq_of_heq hr).symm
          rcases hcarries args eventId hreturned with ⟨rfl, rfl⟩ | hdup
          · rw [if_pos rfl] at hbus
            refine .inl ⟨{ call with args := args }, ?_, rfl, rfl⟩
            rw [hbus]
            exact List.mem_append_right _ (List.mem_singleton_self _)
          · exact OnStream.step hstep (.inr hdup)
  | other a =>
      obtain ⟨hasks, hbus, hsame⟩ := step_other hstep
      refine ⟨fun c hc hsubject => ?_, fun task args eventId hcall => ?_⟩
      · rw [hsame]
        refine ih.called c ?_ hsubject
        cases a with
        | publish call =>
            rw [← Option.some.inj hbus] at hc
            rcases List.mem_append.mp hc with hc | hc
            · exact hc
            · cases List.mem_singleton.mp hc
              exact absurd hsubject (of_decide_eq_false hasks)
        | deliver e =>
            obtain ⟨-, -, heq⟩ := EventBus.step_deliver hbus
            rw [heq] at hc
            exact hc
        | answer i r done call =>
            obtain ⟨-, a, -, heq | ⟨c', args, -, -, heq⟩⟩ :=
              EventBus.step_answer hbus
            · rw [heq] at hc
              exact hc
            · rw [heq] at hc
              rcases List.mem_append.mp hc with hc | hc
              · exact hc
              · cases List.mem_singleton.mp hc
      · rw [hsame] at hcall
        exact (ih.kept task args eventId hcall).step hstep

theorem asked_of_logged (h : Reached d expectedSecret acts s) {task : ℕ}
    {args : PublishArgs} {eventId : Except Exn String}
    (hmem : (task, ⟨.publish args, eventId⟩) ∈ s.listener.log) :
    ∃ r body, s.Asked expectedSecret task r body ∧
      args = fileWriteRequested r body := by
  obtain ⟨acts', hrun⟩ := listener_run h
  obtain ⟨before, after, hlog⟩ := List.append_of_mem hmem
  obtain ⟨r, hr, hserves⟩ := Tasks.logged_ok
    (fun r => Prog.wp_mono (fun _ _ _ => trivial)
      (receiveWebhook_serves expectedSecret r)) hrun hlog
  obtain ⟨hadmitted, body, hread, rfl⟩ := hserves args rfl
  refine ⟨r, body, ⟨hadmitted, hr, ?_⟩, rfl⟩
  rw [hlog]
  exact List.mem_append_left _ (mem_own.mp hread)

/-- No consumer answers by asking for a file to be written. -/
theorem results_ne {consumer : EventConsumer} {subject : String}
    (h : subject ∈ EventBus.results consumer) :
    subject ≠ writeRequestedSubject := by
  rintro rfl
  cases consumer with
  | file handler => cases handler <;> revert h <;> decide
  | orders => exact absurd (List.mem_singleton.mp h) (by decide)
  | trigger i => exact absurd (List.mem_singleton.mp h) (by decide)

/-- What the write handler is handed is what the listener made of a request,
and it reads the request's path and body there. -/
theorem requests_of_delivered (h : Reached d expectedSecret acts s) {i : ℕ}
    {e : EventDelivery} (hi : s.bus.deliveries.subject? i = some e)
    (hc : e.consumer = .file .write) :
    ∃ r body m, s.Requests expectedSecret e r body m ∧
      m.eventId = e.event.details.eventId ∧
      decodeWriteRequested e.event.payload =
        .ok ⟨Text.ofString r.path, body⟩ := by
  obtain ⟨acts', hbus⟩ := bus_run h
  have hs := EventBus.sound_of_reached hbus
  have ht := EventBus.traced_of_reached hbus
  obtain ⟨⟨m, origin⟩, hm, hsubject⟩ := hs.delivered i e hi
  obtain ⟨m', hm', horiginates⟩ := ht.originates i e hi
  obtain rfl : (m, origin) = m' := Option.some.inj (hm.symm.trans hm')
  rw [hc] at hsubject
  have hwrite : m.args.subject = writeRequestedSubject :=
    (Option.some.inj hsubject).symm
  cases origin with
  | some j =>
      obtain ⟨e', -, hresult⟩ := hs.origin m j (List.mem_of_getElem? hm)
      exact absurd hwrite (results_ne hresult)
  | none =>
      obtain ⟨task, r', hlog⟩ := (agree_of_reached h).called m
        (List.mem_of_getElem? hm) hwrite
      obtain ⟨r, body, hasked, hargs⟩ := asked_of_logged h hlog
      obtain ⟨-, -, hpayload, -, -, heventId⟩ := horiginates
      refine ⟨r, body, m, ⟨hm, hargs, task, hasked⟩, heventId, ?_⟩
      rw [← hpayload, hargs, fileWriteRequested_payload]
      exact decodeWriteRequested_writeRequest hasked.admitted.path body

/-! ## What becomes of requests -/

theorem accepted_of_reached (h : Reached d expectedSecret acts s) {task : ℕ}
    {r : WebhookRequest}
    (hget : s.listener.started[task]? = some (r, .pure 202)) :
    ∃ body eventId, s.Asked expectedSecret task r body ∧
      s.OnStream (fileWriteRequested r body) eventId := by
  obtain ⟨acts', hrun⟩ := listener_run h
  have haccepted := Prog.wp_steps (Tasks.steps_of_run hrun hget)
    (receiveWebhook_serves expectedSecret r)
  obtain ⟨hadmitted, body, eventId, hread, hpublish⟩ := haccepted rfl
  exact ⟨body, eventId,
    ⟨hadmitted, Tasks.subject?_eq.mpr ⟨_, hget⟩, mem_own.mp hread⟩,
    (agree_of_reached h).kept task _ eventId (mem_own.mp hpublish)⟩

theorem resolved_mono {root target : PosixPath} {path : Text}
    {log log' : FileCalls} (hsub : ∀ e ∈ log, e ∈ log')
    (h : Resolved root path target log) : Resolved root path target log' := by
  obtain ⟨hrelative, rootResolved, hroot, htarget, hwithin⟩ := h
  exact ⟨hrelative, rootResolved, hsub _ hroot, hsub _ htarget, hwithin⟩

theorem written_of_reached (h : Reached d expectedSecret acts s) {c : Call}
    {i : ℕ} {e : EventDelivery} (hmem : (c, some i) ∈ s.bus.stored)
    (hi : s.bus.deliveries.subject? i = some e)
    (hc : e.consumer = .file .write) :
    ∃ r body m, s.Requests expectedSecret e r body m ∧
      c.args.correlationId = some m.eventId ∧
      Wrote d.files r body e c.args (fileCalls s.bus.deliveries.log i) := by
  obtain ⟨acts', hbus⟩ := bus_run h
  obtain ⟨p, hp⟩ := List.getElem?_of_mem hmem
  obtain ⟨e', q, -, hanswers⟩ := EventBus.answers_of_stored hbus hp
  obtain ⟨hq, c', i', hp', hi', ⟨m', hm', -, -, hcorrelated⟩, calls, hprefix,
    hdone⟩ := hanswers
  rw [hp] at hp'
  cases hp'
  rw [hi] at hi'
  cases hi'
  obtain ⟨r, body, m, hrequests, -, hdecode⟩ := requests_of_delivered h hi hc
  rw [← hq, hrequests.stored] at hm'
  cases hm'
  rw [Deployment.Done, hc] at hdone
  obtain ⟨request, target, file, hdecode', hresolved, hwrites, hpayload⟩ :=
    hdone
  have hrequest : request = ⟨Text.ofString r.path, body⟩ :=
    Except.ok.inj (hdecode'.symm.trans hdecode)
  subst hrequest
  have hcalls := hprefix.sublist.filterMap fileCall?
  exact ⟨r, body, m, hrequests, hcorrelated, target, file,
    resolved_mono (fun _ he => hcalls.subset he) hresolved,
    hwrites.trans hcalls, hpayload⟩

theorem acked_of_reached (h : Reached d expectedSecret acts s)
    {before after : List (ℕ × CallEvent HandlerAct HandlerAct.Resp Exn)}
    {i : ℕ} {a : CallEvent HandlerAct HandlerAct.Resp Exn}
    (hlog : s.bus.deliveries.log = before ++ (i, a) :: after)
    (hack : BusCalls.isAck a.1 = true) {e : EventDelivery}
    (hi : s.bus.deliveries.subject? i = some e)
    (hc : e.consumer = .file .write) :
    ∃ r body m, s.Requests expectedSecret e r body m ∧
      (Escapes d.files.watchDir (Text.ofString r.path) (fileCalls before i) ∨
        ∃ c : Call, (c, some i) ∈ s.bus.stored ∧
          c.args.correlationId = some m.eventId) := by
  obtain ⟨acts', hbus⟩ := bus_run h
  obtain ⟨e', hi', hwhy⟩ := EventBus.refused_or_stored hbus hlog hack
  rw [hi] at hi'
  cases hi'
  obtain ⟨r, body, m, hrequests, heventId, hdecode⟩ :=
    requests_of_delivered h hi hc
  refine ⟨r, body, m, hrequests, ?_⟩
  rcases hwhy with hrefused | ⟨c, hcorrelated, hstored⟩
  · rw [Deployment.Refused, hc] at hrefused
    rcases hrefused with ⟨why, hmalformed⟩ | ⟨request, hdecode', hescapes⟩
    · exact absurd (hdecode.symm.trans hmalformed) (fun hboth => by cases hboth)
    · obtain rfl : request = ⟨Text.ofString r.path, body⟩ :=
        Except.ok.inj (hdecode'.symm.trans hdecode)
      exact .inl hescapes
  · exact .inr ⟨c, hstored, by rw [hcorrelated, heventId]⟩

/-- In every run, what the listener takes on is on the stream, what the write
handler reports is written, and what it acks it has reported or may not
write. -/
theorem carriedOut (h : Reached d expectedSecret acts s) :
    s.CarriedOut d expectedSecret where
  accepted := fun _ _ hget => accepted_of_reached h hget
  written := fun _ _ _ hmem hi hc => written_of_reached h hmem hi hc
  acked := fun _ _ _ _ _ hlog hack hi hc => acked_of_reached h hlog hack hi hc

/-! ## A note -/

theorem run_other {b : EventBus} {acts' : List EventBusAct}
    (hasks : ∀ a ∈ acts', a.asksForWrite = false) : ∀ {s : WebhookFlow},
    Run (EventBus.step d) EventBus.Carries s.bus acts' b →
      Run (step d expectedSecret) Carries s (acts'.map .other)
        { s with bus := b } := by
  induction acts' with
  | nil =>
      intro s h
      cases h
      exact .nil _
  | cons a acts' ih =>
      intro s h
      obtain ⟨hcarries, b', hstep, hrest⟩ := h.cons_inv
      have hother : s.step d expectedSecret (.other a) =
          some { s with bus := b' } := by
        rw [step, hasks a List.mem_cons_self, hstep]
        rfl
      have hnext : Run (EventBus.step d) EventBus.Carries
          { s with bus := b' : WebhookFlow }.bus acts' b := hrest
      exact .cons hcarries hother
        (ih (fun a ha => hasks a (List.mem_cons_of_mem _ ha)) hnext)

def noteRequest : WebhookRequest := ⟨"incoming/a.txt", some "s3cret", none⟩

def noteBody : Bytes := Sample.ascii "hello"

def noteCall : Call :=
  { Sample.orderCall none with args := fileWriteRequested noteRequest noteBody }

def noteAnswers : (a : WebhookAct) → Except Exn a.Resp
  | .body => .ok noteBody
  | .publish _ => .ok noteCall.eventId

def noteDelivery : EventDelivery where
  consumer := .file .write
  message := 0
  event := EventBus.received noteCall
  occurredAt := Sample.newYearText

theorem transcript_noteDelivery : ∃ args,
    ⟨.file (.publish args), .ok ()⟩ ∈
      (EventBus.orderDeployment.handle noteDelivery).transcript
        EventBus.obliging := by
  have hdecode : decodeWriteRequested noteDelivery.event.payload =
      .ok ⟨Text.ofString noteRequest.path, noteBody⟩ :=
    decodeWriteRequested_writeRequest (by decide) noteBody
  have hprogram : EventBus.orderDeployment.handle noteDelivery =
      (handleWrite Sample.fileAdapter Sample.newYearText
        noteDelivery.event).embed .file fun _ r => r := by
    rw [Deployment.handle]
    rfl
  rw [hprogram, handleWrite, hdecode]
  have hcalls : ∃ args before after,
      Prog.transcript EventBus.obliging ((withTarget Sample.fileAdapter.watchDir
        "FileWriteRequested" noteDelivery.event
        (.ok ⟨Text.ofString noteRequest.path, noteBody⟩) WriteRequest.path
        (writeTarget Sample.fileAdapter Sample.newYearText
          noteDelivery.event)).embed HandlerAct.file fun _ r => r) =
      before ++ ⟨.file (.publish args), .ok ()⟩ :: after :=
    ⟨_, [_, _, _, _, _, _, _], _, rfl⟩
  obtain ⟨args, before, after, hcalls⟩ := hcalls
  refine ⟨args, ?_⟩
  rw [hcalls]
  exact List.mem_append_right _ List.mem_cons_self

/-- A note is taken on, delivered, written and reported. -/
theorem carriedOut_note : ∃ acts s c,
    Reached EventBus.orderDeployment "s3cret" acts s ∧
    s.listener.started[0]? = some (noteRequest, .pure 202) ∧
    (c, some 0) ∈ s.bus.stored ∧
    s.CarriedOut EventBus.orderDeployment "s3cret" := by
  have hcarries : ∀ (s : WebhookFlow) args eventId,
      noteAnswers (.publish args) = .ok eventId →
        true = true ∧ eventId = noteCall.eventId ∨
          s.Duplicates args eventId :=
    fun _ _ _ h => .inl ⟨rfl, (Except.ok.inj h).symm⟩
  have hdelivered : ∃ s, Reached EventBus.orderDeployment "s3cret"
      [.request noteRequest, .answer 0 noteAnswers true noteCall,
        .answer 0 noteAnswers true noteCall, .other (.deliver noteDelivery)] s ∧
      s.listener.started[0]? = some (noteRequest, .pure 202) ∧
      s.bus.deliveries.started[0]? = some (noteDelivery,
        EventBus.orderDeployment.handle noteDelivery) := by
    refine ⟨_, .cons trivial rfl (.cons (hcarries _) rfl
      (.cons (hcarries _) rfl (.cons ?_ rfl (.nil _)))), rfl, rfl⟩
    exact ⟨_, rfl, rfl, rfl, rfl, rfl, rfl, rfl⟩
  obtain ⟨s, hrun, hserved, hstarted⟩ := hdelivered
  obtain ⟨acts, bus, hplayed, hanswers, -, hcalls⟩ :=
    EventBus.played EventBus.obliging_own noteCall _ hstarted
  have hreached : Reached EventBus.orderDeployment "s3cret" _
      { s with bus := bus } :=
    Run.append hrun (run_other (fun a ha => by rw [hanswers a ha]; rfl) hplayed)
  obtain ⟨args, hpublish⟩ := transcript_noteDelivery
  obtain ⟨acts', hbus⟩ := bus_run hreached
  obtain ⟨c, -, hmem⟩ := (EventBus.traced_of_reached hbus).kept 0 _ _ _
    (hcalls _ hpublish) rfl
  exact ⟨_, _, c, hreached, hserved, hmem, carriedOut hreached⟩

end WebhookFlow

end JetCore
