import JetCore.Spec.Deliveries

/-!
# No acknowledgement before the work

A handler's program is walked once, in the world that keeps a record of its
calls, and at each call the record so far must be such that the call is allowed
(`Honest`). The record of one delivery is all that matters: whatever other
deliveries do in between, `Tasks.logged_ok` carries it to every run.

What the four file handlers share is proved for the shared parts: the beginning
(`wp_withTarget`), the block that may end in a nak (`wp_orNak`) and the ending
(`wp_publishAndAck`).
-/

namespace JetCore

open Lib BusCalls

/-! ## From one delivery to every run -/

section

variable {A : Type} {R : A → Type} [BusCalls A]
  {handle : Delivered → Prog A R Exn Unit}
  {rejected : Delivered → Calls A R → Prop}
  {done : Delivered → PublishArgs → Calls A R → Prop}

/-- Which calls a record allows. -/
structure Honest (rejected : Delivered → Calls A R → Prop)
    (done : Delivered → PublishArgs → Calls A R → Prop) (d : Delivered)
    (h : Calls A R) (a : A) : Prop where
  ack : isAck a = true → rejected d h ∨ Answered d.eventId h
  publish : ∀ args, published? a = some args →
    args.correlationId = some d.eventId ∧ done d args h ∧
      ∀ e ∈ h, isNak e.1 = false
  nak : isNak a = true → ∀ e ∈ h, published? e.1 = none

abbrev Handles (handle : Delivered → Prog A R Exn Unit)
    (rejected : Delivered → Calls A R → Prop)
    (done : Delivered → PublishArgs → Calls A R → Prop) : Prop :=
  ∀ d, (handle d).wp (Prog.records AnswersOwn) (Honest rejected done d)
    (fun _ _ => True) []

omit [BusCalls A] in
theorem mem_own {i : ℕ} {e : CallEvent A R Exn}
    {log : List (ℕ × CallEvent A R Exn)} :
    e ∈ Tasks.own i log ↔ (i, e) ∈ log := by
  rw [Tasks.own, List.mem_filterMap]
  constructor
  · intro h
    obtain ⟨⟨j, e'⟩, hmem, h⟩ := h
    split at h
    · next hj =>
        cases h
        obtain rfl : j = i := hj
        exact hmem
    · cases h
  · exact fun h => ⟨(i, e), h, if_pos rfl⟩

omit [BusCalls A] in
/-- Two calls of a log come in one order or the other. -/
theorem split_or {i : ℕ} {e e' : CallEvent A R Exn}
    {before after log : List (ℕ × CallEvent A R Exn)}
    (hlog : log = before ++ (i, e) :: after) (he' : e' ∈ Tasks.own i log) :
    e' ∈ Tasks.own i before ∨ e' = e ∨
      ∃ before' after', log = before' ++ (i, e') :: after' ∧
        e ∈ Tasks.own i before' := by
  rw [mem_own, hlog, List.mem_append, List.mem_cons, Prod.mk.injEq] at he'
  rcases he' with he' | ⟨-, rfl⟩ | he'
  · exact .inl (mem_own.mpr he')
  · exact .inr (.inl rfl)
  · obtain ⟨mid, after', rfl⟩ := List.append_of_mem he'
    refine .inr (.inr ⟨before ++ (i, e) :: mid, after', ?_, ?_⟩)
    · rw [hlog, List.append_assoc, List.cons_append]
    · exact mem_own.mpr (by simp)

theorem ackAfterWork_of_handles (hcalls : ∀ a : A,
      isNak a = true → published? a = none)
    (hhandle : Handles handle rejected done) :
    AckAfterWork handle rejected done := by
  intro acts s hrun before i e after hlog
  obtain ⟨d, hd, hok⟩ := Tasks.logged_ok hhandle hrun hlog
  refine ⟨d, hd, hok.ack, fun args hargs => ?_, fun hnak e' he' => ?_⟩
  · exact ⟨(hok.publish args hargs).1, (hok.publish args hargs).2.1⟩
  · rcases split_or hlog he' with he' | rfl | ⟨before', after', hlog', he⟩
    · exact hok.nak hnak e' he'
    · exact hcalls e'.1 hnak
    · -- a publish after the nak would not have been allowed
      obtain ⟨d', -, hok'⟩ := Tasks.logged_ok hhandle hrun hlog'
      cases hpublished : published? e'.1 with
      | none => rfl
      | some args =>
          have hno := (hok'.publish args hpublished).2.2 e he
          rw [hnak] at hno
          cases hno

/-! ## Walking a handler -/

variable {d : Delivered} {h : Calls A R} {α : Type}

/-- What is shown of each part of a handler. -/
abbrev busWp (rejected : Delivered → Calls A R → Prop)
    (done : Delivered → PublishArgs → Calls A R → Prop) (d : Delivered)
    (p : Prog A R Exn α) (Q : Except Exn α → Calls A R → Prop)
    (h : Calls A R) : Prop :=
  p.wp (Prog.records AnswersOwn) (Honest rejected done d) Q h

/-- A call that is nothing to the bus. -/
structure Other (a : A) : Prop where
  publish : published? a = none
  ack : isAck a = false
  nak : isNak a = false

/-- Neither a publish nor a nak is in the record. -/
def Calm (h : Calls A R) : Prop :=
  ∀ e ∈ h, published? e.1 = none ∧ isNak e.1 = false

theorem Calm.nil : Calm ([] : Calls A R) := fun e he => by cases he

theorem Calm.append {h h' : Calls A R} (hh : Calm h) (hh' : Calm h') :
    Calm (h ++ h') := fun e he =>
  (List.mem_append.mp he).elim (hh e) (hh' e)

theorem Calm.call {h : Calls A R} (hh : Calm h) {a : A} (ha : Other a)
    (r : Except Exn (R a)) : Calm (h ++ [⟨a, r⟩]) := by
  refine hh.append fun e he => ?_
  rw [List.mem_singleton.mp he]
  exact ⟨ha.publish, ha.nak⟩

theorem Other.honest {a : A} (ha : Other a) (h : Calls A R) :
    Honest rejected done d h a where
  ack hack := by rw [ha.ack] at hack; cases hack
  publish args hargs := by rw [ha.publish] at hargs; cases hargs
  nak hnak := by rw [ha.nak] at hnak; cases hnak

theorem wp_other {a : A} (ha : Other a)
    {Q : Except Exn (R a) → Calls A R → Prop}
    (hQ : ∀ r, AnswersOwn a r → Q r (h ++ [⟨a, r⟩])) :
    busWp rejected done d (Prog.act a) Q h := by
  refine Prog.wp_act.mpr ⟨ha.honest h, fun r h' hr => ?_⟩
  obtain ⟨hallowed, rfl⟩ := hr
  exact hQ r hallowed

/-- What comes after the first part matters only if that returned. -/
theorem wp_then {β : Type} {p : Prog A R Exn α} {g : α → Prog A R Exn β}
    (hp : busWp rejected done d p (fun r h => ∀ a, r = .ok a →
      busWp rejected done d (g a) (fun _ _ => True) h) h) :
    busWp rejected done d (p >>= g) (fun _ _ => True) h := by
  refine Prog.wp_bind.mpr (Prog.wp_mono (fun r h' hspec => ?_) hp)
  cases r with
  | error e => trivial
  | ok a => exact hspec a rfl

theorem wp_ack {a : A} (hp : published? a = none) (hn : isNak a = false)
    (hack : rejected d h ∨ Answered d.eventId h) :
    busWp rejected done d (Prog.act a) (fun _ _ => True) h := by
  refine Prog.wp_act.mpr ⟨⟨fun _ => hack, fun args hargs => ?_, fun hnak => ?_⟩,
    fun _ _ _ => trivial⟩
  · rw [hp] at hargs
    cases hargs
  · rw [hn] at hnak
    cases hnak

/-- After a rejection the ack may come. -/
theorem wp_logAck {a b : A} (ha : Other a) (hp : published? b = none)
    (hn : isNak b = false) (hrejected : ∀ h', rejected d (h ++ h')) :
    busWp rejected done d (do let _ ← Prog.act a; Prog.act b)
      (fun _ _ => True) h :=
  wp_then (wp_other ha fun _ _ _ _ => wp_ack hp hn (.inl (hrejected _)))

/-- As long as nothing was published the nak may come. -/
theorem wp_logNak {a b : A} (ha : Other a) (hp : published? b = none)
    (hb : isAck b = false) (hcalm : Calm h) :
    busWp rejected done d (do let _ ← Prog.act a; Prog.act b)
      (fun _ _ => True) h := by
  refine wp_then (wp_other ha fun r _ _ _ => Prog.wp_act.mpr
    ⟨⟨fun hack => ?_, fun args hargs => ?_, fun _ e he => ?_⟩,
      fun _ _ _ => trivial⟩)
  · rw [hb] at hack
    cases hack
  · rw [hp] at hargs
    cases hargs
  · exact (hcalm.call ha r e he).1

/-- A correlated publish, and the ack once it returned. -/
theorem wp_publishThenAck {a b : A} {args : PublishArgs}
    (hargs : published? a = some args) (ha : isAck a = false)
    (hn : isNak a = false) (hb : published? b = none) (hb' : isNak b = false)
    (hcorrelated : args.correlationId = some d.eventId) (hcalm : Calm h)
    (hdone : done d args h) :
    busWp rejected done d (do let _ ← Prog.act a; Prog.act b)
      (fun _ _ => True) h := by
  refine wp_then (Prog.wp_act.mpr ⟨⟨fun hack => ?_, fun args' hargs' => ?_,
    fun hnak => ?_⟩, fun r h' hr u hu => ?_⟩)
  · rw [ha] at hack
    cases hack
  · rw [hargs] at hargs'
    cases hargs'
    exact ⟨hcorrelated, hdone, fun e he => (hcalm e he).2⟩
  · rw [hn] at hnak
    cases hnak
  · obtain ⟨-, rfl⟩ := hr
    exact wp_ack hb hb' (.inr ⟨_, List.mem_append_right _ List.mem_cons_self,
      args, hargs, hcorrelated, u, hu⟩)

/-- A program that only makes calls that are nothing to the bus. -/
def Looks (rejected : Delivered → Calls A R → Prop)
    (done : Delivered → PublishArgs → Calls A R → Prop) (d : Delivered)
    (p : Prog A R Exn α) : Prop :=
  ∀ h, Calm h → busWp rejected done d p
    (fun _ h' => Calm h' ∧ ∃ mid, h' = h ++ mid) h

theorem Looks.pure (a : α) :
    Looks rejected done d (Pure.pure a : Prog A R Exn α) :=
  fun h hcalm => ⟨hcalm, [], (List.append_nil h).symm⟩

theorem Looks.act {a : A} (ha : Other a) :
    Looks rejected done d (Prog.act a) :=
  fun _ hcalm => wp_other ha fun r _ => ⟨hcalm.call ha r, _, rfl⟩

theorem Looks.bind {β : Type} {p : Prog A R Exn α} {g : α → Prog A R Exn β}
    (hp : Looks rejected done d p) (hg : ∀ a, Looks rejected done d (g a)) :
    Looks rejected done d (p >>= g) := by
  intro h hcalm
  refine Prog.wp_bind.mpr (Prog.wp_mono (fun r h' hspec => ?_) (hp h hcalm))
  obtain ⟨hcalm', mid, rfl⟩ := hspec
  cases r with
  | error e => exact ⟨hcalm', mid, rfl⟩
  | ok a =>
      refine Prog.wp_mono (fun r h' hspec => ?_) (hg a _ hcalm')
      obtain ⟨hcalm'', mid', rfl⟩ := hspec
      exact ⟨hcalm'', mid ++ mid', List.append_assoc _ _ _⟩

theorem Looks.each {β : Type} {f : α → Prog A R Exn β}
    (hf : ∀ a, Looks rejected done d (f a)) (l : List α) :
    Looks rejected done d (Prog.each f l) := by
  induction l with
  | nil => exact .pure []
  | cons a rest ih =>
      exact (hf a).bind fun b => ih.bind fun bs => .pure (b :: bs)

end

/-! ## The shared parts of the file handlers -/

section

variable {rejected : Delivered → FileCalls → Prop}
  {done : Delivered → PublishArgs → FileCalls → Prop} {d : Delivered}

/-- What `resolve_within` leaves in the record, and what it shows. -/
theorem wp_resolveWithin (root : PosixPath) (path : Text) :
    busWp rejected done d (resolveWithin root path) (fun r h =>
      Calm h ∧ (∀ target, r = .ok target → Resolved root path target h) ∧
        ∀ e, r = .error e → e.isPathTraversal = true →
          Escapes root path h) [] := by
  rw [resolveWithin]
  split
  · next habsolute =>
      exact ⟨Calm.nil, nofun, fun _ _ _ => .inl habsolute⟩
  · next hrelative =>
      rw [Bool.not_eq_true] at hrelative
      refine Prog.wp_bind.mpr (wp_other ⟨rfl, rfl, rfl⟩ fun r hr => ?_)
      have hcalm := Calm.nil.call (a := FileAct.resolve root) ⟨rfl, rfl, rfl⟩ r
      cases r with
      | error e =>
          refine ⟨hcalm, nofun, fun e' he' htraversal => ?_⟩
          cases he'
          cases e with
          | pathTraversalError p => exact absurd rfl (hr p)
          | _ => cases htraversal
      | ok rootResolved =>
          refine Prog.wp_bind.mpr (wp_other ⟨rfl, rfl, rfl⟩ fun r' hr' => ?_)
          have hcalm' := hcalm.call
            (a := .resolve (rootResolved.join path)) ⟨rfl, rfl, rfl⟩ r'
          cases r' with
          | error e =>
              refine ⟨hcalm', nofun, fun e' he' htraversal => ?_⟩
              cases he'
              cases e with
              | pathTraversalError p => exact absurd rfl (hr' p)
              | _ => cases htraversal
          | ok candidate =>
              show Prog.wp _ _ (ite _ _ _) _ _
              split
              · next hout =>
                  exact ⟨hcalm', nofun, fun _ _ _ => .inr
                    ⟨rootResolved, candidate, by simp, by simp, hout⟩⟩
              · next hin =>
                  refine ⟨hcalm', fun target htarget => ?_, nofun⟩
                  cases htarget
                  refine ⟨hrelative, rootResolved, by simp, by simp, ?_⟩
                  rw [not_and_or, not_not, not_not] at hin
                  exact hin

theorem Exn.isMalformedPayload_iff {e : Exn} :
    e.isMalformedPayload = true ↔ ∃ why, e = .malformedPayloadError why := by
  cases e with
  | malformedPayloadError why => exact ⟨fun _ => ⟨why, rfl⟩, fun _ => rfl⟩
  | _ => exact ⟨nofun, fun h => by obtain ⟨why, h⟩ := h; cases h⟩

/-- More calls take no rejection back. -/
theorem Escapes.append {root : PosixPath} {path : Text} {h : FileCalls}
    (hesc : Escapes root path h) (h' : FileCalls) :
    Escapes root path (h ++ h') := by
  rcases hesc with habsolute | ⟨rootResolved, candidate, hr, hc, hout⟩
  · exact .inl habsolute
  · exact .inr ⟨rootResolved, candidate, List.mem_append_left _ hr,
      List.mem_append_left _ hc, hout⟩

theorem Resolved.append {root : PosixPath} {path : Text} {target : PosixPath}
    {h : FileCalls} (hres : Resolved root path target h) (h' : FileCalls) :
    Resolved root path target (h ++ h') := by
  obtain ⟨hrelative, rootResolved, hr, ht, hin⟩ := hres
  exact ⟨hrelative, rootResolved, List.mem_append_left _ hr,
    List.mem_append_left _ ht, hin⟩

/-- The beginning: what is left to show is the body, from a record that shows
where the path leads. -/
theorem wp_withTarget {α : Type} {self : FileAdapter} {eventType : String}
    {decode : Bytes → Except Exn α} {path : α → Text}
    {body : α → PosixPath → FileProg Unit} {d : Delivered}
    (hbody : ∀ request target h, decode d.event.payload = .ok request →
      Calm h → Resolved self.watchDir (path request) target h →
      busWp (Rejected self decode path) done d (body request target)
        (fun _ _ => True) h) :
    busWp (Rejected self decode path) done d
      (withTarget self.watchDir eventType d.event (decode d.event.payload)
        path body) (fun _ _ => True) [] := by
  rw [withTarget.eq_def]
  cases hdecode : decode d.event.payload with
  | error e =>
      show Prog.wp _ _ (ite _ _ _) _ _
      split
      · next hmalformed =>
          obtain ⟨why, rfl⟩ := Exn.isMalformedPayload_iff.mp hmalformed
          exact wp_logAck ⟨rfl, rfl, rfl⟩ rfl rfl fun h' => .inl ⟨why, hdecode⟩
      · trivial
  | ok request =>
      refine Prog.wp_bind.mpr (Prog.wp_attempt.mpr (Prog.wp_mono ?_
        (wp_resolveWithin self.watchDir (path request))))
      intro r h hspec
      obtain ⟨hcalm, hresolved, hescapes⟩ := hspec
      cases r with
      | error e =>
          show Prog.wp _ _ (ite _ _ _) _ _
          split
          · next htraversal =>
              exact wp_logAck ⟨rfl, rfl, rfl⟩ rfl rfl fun h' => .inr ⟨request, hdecode,
                (hescapes e rfl htraversal).append h'⟩
          · trivial
      | ok target =>
          exact hbody request target h hdecode hcalm (hresolved target rfl)

/-- The block that may end in a nak: nothing was published yet. -/
theorem wp_orNak {α : Type} {doing : String} {target : PosixPath}
    {x : FileProg α} {rest : α → FileProg Unit} {h : FileCalls}
    (hx : busWp rejected done d x (fun r h => Calm h ∧ ∀ a, r = .ok a →
      busWp rejected done d (rest a) (fun _ _ => True) h) h) :
    busWp rejected done d (orNak doing target d.event x rest)
      (fun _ _ => True) h := by
  rw [orNak]
  refine Prog.wp_bind.mpr (Prog.wp_attempt.mpr (Prog.wp_mono ?_ hx))
  intro r h hspec
  obtain ⟨hcalm, hrest⟩ := hspec
  cases r with
  | error e =>
      show Prog.wp _ _ (ite _ _ _) _ _
      split
      · exact wp_logNak ⟨rfl, rfl, rfl⟩ rfl rfl hcalm
      · trivial
  | ok a => exact hrest a rfl

/-- The ending. -/
theorem wp_publishAndAck {subject eventType : String} {payload : Bytes}
    {h : FileCalls} (hcalm : Calm h)
    (hdone : done d {
      subject := subject
      payload := payload
      eventType := eventType
      correlationId := some d.event.details.eventId } h) :
    busWp rejected done d (publishAndAck d.event subject eventType payload)
      (fun _ _ => True) h :=
  wp_publishThenAck rfl rfl rfl rfl rfl rfl hcalm hdone

theorem wp_operationFailed {path : Text} {operation reason : String}
    {occurredAt : String} {h : FileCalls} (hcalm : Calm h)
    (hdone : ∀ args, args.eventType = "FileOperationFailed" → done d args h) :
    busWp rejected done d
      (operationFailed d.event path operation reason occurredAt)
      (fun _ _ => True) h :=
  wp_publishAndAck hcalm (hdone _ rfl)

end

/-! ## The handlers -/

variable (self : FileAdapter)

/-- `mkdir`, `open` and the write; when all three returned the record shows
it. -/
theorem wp_writeFile {rejected : Delivered → FileCalls → Prop}
    {done : Delivered → PublishArgs → FileCalls → Prop} {d : Delivered}
    {target : PosixPath} {content : Bytes} {h : FileCalls} (hcalm : Calm h) :
    busWp rejected done d (writeFile target content) (fun r h' => Calm h' ∧
      ∀ u, r = .ok u → ∃ file mid, h' = h ++ mid ∧
        [⟨.openWrite target, .ok file⟩,
          ⟨.write file content, .ok ()⟩].Sublist mid) h := by
  have hmkdir := hcalm.call (a := .mkdir target.parent) ⟨rfl, rfl, rfl⟩ (.ok ())
  refine Prog.wp_bind.mpr (wp_other ⟨rfl, rfl, rfl⟩ fun r _ => ?_)
  cases r with
  | error e => exact ⟨hcalm.call ⟨rfl, rfl, rfl⟩ _, nofun⟩
  | ok u =>
      refine Prog.wp_bind.mpr (wp_other ⟨rfl, rfl, rfl⟩ fun r _ => ?_)
      cases r with
      | error e => exact ⟨hmkdir.call ⟨rfl, rfl, rfl⟩ _, nofun⟩
      | ok file =>
          refine wp_other ⟨rfl, rfl, rfl⟩ fun r _ => ⟨?_, fun v hv => ?_⟩
          · exact (hmkdir.call ⟨rfl, rfl, rfl⟩ _).call ⟨rfl, rfl, rfl⟩ _
          · subst hv
            refine ⟨file, [⟨.mkdir target.parent, .ok u⟩,
              ⟨.openWrite target, .ok file⟩, ⟨.write file content, .ok ()⟩],
              ?_, List.sublist_cons_self _ _⟩
            rw [List.append_assoc, List.append_assoc]
            rfl

theorem looks_markRecent {rejected : Delivered → FileCalls → Prop}
    {done : Delivered → PublishArgs → FileCalls → Prop} {d : Delivered}
    (target : PosixPath) : Looks rejected done d (markRecent self target) := by
  rw [markRecent]
  split
  · exact .act ⟨rfl, rfl, rfl⟩
  · exact .pure ()

theorem handles_write : Handles
    (fun d => handleWrite self d.occurredAt d.event)
    (Rejected self decodeWriteRequested WriteRequest.path) (Written self) := by
  intro d
  refine wp_withTarget fun request target h hdecode hcalm hresolved => ?_
  refine Prog.wp_bind.mpr (wp_other ⟨rfl, rfl, rfl⟩ fun existed _ => ?_)
  have hcalm' := hcalm.call (a := .exists target) ⟨rfl, rfl, rfl⟩ existed
  cases existed with
  | error e => trivial
  | ok existed =>
      refine wp_orNak (Prog.wp_mono (fun r h' hspec => ?_)
        (wp_writeFile hcalm'))
      obtain ⟨hcalm'', hwritten⟩ := hspec
      refine ⟨hcalm'', fun u hu => ?_⟩
      obtain ⟨file, mid, rfl, hsub⟩ := hwritten u hu
      refine Prog.wp_bind.mpr (Prog.wp_mono (fun r h'' hmarked => ?_)
        (looks_markRecent self target _ hcalm''))
      obtain ⟨hcalm, mark, rfl⟩ := hmarked
      have hdone : ∀ args : PublishArgs, args.payload = encodeCompleted
          request.path request.content.length d.occurredAt →
          Written self d args (h ++ [⟨.exists target, .ok existed⟩] ++ mid ++
            mark) := by
        intro args hargs
        refine ⟨request, target, file, hdecode, ?_, ?_, hargs⟩
        · rw [List.append_assoc, List.append_assoc]
          exact hresolved.append _
        · exact (hsub.trans (List.sublist_append_right _ _)).trans
            (List.sublist_append_left _ _)
      cases r with
      | error e => trivial
      | ok v =>
          show Prog.wp _ _ (ite _ _ _) _ _
          split
          · exact wp_publishAndAck hcalm (hdone _ rfl)
          · exact wp_publishAndAck hcalm (hdone _ rfl)

theorem handles_read : Handles
    (fun d => handleRead self d.occurredAt d.event)
    (Rejected self (decodePathOnlyRequest false) id) (ReadDone self) := by
  intro d
  refine wp_withTarget fun path target h hdecode hcalm hresolved => ?_
  refine Prog.wp_bind.mpr (wp_other ⟨rfl, rfl, rfl⟩ fun isFile _ => ?_)
  have hcalm' := hcalm.call (a := .isFile target) ⟨rfl, rfl, rfl⟩ isFile
  cases isFile with
  | error e => trivial
  | ok isFile =>
      show Prog.wp _ _ (ite _ _ _) _ _
      split
      · exact wp_operationFailed hcalm' fun args hargs hread => by
          exact absurd (hargs.symm.trans hread) (by decide)
      · refine wp_orNak (wp_other ⟨rfl, rfl, rfl⟩ fun r _ =>
          ⟨hcalm'.call ⟨rfl, rfl, rfl⟩ _, fun content hr => ?_⟩)
        subst hr
        refine wp_publishAndAck (hcalm'.call ⟨rfl, rfl, rfl⟩ _)
          fun _ => ⟨path, target, content, hdecode, ?_, by simp, rfl⟩
        rw [List.append_assoc]
        exact hresolved.append _

theorem handles_delete : Handles
    (fun d => handleDelete self d.occurredAt d.event)
    (Rejected self (decodePathOnlyRequest false) id) (DeleteDone self) := by
  intro d
  refine wp_withTarget fun path target h hdecode hcalm hresolved => ?_
  refine Prog.wp_bind.mpr (wp_other ⟨rfl, rfl, rfl⟩ fun isFile _ => ?_)
  have hcalm' := hcalm.call (a := .isFile target) ⟨rfl, rfl, rfl⟩ isFile
  cases isFile with
  | error e => trivial
  | ok isFile =>
      show Prog.wp _ _ (ite _ _ _) _ _
      split
      · exact wp_operationFailed hcalm' fun args hargs hdelete => by
          exact absurd (hargs.symm.trans hdelete) (by decide)
      · refine wp_orNak (wp_other ⟨rfl, rfl, rfl⟩ fun r _ =>
          ⟨hcalm'.call ⟨rfl, rfl, rfl⟩ _, fun u hr => ?_⟩)
        subst hr
        refine wp_publishAndAck (hcalm'.call ⟨rfl, rfl, rfl⟩ _)
          fun _ => ⟨path, target, hdecode, ?_, by simp⟩
        rw [List.append_assoc]
        exact hresolved.append _

theorem looks_entrySize {rejected : Delivered → FileCalls → Prop}
    {done : Delivered → PublishArgs → FileCalls → Prop} {d : Delivered}
    (child : PosixPath) : Looks rejected done d (entrySize child) := by
  refine Looks.bind (.act ⟨rfl, rfl, rfl⟩) fun isDirectory => ?_
  split
  · exact .pure 0
  · exact .act ⟨rfl, rfl, rfl⟩

/-- Looking at the children is nothing to the bus, whatever they answer. -/
theorem looks_listEntry {rejected : Delivered → FileCalls → Prop}
    {done : Delivered → PublishArgs → FileCalls → Prop} {d : Delivered}
    (child : PosixPath) : Looks rejected done d (listEntry child) :=
  .bind (.act ⟨rfl, rfl, rfl⟩) fun _ =>
    (looks_entrySize child).bind fun _ => .pure _

theorem wp_listEntries {rejected : Delivered → FileCalls → Prop}
    {done : Delivered → PublishArgs → FileCalls → Prop} {d : Delivered}
    {target : PosixPath} {h : FileCalls} (hcalm : Calm h) :
    busWp rejected done d (listEntries target) (fun r h' => Calm h' ∧
      ∀ entries, r = .ok entries → ∃ children mid,
        h' = h ++ [⟨.iterdir target, .ok children⟩] ++ mid) h := by
  refine Prog.wp_bind.mpr (wp_other ⟨rfl, rfl, rfl⟩ fun r _ => ?_)
  have hcalm' := hcalm.call (a := .iterdir target) ⟨rfl, rfl, rfl⟩ r
  cases r with
  | error e => exact ⟨hcalm', nofun⟩
  | ok children =>
      refine Prog.wp_mono (fun r h' hspec => ?_)
        (Looks.each looks_listEntry (sortedPaths children) _ hcalm')
      exact ⟨hspec.1, fun _ _ => ⟨children, hspec.2⟩⟩

theorem handles_list : Handles
    (fun d => handleList self d.occurredAt d.event)
    (Rejected self (decodePathOnlyRequest true) id) (ListDone self) := by
  intro d
  refine wp_withTarget fun path target h hdecode hcalm hresolved => ?_
  have hfailed : ∀ {reason : String} {h : FileCalls}, Calm h →
      busWp (Rejected self (decodePathOnlyRequest true) id) (ListDone self) d
        (operationFailed d.event path "list" reason d.occurredAt)
        (fun _ _ => True) h := fun hcalm =>
    wp_operationFailed hcalm fun args hargs hlist =>
      absurd (hargs.symm.trans hlist) (by decide)
  refine Prog.wp_bind.mpr (wp_other ⟨rfl, rfl, rfl⟩ fun found _ => ?_)
  have hcalm' := hcalm.call (a := .exists target) ⟨rfl, rfl, rfl⟩ found
  cases found with
  | error e => trivial
  | ok found =>
      show Prog.wp _ _ (ite _ _ _) _ _
      split
      · exact hfailed hcalm'
      · refine Prog.wp_bind.mpr (wp_other ⟨rfl, rfl, rfl⟩ fun isDir _ => ?_)
        have hcalm'' := hcalm'.call (a := .isDir target) ⟨rfl, rfl, rfl⟩ isDir
        cases isDir with
        | error e => trivial
        | ok isDir =>
            show Prog.wp _ _ (ite _ _ _) _ _
            split
            · exact hfailed hcalm''
            · refine wp_orNak (Prog.wp_mono (fun r h' hspec => ?_)
                (wp_listEntries hcalm''))
              refine ⟨hspec.1, fun entries hentries => ?_⟩
              obtain ⟨children, mid, rfl⟩ := hspec.2 entries hentries
              refine wp_publishAndAck hspec.1
                fun _ => ⟨path, target, children, hdecode, ?_, by simp⟩
              simp only [List.append_assoc]
              exact hresolved.append _

theorem handles_orderCreated : Handles
    (fun d => handleOrderCreated d.occurredAt d.event)
    (fun d _ => Malformed (decodeOrderCreated d.event.payload)) Upserted := by
  intro d
  show busWp _ _ d (handleOrderCreated d.occurredAt d.event) _ _
  rw [handleOrderCreated.eq_def]
  cases hdecode : decodeOrderCreated d.event.payload with
  | error e =>
      cases e with
      | malformedPayloadError why =>
          exact wp_logAck ⟨rfl, rfl, rfl⟩ rfl rfl fun _ => ⟨why, hdecode⟩
      | _ => trivial
  | ok request =>
      have hcalm := Calm.nil.call (R := DbAct.Resp)
        (a := .upsert request) ⟨rfl, rfl, rfl⟩
      refine Prog.wp_bind.mpr (Prog.wp_attempt.mpr (wp_other ⟨rfl, rfl, rfl⟩
        fun r _ => ?_))
      cases r with
      | error e =>
          cases e with
          | dbapiError => exact wp_logNak ⟨rfl, rfl, rfl⟩ rfl rfl (hcalm _)
          | _ => trivial
      | ok u =>
          exact wp_publishThenAck rfl rfl rfl rfl rfl rfl (hcalm _)
            ⟨request, hdecode, List.mem_cons_self⟩

theorem handles_trigger (trigger : TriggerHandler) : Handles
    (fun d => handleTrigger trigger d.occurredAt d.event)
    (fun _ _ => False) (Posted trigger) := by
  intro d
  have hcalm := Calm.nil.call (R := HttpAct.Resp)
    (a := .post trigger.targetBaseUrl d.event.payload trigger.headers)
    ⟨rfl, rfl, rfl⟩
  refine Prog.wp_bind.mpr (Prog.wp_attempt.mpr (wp_other ⟨rfl, rfl, rfl⟩
    fun r _ => ?_))
  cases r with
  | error e =>
      cases e with
      | requestError => exact wp_logNak ⟨rfl, rfl, rfl⟩ rfl rfl (hcalm _)
      | _ => trivial
  | ok response =>
      exact wp_publishThenAck rfl rfl rfl rfl rfl rfl (hcalm _)
        ⟨response, List.mem_cons_self, rfl⟩

/-- The six handlers that answer. -/
theorem no_ack_before_work (self : FileAdapter) (trigger : TriggerHandler) :
    AckAfterWork (fun d => handleWrite self d.occurredAt d.event)
      (Rejected self decodeWriteRequested WriteRequest.path) (Written self) ∧
    AckAfterWork (fun d => handleRead self d.occurredAt d.event)
      (Rejected self (decodePathOnlyRequest false) id) (ReadDone self) ∧
    AckAfterWork (fun d => handleList self d.occurredAt d.event)
      (Rejected self (decodePathOnlyRequest true) id) (ListDone self) ∧
    AckAfterWork (fun d => handleDelete self d.occurredAt d.event)
      (Rejected self (decodePathOnlyRequest false) id) (DeleteDone self) ∧
    AckAfterWork (fun d => handleOrderCreated d.occurredAt d.event)
      (fun d _ => Malformed (decodeOrderCreated d.event.payload)) Upserted ∧
    AckAfterWork (fun d => handleTrigger trigger d.occurredAt d.event)
      (fun _ _ => False) (Posted trigger) := by
  have hfile : ∀ a : FileAct, isNak a = true → published? a = none := by
    intro a h
    cases a <;> first | rfl | cases h
  have hdb : ∀ a : DbAct, isNak a = true → published? a = none := by
    intro a h
    cases a <;> first | rfl | cases h
  have hhttp : ∀ a : HttpAct, isNak a = true → published? a = none := by
    intro a h
    cases a <;> first | rfl | cases h
  exact ⟨ackAfterWork_of_handles hfile (handles_write self),
    ackAfterWork_of_handles hfile (handles_read self),
    ackAfterWork_of_handles hfile (handles_list self),
    ackAfterWork_of_handles hfile (handles_delete self),
    ackAfterWork_of_handles hdb handles_orderCreated,
    ackAfterWork_of_handles hhttp (handles_trigger trigger)⟩

end JetCore
