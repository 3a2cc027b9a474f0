import JetCore.Proofs.AsFirst

/-!
# One outcome, as long as nothing was made or removed

A delivery that begins while the target is as it was at first finds what the
first one found, so it makes only calls that suit that state and publishes the
result for it (`delivers_proper`). By induction over the deliveries all results
are that one (`one_outcome`). A delivery that begins later takes the file of
the one before for an old one (`redelivery_differs`).
-/

namespace JetCore

open Lib

variable {fs fs₀ : Fs FileName} {depth : ℕ} {p : PosixPath} {kind : FileKind}
  {self : FileAdapter} {c : FileCommand} {relative : Text}

/-! ## One delivery -/

/-- A delivery that has changed nothing yet. -/
structure Fresh (adapter : FileAdapter) (depth : ℕ) (c : FileCommand)
    (fs₀ : Fs FileName) (s : Redelivery) : Prop where
  inTime : InTime adapter depth c fs₀ s
  onTime : s.turned = false

/-- A call that only looks answers as it might have at first. -/
theorem fresh_look {a : FileAct} {s s' : Redelivery} {r : Except Exn a.Resp}
    (hproper : Proper self depth c fs₀ a) (hturns : ∀ fs fs', a.turns fs fs' = false)
    (hpath : c.path = .ok relative) (hs : Fresh self depth c fs₀ s)
    (hcan : Redelivery.can self depth c s a r s') :
    Fresh self depth c fs₀ s' ∧ ∀ x, r = .ok x → ∃ w : FileWorld,
      AsFirst c.kind depth self.watchDir relative fs₀ w.fs ∧
        (a.perform depth w).1 = .ok x := by
  refine ⟨⟨inTime_step hs.inTime hproper hcan, ?_⟩, fun x hx => ?_⟩
  · obtain ⟨fs, -, -, hturned⟩ := hcan
    rw [hturned, hs.onTime, hturns]
    rfl
  · obtain ⟨fs, hothers, hends, -⟩ := hcan
    exact ⟨{ s.world with fs := fs },
      (hs.inTime.first hs.onTime relative hpath).others (hothers relative hpath),
      perform_of_ends hends hx⟩

/-- What is shown of a delivery's program, and of what is left of it. -/
abbrev RunsProper (self : FileAdapter) (depth : ℕ) (c : FileCommand)
    (fs₀ : Fs FileName) {α : Type} (p : FileProg α)
    (Q : Except Exn α → Redelivery → Prop) (s : Redelivery) : Prop :=
  Prog.wp (Redelivery.can self depth c) (fun _ a => Proper self depth c fs₀ a)
    p Q s

theorem resolveWithin_proper {s : Redelivery} (hpath : c.path = .ok relative)
    (hs : Fresh self depth c fs₀ s) :
    RunsProper self depth c fs₀ (resolveWithin self.watchDir relative)
      (fun r s' => Fresh self depth c fs₀ s' ∧
        ∀ target, r = .ok target → Target self depth c fs₀ target) s := by
  rw [resolveWithin]
  split
  · exact ⟨hs, fun _ h => by cases h⟩
  · refine Prog.wp_bind.mpr (Prog.wp_act.mpr ⟨trivial, fun r s' hcan => ?_⟩)
    obtain ⟨hs', hroot⟩ := fresh_look (a := .resolve self.watchDir) trivial
      (fun _ _ => rfl) hpath hs hcan
    cases r with
    | error e => exact ⟨hs', fun _ h => by cases h⟩
    | ok root =>
        obtain ⟨w, hw, hroot⟩ := hroot root rfl
        obtain ⟨hroot, -⟩ := resolve_eq_ok.mp hroot
        refine Prog.wp_bind.mpr
          (Prog.wp_act.mpr ⟨trivial, fun r s'' hcan => ?_⟩)
        obtain ⟨hs'', htarget⟩ := fresh_look (a := .resolve (root.join relative))
          trivial (fun _ _ => rfl) hpath hs' hcan
        cases r with
        | error e => exact ⟨hs'', fun _ h => by cases h⟩
        | ok target =>
            obtain ⟨w', hw', htarget⟩ := htarget target rfl
            obtain ⟨htarget, -⟩ := resolve_eq_ok.mp htarget
            show RunsProper self depth c fs₀ (ite _ _ _) _ s''
            split
            · exact ⟨hs'', fun _ h => by cases h⟩
            · refine ⟨hs'', fun q hq => ?_⟩
              obtain rfl := Except.ok.inj hq
              have hroot₀ := (hw.root _).mp hroot
              exact ⟨relative, hpath, leadsTo_eq_ok.mpr ⟨root, hroot₀,
                (hw'.target _ hroot₀ _).mp htarget⟩⟩

theorem withTarget_proper {α : Type} {s : Redelivery} {eventType : String}
    {event : ReceivedEvent} {decoded : Except Exn α} {path : α → Text}
    {body : α → PosixPath → FileProg Unit}
    (hpath : ∀ request, decoded = .ok request → c.path = .ok (path request))
    (hbody : ∀ request target s', decoded = .ok request →
      Fresh self depth c fs₀ s' → Target self depth c fs₀ target →
        RunsProper self depth c fs₀ (body request target) (fun _ _ => True) s')
    (hs : Fresh self depth c fs₀ s) :
    RunsProper self depth c fs₀
      (withTarget self.watchDir eventType event decoded path body)
      (fun _ _ => True) s := by
  rw [withTarget.eq_def]
  cases decoded with
  | error e =>
      show RunsProper self depth c fs₀ (ite _ _ _) _ s
      split
      · exact Prog.Only.wp (.bind (fun _ => .act trivial) (.act trivial)) s
      · trivial
  | ok request =>
      refine Prog.wp_bind.mpr (Prog.wp_attempt.mpr ?_)
      refine Prog.wp_mono (fun r s' h => ?_)
        (resolveWithin_proper (hpath request rfl) hs)
      cases r with
      | error e =>
          show RunsProper self depth c fs₀ (ite _ _ _) _ s'
          split
          · exact Prog.Only.wp (.bind (fun _ => .act trivial) (.act trivial)) s'
          · trivial
      | ok target => exact hbody request target s' rfl h.1 (h.2 target rfl)

theorem publishAndAck_only {event : ReceivedEvent} {subject eventType : String}
    {payload : Bytes} (hp : Target self depth c fs₀ p)
    (hresult : ResultFor c (c.kind.finds fs₀ p) {
      subject := subject
      payload := payload
      eventType := eventType
      correlationId := some event.details.eventId }) :
    Prog.Only (Proper self depth c fs₀)
      (publishAndAck event subject eventType payload) :=
  .bind (fun _ => .act trivial) (.act ⟨p, hp, hresult⟩)

/-- The result of one that did its work. -/
theorem completed_only {subject eventType : String} {payload : Bytes}
    (hp : Target self depth c fs₀ p)
    (htype : eventType = c.kind.result (c.kind.finds fs₀ p))
    (hne : eventType ≠ "FileOperationFailed") :
    Prog.Only (Proper self depth c fs₀)
      (publishAndAck c.event subject eventType payload) :=
  publishAndAck_only hp ⟨rfl, htype, fun h => absurd h hne⟩

theorem orNak_only {α : Type} {doing : String} {event : ReceivedEvent}
    {x : FileProg α} {rest : α → FileProg Unit}
    (hx : Prog.Only (Proper self depth c fs₀) x)
    (hrest : ∀ a, Prog.Only (Proper self depth c fs₀) (rest a)) :
    Prog.Only (Proper self depth c fs₀) (orNak doing p event x rest) := by
  refine .bind (fun r => ?_) hx.attempt
  cases r with
  | error e =>
      show Prog.Only _ (ite _ _ _)
      split
      · exact .bind (fun _ => .act trivial) (.act trivial)
      · trivial
  | ok a => exact hrest a

/-- The one result of a handler that did not find its target. -/
theorem operationFailed_only {path : Text} {operation occurredAt : String}
    (hp : Target self depth c fs₀ p) (hkind : c.kind ≠ .write)
    (hfinds : c.kind.finds fs₀ p = false) :
    Prog.Only (Proper self depth c fs₀)
      (operationFailed c.event path operation "not_found" occurredAt) := by
  refine publishAndAck_only hp ⟨rfl, ?_, fun _ => ⟨_, rfl, rfl, ?_⟩⟩
  · rw [hfinds]
    cases hc : c.kind with
    | write => exact absurd hc hkind
    | read => rfl
    | delete => rfl
  · rw [getItem_object]
    rfl

/-- A target that is looked for is found if it was there at first. -/
theorem runsProper_look {a : FileAct} {α : Type} {s : Redelivery}
    {rest : a.Resp → FileProg α} (hproper : Proper self depth c fs₀ a)
    (hturns : ∀ fs fs', a.turns fs fs' = false)
    (hpath : c.path = .ok relative) (hs : Fresh self depth c fs₀ s)
    (hrest : ∀ x, (∃ w : FileWorld,
      AsFirst c.kind depth self.watchDir relative fs₀ w.fs ∧
        (a.perform depth w).1 = .ok x) →
      Prog.Only (Proper self depth c fs₀) (rest x)) :
    RunsProper self depth c fs₀ (a.call >>= rest) (fun _ _ => True) s := by
  refine Prog.wp_bind.mpr (Prog.wp_act.mpr ⟨hproper, fun r s' hcan => ?_⟩)
  cases r with
  | error e => trivial
  | ok x =>
      exact Prog.Only.wp (hrest x
        ((fresh_look hproper hturns hpath hs hcan).2 x rfl)) s'

theorem found_of_look {x : Bool} {w : FileWorld}
    (hp : leadsTo fs₀ depth self.watchDir relative = .ok p)
    (hw : AsFirst c.kind depth self.watchDir relative fs₀ w.fs)
    (hx : c.kind.finds w.fs p = x) : c.kind.finds fs₀ p = x := by
  rw [← hx, hw.found p hp]

theorem finds_of_exists {b : Bool} (h : p.exists? fs = .ok b) :
    FileKind.write.finds fs p = b := by
  rw [FileKind.finds, h]
  cases b <;> simp

theorem finds_of_isFile {b : Bool} (hkind : kind ≠ .write)
    (h : p.isFile fs = .ok b) : kind.finds fs p = b := by
  cases kind with
  | write => exact absurd rfl hkind
  | _ =>
      rw [FileKind.finds, h]
      cases b <;> simp

theorem writeFile_only (content : Bytes) (hkind : c.kind = .write)
    (hp : Target self depth c fs₀ p) :
    Prog.Only (Proper self depth c fs₀) (writeFile p content) := by
  rw [writeFile]
  refine Prog.Only.bind (fun _ => Prog.Only.bind (fun file => ?_) ?_) ?_
  · exact .act trivial
  · exact .act ⟨hkind, hp⟩
  · exact .act ⟨p, hp, rfl⟩

theorem writeTarget_proper {s : Redelivery} {occurredAt : String}
    {request : WriteRequest} (hkind : c.kind = .write)
    (hp : Target self depth c fs₀ p) (hs : Fresh self depth c fs₀ s) :
    RunsProper self depth c fs₀
      (writeTarget self occurredAt c.event request p) (fun _ _ => True) s := by
  obtain ⟨relative, hpath, hleads⟩ := hp
  refine runsProper_look (a := .exists p) trivial (fun _ _ => rfl) hpath hs
    fun existedBefore hlook => ?_
  have hp : Target self depth c fs₀ p := ⟨relative, hpath, hleads⟩
  obtain ⟨w, hw, hexists⟩ := hlook
  have hfinds : c.kind.finds fs₀ p = existedBefore :=
    found_of_look hleads hw (by rw [hkind]; exact finds_of_exists hexists)
  refine orNak_only (writeFile_only _ hkind hp) fun _ =>
    .bind (fun _ => ?_) ?_
  · cases existedBefore with
    | true =>
        exact completed_only hp (by rw [hfinds, hkind]; rfl) (by decide)
    | false =>
        exact completed_only hp (by rw [hfinds, hkind]; rfl) (by decide)
  · rw [markRecent]
    split
    · exact .act trivial
    · trivial

/-- What a read and a delete do first. -/
theorem isFile_proper {s : Redelivery} {rest : Bool → FileProg Unit}
    (hne : c.kind ≠ .write) (hp : Target self depth c fs₀ p)
    (hs : Fresh self depth c fs₀ s)
    (hrest : ∀ isFile, c.kind.finds fs₀ p = isFile →
      Prog.Only (Proper self depth c fs₀) (rest isFile)) :
    RunsProper self depth c fs₀ (FileAct.call (.isFile p) >>= rest)
      (fun _ _ => True) s := by
  obtain ⟨relative, hpath, hleads⟩ := hp
  refine runsProper_look (a := .isFile p) trivial (fun _ _ => rfl) hpath hs
    fun isFile hlook => ?_
  obtain ⟨w, hw, hisFile⟩ := hlook
  exact hrest isFile (found_of_look hleads hw (finds_of_isFile hne hisFile))

theorem readTarget_proper {s : Redelivery} {occurredAt : String} {path : Text}
    (hkind : c.kind = .read) (hp : Target self depth c fs₀ p)
    (hs : Fresh self depth c fs₀ s) :
    RunsProper self depth c fs₀ (readTarget occurredAt c.event path p)
      (fun _ _ => True) s := by
  have hne : c.kind ≠ .write := by simp [hkind]
  refine isFile_proper hne hp hs fun isFile hfinds => ?_
  cases isFile with
  | false => exact operationFailed_only hp hne hfinds
  | true =>
      refine orNak_only (.act trivial) fun content => ?_
      exact completed_only hp (by rw [hfinds, hkind]; rfl) (by decide)

theorem deleteTarget_proper {s : Redelivery} {occurredAt : String}
    {path : Text} (hkind : c.kind = .delete) (hp : Target self depth c fs₀ p)
    (hs : Fresh self depth c fs₀ s) :
    RunsProper self depth c fs₀ (deleteTarget occurredAt c.event path p)
      (fun _ _ => True) s := by
  have hne : c.kind ≠ .write := by simp [hkind]
  refine isFile_proper hne hp hs fun isFile hfinds => ?_
  cases isFile with
  | false => exact operationFailed_only hp hne hfinds
  | true =>
      refine orNak_only (.act ⟨hkind, hp, hfinds⟩) fun _ => ?_
      exact completed_only hp (by rw [hfinds, hkind]; rfl) (by decide)

theorem delivers_proper {s : Redelivery} {q : FileProg Unit}
    (hq : Redelivery.Delivers self c q) (hs : Fresh self depth c fs₀ s) :
    RunsProper self depth c fs₀ q (fun _ _ => True) s := by
  obtain ⟨occurredAt, rfl⟩ := hq
  obtain ⟨kind, time, event⟩ := c
  cases kind with
  | write =>
      refine withTarget_proper (fun request hrequest => ?_)
        (fun request target s' _ hs' hp => writeTarget_proper rfl hp hs') hs
      rw [FileCommand.path, hrequest]
      rfl
  | read =>
      exact withTarget_proper (fun _ hrequest => hrequest)
        (fun path target s' _ hs' hp => readTarget_proper rfl hp hs') hs
  | delete =>
      exact withTarget_proper (fun _ hrequest => hrequest)
        (fun path target s' _ hs' hp => deleteTarget_proper rfl hp hs') hs

/-- As long as every delivery begins before any has made the file or removed
it, whatever failed before, all results are the one for the state at first. -/
theorem one_outcome {fs : Fs FileName} {s : Redelivery}
    (h : Redelivery.Reached self depth c Redelivery.OnTime fs s) :
    OneOutcome self depth c fs s := by
  have hstart : InTime self depth c fs { world := { fs := fs } } :=
    ⟨nofun, fun _ _ _ => .refl fs⟩
  refine (h.invariant (I := InTime self depth c fs)
    (fun q t hq honTime ht => ?_) hstart).outcome
  exact Prog.wp_invariant (fun s a r s' hs ha hcan => inTime_step hs ha hcan)
    ht (delivers_proper hq ⟨ht, honTime⟩)

/-! ## Two deliveries -/

namespace Redelivery

/-- What a call does if it raises at once where `faults` says so, and goes well
elsewhere. -/
def performs (faults : FileAct → Option Exn) (depth : ℕ) (a : FileAct)
    (s : Redelivery) : Except Exn a.Resp × Redelivery :=
  match faults a with
  | some e => (.error e, s)
  | none => ((a.perform depth s.world).1, {
      world := (a.perform depth s.world).2
      turned := s.turned ||
        a.turns s.world.fs (a.perform depth s.world).2.fs })

/-- What one delivery leaves. -/
def deliver (faults : FileAct → Option Exn) (self : FileAdapter) (depth : ℕ)
    (c : FileCommand) (s : Redelivery) : Redelivery :=
  ((c.handle self).exec (performs faults depth) s).2

variable {begins : Redelivery → Prop} {faults : FileAct → Option Exn}

theorem turns_self (a : FileAct) (fs : Fs FileName) :
    a.turns fs fs = false := by
  cases a with
  | openWrite p => exact Bool.not_and_self _
  | unlink p => exact Bool.and_not_self _
  | _ => rfl

theorem can_performs (hfaults : ∀ a e, faults a = some e → a.MayRaise e)
    {s s' : Redelivery} {a : FileAct} {r : Except Exn a.Resp}
    (h : Prog.executes (performs faults depth) s a r s') :
    can self depth c s a r s' := by
  refine ⟨s.world.fs, fun _ _ => ⟨rfl, fun _ _ => rfl, fun _ _ => rfl⟩, ?_⟩
  rw [Prog.executes, performs] at h
  split at h
  · next e he =>
      obtain ⟨rfl, rfl⟩ := Prod.mk.inj h
      exact ⟨.raised (hfaults a e he) (.nothing a),
        by rw [turns_self, Bool.or_false]⟩
  · obtain ⟨rfl, rfl⟩ := Prod.mk.inj h
    exact ⟨.done, rfl⟩

theorem reached_deliver (hfaults : ∀ a e, faults a = some e → a.MayRaise e)
    {s : Redelivery} (h : Reached self depth c begins fs s) (hs : begins s) :
    Reached self depth c begins fs (deliver faults self depth c s) :=
  h.again hs ⟨c.occurredAt, rfl⟩ ((Prog.steps_exec _ _ _).mono
    fun _ _ _ _ => can_performs hfaults)

end Redelivery

namespace Sample

def noFaults (_ : FileAct) : Option Exn := none

/-- The disk is full when the file is opened. -/
def fullDisk : FileAct → Option Exn
  | .openWrite _ => some (.osError .other)
  | _ => none

def writeX : FileCommand := writeCommand "x" [7, 8]

end Sample

open Sample

/-- A write that made its file and whose ack was lost. Delivered again, it says
that the file was there before. -/
theorem redelivery_differs : ∃ s,
    Redelivery.Reached fileAdapter 1000 writeX (fun _ => True) emptyFs s ∧
    s.world.published.map PublishArgs.eventType =
      ["FileCreateCompleted", "FileWriteCompleted"] ∧
    ¬ OneOutcome fileAdapter 1000 writeX emptyFs s := by
  have hfaults : ∀ a e, noFaults a = some e → a.MayRaise e := nofun
  have htypes : (Redelivery.deliver noFaults fileAdapter 1000 writeX
      (Redelivery.deliver noFaults fileAdapter 1000 writeX
        { world := { fs := emptyFs } })).world.published.map
          PublishArgs.eventType =
      ["FileCreateCompleted", "FileWriteCompleted"] := by
    decide +kernel
  refine ⟨_, Redelivery.reached_deliver hfaults
    (Redelivery.reached_deliver hfaults .refl trivial) trivial, htypes,
    fun h => ?_⟩
  have hmem : "FileWriteCompleted" ∈ List.map PublishArgs.eventType _ :=
    htypes ▸ List.mem_cons_of_mem _ List.mem_cons_self
  obtain ⟨args, hargs, htype⟩ := List.mem_map.mp hmem
  obtain ⟨relative, target, hpath, hleads, hresult⟩ := h args hargs
  have hpath' : writeX.path = .ok (Text.ofString "x") := by
    rw [writeX, writeCommand, FileCommand.path]
    show (decodeWriteRequested (writeRequest "x" [7, 8])).map _ = _
    rw [decodeWriteRequested_writeRequest (by decide)]
    rfl
  have hleads' : leadsTo emptyFs 1000 fileAdapter.watchDir
      (Text.ofString "x") = .ok ⟨.slash, [rootName.text, aliasName.text]⟩ := by
    decide +kernel
  rw [hpath] at hpath'
  obtain rfl := Except.ok.inj hpath'
  rw [hleads] at hleads'
  obtain rfl := Except.ok.inj hleads'
  have hmissing : FileKind.write.finds emptyFs
      ⟨.slash, [rootName.text, aliasName.text]⟩ = false := by
    decide +kernel
  have hresult := hresult.type
  rw [htype] at hresult
  have hdiffers : "FileWriteCompleted" = FileKind.write.result false := by
    rw [← hmissing]
    exact hresult
  exact absurd hdiffers (by decide)

/-- The disk is full at first, then there is room. -/
theorem one_outcome_retried : ∃ s,
    s.world.published.map PublishArgs.eventType = ["FileCreateCompleted"] ∧
    s.world.settled = [.nakked, .acked] ∧
    OneOutcome fileAdapter 1000 writeX emptyFs s := by
  have hnone : ∀ a e, noFaults a = some e → a.MayRaise e := nofun
  have hfull : ∀ a e, fullDisk a = some e → a.MayRaise e := by
    intro a e h
    cases a with
    | openWrite p =>
        cases h
        rfl
    | _ => cases h
  refine ⟨_, ?_, ?_, one_outcome (Redelivery.reached_deliver hnone
    (Redelivery.reached_deliver hfull .refl rfl) ?_)⟩
  · decide +kernel
  · decide +kernel
  · show _ = false
    decide +kernel

end JetCore
