import JetCore.Proofs.AsFirst
import JetCore.Proofs.Settling

/-!
# What a write that was nakked has left

There is no temporary file and no rename: the content goes into the file
itself, which the `open` has emptied. So all depends on how far the write came.
Up to the `open` nothing is lost, and what was made are directories only. After
it the old content is gone, and what there is of the new one is what was
written before the error.
-/

namespace JetCore

open Lib

variable {faults : Faults} {depth : ℕ} {target : PosixPath}

/-! ## What is left -/

variable (faults depth) in
/-- What the `open` of the write comes to, after the directories above the
target. -/
def openedBy (target : PosixPath) (w : FileWorld) : Except Exn Location :=
  ((do
    FileAct.call (.mkdir target.parent)
    FileAct.call (.openWrite target) : FileProg Location).exec
      (FileAct.performFaulty faults depth) ⟨w, 3⟩).1

/-- The same, but for directories where nothing was. -/
def MakesOnly (fs fs' : Fs FileName) (l : Location) : Prop :=
  fs'.node? l = fs.node? l ∨ fs.node? l = none ∧ fs'.node? l = some .dir

/-- What a write that came so far has made of the tree. -/
structure LeftBy (opened : Except Exn Location) (written : Bytes)
    (target : PosixPath) (fs fs' : Fs FileName) : Prop where
  unopened : ∀ e, opened = .error e → target.stat fs' = target.stat fs
  cut : ∀ file, opened = .ok file → target.stat fs' = .ok (.file written)
  others : ∀ l, opened ≠ .ok l → MakesOnly fs fs' l

/-! ## Call by call -/

theorem mkdirs_makesOnly (path : Location) (fs : Fs FileName) (l : Location) :
    MakesOnly fs (mkdirs path fs).2.2 l := by
  refine mkdirsUp_induct (P := fun fs fs' => MakesOnly fs fs' l)
    (fun _ => .inl rfl) (fun _ _ _ h h' => ?_) path.reverse fs
    fun front loc fs fs' _ h => ?_
  · rcases h with h | ⟨hnone, hdir⟩
    · rw [MakesOnly, ← h]
      exact h'
    · rcases h' with h' | ⟨hnone', -⟩
      · exact .inr ⟨hnone, h'.trans hdir⟩
      · rw [hdir] at hnone'
        cases hnone'
  · obtain ⟨-, hnone, hsets⟩ := Fs.mkdir_eq_ok h
    by_cases heq : l = loc
    · subst heq
      exact .inr ⟨hnone, hsets.at⟩
    · exact .inl (hsets.of_ne heq)

variable (depth) in
/-- However much of it is done. -/
theorem perform_mkdir_left {q : PosixPath} (hq : q.parts <+: target.parent.parts)
    (w : FileWorld) :
    target.stat ((FileAct.mkdir q).perform depth w).2.fs =
        target.stat w.fs ∧
      ∀ l, MakesOnly w.fs ((FileAct.mkdir q).perform depth w).2.fs l := by
  refine ⟨(perform_mkdir_above depth hq w).2, fun l => ?_⟩
  rw [FileAct.perform, FileWorld.onPath]
  cases q.encode with
  | error e => exact .inl rfl
  | ok path => exact mkdirs_makesOnly path w.fs l

variable (depth target) in
theorem mkdir_left (fault : Option Errno) (gets : ℕ) (w : FileWorld) :
    target.stat ((FileAct.mkdir target.parent).performUnless fault depth gets
        w).2.fs = target.stat w.fs ∧
      ∀ l, MakesOnly w.fs ((FileAct.mkdir target.parent).performUnless fault
        depth gets w).2.fs l := by
  rw [FileAct.performUnless.eq_def]
  split
  · split
    · exact perform_mkdir_left depth (List.take_prefix _ _) w
    · exact perform_mkdir_left depth (List.prefix_refl _) w
  · exact perform_mkdir_left depth (List.prefix_refl _) w

/-- An `open` leaves all as it was, or an empty file where the path leads. -/
def OpensAt (target : PosixPath) (r : Except Exn Location)
    (fs fs' : Fs FileName) : Prop :=
  match r with
  | .error _ => fs' = fs
  | .ok file => ∃ names, target.encode = .ok names ∧
      fs.locate names = .ok file ∧
      fs.Sets fs' file (some (.file [])) ∧ fs.Grows fs'

theorem perform_openWrite_left (w : FileWorld) :
    OpensAt target ((FileAct.openWrite target).perform depth w).1 w.fs
      ((FileAct.openWrite target).perform depth w).2.fs := by
  have hgrows := perform_openWrite_grows depth target w
  rw [FileAct.perform, FileWorld.onPath] at hgrows ⊢
  cases hnames : target.encode with
  | error e => exact rfl
  | ok names =>
      rw [hnames] at hgrows
      simp only [FileWorld.change] at hgrows ⊢
      cases hopen : w.fs.openTrunc names with
      | error e => exact rfl
      | ok opened =>
          rw [hopen] at hgrows
          obtain ⟨hlocate, -, -, -, hsets⟩ := Fs.openTrunc_eq_ok hopen
          exact ⟨names, hnames, hlocate, hsets, hgrows⟩

variable (depth target) in
theorem openWrite_left (fault : Option Errno) (gets : ℕ) (w : FileWorld) :
    OpensAt target
      ((FileAct.openWrite target).performUnless fault depth gets w).1 w.fs
      ((FileAct.openWrite target).performUnless fault depth gets w).2.fs := by
  rw [FileAct.performUnless.eq_def]
  split
  · split
    · exact rfl
    · exact perform_openWrite_left w
  · exact perform_openWrite_left w

theorem write_left {fault : Option Errno} {gets : ℕ} {file : Location}
    {content : Bytes} {w : FileWorld} {e : Exn}
    (h : ((FileAct.write file content).performUnless fault depth gets w).1 =
      .error e) :
    ((FileAct.write file content).performUnless fault depth gets w).2.fs =
      w.fs.writeAt file (content.take gets) := by
  cases fault with
  | none => cases h
  | some errno => rfl

/-! ## The whole write -/

/-- What is written to the file that was opened is found at the target. -/
theorem stat_written {fs fs' : Fs FileName} {names file : Location}
    (hnames : target.encode = .ok names) (hlocate : fs.locate names = .ok file)
    (hsets : fs.Sets fs' file (some (.file []))) (hgrows : fs.Grows fs')
    (written : Bytes) :
    target.stat (fs'.writeAt file written) = .ok (.file written) ∧
      ∀ l, l ≠ file → (fs'.writeAt file written).node? l = fs.node? l := by
  have hwrite := Fs.writeAt_sets written hsets.at
  have hgrows' : fs'.Grows (fs'.writeAt file written) :=
    hwrite.grows (by simp) (by simp [hsets.at]) (by simp [hsets.at])
      fun _ => ⟨written, rfl⟩
  constructor
  · exact posixStat_eq_ok.mpr ⟨names, hnames, Fs.stat_eq_ok.mpr
      ⟨file, hgrows'.locate (hgrows.locate hlocate), hwrite.at⟩⟩
  · intro l hne
    rw [hwrite.of_ne hne, hsets.of_ne hne]

theorem writeFile_left {content : Bytes} {w : FileWorld} {e : Exn}
    {s : FaultyWorld}
    (h : (writeFile target content).exec (FileAct.performFaulty faults depth)
      ⟨w, 3⟩ = (.error e, s)) :
    LeftBy (openedBy faults depth target w) (content.take (faults.gets 5))
      target w.fs s.world.fs := by
  obtain ⟨hstat, hothers⟩ := mkdir_left depth target (faults.errno 3 0)
    (faults.gets 3) w
  rw [writeFile, Prog.exec_bind, exec_faulty (by simp)] at h
  rw [openedBy, Prog.exec_bind, exec_faulty (by simp)]
  generalize (FileAct.mkdir target.parent).performUnless (faults.errno 3 0)
    depth (faults.gets 3) w = made at h hstat hothers ⊢
  obtain ⟨r, w₁⟩ := made
  cases r with
  | error e' =>
      cases h
      exact ⟨fun _ _ => hstat, (fun _ h => by cases h), fun l _ => hothers l⟩
  | ok u =>
      rw [Prog.resume_ok, Prog.exec_bind, exec_faulty (by simp)] at h
      rw [Prog.resume_ok, exec_faulty (by simp)]
      have hopen := openWrite_left depth target (faults.errno 4 0)
        (faults.gets 4) w₁
      simp only [] at h ⊢
      generalize (FileAct.openWrite target).performUnless (faults.errno 4 0)
        depth (faults.gets 4) w₁ = opened at h hopen ⊢
      obtain ⟨r, w₂⟩ := opened
      cases r with
      | error e' =>
          cases h
          have hfs : w₂.fs = w₁.fs := hopen
          refine ⟨fun _ _ => ?_, (fun _ h => by cases h), fun l _ => ?_⟩
          · rw [hfs, hstat]
          · rw [hfs]
            exact hothers l
      | ok file =>
          rw [Prog.resume_ok, exec_faulty (by simp)] at h
          obtain ⟨hr, rfl⟩ := Prod.mk.inj h
          obtain ⟨names, hnames, hlocate, hsets, hgrows⟩ := hopen
          obtain ⟨hwritten, hsame⟩ := stat_written hnames hlocate hsets hgrows
            (content.take (faults.gets 5))
          have hfs := write_left hr
          refine ⟨(fun _ h => by cases h), fun l hl => ?_, fun l hl => ?_⟩
          · exact (congrArg target.stat hfs).trans hwritten
          · rw [MakesOnly, show _ = _ from congrArg (Fs.node? · l) hfs,
              hsame l fun heq => hl (by rw [heq])]
            exact hothers l

/-! ## The handler -/

variable (faults depth) in
/-- The world after `_handle`. -/
def afterWrite (adapter : FileAdapter) (occurredAt : String)
    (event : ReceivedEvent) (w : FileWorld) : FileWorld :=
  ((handleWrite adapter occurredAt event).exec
    (FileAct.performFaulty faults depth) ⟨w, 0⟩).2.world

theorem publishAndAck_acks {event : ReceivedEvent} (subject eventType : String)
    (payload : Bytes) (s : FaultyWorld) :
    ((publishAndAck event subject eventType payload).exec
      (FileAct.performFaulty faults depth) s).2.world.settled =
      s.world.settled ++ [.acked] := by
  rw [publishAndAck, Prog.exec_bind, exec_sure rfl (by simp)]
  show ((FileAct.call .ack).exec (FileAct.performFaulty faults depth)
    _).2.world.settled = _
  rw [exec_sure rfl (by simp)]
  rfl

variable (faults depth target) in
theorem owing_writeFile (content : Bytes) (before : List Settlement) :
    Prog.Keeps (Faulty faults depth) (Owing before)
      (writeFile target content) :=
  .bind (owing_call (a := .mkdir _) trivial before) fun _ =>
    .bind (owing_call (a := .openWrite _) trivial before) fun _ =>
      owing_call (a := .write _ _) trivial before

variable (target) in
theorem markRecent_acks (adapter : FileAdapter) {p : FileProg Unit}
    (hp : ∀ s, (p.exec (FileAct.performFaulty faults depth) s).2.world.settled =
      s.world.settled ++ [.acked]) (s : FaultyWorld) :
    ((do markRecent adapter target; p : FileProg Unit).exec
      (FileAct.performFaulty faults depth) s).2.world.settled =
      s.world.settled ++ [.acked] := by
  rw [Prog.exec_bind, markRecent]
  split
  · rw [exec_sure rfl (by simp)]
    exact hp _
  · exact hp _

theorem failed_write (faults : Faults) (depth : ℕ) (adapter : FileAdapter)
    (occurredAt : String) (event : ReceivedEvent) (request : WriteRequest)
    (target : PosixPath) (w : FileWorld)
    (hrequest : decodeWriteRequested event.payload = .ok request)
    (hwithin : withinFaulty faults depth w.fs adapter.watchDir request.path =
      .ok target)
    (hnak : (afterWrite faults depth adapter occurredAt event w).settled =
      w.settled ++ [.nakked]) :
    LeftBy (openedBy faults depth target w)
      (request.content.take (faults.gets 5)) target w.fs
      (afterWrite faults depth adapter occurredAt event w).fs := by
  obtain ⟨n, hexec, hn⟩ := exec_within faults depth adapter.watchDir
    request.path w
  obtain rfl := hn target hwithin
  rw [hwithin] at hexec
  rw [afterWrite, handleWrite, withTarget.eq_def, hrequest] at hnak ⊢
  simp only [] at hnak ⊢
  rw [Prog.exec_bind, Prog.exec_attempt, hexec, Prog.resume_ok] at hnak ⊢
  simp only [] at hnak ⊢
  rw [writeTarget, Prog.exec_bind, exec_exists (withinFaulty_encodes hwithin)]
    at hnak ⊢
  cases hlook : answered (faults.errno 2 0) (target.exists? w.fs) with
  | error e =>
      rw [hlook] at hnak
      exact absurd hnak (by simp)
  | ok existedBefore =>
      rw [hlook] at hnak
      rw [Prog.resume_ok, orNak, Prog.exec_bind, Prog.exec_attempt,
        Prog.resume_ok] at hnak ⊢
      have howing := (owing_writeFile faults depth target request.content
        w.settled).exec (s := ⟨w, 3⟩) rfl
      rcases hrun : (writeFile target request.content).exec
        (FileAct.performFaulty faults depth) ⟨w, 3⟩ with ⟨r, s⟩
      rw [hrun] at howing hnak
      have hsettled : s.world.settled = w.settled := howing
      cases r with
      | error e =>
          have hleft := writeFile_left hrun
          simp only [] at hnak ⊢
          split
          · rw [Prog.exec_bind, exec_sure rfl (by simp)]
            simp only [FileAct.perform, Prog.resume_ok]
            rw [exec_sure rfl (by simp)]
            exact hleft
          · exact hleft
      | ok u =>
          have hacks : ∀ s : FaultyWorld, ((if existedBefore = true
              then publishAndAck event "events.files.FileWriteCompleted"
                "FileWriteCompleted" (encodeCompleted request.path
                  request.content.length occurredAt)
              else publishAndAck event "events.files.FileCreateCompleted"
                "FileCreateCompleted" (encodeCompleted request.path
                  request.content.length occurredAt)).exec
              (FileAct.performFaulty faults depth) s).2.world.settled =
              s.world.settled ++ [.acked] := by
            intro s
            split
            · exact publishAndAck_acks _ _ _ s
            · exact publishAndAck_acks _ _ _ s
          rw [show _ = _ from markRecent_acks target adapter hacks s, hsettled]
            at hnak
          simp at hnak

namespace Sample

/-- The disk is full after one byte. -/
def cutShort : Faults where
  errno call _ := if call = 5 then some .other else none
  gets _ := 1

/-- Writes `x` anew. -/
def overwrite : ReceivedEvent := (writeCommand "x" [7, 8]).event

def overwritten : PosixPath := ⟨.slash, [rootName.text, aliasName.text]⟩

end Sample

open Sample

theorem decode_overwrite : decodeWriteRequested overwrite.payload =
    .ok ⟨Text.ofString "x", [7, 8]⟩ :=
  decodeWriteRequested_writeRequest (by decide) [7, 8]

theorem overwrite_nakked :
    (afterWrite cutShort 1000 fileAdapter "2026-01-01T00:00:00Z" overwrite
      { fs := fileFs }).settled = [.nakked] := by
  decide +kernel

theorem within_overwritten : withinFaulty cutShort 1000 fileFs
    fileAdapter.watchDir (Text.ofString "x") = .ok overwritten := by
  decide +kernel

theorem failed_overwrite : LeftBy
    (openedBy cutShort 1000 overwritten { fs := fileFs }) [7] overwritten
    fileFs (afterWrite cutShort 1000 fileAdapter "2026-01-01T00:00:00Z"
      overwrite { fs := fileFs }).fs :=
  failed_write cutShort 1000 fileAdapter "2026-01-01T00:00:00Z" overwrite
    ⟨Text.ofString "x", [7, 8]⟩ overwritten { fs := fileFs } decode_overwrite
    within_overwritten overwrite_nakked

/-- The message will be delivered again, but the old content is lost. -/
theorem overwrite_cuts :
    decodeWriteRequested overwrite.payload =
      .ok ⟨Text.ofString "x", [7, 8]⟩ ∧
    resolvedWithin fileFs 1000 fileAdapter.watchDir (Text.ofString "x") =
      .ok overwritten ∧
    (afterWrite cutShort 1000 fileAdapter "2026-01-01T00:00:00Z" overwrite
      { fs := fileFs }).settled = [.nakked] ∧
    overwritten.stat fileFs = .ok (.file [1, 2, 3]) ∧
    overwritten.stat (afterWrite cutShort 1000 fileAdapter
      "2026-01-01T00:00:00Z" overwrite { fs := fileFs }).fs =
      .ok (.file [7]) :=
  ⟨decode_overwrite, by decide +kernel, overwrite_nakked, by decide +kernel,
    by decide +kernel⟩

end JetCore
