import JetCore.Proofs.Beside
import JetCore.Proofs.FaultyResolve
import JetCore.Proofs.ReadYourWrites
import JetCore.Spec.Settling

/-!
# When a file handler settles its message

Inside the `try` only an `OSError` can be raised, since the target has been
encoded already and the names in a directory always can be. So the handlers
come to their one ack or nak from there on, and everything depends on what is
called before.
-/

namespace JetCore

open Lib

variable {faults : Faults} {depth : ℕ}

/-! ## One call -/

theorem onPath_raises {α : Type} {w : FileWorld} {p : PosixPath}
    {f : Location → Except Exn α × FileWorld} (hp : p.encode.isOk = true)
    (hf : ∀ path e, (f path).1 = .error e → e.isOSError = true) {e : Exn}
    (h : (w.onPath p f).1 = .error e) : e.isOSError = true := by
  rw [FileWorld.onPath] at h
  cases hpath : p.encode with
  | error e' =>
      rw [hpath] at hp
      cases hp
  | ok path =>
      rw [hpath] at h
      exact hf path e h

theorem look_raises {α β : Type} {w : FileWorld} {x : Except Errno α}
    {f : α → β} {e : Exn} (h : (w.look x f).1 = .error e) :
    e.isOSError = true := by
  cases x with
  | ok a => cases h
  | error errno =>
      cases h
      rfl

theorem change_raises {α : Type} {w : FileWorld}
    {x : Except Errno (Location × Fs FileName)} {f : Location → α} {e : Exn}
    (h : (w.change x f).1 = .error e) : e.isOSError = true := by
  cases x with
  | ok a => cases h
  | error errno =>
      cases h
      rfl

theorem test_raises {fs : Fs FileName} {p : PosixPath}
    {holds : Node FileName → Bool} {e : Exn}
    (h : p.test fs holds = .error e) : e.isOSError = true := by
  rw [PosixPath.test] at h
  split at h
  · cases h
  · split at h
    · cases h
    · cases h
      rfl
  · cases h

theorem perform_raises {a : FileAct} {w : FileWorld} {e : Exn}
    (ha : a.reachesSystem = true) (h : (a.perform depth w).1 = .error e) :
    e.isOSError = true := by
  cases a with
  | «exists» p => exact test_raises h
  | isFile p => exact test_raises h
  | isDir p => exact test_raises h
  | iterdir p => exact onPath_raises ha (fun _ _ h => look_raises h) h
  | size p => exact onPath_raises ha (fun _ _ h => look_raises h) h
  | mkdir p =>
      refine onPath_raises ha (fun path e h => ?_) h
      cases hmk : (mkdirs path w.fs).1 with
      | ok u =>
          simp only [hmk] at h
          cases h
      | error errno =>
          simp only [hmk] at h
          cases h
          rfl
  | openWrite p => exact onPath_raises ha (fun _ _ h => change_raises h) h
  | write file content => cases h
  | read p =>
      refine onPath_raises ha (fun path e h => ?_) h
      split at h
      · cases h
      · cases h
        rfl
  | unlink p => exact onPath_raises ha (fun _ _ h => change_raises h) h
  | resolve p => cases ha
  | mark p => cases ha
  | log line => cases ha
  | publish args => cases ha
  | ack => cases ha
  | nak => cases ha

/-- Everything but the ack and the nak. -/
def Unsettling : FileAct → Prop
  | .ack | .nak => False
  | _ => True

theorem performFaulty_settled {a : FileAct} (ha : Unsettling a)
    (s : FaultyWorld) : (a.performFaulty faults depth s).2.world.settled =
      s.world.settled := by
  have hbeside := congrArg Beside.settled
    (performFaulty_beside depth faults a s)
  cases a with
  | ack => exact ha.elim
  | nak => exact ha.elim
  | _ => exact hbeside

variable (faults depth) in
/-- The world in which the handlers run. -/
abbrev Faulty : Prog.World FaultyWorld FileAct FileAct.Resp Exn :=
  Prog.executes (FileAct.performFaulty faults depth)

/-- Before anything is settled. -/
def Owing (before : List Settlement) (s : FaultyWorld) : Prop :=
  s.world.settled = before

theorem owing_call {a : FileAct} (ha : Unsettling a)
    (before : List Settlement) :
    Prog.Keeps (Faulty faults depth) (Owing before) a.call := by
  refine .act fun s r s' hs hcan => ?_
  have hs' : (a.performFaulty faults depth s).2 = s' :=
    congrArg Prod.snd hcan
  rw [← hs', Owing, performFaulty_settled ha]
  exact hs

theorem onErrno_raises {errno : Errno} {a : FileAct} {e : Exn}
    (h : a.onErrno errno = .error e) : e.isOSError = true := by
  cases a with
  | «exists» p | isFile p | isDir p =>
      rw [FileAct.onErrno] at h
      split at h
      · cases h
      · cases h
        rfl
  | _ =>
      cases h
      rfl

/-- A call that reaches the operating system raises an `OSError` if it raises
anything. -/
theorem raises_call {a : FileAct} (ha : a.reachesSystem = true) :
    Prog.Yields (Faulty faults depth) (fun _ => True)
      (fun e => e.isOSError = true) a.call := by
  refine .act fun s r s' hcan => ?_
  have hr : (a.performFaulty faults depth s).1 = r := congrArg Prod.fst hcan
  cases r with
  | ok r => trivial
  | error e =>
      have hdone : ((a.performUnless (faults.errno s.calls 0) depth
          (faults.gets s.calls) s.world).1) = .error e := by
        cases a with
        | resolve p => cases ha
        | _ => exact hr
      rw [FileAct.performUnless.eq_def] at hdone
      split at hdone
      · rw [if_pos ha] at hdone
        exact onErrno_raises hdone
      · exact perform_raises ha hdone

/-! ## Inside the `try` -/

variable (faults depth) in
/-- Settles nothing itself and raises an `OSError` at most. -/
def Tries {α : Type} (x : FileProg α) : Prop :=
  (∀ before, Prog.Keeps (Faulty faults depth) (Owing before) x) ∧
    Prog.Yields (Faulty faults depth) (fun _ => True)
      (fun e => e.isOSError = true) x

theorem tries_call {a : FileAct} (ha : a.reachesSystem = true)
    (hsettles : Unsettling a) : Tries faults depth a.call :=
  ⟨fun before => owing_call hsettles before, raises_call ha⟩

theorem Tries.bind {α β : Type} {x : FileProg α} {g : α → FileProg β}
    (hx : Tries faults depth x) (hg : ∀ a, Tries faults depth (g a)) :
    Tries faults depth (x >>= g) :=
  ⟨fun before => (hx.1 before).bind fun a => (hg a).1 before,
    hx.2.bind fun a _ => (hg a).2⟩

theorem Encodes.isOk {p : PosixPath} (hp : Encodes p) :
    p.encode.isOk = true := by
  obtain ⟨path, hpath⟩ := hp
  rw [hpath]
  rfl

theorem Encodes.parent {p : PosixPath} (hp : Encodes p) :
    Encodes p.parent := by
  obtain ⟨path, hpath⟩ := hp
  exact ⟨path.dropLast, spells_dropLast hpath⟩

/-- A name that was read from a directory can be encoded again. -/
theorem Encodes.child {p : PosixPath} (hp : Encodes p) (n : FileName) :
    Encodes (p.child n) := by
  obtain ⟨path, hpath⟩ := hp
  exact ⟨path ++ [n],
    spells_concat.mpr ⟨path, n, hpath, encodeName_text n, rfl⟩⟩

theorem tries_writeFile {target : PosixPath} (htarget : Encodes target)
    (content : Bytes) : Tries faults depth (writeFile target content) := by
  refine (tries_call (a := .mkdir _) htarget.parent.isOk trivial).bind
    fun _ => ?_
  refine (tries_call (a := .openWrite _) htarget.isOk trivial).bind
    fun file => ?_
  exact tries_call rfl trivial

theorem owing_listEntry (child : PosixPath) (before : List Settlement) :
    Prog.Keeps (Faulty faults depth) (Owing before) (listEntry child) := by
  have hdir : Prog.Keeps (Faulty faults depth) (Owing before)
      (FileAct.call (.isDir child)) :=
    owing_call (a := .isDir child) trivial before
  have hsize : Prog.Keeps (Faulty faults depth) (Owing before)
      (entrySize child) := by
    refine hdir.bind fun isDirectory => ?_
    split
    · exact .pure 0
    · exact owing_call (a := .size child) trivial before
  exact hdir.bind fun _ => hsize.bind fun _ => .pure _

theorem yields_listEntry {child : PosixPath} (hchild : Encodes child) :
    Prog.Yields (Faulty faults depth) (fun _ => True)
      (fun e => e.isOSError = true) (listEntry child) := by
  have hdir : Prog.Yields (Faulty faults depth) (fun _ => True)
      (fun e => e.isOSError = true) (FileAct.call (.isDir child)) :=
    raises_call (a := .isDir child) hchild.isOk
  have hsize : Prog.Yields (Faulty faults depth) (fun _ => True)
      (fun e => e.isOSError = true) (entrySize child) := by
    refine hdir.bind fun isDirectory _ => ?_
    split
    · exact .pure trivial
    · exact raises_call (a := .size child) hchild.isOk
  exact hdir.bind fun _ _ => hsize.bind fun _ _ => .pure trivial

theorem perform_iterdir {p : PosixPath} {w : FileWorld}
    {children : List PosixPath} (hp : Encodes p)
    (h : ((FileAct.iterdir p).perform depth w).1 = .ok children) :
    ∀ c ∈ children, Encodes c := by
  obtain ⟨path, hpath⟩ := id hp
  rw [FileAct.perform, FileWorld.onPath, hpath] at h
  simp only [FileWorld.look] at h
  split at h
  · cases h
    intro c hc
    obtain ⟨n, -, rfl⟩ := List.mem_map.mp hc
    exact hp.child n
  · cases h

theorem iterdir_yields {target : PosixPath} (htarget : Encodes target) :
    Prog.Yields (Faulty faults depth) (fun children => ∀ c ∈ children,
      Encodes c) (fun e => e.isOSError = true)
      (FileAct.call (.iterdir target)) := by
  refine .act fun s r s' hcan => ?_
  have hr : ((FileAct.iterdir target).performUnless (faults.errno s.calls 0)
      depth (faults.gets s.calls) s.world).1 = r := congrArg Prod.fst hcan
  rw [FileAct.performUnless.eq_def] at hr
  split at hr
  · rw [if_pos (show (FileAct.iterdir target).reachesSystem = true from
      htarget.isOk)] at hr
    rw [← hr]
    exact rfl
  · cases r with
    | error e => exact perform_raises (a := .iterdir target) htarget.isOk hr
    | ok children => exact perform_iterdir htarget hr

theorem tries_listEntries {target : PosixPath} (htarget : Encodes target) :
    Tries faults depth (listEntries target) := by
  constructor
  · intro before
    refine .bind (owing_call (a := .iterdir target) trivial before)
      fun children => ?_
    exact .each fun c _ => owing_listEntry c before
  · refine (iterdir_yields htarget).bind fun children hchildren => ?_
    refine (Prog.Yields.each (W := fun _ => True) fun c hc =>
      yields_listEntry (hchildren c ?_)).mono (fun _ _ => trivial)
      fun _ he => he
    exact (List.mem_insertionSort _).mp hc

/-! ## Around the `try` -/

variable {event : ReceivedEvent} {target : PosixPath}

theorem exec_faulty {a : FileAct} (ha : ∀ p, a ≠ .resolve p)
    (s : FaultyWorld) : a.call.exec (FileAct.performFaulty faults depth) s =
      ((a.performUnless (faults.errno s.calls 0) depth (faults.gets s.calls)
          s.world).1,
        ⟨(a.performUnless (faults.errno s.calls 0) depth (faults.gets s.calls)
          s.world).2, s.calls + 1⟩) := by
  rw [FileAct.call, Prog.exec_act]
  cases a with
  | resolve p => exact absurd rfl (ha p)
  | _ => rfl

theorem performUnless_fault {a : FileAct} (ha : a.reachesSystem = true)
    (e : Errno) (gets : ℕ) (w : FileWorld) :
    a.performUnless (some e) depth gets w =
      (a.onErrno e, a.leaves depth gets w) := by
  rw [FileAct.performUnless, if_pos ha]

/-- What the operating system has no part in. -/
theorem exec_sure {a : FileAct} (ha : a.reachesSystem = false)
    (hresolve : ∀ p, a ≠ .resolve p) (s : FaultyWorld) :
    a.call.exec (FileAct.performFaulty faults depth) s =
      ((a.perform depth s.world).1,
        ⟨(a.perform depth s.world).2, s.calls + 1⟩) := by
  rw [exec_faulty hresolve, FileAct.performUnless.eq_def]
  cases faults.errno s.calls 0 with
  | none => rfl
  | some e =>
      simp only []
      rw [if_neg (by simp [ha])]

theorem ack_settles (s : FaultyWorld) :
    SettlesOnce faults depth (FileAct.call .ack) s := by
  rw [SettlesOnce, exec_sure rfl (by simp)]
  exact ⟨rfl, .acked, rfl⟩

theorem nak_settles (s : FaultyWorld) :
    SettlesOnce faults depth (FileAct.call .nak) s := by
  rw [SettlesOnce, exec_sure rfl (by simp)]
  exact ⟨rfl, .nakked, rfl⟩

theorem settles_after {α : Type} {x : FileProg α} {g : α → FileProg Unit}
    {before : List Settlement} {s : FaultyWorld}
    (hx : Prog.Keeps (Faulty faults depth) (Owing before) x)
    (hs : Owing before s) {a : α}
    (hrun : (x.exec (FileAct.performFaulty faults depth) s).1 = .ok a)
    (hg : ∀ s, SettlesOnce faults depth (g a) s) :
    SettlesOnce faults depth (x >>= g) s := by
  have hkept := hx.exec hs
  rw [SettlesOnce, Prog.exec_bind]
  rcases hexec : x.exec (FileAct.performFaulty faults depth) s with ⟨r, s'⟩
  rw [hexec] at hrun hkept
  obtain rfl : r = .ok a := hrun
  rw [Prog.resume_ok, ← show s'.world.settled = s.world.settled from
    hkept.trans hs.symm]
  exact hg s'

theorem log_settles {line : FileLogLine} {p : FileProg Unit}
    (hp : ∀ s, SettlesOnce faults depth p s) (s : FaultyWorld) :
    SettlesOnce faults depth (do FileAct.call (.log line); p) s := by
  refine settles_after (owing_call (a := .log line) trivial _) rfl
    (a := ()) ?_ hp
  rw [exec_sure rfl (by simp)]
  rfl

theorem publishAndAck_settles (subject eventType : String) (payload : Bytes)
    (s : FaultyWorld) : SettlesOnce faults depth
      (publishAndAck event subject eventType payload) s := by
  refine settles_after (owing_call (a := .publish _) trivial _) rfl
    (a := ()) ?_ ack_settles
  rw [exec_sure rfl (by simp)]
  rfl

theorem orNak_settles {α : Type} {doing : String} {x : FileProg α}
    {rest : α → FileProg Unit} (hx : Tries faults depth x)
    (hrest : ∀ a s, SettlesOnce faults depth (rest a) s) (s : FaultyWorld) :
    SettlesOnce faults depth (orNak doing target event x rest) s := by
  rw [orNak]
  refine settles_after (hx.1 _).attempt rfl
    (congrArg Prod.fst (Prog.exec_attempt _ _ _)) fun s' => ?_
  have hends := hx.2.exec s
  cases hr : (x.exec (FileAct.performFaulty faults depth) s).1 with
  | ok a => exact hrest a s'
  | error e =>
      rw [hr] at hends
      simp only []
      rw [if_pos (show e.isOSError = true from hends)]
      exact log_settles nak_settles s'

/-- A look at the target that was already encoded. -/
def answered (fault : Option Errno) (x : Except Exn Bool) : Except Exn Bool :=
  match fault with
  | some e =>
      if PosixPath.ignoresError e then .ok false else .error (.osError e)
  | none => x

theorem test_total (fs : Fs FileName) (htarget : Encodes target)
    (holds : Node FileName → Bool) : ∃ b, target.test fs holds = .ok b := by
  obtain ⟨path, hpath⟩ := htarget
  cases hstat : fs.stat path with
  | ok node => exact ⟨_, test_ok hpath hstat holds⟩
  | error e =>
      rw [test_error hpath hstat holds]
      rcases Fs.stat_error hstat with rfl | rfl | rfl
      · exact ⟨false, rfl⟩
      · exact ⟨false, rfl⟩
      · exact ⟨false, rfl⟩

theorem answered_ok_iff {fault : Option Errno} {x : Except Exn Bool}
    (hx : ∃ b, x = .ok b) :
    (∃ b, answered fault x = .ok b) ↔ Ignored fault := by
  cases fault with
  | none => exact ⟨nofun, fun _ => hx⟩
  | some e =>
      simp only [answered, Ignored, Option.some.injEq, forall_eq']
      split
      · next h => exact ⟨fun _ => h, fun _ => ⟨false, rfl⟩⟩
      · next h => exact ⟨nofun, fun h' => absurd h' h⟩

/-- Only the tree says that something is there. -/
theorem answered_true {fault : Option Errno} {x : Except Exn Bool}
    (h : answered fault x = .ok true) : fault = none ∧ x = .ok true := by
  cases fault with
  | none => exact ⟨rfl, h⟩
  | some e =>
      rw [answered] at h
      split at h
      · cases h
      · cases h

theorem exec_exists (htarget : Encodes target) (s : FaultyWorld) :
    (FileAct.call (.exists target)).exec (FileAct.performFaulty faults depth)
        s =
      (answered (faults.errno s.calls 0) (target.exists? s.world.fs),
        ⟨s.world, s.calls + 1⟩) := by
  rw [exec_faulty (by simp)]
  cases faults.errno s.calls 0 with
  | none => rfl
  | some e =>
      rw [performUnless_fault (a := .exists target) htarget.isOk]
      rfl

theorem exec_isFile (htarget : Encodes target) (s : FaultyWorld) :
    (FileAct.call (.isFile target)).exec (FileAct.performFaulty faults depth)
        s =
      (answered (faults.errno s.calls 0) (target.isFile s.world.fs),
        ⟨s.world, s.calls + 1⟩) := by
  rw [exec_faulty (by simp)]
  cases faults.errno s.calls 0 with
  | none => rfl
  | some e =>
      rw [performUnless_fault (a := .isFile target) htarget.isOk]
      rfl

theorem exec_isDir (htarget : Encodes target) (s : FaultyWorld) :
    (FileAct.call (.isDir target)).exec (FileAct.performFaulty faults depth)
        s =
      (answered (faults.errno s.calls 0) (target.isDir s.world.fs),
        ⟨s.world, s.calls + 1⟩) := by
  rw [exec_faulty (by simp)]
  cases faults.errno s.calls 0 with
  | none => rfl
  | some e =>
      rw [performUnless_fault (a := .isDir target) htarget.isOk]
      rfl

/-- What is raised before the `try` settles nothing. -/
theorem settles_bind_iff {α : Type} {x : FileProg α} {g : α → FileProg Unit}
    {r : Except Exn α} {s : FaultyWorld} {n : ℕ}
    (hx : x.exec (FileAct.performFaulty faults depth) s =
      (r, ⟨s.world, n⟩)) :
    SettlesOnce faults depth (x >>= g) s ↔
      ∃ a, r = .ok a ∧ SettlesOnce faults depth (g a) ⟨s.world, n⟩ := by
  rw [SettlesOnce, Prog.exec_bind, hx]
  cases r with
  | error e =>
      constructor
      · intro h
        cases h.1
      · intro h
        obtain ⟨a, ha, -⟩ := h
        cases ha
  | ok a =>
      constructor
      · exact fun h => ⟨a, rfl, h⟩
      · intro h
        obtain ⟨b, hb, h⟩ := h
        cases hb
        exact h

/-- A look that everything after it settles. -/
theorem settles_look_iff {x : FileProg Bool} {g : Bool → FileProg Unit}
    {fault : Option Errno} {y : Except Exn Bool} {s : FaultyWorld} {n : ℕ}
    (hx : x.exec (FileAct.performFaulty faults depth) s =
      (answered fault y, ⟨s.world, n⟩)) (hy : ∃ b, y = .ok b)
    (hg : ∀ b s, SettlesOnce faults depth (g b) s) :
    SettlesOnce faults depth (x >>= g) s ↔ Ignored fault := by
  rw [settles_bind_iff hx, ← answered_ok_iff hy]
  exact exists_congr fun b => and_iff_left (hg b _)

theorem writeTarget_settles_iff (htarget : Encodes target)
    {adapter : FileAdapter} {occurredAt : String} {request : WriteRequest}
    (s : FaultyWorld) :
    SettlesOnce faults depth (writeTarget adapter occurredAt event request
        target) s ↔ Ignored (faults.errno s.calls 0) := by
  refine settles_look_iff (exec_exists htarget s) (test_total _ htarget _)
    fun existedBefore s => ?_
  refine orNak_settles (tries_writeFile htarget _) (fun _ s => ?_) s
  have hpublish : ∀ s, SettlesOnce faults depth
      (if existedBefore = true then
        publishAndAck event "events.files.FileWriteCompleted"
          "FileWriteCompleted"
          (encodeCompleted request.path request.content.length occurredAt)
      else
        publishAndAck event "events.files.FileCreateCompleted"
          "FileCreateCompleted"
          (encodeCompleted request.path request.content.length
            occurredAt)) s := by
    intro s
    split
    · exact publishAndAck_settles _ _ _ s
    · exact publishAndAck_settles _ _ _ s
  rw [markRecent]
  split
  · refine settles_after (owing_call (a := .mark target) trivial _) rfl
      (a := ()) ?_ hpublish
    rw [exec_sure rfl (by simp)]
    rfl
  · exact hpublish s

theorem readTarget_settles_iff (htarget : Encodes target)
    {occurredAt : String} {path : Text} (s : FaultyWorld) :
    SettlesOnce faults depth (readTarget occurredAt event path target) s ↔
      Ignored (faults.errno s.calls 0) := by
  refine settles_look_iff (exec_isFile htarget s) (test_total _ htarget _)
    fun found s => ?_
  split
  · exact publishAndAck_settles _ _ _ s
  · exact orNak_settles (tries_call (a := .read target) htarget.isOk trivial)
      (fun _ => publishAndAck_settles _ _ _) s

theorem deleteTarget_settles_iff (htarget : Encodes target)
    {occurredAt : String} {path : Text} (s : FaultyWorld) :
    SettlesOnce faults depth (deleteTarget occurredAt event path target) s ↔
      Ignored (faults.errno s.calls 0) := by
  refine settles_look_iff (exec_isFile htarget s) (test_total _ htarget _)
    fun found s => ?_
  split
  · exact publishAndAck_settles _ _ _ s
  · exact orNak_settles (tries_call (a := .unlink target) htarget.isOk trivial)
      (fun _ => publishAndAck_settles _ _ _) s

theorem listTarget_settles_iff (htarget : Encodes target)
    {occurredAt : String} {path : Text} (s : FaultyWorld) :
    SettlesOnce faults depth (listTarget occurredAt event path target) s ↔
      Ignored (faults.errno s.calls 0) ∧
        (faults.errno s.calls 0 = none →
          target.exists? s.world.fs = .ok true →
          Ignored (faults.errno (s.calls + 1) 0)) := by
  have htotal := test_total s.world.fs htarget fun _ => true
  have hdir : SettlesOnce faults depth (do
      if !(← FileAct.call (.isDir target)) then
        operationFailed event path "list" "not_a_directory" occurredAt
      else
        orNak "listing" target event (listEntries target) fun entries =>
          publishAndAck event "events.files.FileListCompleted"
            "FileListCompleted" (encodeListCompleted path entries occurredAt))
      ⟨s.world, s.calls + 1⟩ ↔ Ignored (faults.errno (s.calls + 1) 0) := by
    refine settles_look_iff (exec_isDir htarget _) (test_total _ htarget _)
      fun isDirectory s => ?_
    split
    · exact publishAndAck_settles _ _ _ s
    · exact orNak_settles (tries_listEntries htarget)
        (fun _ => publishAndAck_settles _ _ _) s
  rw [listTarget, settles_bind_iff (exec_exists htarget s)]
  constructor
  · intro h
    obtain ⟨found, hfound, h⟩ := h
    refine ⟨(answered_ok_iff htotal).mp ⟨found, hfound⟩, fun hnone hthere => ?_⟩
    rw [hnone, hthere] at hfound
    cases hfound
    exact hdir.mp h
  · intro h
    obtain ⟨found, hfound⟩ := (answered_ok_iff htotal).mpr h.1
    refine ⟨found, hfound, ?_⟩
    cases found with
    | false => exact publishAndAck_settles _ _ _ _
    | true =>
        obtain ⟨hnone, hthere⟩ := answered_true hfound
        exact hdir.mpr (h.2 hnone hthere)

/-! ## The handlers -/

variable {watchDir : PosixPath} {relative : Text} {w : FileWorld}

theorem exec_resolve (p : PosixPath) (s : FaultyWorld) :
    (FileAct.call (.resolve p)).exec (FileAct.performFaulty faults depth) s =
      (p.resolveFaulty s.world.fs (faults.errno s.calls) depth,
        ⟨s.world, s.calls + 1⟩) :=
  Prog.exec_act _ _ s

variable (faults depth) in
/-- `resolve_within` makes two calls if it answers. -/
theorem exec_within (watchDir : PosixPath) (relative : Text) (w : FileWorld) :
    ∃ n, (resolveWithin watchDir relative).exec
        (FileAct.performFaulty faults depth) ⟨w, 0⟩ =
          (withinFaulty faults depth w.fs watchDir relative, ⟨w, n⟩) ∧
      ∀ target, withinFaulty faults depth w.fs watchDir relative =
        .ok target → n = 2 := by
  rw [resolveWithin, withinFaulty]
  split
  · exact ⟨0, rfl, fun _ h => by cases h⟩
  · rw [Prog.exec_bind, exec_resolve]
    cases watchDir.resolveFaulty w.fs (faults.errno 0) depth with
    | error e => exact ⟨1, rfl, fun _ h => by cases h⟩
    | ok root =>
        refine ⟨2, ?_, fun _ _ => rfl⟩
        rw [Prog.resume_ok, Prog.exec_bind, exec_resolve]
        simp only [bind, Except.bind]
        cases (root.join relative).resolveFaulty w.fs (faults.errno 1)
            depth with
        | error e => rfl
        | ok target =>
            rw [Prog.resume_ok]
            simp only []
            split
            · rfl
            · rfl

/-- What escapes from `resolve_within` escapes from a `resolve` in it. -/
theorem resolves_iff : Resolves faults depth w.fs watchDir relative ↔
    ∀ e, withinFaulty faults depth w.fs watchDir relative = .error e →
      e.isPathTraversal = true := by
  rw [Resolves, withinFaulty]
  split
  · next habs =>
      refine ⟨fun _ e he => ?_, fun _ => .inl habs⟩
      cases he
      rfl
  · next habs =>
      rw [or_iff_right habs]
      cases hroot : watchDir.resolveFaulty w.fs (faults.errno 0) depth with
      | error e =>
          refine ⟨fun ⟨_, _, hr, _⟩ => ?_, fun h => ?_⟩
          · cases hr
          · exact absurd (h e rfl) (by
              simp [show e.isPathTraversal = false from
                resolveFaulty_unrefused hroot])
      | ok root =>
          simp only [bind, Except.bind]
          cases htarget : (root.join relative).resolveFaulty w.fs
              (faults.errno 1) depth with
          | error e =>
              refine ⟨fun ⟨_, _, hr, ht⟩ => ?_, fun h => ?_⟩
              · cases hr
                rw [htarget] at ht
                cases ht
              · exact absurd (h e rfl) (by
                  simp [show e.isPathTraversal = false from
                    resolveFaulty_unrefused htarget])
          | ok target =>
              refine ⟨fun _ e he => ?_, fun _ => ⟨root, target, rfl, htarget⟩⟩
              simp only [] at he
              split at he
              · cases he
                rfl
              · cases he

theorem withinFaulty_encodes {target : PosixPath}
    (h : withinFaulty faults depth w.fs watchDir relative = .ok target) :
    Encodes target := by
  rw [withinFaulty] at h
  split at h
  · cases h
  · obtain ⟨root, -, h⟩ := bind_eq_ok.mp h
    obtain ⟨target', htarget, h⟩ := bind_eq_ok.mp h
    split at h
    · cases h
    · cases h
      exact resolveFaulty_encodes htarget

/-- Every handler settles once it has come to its target, or has refused to. -/
theorem withTarget_settles_iff {α : Type} {eventType : String}
    {decoded : Except Exn α} {request : α} (hdecoded : decoded = .ok request)
    {path : α → Text} {body : α → PosixPath → FileProg Unit}
    {looks : PosixPath → Prop}
    (hbody : ∀ target, Encodes target →
      (SettlesOnce faults depth (body request target) ⟨w, 2⟩ ↔
        looks target)) :
    SettlesOnce faults depth
        (withTarget watchDir eventType event decoded path body) ⟨w, 0⟩ ↔
      Resolves faults depth w.fs watchDir (path request) ∧
        ∀ target, withinFaulty faults depth w.fs watchDir (path request) =
          .ok target → looks target := by
  obtain ⟨n, hexec, hn⟩ := exec_within faults depth watchDir (path request) w
  rw [resolves_iff, withTarget.eq_def, hdecoded]
  simp only []
  rw [settles_bind_iff (s := ⟨w, 0⟩) (n := n) (r := .ok (withinFaulty faults
    depth w.fs watchDir (path request))) (by
      rw [Prog.exec_attempt, hexec])]
  cases hwithin : withinFaulty faults depth w.fs watchDir (path request) with
  | ok target =>
      have h2 := hn target hwithin
      subst h2
      simp [hbody target (withinFaulty_encodes hwithin)]
  | error e =>
      simp only [Except.ok.injEq, exists_eq_left', reduceCtorEq,
        Except.error.injEq, forall_eq', false_imp_iff, implies_true, and_true]
      split
      · next hrefused =>
          exact iff_of_true (log_settles ack_settles _) hrefused
      · next hraised =>
          exact iff_of_false (fun h => by cases h.1) hraised

/-- Only a list looks twice. -/
theorem looks_iff {h : FileHandler} (hne : h ≠ .list) (target : PosixPath) :
    h.Looks faults w.fs target ↔ Ignored (faults.errno 2 0) :=
  and_iff_left fun heq => absurd heq hne

theorem settlesOnce_iff (h : FileHandler) (adapter : FileAdapter)
    (occurredAt : String) (event : ReceivedEvent) (faults : Faults) (depth : ℕ)
    (w : FileWorld) (relative : Text)
    (hpath : h.path event.payload = .ok relative) :
    SettlesOnce faults depth (h.handle adapter occurredAt event) ⟨w, 0⟩ ↔
      h.Guarded faults depth w.fs adapter.watchDir relative := by
  have hguarded : Resolves faults depth w.fs adapter.watchDir relative ∧
      (∀ target, withinFaulty faults depth w.fs adapter.watchDir relative =
        .ok target → h.Looks faults w.fs target) ↔
      h.Guarded faults depth w.fs adapter.watchDir relative :=
    ⟨fun h => ⟨h.1, h.2⟩, fun h => ⟨h.1, h.2⟩⟩
  refine Iff.trans ?_ hguarded
  cases h with
  | write =>
      rw [FileHandler.path] at hpath
      cases hrequest : decodeWriteRequested event.payload with
      | error e =>
          rw [hrequest] at hpath
          cases hpath
      | ok request =>
          rw [hrequest] at hpath
          obtain rfl : request.path = relative := Except.ok.inj hpath
          refine withTarget_settles_iff hrequest fun target htarget => ?_
          rw [looks_iff (h := .write) (by simp)]
          exact writeTarget_settles_iff htarget _
  | read =>
      refine withTarget_settles_iff hpath fun target htarget => ?_
      rw [looks_iff (h := .read) (by simp)]
      exact readTarget_settles_iff htarget _
  | delete =>
      refine withTarget_settles_iff hpath fun target htarget => ?_
      rw [looks_iff (h := .delete) (by simp)]
      exact deleteTarget_settles_iff htarget _
  | list =>
      refine withTarget_settles_iff hpath fun target htarget => ?_
      refine (listTarget_settles_iff htarget _).trans ?_
      exact and_congr_right fun _ => ⟨fun h _ => h, fun h => h rfl⟩

namespace Sample

/-- A request to read the path that is one NUL. -/
def nulMessage : ReceivedEvent :=
  fileMessage "FileReadRequested" (pathRequest "\x00")

/-- The file cannot be read for a fault of the device. -/
def badBlock : Faults where
  errno call _ := if call = 3 then some .other else none

end Sample

open Sample

/-- The read is nakked. -/
theorem settlesOnce_badBlock :
    SettlesOnce badBlock 1000 (FileHandler.read.handle fileAdapter
      "2026-01-01T00:00:00Z" readMessage) ⟨{ fs := fileFs }, 0⟩ := by
  refine (settlesOnce_iff .read fileAdapter "2026-01-01T00:00:00Z" readMessage
    badBlock 1000 { fs := fileFs } (Text.ofString "n/../x")
    (decodePathOnlyRequest_pathRequest (by decide) false)).mpr
    ⟨.inr ⟨⟨.slash, [rootName.text]⟩, ⟨.slash, [rootName.text, aliasName.text]⟩, ?_⟩, ?_⟩
  · decide +kernel
  · exact fun _ _ => ⟨nofun, fun h => by cases h⟩

/-- Nothing is settled, and the adapter's task ends with the exception. -/
theorem nulPath_escapes :
    FileHandler.read.path nulMessage.payload = .ok [0] ∧
    ((FileHandler.read.handle fileAdapter "2026-01-01T00:00:00Z"
      nulMessage).exec (FileAct.performFaulty {} 1000)
        ⟨{ fs := fileFs }, 0⟩).1 = .error .valueError ∧
    ¬ SettlesOnce {} 1000 (FileHandler.read.handle fileAdapter
      "2026-01-01T00:00:00Z" nulMessage) ⟨{ fs := fileFs }, 0⟩ := by
  have hraised : ((FileHandler.read.handle fileAdapter "2026-01-01T00:00:00Z"
      nulMessage).exec (FileAct.performFaulty {} 1000)
        ⟨{ fs := fileFs }, 0⟩).1 = .error .valueError := by
    decide +kernel
  refine ⟨decodePathOnlyRequest_pathRequest (by decide) false, hraised, ?_⟩
  intro h
  rw [h.1] at hraised
  cases hraised

end JetCore
