import JetCore.Proofs.ResolveWalk
import JetCore.Ref.FaultyWorld

/-!
# `resolve` where system calls fail

Two things hold whatever fails. What `resolve` raises is never a refusal of the
path, so the handlers have no clause for it; and a path that it answers can be
encoded, since its last act is a `stat` of that path. Where nothing fails it is
`resolve` as a function of the tree.
-/

namespace JetCore

open Lib

variable {fs : Fs FileName}

def Encodes (p : PosixPath) : Prop := ∃ path, p.encode = .ok path

/-- What `except PathTraversalError` does not catch. -/
def Unrefused (e : Exn) : Prop := e.isPathTraversal = false

/-! ## Whatever fails -/

variable (fs) in
abbrev SysWorld (fails : ℕ → Option Errno) :
    Prog.World ℕ SysAct SysAct.Resp Exn :=
  Prog.executes (SysAct.perform fs fails)

variable {fails : ℕ → Option Errno}

theorem encode_unrefused {parts : List Text} {e : Exn}
    (h : encodeParts parts = .error e) :
    e.isOSError = false ∧ Unrefused e := by
  induction parts with
  | nil => cases h
  | cons t parts ih =>
      rw [encode_cons, encodeName] at h
      split at h
      · cases h
        exact ⟨rfl, rfl⟩
      · split at h
        · cases hrest : encodeParts parts with
          | error e' =>
              rw [hrest] at h
              cases h
              exact ih hrest
          | ok names =>
              rw [hrest] at h
              cases h
        · cases h
          exact ⟨rfl, rfl⟩

/-- An answer means that the path was encoded, and so does an `OSError`. -/
theorem sysAct_yields (a : SysAct) :
    Prog.Yields (SysWorld fs fails) (fun _ => ∃ path, encodeParts a.path = .ok path)
      (fun e => (e.isOSError = true → ∃ path, encodeParts a.path = .ok path) ∧
        Unrefused e)
      a.call := by
  refine .act fun n r n' hcan => ?_
  have hr : (a.perform fs fails n).1 = r := congrArg Prod.fst hcan
  rw [← hr, SysAct.perform]
  cases hpath : encodeParts a.path with
  | error e =>
      obtain ⟨hos, hrefused⟩ := encode_unrefused hpath
      exact ⟨fun h => absurd h (by simp [hos]), hrefused⟩
  | ok path =>
      simp only []
      cases fails n with
      | some e => exact ⟨fun _ => ⟨path, rfl⟩, rfl⟩
      | none =>
          cases a.onTree fs path with
          | error e => exact ⟨fun _ => ⟨path, rfl⟩, rfl⟩
          | ok r => exact ⟨path, rfl⟩

theorem sysAct_unrefused (a : SysAct) :
    Prog.Yields (SysWorld fs fails) (fun _ => True) Unrefused a.call :=
  (sysAct_yields a).mono (fun _ _ => trivial) fun _ he => he.2

theorem isLink_unrefused (path : List Text) :
    Prog.Yields (SysWorld fs fails) (fun _ => True) Unrefused
      (SysProg.isLink path) := by
  rw [SysProg.isLink]
  refine .bind (sysAct_unrefused _).attempt fun r hr => ?_
  cases r with
  | ok link => exact .pure trivial
  | error e =>
      simp only []
      split
      · exact .pure trivial
      · exact .raise hr

theorem joinLoop_unrefused
    {follow : List Text → LinkTarget FileName → Seen → SysProg Joined}
    (hfollow : ∀ path target seen, Prog.Yields (SysWorld fs fails)
      (fun _ => True) Unrefused (follow path target seen)) :
    ∀ (rest path : List Text) (seen : Seen), Prog.Yields (SysWorld fs fails)
      (fun _ => True) Unrefused (SysProg.joinLoop follow path rest seen) := by
  intro rest
  induction rest with
  | nil => exact fun _ _ => .pure trivial
  | cons name rest ih =>
      intro path seen
      rw [SysProg.joinLoop]
      split
      · exact ih _ _
      · split
        · exact ih _ _
        · refine .bind (isLink_unrefused _) fun link _ => ?_
          split
          · exact ih _ _
          · split
            · exact ih _ _
            · exact .pure trivial
            · refine .bind (sysAct_unrefused _) fun target _ => ?_
              refine .bind (hfollow _ _ _) fun joined _ => ?_
              split
              · exact ih _ _
              · exact .pure trivial

theorem joinrealpath_unrefused : ∀ (depth : ℕ) (path rest : List Text)
    (seen : Seen), Prog.Yields (SysWorld fs fails) (fun _ => True) Unrefused
      (SysProg.joinrealpath depth path rest seen) := by
  intro depth
  induction depth with
  | zero => exact fun _ _ _ => .raise rfl
  | succ depth ih =>
      exact fun path rest seen =>
        joinLoop_unrefused (fun _ _ _ => ih _ _ _) rest path seen

theorem checkEloop_unrefused {e : Exn} (h : Unrefused e) :
    Unrefused (SysProg.checkEloop e) := by
  rw [SysProg.checkEloop.eq_def]
  split
  · rfl
  · exact h

variable (fs fails) in
theorem resolve_yields (depth : ℕ) (p : PosixPath) :
    Prog.Yields (SysWorld fs fails) Encodes Unrefused
      (SysProg.resolve depth p) := by
  have hreal : Prog.Yields (SysWorld fs fails) (fun _ => True) Unrefused
      (SysProg.realpath depth p.parts) :=
    .bind (joinrealpath_unrefused _ _ _ _) fun _ _ => .pure trivial
  rw [SysProg.resolve]
  refine .bind hreal.attempt fun r hr => ?_
  cases r with
  | error e => exact .raise (checkEloop_unrefused hr)
  | ok resolved =>
      refine .bind (sysAct_yields _).attempt fun r hr => ?_
      cases r with
      | ok u => exact .pure hr
      | error e =>
          simp only []
          split
          · next h => exact .pure (hr.1 h.1)
          · exact .raise (checkEloop_unrefused hr.2)

theorem resolveFaulty_encodes {depth : ℕ} {p q : PosixPath}
    (h : p.resolveFaulty fs fails depth = .ok q) : Encodes q := by
  have hends := (resolve_yields fs fails depth p).exec 0
  rw [show ((SysProg.resolve depth p).exec _ 0).1 = .ok q from h] at hends
  exact hends

theorem resolveFaulty_unrefused {depth : ℕ} {p : PosixPath} {e : Exn}
    (h : p.resolveFaulty fs fails depth = .error e) : Unrefused e := by
  have hends := (resolve_yields fs fails depth p).exec 0
  rw [show ((SysProg.resolve depth p).exec _ 0).1 = .error e from h] at hends
  exact hends

/-! ## Where nothing fails -/

variable (fs) in
/-- What the program comes to if nothing fails. -/
def Comes {α : Type} (p : SysProg α) (x : Except Exn α) : Prop :=
  ∀ n, (p.exec (SysAct.perform fs fun _ => none) n).1 = x

section

variable {α β : Type} {p : SysProg α} {g : α → SysProg β}

theorem Comes.bind {x : Except Exn α} {h : α → Except Exn β}
    (hp : Comes fs p x) (hg : ∀ a, x = .ok a → Comes fs (g a) (h a)) :
    Comes fs (p >>= g) (x >>= h) := by
  intro n
  have hx := hp n
  rw [Prog.exec_bind]
  rcases hrun : p.exec (SysAct.perform fs fun _ => none) n with ⟨r, n'⟩
  rw [hrun] at hx
  cases r with
  | error e =>
      rw [← show Except.error e = x from hx]
      rfl
  | ok a =>
      rw [← show Except.ok a = x from hx]
      exact hg a hx.symm n'

theorem Comes.bind_ok {a : α} {y : Except Exn β} (hp : Comes fs p (.ok a))
    (hg : Comes fs (g a) y) : Comes fs (p >>= g) y :=
  hp.bind (h := fun _ => y) fun b hb => by
    rw [← Except.ok.inj hb]
    exact hg

theorem Comes.bind_error {e : Exn} (hp : Comes fs p (.error e)) :
    Comes fs (p >>= g) (.error e) :=
  hp.bind (h := fun _ => .error e) nofun

theorem Comes.attempt {x : Except Exn α} (hp : Comes fs p x) :
    Comes fs p.attempt (.ok x) := by
  intro n
  rw [Prog.exec_attempt, hp n]

end

variable (fs) in
theorem comes_call (a : SysAct) :
    Comes fs a.call ((encodeParts a.path).bind fun path =>
      (a.onTree fs path).mapError .osError) := by
  intro n
  rw [SysAct.call, Prog.exec_act, SysAct.perform]
  cases encodeParts a.path with
  | error e => rfl
  | ok path => rfl

variable (fs) in
/-- The two calls that a link is met with are one look at it. -/
theorem comes_isLink (path : List Text) :
    Comes fs (SysProg.isLink path)
      ((readLink fs path).map Option.isSome) := by
  have hcall := (comes_call fs (.lstat path)).attempt
  simp only [SysAct.path] at hcall
  rw [readLink]
  cases hpath : encodeParts path with
  | error e =>
      rw [hpath] at hcall
      refine hcall.bind_ok fun n => ?_
      simp only [Except.bind, (encode_unrefused hpath).1]
      rfl
  | ok names =>
      rw [hpath] at hcall
      refine hcall.bind_ok ?_
      simp only [Except.bind, SysAct.onTree, bind]
      cases fs.lstat names with
      | error e => exact fun _ => rfl
      | ok node =>
          cases node with
          | dir => exact fun _ => rfl
          | file content => exact fun _ => rfl
          | link target => exact fun _ => rfl

theorem comes_readlink {path : List Text} {target : LinkTarget FileName}
    (h : readLink fs path = .ok (some target)) :
    Comes fs (SysAct.call (.readlink path)) (.ok target) := by
  obtain ⟨names, hnames, h⟩ := bind_eq_ok.mp h
  have hcall := comes_call fs (.readlink path)
  simp only [SysAct.path, hnames, Except.bind, SysAct.onTree] at hcall
  split at h
  · next t hlink =>
      rw [hlink] at hcall
      cases h
      exact hcall
  · cases h

theorem joinLoop_comes
    {follow : List Text → LinkTarget FileName → Seen → SysProg Joined}
    {follow' : List Text → LinkTarget FileName → Seen → Except Exn Joined}
    (hfollow : ∀ path target seen,
      Comes fs (follow path target seen) (follow' path target seen)) :
    ∀ (rest path : List Text) (seen : Seen),
      Comes fs (SysProg.joinLoop follow path rest seen)
        (joinLoop fs follow' path rest seen) := by
  intro rest
  induction rest with
  | nil => exact fun _ _ _ => rfl
  | cons name rest ih =>
      intro path seen
      rw [SysProg.joinLoop, joinLoop]
      split
      · exact ih _ _
      · split
        · exact ih _ _
        · have hlink := comes_isLink fs (path ++ [name])
          simp only []
          cases hread : readLink fs (path ++ [name]) with
          | error e =>
              rw [hread] at hlink
              exact hlink.bind_error
          | ok link =>
              rw [hread] at hlink
              refine hlink.bind_ok ?_
              cases link with
              | none =>
                  rw [if_pos (by simp)]
                  exact ih _ _
              | some target =>
                  rw [if_neg (by simp)]
                  simp only [bind, Except.bind]
                  cases seen.get? (path ++ [name]) with
                  | some known =>
                      cases known with
                      | some path => exact ih _ _
                      | none => exact fun _ => rfl
                  | none =>
                      refine (comes_readlink hread).bind_ok ?_
                      refine (hfollow _ _ _).bind fun joined _ => ?_
                      split
                      · exact ih _ _
                      · exact fun _ => rfl

theorem joinrealpath_comes : ∀ (depth : ℕ) (path rest : List Text)
    (seen : Seen), Comes fs (SysProg.joinrealpath depth path rest seen)
      (joinrealpath fs depth path rest seen) := by
  intro depth
  induction depth with
  | zero => exact fun _ _ _ _ => rfl
  | succ depth ih =>
      exact fun path rest seen =>
        joinLoop_comes (fun _ _ _ => ih _ _ _) rest path seen

theorem joinLoop_error
    {follow : List Text → LinkTarget FileName → Seen → Except Exn Joined}
    (hfollow : ∀ path target seen e, follow path target seen = .error e →
      e.isOSError = false) {e : Exn} : ∀ {rest path : List Text} {seen : Seen},
      joinLoop fs follow path rest seen = .error e → e.isOSError = false := by
  intro rest
  induction rest with
  | nil => exact fun h => by cases h
  | cons name rest ih =>
      intro path seen h
      rw [joinLoop] at h
      split at h
      · exact ih h
      · split at h
        · exact ih h
        · simp only [] at h
          cases hread : readLink fs (path ++ [name]) with
          | error e' =>
              rw [hread] at h
              cases h
              rw [readLink] at hread
              cases hpath : encodeParts (path ++ [name]) with
              | error e' =>
                  rw [hpath] at hread
                  cases hread
                  exact (encode_unrefused hpath).1
              | ok names =>
                  rw [hpath] at hread
                  simp only [bind, Except.bind] at hread
                  split at hread
                  · cases hread
                  · cases hread
          | ok link =>
              rw [hread] at h
              simp only [bind, Except.bind] at h
              split at h
              · exact ih h
              · split at h
                · exact ih h
                · cases h
                · split at h
                  · next hstop =>
                      cases h
                      exact hfollow _ _ _ _ hstop
                  · split at h
                    · exact ih h
                    · cases h

theorem joinrealpath_error : ∀ {depth : ℕ} {path rest : List Text}
    {seen : Seen} {e : Exn}, joinrealpath fs depth path rest seen = .error e →
      e.isOSError = false := by
  intro depth
  induction depth with
  | zero =>
      intro path rest seen e h
      cases h
      rfl
  | succ depth ih =>
      exact fun h => joinLoop_error (fun _ _ _ _ => ih) h

theorem realpath_error {depth : ℕ} {path : List Text} {e : Exn}
    (h : realpath fs depth path = .error e) : e.isOSError = false := by
  rw [realpath] at h
  cases hjoin : joinrealpath fs depth [] path Dict.empty with
  | error e' =>
      rw [hjoin] at h
      cases h
      exact joinrealpath_error hjoin
  | ok joined =>
      rw [hjoin] at h
      cases h

theorem checkEloop_of_ne {e : Exn} (h : e.isOSError = false) :
    SysProg.checkEloop e = e := by
  rw [SysProg.checkEloop.eq_def]
  split
  · cases h
  · rfl

/-- Without faults it is the function of the tree. -/
theorem resolveFaulty_faultless (depth : ℕ) (p : PosixPath) :
    p.resolveFaulty fs (fun _ => none) depth = p.resolve fs depth := by
  have hreal : Comes fs (SysProg.realpath depth p.parts)
      (realpath fs depth p.parts) :=
    (joinrealpath_comes depth [] p.parts Dict.empty).bind
      fun joined _ _ => rfl
  refine (hreal.attempt.bind_ok ?_ : Comes fs (SysProg.resolve depth p) _) 0
  rw [PosixPath.resolve]
  cases hparts : realpath fs depth p.parts with
  | error e =>
      have he := checkEloop_of_ne (realpath_error hparts)
      simp only [he]
      exact fun _ => rfl
  | ok resolved =>
      have hstat := (comes_call fs (.stat resolved.parts)).attempt
      simp only [SysAct.path] at hstat
      refine hstat.bind_ok ?_
      simp only [bind, Except.bind, PosixPath.stat, PosixPath.encode]
      cases hpath : encodeParts resolved.parts with
      | error e =>
          have hos := (encode_unrefused hpath).1
          cases e with
          | osError errno => cases hos
          | _ => exact fun _ => rfl
      | ok names =>
          simp only [SysAct.onTree]
          cases fs.stat names with
          | ok node => exact fun _ => rfl
          | error errno =>
              cases errno with
              | _ => exact fun _ => rfl

theorem performFaulty_faultless (depth : ℕ) (a : FileAct) (s : FaultyWorld) :
    a.performFaulty {} depth s =
      ((a.perform depth s.world).1,
        ⟨(a.perform depth s.world).2, s.calls + 1⟩) := by
  cases a with
  | resolve p =>
      rw [FileAct.performFaulty, FileAct.perform, resolveFaulty_faultless]
  | _ => rfl

/-- The world without faults is the world in which nothing goes wrong but what
the tree makes go wrong. -/
theorem exec_faultless {α : Type} (depth : ℕ) (p : FileProg α) :
    ∀ s : FaultyWorld,
      (p.exec (FileAct.performFaulty {} depth) s).1 =
        (p.exec (FileAct.perform depth) s.world).1 ∧
      (p.exec (FileAct.performFaulty {} depth) s).2.world =
        (p.exec (FileAct.perform depth) s.world).2 := by
  induction p with
  | pure a => exact fun s => ⟨rfl, rfl⟩
  | raise e => exact fun s => ⟨rfl, rfl⟩
  | call a k ih =>
      intro s
      rw [Prog.exec, Prog.exec, performFaulty_faultless]
      exact ih _ _

end JetCore
