import JetCore.Lib.FsCalls
import JetCore.Proofs.ResolveWalk

/-!
# The handlers' calls on a resolved target

The path a handler works on has no link on it. So what a call touches is that
path, and `mkdir(parents=True)` makes those of its prefixes that were missing.
-/

namespace JetCore

open Lib

variable {fs : Fs FileName}

/-! ## `mkdir(parents=True, exist_ok=True)` -/

/-- Missing prefixes of the path were made, and if all went well it is a
directory now. -/
structure Makes (fs : Fs FileName) (path : Location)
    (r : Except Errno Unit × List Location × Fs FileName) : Prop where
  adds : fs.Adds r.2.2 r.2.1
  below : ∀ l ∈ r.2.1, l <+: path
  dir : r.1 = .ok () → r.2.2.node? path = some .dir

theorem makes_nothing {path : Location} {r : Except Errno Unit}
    (h : r = .ok () → fs.node? path = some .dir) : Makes fs path (r, [], fs) :=
  ⟨.refl fs, nofun, h⟩

theorem unlessDir_ok {path : Location} {e : Errno} (hfree : fs.LinkFree path)
    (h : unlessDir path fs e = .ok ()) : fs.node? path = some .dir := by
  rw [unlessDir.eq_def] at h
  split at h
  · next hstat =>
      rcases Fs.stat_linkFree hfree with ⟨node, hnode, hstat'⟩ | ⟨-, e, -, he⟩
      · rw [hstat] at hstat'
        rw [hnode, Except.ok.inj hstat']
      · rw [hstat] at he
        cases he
  · cases h
  · cases h

theorem makes_unlessDir {path : Location} {e : Errno}
    (hfree : fs.LinkFree path) :
    Makes fs path (unlessDir path fs e, [], fs) :=
  makes_nothing (unlessDir_ok hfree)

theorem osMkdir_spec {path : Location} (hfree : fs.LinkFree path) :
    (∃ e, osMkdir path fs = (.error e, [], fs)) ∨
      ∃ fs', osMkdir path fs = (.ok (), [path], fs') ∧
        fs.Adds fs' [path] ∧ fs'.node? path = some .dir := by
  rw [osMkdir]
  cases h : fs.mkdir path with
  | error e => exact .inl ⟨e, rfl⟩
  | ok made =>
      obtain ⟨loc, fs'⟩ := made
      obtain ⟨hentry, hnone, hsets⟩ := Fs.mkdir_eq_ok h
      obtain rfl := Fs.entry_linkFree hfree hentry
      exact .inr ⟨fs', rfl, hsets.adds hnone, hsets.at⟩

theorem mkdirsUp_makes : ∀ (up : List FileName) (fs : Fs FileName),
    fs.LinkFree up.reverse → Makes fs up.reverse (mkdirsUp up fs) := by
  intro up
  induction up with
  | nil => exact fun fs hfree => makes_unlessDir hfree
  | cons n up ih =>
      intro fs hfree
      have hpre : up.reverse <+: (n :: up).reverse := by
        rw [List.reverse_cons]
        exact List.prefix_append _ _
      rw [mkdirsUp]
      rcases osMkdir_spec hfree with ⟨e, hmk⟩ | ⟨fs', hmk, hadds, hdir⟩
      · rw [hmk]
        have hparents := ih fs (hfree.front hpre)
        cases e with
        | enoent =>
            generalize mkdirsUp up fs = r at hparents ⊢
            obtain ⟨r, made, fs₁⟩ := r
            have hbelow : ∀ l ∈ made, l <+: (n :: up).reverse :=
              fun l hl => (hparents.below l hl).trans hpre
            cases r with
            | error e => exact ⟨hparents.adds, hbelow, nofun⟩
            | ok u =>
                have hfree₁ : fs₁.LinkFree (n :: up).reverse :=
                  hparents.adds.linkFree hfree
                simp only []
                rcases osMkdir_spec hfree₁ with ⟨e', hmk'⟩ |
                  ⟨fs₂, hmk', hadds', hdir'⟩
                · rw [hmk']
                  cases e' with
                  | enoent => exact ⟨hparents.adds, hbelow, nofun⟩
                  | _ => exact ⟨hparents.adds, hbelow, unlessDir_ok hfree₁⟩
                · rw [hmk']
                  refine ⟨hparents.adds.trans hadds', fun l hl => ?_,
                    fun _ => hdir'⟩
                  rcases List.mem_append.mp hl with hl | hl
                  · exact hbelow l hl
                  · rw [List.mem_singleton.mp hl]
        | _ => exact makes_unlessDir hfree
      · rw [hmk]
        refine ⟨hadds, fun l hl => ?_, fun _ => hdir⟩
        rw [List.mem_singleton.mp hl]

theorem mkdirs_makes {path : Location} (hfree : fs.LinkFree path) :
    Makes fs path (mkdirs path fs) := by
  have h := mkdirsUp_makes path.reverse fs
    (by rw [List.reverse_reverse]; exact hfree)
  rw [List.reverse_reverse] at h
  exact h

/-! ## Looking -/

theorem exec_call (depth : ℕ) (a : FileAct) (s : FileWorld) :
    a.call.exec (FileAct.perform depth) s = a.perform depth s :=
  Prog.exec_act _ a s

theorem test_ok {p : PosixPath} {path : Location} {node : Node FileName}
    (hpath : p.encode = .ok path) (hstat : fs.stat path = .ok node)
    (holds : Node FileName → Bool) : p.test fs holds = .ok (holds node) := by
  rw [PosixPath.test, PosixPath.stat, hpath]
  simp only [bind, Except.bind, hstat]
  rfl

theorem test_error {p : PosixPath} {path : Location} {e : Errno}
    (hpath : p.encode = .ok path) (hstat : fs.stat path = .error e)
    (holds : Node FileName → Bool) :
    p.test fs holds =
      if PosixPath.ignoresError e then .ok false else .error (.osError e) := by
  rw [PosixPath.test, PosixPath.stat, hpath]
  simp only [bind, Except.bind, hstat]
  rfl

/-- On a path without links the three answer by the node there. -/
theorem test_linkFree {p : PosixPath} {path : Location}
    (hpath : p.encode = .ok path) (hfree : fs.LinkFree path)
    (holds : Node FileName → Bool) :
    p.test fs holds = .ok ((fs.node? path).elim false holds) := by
  rcases Fs.stat_linkFree hfree with ⟨node, hnode, hstat⟩ |
    ⟨hnode, e, he, hstat⟩
  · rw [test_ok hpath hstat, hnode]
    rfl
  · rw [test_error hpath hstat, hnode, if_pos]
    · rfl
    · rcases he with rfl | rfl
      · rfl
      · rfl

/-! ## Up to the target -/

/-- Only the log and what was acked or nakked may differ. -/
structure Idle (s s' : FileWorld) : Prop where
  fs : s'.fs = s.fs
  touched : s'.touched = s.touched
  marked : s'.marked = s.marked
  published : s'.published = s.published

theorem Idle.refl (s : FileWorld) : Idle s s := ⟨rfl, rfl, rfl, rfl⟩

/-- A handler comes to its target, or it does no work. -/
theorem exec_withTarget {α : Type} (depth : ℕ) (s : FileWorld)
    (watchDir : PosixPath) (eventType : String) (event : ReceivedEvent)
    (decoded : Except Exn α) (path : α → Text)
    (body : α → PosixPath → FileProg Unit) :
    (∃ request target, decoded = .ok request ∧
      resolvedWithin s.fs depth watchDir (path request) = .ok target ∧
      (withTarget watchDir eventType event decoded path body).exec
        (FileAct.perform depth) s =
          (body request target).exec (FileAct.perform depth) s) ∨
    (∀ request target, decoded = .ok request →
      resolvedWithin s.fs depth watchDir (path request) ≠ .ok target) ∧
      Idle s ((withTarget watchDir eventType event decoded path body).exec
        (FileAct.perform depth) s).2 := by
  rw [withTarget.eq_def]
  cases decoded with
  | error e =>
      refine .inr ⟨nofun, ?_⟩
      simp only []
      split
      · exact ⟨rfl, rfl, rfl, rfl⟩
      · exact .refl s
  | ok request =>
      simp only []
      rw [Prog.exec_bind, Prog.exec_attempt, exec_resolveWithin, Prog.resume_ok]
      cases hresolved : resolvedWithin s.fs depth watchDir (path request) with
      | ok target => exact .inl ⟨request, target, rfl, hresolved, rfl⟩
      | error e =>
          refine .inr ⟨fun _ _ hrequest => ?_, ?_⟩
          · cases hrequest
            rw [hresolved]
            exact nofun
          · simp only []
            split
            · exact ⟨rfl, rfl, rfl, rfl⟩
            · exact .refl s

end JetCore
