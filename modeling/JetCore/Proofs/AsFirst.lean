import JetCore.Proofs.Beside
import JetCore.Proofs.ReadYourWrites
import JetCore.Spec.Redelivery

/-!
# The target as it was at first

What a delivery leaves of the tree. Directories made on the way are above the
target, so what is below them is still missing (`mkdirs_stat`); an `open` of a
file that was there, and a write, change what is in a file and not that it is
there. So until some `open` makes the target or some `unlink` removes it, its
path leads to it and it is found as at first (`AsFirst`), whatever failed, and
a step of a delivery keeps that (`inTime_step`).
-/

namespace JetCore

open Lib

variable {fs fs' fs₀ : Fs FileName} {depth : ℕ} {p : PosixPath}
  {kind : FileKind}

/-! ## What is found -/

/-- Whether a node is what the handler looks for. -/
def FileKind.sees : FileKind → Node FileName → Bool
  | .write, _ => true
  | .read, .file _ | .delete, .file _ => true
  | _, _ => false

theorem test_eq_true {holds : Node FileName → Bool} :
    p.test fs holds = .ok true ↔
      ∃ node, p.stat fs = .ok node ∧ holds node = true := by
  rw [PosixPath.test]
  cases hstat : p.stat fs with
  | ok node => simp
  | error e =>
      cases e with
      | osError errno => cases errno <;> simp [PosixPath.ignoresError]
      | _ => simp

theorem finds_iff : kind.finds fs p = true ↔
    ∃ node, p.stat fs = .ok node ∧ kind.sees node = true := by
  cases kind with
  | write =>
      rw [FileKind.finds, decide_eq_true_iff, PosixPath.exists?, test_eq_true]
      rfl
  | read =>
      rw [FileKind.finds, decide_eq_true_iff, PosixPath.isFile, test_eq_true]
      refine exists_congr fun node => and_congr_right fun _ => ?_
      cases node <;> rfl
  | delete =>
      rw [FileKind.finds, decide_eq_true_iff, PosixPath.isFile, test_eq_true]
      refine exists_congr fun node => and_congr_right fun _ => ?_
      cases node <;> rfl

theorem finds_congr (h : p.stat fs' = p.stat fs) :
    kind.finds fs' p = kind.finds fs p := by
  rw [Bool.eq_iff_iff, finds_iff, finds_iff, h]

theorem posixStat_eq_ok {node : Node FileName} :
    p.stat fs = .ok node ↔
      ∃ names, p.encode = .ok names ∧ fs.stat names = .ok node := by
  rw [PosixPath.stat, bind_eq_ok]
  refine exists_congr fun names => and_congr_right fun _ => ?_
  cases fs.stat names with
  | error e => simp [Except.mapError]
  | ok node' => simp [Except.mapError]

/-- What is there is still there when the tree has grown. -/
theorem grows_finds (h : fs.Grows fs') (hfinds : kind.finds fs p = true) :
    kind.finds fs' p = true := by
  obtain ⟨node, hstat, hsees⟩ := finds_iff.mp hfinds
  obtain ⟨names, hnames, hstat⟩ := posixStat_eq_ok.mp hstat
  obtain ⟨loc, hlocate, hnode⟩ := Fs.stat_eq_ok.mp hstat
  have hfound : ∀ node', fs'.node? loc = some node' →
      kind.sees node' = true → kind.finds fs' p = true := fun node' hnode' hsees' =>
    finds_iff.mpr ⟨node', posixStat_eq_ok.mpr ⟨names, hnames,
      Fs.stat_eq_ok.mpr ⟨loc, h.locate hlocate, hnode'⟩⟩, hsees'⟩
  cases node with
  | dir => exact hfound _ (h.dir loc hnode) hsees
  | file content =>
      obtain ⟨content', hfile⟩ := h.file loc content hnode
      refine hfound _ hfile ?_
      cases kind <;> rfl
  | link t => exact absurd hnode (Fs.locate_no_link hlocate t)

/-! ## What the calls change -/

theorem grows_sameLinks (h : fs.Grows fs') : SameLinks fs fs' :=
  fun loc t => ⟨h.no_link loc t, h.link loc t⟩

/-- What holds of each `os.mkdir` on a prefix holds of them all. -/
theorem mkdirsUp_induct {P : Fs FileName → Fs FileName → Prop}
    (hrefl : ∀ fs, P fs fs)
    (htrans : ∀ fs fs' fs'', P fs fs' → P fs' fs'' → P fs fs'') :
    ∀ (up : List FileName) (fs : Fs FileName),
      (∀ front loc fs fs', front <+: up.reverse →
        fs.mkdir front = .ok (loc, fs') → P fs fs') →
      P fs (mkdirsUp up fs).2.2 := by
  intro up
  induction up with
  | nil => exact fun fs _ => hrefl fs
  | cons n up ih =>
      intro fs hmkdir
      have hone : ∀ fs, P fs (osMkdir (n :: up).reverse fs).2.2 := by
        intro fs
        rw [osMkdir]
        cases h : fs.mkdir (n :: up).reverse with
        | error e => exact hrefl fs
        | ok made => exact hmkdir _ made.1 fs made.2 List.prefix_rfl h
      have hup : ∀ fs, P fs (mkdirsUp up fs).2.2 := fun fs =>
        ih fs fun front loc fs fs' hfront => hmkdir front loc fs fs'
          (hfront.trans (by rw [List.reverse_cons]; exact List.prefix_append _ _))
      have hfirst := hone fs
      rw [mkdirsUp]
      split
      · next hmk =>
          have hparents := hup fs
          split
          · next hrest =>
              rw [hrest] at hparents
              exact hparents
          · next made fs₁ hrest =>
              rw [hrest] at hparents
              have hsecond := hone fs₁
              split
              · exact hparents
              · exact hparents
              · next hmk' =>
                  rw [hmk'] at hsecond
                  exact htrans _ _ _ hparents hsecond
      · exact hrefl fs
      · next hmk =>
          rw [hmk] at hfirst
          exact hfirst

theorem mkdirs_grows (path : Location) (fs : Fs FileName) :
    fs.Grows (mkdirs path fs).2.2 := by
  refine mkdirsUp_induct .refl (fun _ _ _ => .trans) path.reverse fs
    fun front loc fs fs' _ h => ?_
  obtain ⟨-, hnone, hsets⟩ := Fs.mkdir_eq_ok h
  exact hsets.grows (by simp) (by simp [hnone])
    (by simp [hnone]) fun hne => absurd hnone hne

/-- Below the directories that are made nothing is made. -/
theorem mkdirs_stat {path rest : Location} (hrest : rest ≠ [])
    (fs : Fs FileName) :
    (mkdirs path fs).2.2.stat (path ++ rest) = fs.stat (path ++ rest) := by
  refine mkdirsUp_induct
    (P := fun fs fs' => fs'.stat (path ++ rest) = fs.stat (path ++ rest))
    (fun _ => rfl) (fun _ _ _ h h' => h'.trans h) path.reverse fs
    fun front loc fs fs' hfront h => ?_
  rw [List.reverse_reverse] at hfront
  obtain ⟨more, rfl⟩ := hfront
  rw [List.append_assoc]
  exact Fs.mkdir_stat h (by simp [hrest])

variable (depth) in
/-- Directories made above the target. -/
theorem perform_mkdir_above {q : PosixPath} (hq : q.parts <+: p.parent.parts)
    (s : FileWorld) :
    s.fs.Grows ((FileAct.mkdir q).perform depth s).2.fs ∧
      p.stat ((FileAct.mkdir q).perform depth s).2.fs = p.stat s.fs := by
  rw [FileAct.perform, FileWorld.onPath]
  cases hpath : q.encode with
  | error e => exact ⟨.refl _, rfl⟩
  | ok path =>
      refine ⟨mkdirs_grows path s.fs, ?_⟩
      show p.stat (mkdirs path s.fs).2.2 = p.stat s.fs
      rw [PosixPath.stat, PosixPath.stat]
      cases hnames : p.encode with
      | error e => rfl
      | ok names =>
          have hpre : path <+: names.dropLast :=
            spells_prefix hpath (spells_dropLast hnames) hq
          have hsame : (mkdirs path s.fs).2.2.stat names = s.fs.stat names := by
            rcases List.eq_nil_or_concat names with rfl | ⟨d, n, rfl⟩
            · rw [List.prefix_nil.mp hpre]
              rfl
            · rw [List.concat_eq_append, List.dropLast_concat] at *
              obtain ⟨rest, rfl⟩ := hpre
              rw [List.append_assoc]
              exact mkdirs_stat (by simp) s.fs
          simp only [bind, Except.bind, hsame]

variable (depth p) in
/-- An `open` loses nothing, and an `unlink` that leaves the target to be
found has done nothing. -/
theorem perform_openWrite_grows (s : FileWorld) :
    s.fs.Grows ((FileAct.openWrite p).perform depth s).2.fs := by
  rw [FileAct.perform, FileWorld.onPath]
  cases p.encode with
  | error e => exact .refl _
  | ok path =>
      simp only [FileWorld.change]
      cases hopen : s.fs.openTrunc path with
      | error e => exact .refl _
      | ok opened =>
          obtain ⟨hlocate, -, -, hdir, hsets⟩ := Fs.openTrunc_eq_ok hopen
          exact hsets.grows (by simp) (Fs.locate_no_link hlocate) hdir
            fun _ => ⟨[], rfl⟩

variable (depth) in
theorem perform_write_grows (file : Location) (content : Bytes)
    (s : FileWorld) :
    s.fs.Grows ((FileAct.write file content).perform depth s).2.fs ∧
      ((FileAct.write file content).perform depth s).2.fs.Grows s.fs := by
  show s.fs.Grows (s.fs.writeAt file content) ∧
    (s.fs.writeAt file content).Grows s.fs
  rcases Fs.writeAt_eq s.fs file content with heq | ⟨⟨old, hfile⟩, hsets⟩
  · rw [heq]
    exact ⟨.refl _, .refl _⟩
  · have hback : (s.fs.writeAt file content).Sets s.fs file
        (some (.file old)) := by
      intro l
      split
      · next heq => rw [heq, hfile]
      · next hne => rw [hsets.of_ne hne]
    exact ⟨hsets.grows (by simp) (by simp [hfile])
        (by simp [hfile]) fun _ => ⟨content, rfl⟩,
      hback.grows (by simp) (by simp [hsets.at])
        (by simp [hsets.at]) fun _ => ⟨old, rfl⟩⟩

variable (depth p kind) in
theorem perform_unlink (s : FileWorld) :
    ((FileAct.unlink p).perform depth s).2.fs = s.fs ∨
      kind.finds ((FileAct.unlink p).perform depth s).2.fs p = false := by
  rw [FileAct.perform, FileWorld.onPath]
  cases hpath : p.encode with
  | error e => exact .inl rfl
  | ok path =>
      simp only [FileWorld.change]
      cases hunlink : s.fs.unlink path with
      | error e => exact .inl rfl
      | ok removed =>
          refine .inr (Bool.eq_false_iff.mpr fun hfinds => ?_)
          obtain ⟨node, hstat, -⟩ := finds_iff.mp hfinds
          obtain ⟨names, hnames, hstat⟩ := posixStat_eq_ok.mp hstat
          rw [hpath] at hnames
          obtain rfl := Except.ok.inj hnames
          exact Fs.unlink_stat hunlink node hstat

/-! ## As at first -/

theorem leadsTo_eq_ok {watchDir : PosixPath} {relative : Text} :
    leadsTo fs depth watchDir relative = .ok p ↔
      ∃ root, realpath fs depth watchDir.parts = .ok root ∧
        realpath fs depth (root.join relative).parts = .ok p := by
  rw [leadsTo, bind_eq_ok]

/-- The path of the request leads where it did at first, and the target is
there if it was. -/
structure AsFirst (kind : FileKind) (depth : ℕ) (watchDir : PosixPath)
    (relative : Text) (fs₀ fs : Fs FileName) : Prop where
  root : ∀ q, realpath fs depth watchDir.parts = .ok q ↔
    realpath fs₀ depth watchDir.parts = .ok q
  target : ∀ root, realpath fs₀ depth watchDir.parts = .ok root →
    ∀ q, realpath fs depth (root.join relative).parts = .ok q ↔
      realpath fs₀ depth (root.join relative).parts = .ok q
  found : ∀ p, leadsTo fs₀ depth watchDir relative = .ok p →
    kind.finds fs p = kind.finds fs₀ p

variable {watchDir : PosixPath} {relative : Text}

theorem AsFirst.refl (fs : Fs FileName) :
    AsFirst kind depth watchDir relative fs fs :=
  ⟨fun _ => Iff.rfl, fun _ _ _ => Iff.rfl, fun _ _ => rfl⟩

theorem AsFirst.leads (h : AsFirst kind depth watchDir relative fs₀ fs) :
    leadsTo fs depth watchDir relative = .ok p ↔
      leadsTo fs₀ depth watchDir relative = .ok p := by
  rw [leadsTo_eq_ok, leadsTo_eq_ok]
  constructor
  · intro hp
    obtain ⟨root, hroot, hp⟩ := hp
    have hroot₀ := (h.root root).mp hroot
    exact ⟨root, hroot₀, (h.target root hroot₀ _).mp hp⟩
  · intro hp
    obtain ⟨root, hroot, hp⟩ := hp
    exact ⟨root, (h.root root).mpr hroot, (h.target root hroot _).mpr hp⟩

/-- What others do. -/
theorem AsFirst.others (h : AsFirst kind depth watchDir relative fs₀ fs)
    (hothers : LeavesTarget depth watchDir relative fs fs') :
    AsFirst kind depth watchDir relative fs₀ fs' where
  root q := by rw [hothers.root, h.root]
  target root hroot q := by
    rw [hothers.target root ((h.root root).mpr hroot), h.target root hroot]
  found p hp := by
    rw [finds_congr (hothers.node p (h.leads.mpr hp)), h.found p hp]

/-- What a delivery does. -/
theorem AsFirst.own (h : AsFirst kind depth watchDir relative fs₀ fs)
    (hlinks : SameLinks fs fs')
    (hfound : ∀ p, leadsTo fs₀ depth watchDir relative = .ok p →
      kind.finds fs' p = kind.finds fs p) :
    AsFirst kind depth watchDir relative fs₀ fs' where
  root q := by
    rw [← h.root]
    exact ⟨realpath_links hlinks.symm, realpath_links hlinks⟩
  target root hroot q := by
    rw [← h.target root hroot]
    exact ⟨realpath_links hlinks.symm, realpath_links hlinks⟩
  found p hp := by rw [hfound p hp, h.found p hp]

/-! ## One call -/

variable {self : FileAdapter} {c : FileCommand}

/-- Where the request leads at first. -/
def Target (self : FileAdapter) (depth : ℕ) (c : FileCommand)
    (fs₀ : Fs FileName) (p : PosixPath) : Prop :=
  ∃ relative, c.path = .ok relative ∧
    leadsTo fs₀ depth self.watchDir relative = .ok p

/-- The calls a delivery that begins in time may make: it changes what is
there only at the target, and it publishes the result for the state at
first. -/
def Proper (self : FileAdapter) (depth : ℕ) (c : FileCommand)
    (fs₀ : Fs FileName) : FileAct → Prop
  | .mkdir q => ∃ p, Target self depth c fs₀ p ∧ q = p.parent
  | .openWrite p => c.kind = .write ∧ Target self depth c fs₀ p
  | .unlink p => c.kind = .delete ∧ Target self depth c fs₀ p ∧
      c.kind.finds fs₀ p = true
  | .publish args => ∃ p, Target self depth c fs₀ p ∧
      ResultFor c (c.kind.finds fs₀ p) args
  | _ => True

/-- What holds throughout. -/
structure InTime (adapter : FileAdapter) (depth : ℕ) (c : FileCommand)
    (fs₀ : Fs FileName) (s : Redelivery) : Prop where
  outcome : OneOutcome adapter depth c fs₀ s
  first : s.turned = false → ∀ relative, c.path = .ok relative →
    AsFirst c.kind depth adapter.watchDir relative fs₀ s.world.fs

theorem Target.unique {q : PosixPath} (h : Target self depth c fs₀ p)
    (h' : Target self depth c fs₀ q) : p = q := by
  obtain ⟨relative, hpath, hp⟩ := h
  obtain ⟨relative', hpath', hq⟩ := h'
  rw [hpath] at hpath'
  obtain rfl := Except.ok.inj hpath'
  rw [hp] at hq
  exact Except.ok.inj hq

theorem partly_of_ends {a : FileAct} {s s' : FileWorld}
    {r : Except Exn a.Resp} (h : a.Ends depth s r s') :
    a.Partly depth s s' := by
  cases h with
  | done => exact .done a
  | raised _ h => exact h

theorem perform_of_ends {a : FileAct} {s s' : FileWorld}
    {r : Except Exn a.Resp} (h : a.Ends depth s r s') {x : a.Resp}
    (hx : r = .ok x) : (a.perform depth s).1 = .ok x := by
  cases h with
  | done => exact hx
  | raised _ _ => cases hx

variable (depth) in
theorem perform_published (a : FileAct) (s : FileWorld) :
    (a.perform depth s).2.published = s.published ∨
      ∃ args, a = .publish args ∧
        (a.perform depth s).2.published = s.published ++ [args] :=
  records_published (perform_beside depth a s)

theorem partly_published {a : FileAct} {s s' : FileWorld}
    (h : a.Partly depth s s') : s'.published = s.published ∨
      ∃ args, a = .publish args ∧ s'.published = s.published ++ [args] := by
  cases h with
  | nothing => exact .inl rfl
  | done => exact perform_published depth a s
  | @mkdir _ q _ =>
      exact .inl (congrArg Beside.published (perform_beside depth (.mkdir q) s))
  | write file content n => exact .inl rfl

variable {s : FileWorld}

theorem mkdir_asFirst {q : PosixPath}
    (h : AsFirst c.kind depth self.watchDir relative fs₀ s.fs)
    (hpath : c.path = .ok relative) (hp : Target self depth c fs₀ p)
    (hq : q.parts <+: p.parent.parts) :
    AsFirst c.kind depth self.watchDir relative fs₀
      ((FileAct.mkdir q).perform depth s).2.fs := by
  obtain ⟨hgrows, hstat⟩ := perform_mkdir_above depth hq s
  refine h.own (grows_sameLinks hgrows) fun p' hp' => ?_
  rw [Target.unique ⟨relative, hpath, hp'⟩ hp]
  exact finds_congr hstat

theorem write_asFirst {file : Location} {content : Bytes}
    (h : AsFirst c.kind depth self.watchDir relative fs₀ s.fs) :
    AsFirst c.kind depth self.watchDir relative fs₀
      ((FileAct.write file content).perform depth s).2.fs := by
  obtain ⟨hgrows, hback⟩ := perform_write_grows depth file content s
  refine h.own (grows_sameLinks hgrows) fun p' _ => ?_
  rw [Bool.eq_iff_iff]
  exact ⟨grows_finds hback, grows_finds hgrows⟩

theorem openWrite_asFirst
    (h : AsFirst c.kind depth self.watchDir relative fs₀ s.fs)
    (hpath : c.path = .ok relative) (hp : Target self depth c fs₀ p)
    (hkind : c.kind = .write)
    (hturns : (FileAct.openWrite p).turns s.fs
      ((FileAct.openWrite p).perform depth s).2.fs = false) :
    AsFirst c.kind depth self.watchDir relative fs₀
      ((FileAct.openWrite p).perform depth s).2.fs := by
  have hgrows := perform_openWrite_grows depth p s
  refine h.own (grows_sameLinks hgrows) fun p' hp' => ?_
  rw [Target.unique ⟨relative, hpath, hp'⟩ hp, hkind]
  rw [FileAct.turns, Bool.and_eq_false_iff, Bool.not_eq_false'] at hturns
  cases hfinds : FileKind.write.finds s.fs p with
  | true => exact grows_finds hgrows hfinds
  | false =>
      rw [hfinds] at hturns
      exact hturns.resolve_left Bool.false_ne_true

theorem unlink_asFirst
    (h : AsFirst c.kind depth self.watchDir relative fs₀ s.fs)
    (hpath : c.path = .ok relative) (hp : Target self depth c fs₀ p)
    (hkind : c.kind = .delete) (hfinds : c.kind.finds fs₀ p = true)
    (hturns : (FileAct.unlink p).turns s.fs
      ((FileAct.unlink p).perform depth s).2.fs = false) :
    AsFirst c.kind depth self.watchDir relative fs₀
      ((FileAct.unlink p).perform depth s).2.fs := by
  obtain ⟨relative', hpath', hleads⟩ := hp
  rw [hpath] at hpath'
  obtain rfl := Except.ok.inj hpath'
  have hbefore : FileKind.delete.finds s.fs p = true := by
    rw [← hkind, h.found p hleads, hfinds]
  rcases perform_unlink depth p .delete s with hsame | hgone
  · rw [hsame]
    exact h
  · rw [FileAct.turns, hbefore, hgone] at hturns
    cases hturns

/-- What a call does leaves the target as it was at first, unless it made it
or removed it. -/
theorem perform_asFirst {a : FileAct}
    (h : AsFirst c.kind depth self.watchDir relative fs₀ s.fs)
    (hpath : c.path = .ok relative) (hproper : Proper self depth c fs₀ a)
    (hturns : a.turns s.fs (a.perform depth s).2.fs = false) :
    AsFirst c.kind depth self.watchDir relative fs₀
      (a.perform depth s).2.fs := by
  have hsame : (a.perform depth s).2.fs = s.fs →
      AsFirst c.kind depth self.watchDir relative fs₀
        (a.perform depth s).2.fs := fun hfs => by rw [hfs]; exact h
  cases a with
  | mkdir q =>
      obtain ⟨p, hp, rfl⟩ := hproper
      exact mkdir_asFirst h hpath hp List.prefix_rfl
  | openWrite p => exact openWrite_asFirst h hpath hproper.2 hproper.1 hturns
  | write file content => exact write_asFirst h
  | unlink p =>
      exact unlink_asFirst h hpath hproper.2.1 hproper.1 hproper.2.2 hturns
  | iterdir p =>
      exact hsame (onPath_leaves fun _ => congrArg _ (look_world s _ _))
  | size p =>
      exact hsame (onPath_leaves fun _ => congrArg _ (look_world s _ _))
  | read p =>
      refine hsame (onPath_leaves fun path => ?_)
      cases s.fs.read path with
      | error e => rfl
      | ok found => rfl
  | _ => exact hsame rfl

theorem partly_asFirst {a : FileAct} {s' : FileWorld}
    (h : AsFirst c.kind depth self.watchDir relative fs₀ s.fs)
    (hpath : c.path = .ok relative) (hproper : Proper self depth c fs₀ a)
    (hpartly : a.Partly depth s s') (hturns : a.turns s.fs s'.fs = false) :
    AsFirst c.kind depth self.watchDir relative fs₀ s'.fs := by
  cases hpartly with
  | nothing => exact h
  | done => exact perform_asFirst h hpath hproper hturns
  | mkdir hq =>
      obtain ⟨p, hp, rfl⟩ := hproper
      exact mkdir_asFirst h hpath hp hq
  | write file content n => exact write_asFirst h

/-- One call of a delivery. -/
theorem inTime_step {a : FileAct} {s s' : Redelivery} {r : Except Exn a.Resp}
    (hs : InTime self depth c fs₀ s) (hproper : Proper self depth c fs₀ a)
    (hcan : Redelivery.can self depth c s a r s') :
    InTime self depth c fs₀ s' := by
  obtain ⟨fs, hothers, hends, hturned⟩ := hcan
  have hpartly := partly_of_ends hends
  refine ⟨fun args hargs => ?_, fun hnot relative hpath => ?_⟩
  · rcases partly_published hpartly with hsame | ⟨args', rfl, hmore⟩
    · rw [hsame] at hargs
      exact hs.outcome args hargs
    · rw [hmore, List.mem_append] at hargs
      rcases hargs with hargs | hargs
      · exact hs.outcome args hargs
      · obtain rfl := List.mem_singleton.mp hargs
        obtain ⟨p, ⟨relative, hpath, hleads⟩, hresult⟩ := hproper
        exact ⟨relative, p, hpath, hleads, hresult⟩
  · rw [hnot] at hturned
    obtain ⟨hbefore, hturns⟩ := Bool.or_eq_false_iff.mp hturned.symm
    exact partly_asFirst ((hs.first hbefore relative hpath).others
      (hothers relative hpath)) hpath hproper hpartly hturns

end JetCore
