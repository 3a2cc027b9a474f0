import JetCore.Proofs.FilePayloads
import JetCore.Proofs.TargetCalls

/-!
# Nothing outside `watch_dir` is touched

What `resolve_within` returns is below the resolved root, and unless resolving
stopped at a loop of links there is no link on it. From there on the handlers'
calls cannot leave the root: each touches the target itself, except for `mkdir`,
and what that makes was missing, so it is not above the root
(`staysInside_mkdir`).

Where resolving does stop at a loop, the rest of the path is not looked at any
more and `..` in it takes the loop away again. What is left may go over any
link, so `confined_iff` has that as its one exception, and `loop_escapes` is a
tree of four nodes in which it happens.
-/

namespace JetCore

open Lib

variable {fs : Fs FileName} {depth : ℕ} {self : FileAdapter}

/-! ## The subtree of a path -/

theorem spells_prefix {parts parts' : List Text} {names names' : Location}
    (h : Spells parts names) (h' : Spells parts' names')
    (hpre : parts <+: parts') : names <+: names' := by
  obtain ⟨rest, rfl⟩ := hpre
  obtain ⟨a, b, ha, -, rfl⟩ := spells_append.mp h'
  rw [Spells, ha] at h
  cases h
  exact List.prefix_append _ _

/-- The test of `resolve_within`. -/
theorem in_subtree {p q : PosixPath} :
    ¬(p ≠ q ∧ q ∉ p.parents) ↔ p.IsRelativeTo q := by
  rw [not_and_or, not_not, not_not]
  constructor
  · intro h
    rcases h with rfl | h
    · exact ⟨rfl, List.prefix_rfl⟩
    · rw [PosixPath.parents, List.mem_map] at h
      obtain ⟨n, -, rfl⟩ := h
      exact ⟨rfl, List.take_prefix n p.parts⟩
  · intro h
    obtain ⟨root, parts⟩ := q
    obtain ⟨rfl, hpre⟩ : p.root = root ∧ parts <+: p.parts := h
    by_cases heq : p.parts = parts
    · exact .inl (congrArg (PosixPath.mk p.root) heq)
    · refine .inr ?_
      rw [PosixPath.parents, List.mem_map]
      refine ⟨parts.length, ?_, ?_⟩
      · rw [List.mem_reverse, List.mem_range]
        refine lt_of_le_of_ne hpre.length_le fun hlen => heq ?_
        exact (hpre.eq_of_length hlen).symm
      · exact congrArg (PosixPath.mk p.root)
          (List.prefix_iff_eq_take.mp hpre).symm

theorem resolvedWithin_eq_ok {root p : PosixPath} {relative : Text} :
    resolvedWithin fs depth root relative = .ok p ↔
      isAbsolute relative = false ∧
      ∃ rootResolved : PosixPath, root.resolve fs depth = .ok rootResolved ∧
        (rootResolved.join relative).resolve fs depth = .ok p ∧
        p.IsRelativeTo rootResolved := by
  rw [resolvedWithin]
  split
  · next habs =>
      constructor
      · intro h
        cases h
      · intro h
        rw [h.1] at habs
        cases habs
  · next habs =>
      rw [bind_eq_ok, Bool.not_eq_true] at *
      constructor
      · intro h
        obtain ⟨rootResolved, hroot, h⟩ := h
        obtain ⟨candidate, hcandidate, h⟩ := bind_eq_ok.mp h
        split at h
        · cases h
        · next hin =>
            cases h
            exact ⟨habs, rootResolved, hroot, hcandidate, in_subtree.mp hin⟩
      · intro h
        obtain ⟨-, rootResolved, hroot, hcandidate, hpre⟩ := h
        refine ⟨rootResolved, hroot, bind_eq_ok.mpr ⟨p, hcandidate, ?_⟩⟩
        rw [if_neg (in_subtree.mpr hpre)]

/-! ## What the handlers do to a target -/

/-- The target is where it says, and nothing outside the root was touched. -/
structure Inside (rootLoc target : Location) (s : FileWorld) : Prop where
  root : s.fs.node? rootLoc = some .dir
  free : s.fs.LinkFree target
  touched : ∀ loc ∈ s.touched, rootLoc <+: loc

theorem Inside.sets {rootLoc target loc : Location} {s : FileWorld}
    (h : Inside rootLoc target s) {fs' : Fs FileName}
    {x : Option (Node FileName)} (hsets : s.fs.Sets fs' loc x)
    (hloc : s.fs.node? loc ≠ some .dir) (hx : ∀ t, x ≠ some (.link t))
    (hin : rootLoc <+: loc) : Inside rootLoc target (s.touch [loc] fs') where
  root := hsets.dir hloc h.root
  free := hsets.linkFree hx h.free
  touched l hl := by
    rcases List.mem_append.mp hl with hl | hl
    · exact h.touched l hl
    · rw [List.mem_singleton.mp hl]
      exact hin

/-- What is shown of each part of a handler. -/
abbrev StaysInside {α : Type} (depth : ℕ) (rootLoc target : Location)
    (p : FileProg α) : Prop :=
  Prog.Keeps (Prog.executes (FileAct.perform depth)) (Inside rootLoc target) p

variable {rootLoc names : Location} {target : PosixPath}

/-- A call that leaves the tree and the record of it alone. -/
theorem staysInside_same {a : FileAct}
    (ha : ∀ s : FileWorld, (a.perform depth s).2.fs = s.fs ∧
      (a.perform depth s).2.touched = s.touched) :
    StaysInside depth rootLoc names (FileAct.call a) := by
  refine .act fun s r s' hs hcan => ?_
  obtain rfl : (a.perform depth s).2 = s' := congrArg Prod.snd hcan
  obtain ⟨hfs, htouched⟩ := ha s
  exact ⟨by rw [hfs]; exact hs.root, by rw [hfs]; exact hs.free,
    by rw [htouched]; exact hs.touched⟩

theorem staysInside_mkdir (hnames : Spells target.parts names)
    (hin : rootLoc <+: names) :
    StaysInside depth rootLoc names (FileAct.call (.mkdir target.parent)) := by
  refine .act fun s r s' hs hcan => ?_
  obtain rfl := congrArg Prod.snd hcan
  have hparent : target.parent.encode = .ok names.dropLast :=
    spells_dropLast hnames
  have hmakes := mkdirs_makes (hs.free.front (List.dropLast_prefix names))
  simp only [FileAct.perform, FileWorld.onPath, hparent]
  refine ⟨hmakes.adds.node hs.root, hmakes.adds.linkFree hs.free,
    fun l hl => ?_⟩
  rcases List.mem_append.mp hl with hl | hl
  · exact hs.touched l hl
  · -- what was made was missing, so it is not above the root
    have hpre := (hmakes.below l hl).trans (List.dropLast_prefix names)
    rcases List.prefix_or_prefix_of_prefix hpre hin with hle | hle
    · by_cases heq : l = rootLoc
      · rw [heq]
      · have hnone := (hmakes.adds.new l hl).1
        rw [Fs.dir_above (by simp [hs.root]) hle heq] at hnone
        cases hnone
    · exact hle

theorem staysInside_openWrite (hnames : Spells target.parts names)
    (hin : rootLoc <+: names) :
    StaysInside depth rootLoc names (FileAct.call (.openWrite target)) := by
  refine .act fun s r s' hs hcan => ?_
  obtain rfl := congrArg Prod.snd hcan
  have hencode : target.encode = .ok names := hnames
  simp only [FileAct.perform, FileWorld.onPath, hencode]
  cases hopen : s.fs.openTrunc names with
  | error e => exact hs
  | ok opened =>
      obtain ⟨loc, fs'⟩ := opened
      obtain ⟨hlocate, -, -, hloc, hsets⟩ := Fs.openTrunc_eq_ok hopen
      obtain rfl := (Fs.locate_linkFree hs.free hlocate).1
      exact hs.sets hsets hloc (by simp) hin

theorem staysInside_write (file : Location) (content : Bytes) :
    StaysInside depth rootLoc names (FileAct.call (.write file content)) := by
  refine .act fun s r s' hs hcan => ?_
  obtain rfl := congrArg Prod.snd hcan
  simp only [FileAct.perform]
  rcases Fs.writeAt_eq s.fs file content with heq | ⟨⟨old, hfile⟩, hsets⟩
  · rw [heq]
    exact hs
  · exact ⟨hsets.dir (by simp [hfile]) hs.root,
      hsets.linkFree (by simp) hs.free, hs.touched⟩

theorem staysInside_read (hnames : Spells target.parts names)
    (hin : rootLoc <+: names) :
    StaysInside depth rootLoc names (FileAct.call (.read target)) := by
  refine .act fun s r s' hs hcan => ?_
  obtain rfl := congrArg Prod.snd hcan
  have hencode : target.encode = .ok names := hnames
  simp only [FileAct.perform, FileWorld.onPath, hencode]
  cases hread : s.fs.read names with
  | error e => exact hs
  | ok found =>
      obtain ⟨loc, content⟩ := found
      obtain rfl := (Fs.locate_linkFree hs.free (Fs.read_eq_ok hread).1).1
      refine ⟨hs.root, hs.free, fun l hl => ?_⟩
      rcases List.mem_append.mp hl with hl | hl
      · exact hs.touched l hl
      · rw [List.mem_singleton.mp hl]
        exact hin

theorem staysInside_unlink (hnames : Spells target.parts names)
    (hin : rootLoc <+: names) :
    StaysInside depth rootLoc names (FileAct.call (.unlink target)) := by
  refine .act fun s r s' hs hcan => ?_
  obtain rfl := congrArg Prod.snd hcan
  have hencode : target.encode = .ok names := hnames
  simp only [FileAct.perform, FileWorld.onPath, hencode]
  cases hunlink : s.fs.unlink names with
  | error e => exact hs
  | ok removed =>
      obtain ⟨loc, fs'⟩ := removed
      obtain ⟨hentry, -, hloc, hsets⟩ := Fs.unlink_eq_ok hunlink
      obtain rfl := Fs.entry_linkFree hs.free hentry
      exact hs.sets hsets hloc (by simp) hin

theorem staysInside_publishAndAck {event : ReceivedEvent}
    {subject eventType : String} {payload : Bytes} :
    StaysInside depth rootLoc names
      (publishAndAck event subject eventType payload) :=
  .bind (staysInside_same fun _ => ⟨rfl, rfl⟩)
    fun _ => staysInside_same fun _ => ⟨rfl, rfl⟩

theorem staysInside_orNak {α : Type} {doing : String} {event : ReceivedEvent}
    {x : FileProg α} {rest : α → FileProg Unit}
    (hx : StaysInside depth rootLoc names x)
    (hrest : ∀ a, StaysInside depth rootLoc names (rest a)) :
    StaysInside depth rootLoc names (orNak doing target event x rest) := by
  rw [orNak]
  refine .bind hx.attempt fun r => ?_
  cases r with
  | error e =>
      show StaysInside depth rootLoc names (ite _ _ _)
      split
      · exact .bind (staysInside_same fun _ => ⟨rfl, rfl⟩)
          fun _ => staysInside_same fun _ => ⟨rfl, rfl⟩
      · exact .raise e
  | ok a => exact hrest a

theorem staysInside_writeFile (hnames : Spells target.parts names)
    (hin : rootLoc <+: names) (content : Bytes) :
    StaysInside depth rootLoc names (writeFile target content) :=
  .bind (staysInside_mkdir hnames hin) fun _ =>
    .bind (staysInside_openWrite hnames hin) fun file =>
      staysInside_write file content

theorem staysInside_markRecent (self : FileAdapter) (p : PosixPath) :
    StaysInside depth rootLoc names (markRecent self p) := by
  rw [markRecent]
  split
  · exact staysInside_same fun _ => ⟨rfl, rfl⟩
  · exact .pure ()

theorem staysInside_writeTarget (self : FileAdapter) (occurredAt : String)
    (event : ReceivedEvent) (request : WriteRequest)
    (hnames : Spells target.parts names) (hin : rootLoc <+: names) :
    StaysInside depth rootLoc names
      (writeTarget self occurredAt event request target) := by
  refine .bind (staysInside_same fun _ => ⟨rfl, rfl⟩) fun existedBefore => ?_
  refine staysInside_orNak (staysInside_writeFile hnames hin _) fun _ => ?_
  refine .bind (staysInside_markRecent self target) fun _ => ?_
  split
  · exact staysInside_publishAndAck
  · exact staysInside_publishAndAck

theorem staysInside_readTarget (occurredAt : String) (event : ReceivedEvent)
    (path : Text) (hnames : Spells target.parts names)
    (hin : rootLoc <+: names) :
    StaysInside depth rootLoc names
      (readTarget occurredAt event path target) := by
  refine .bind (staysInside_same fun _ => ⟨rfl, rfl⟩) fun isFile => ?_
  split
  · exact staysInside_publishAndAck
  · exact staysInside_orNak (staysInside_read hnames hin)
      fun _ => staysInside_publishAndAck

theorem staysInside_deleteTarget (occurredAt : String) (event : ReceivedEvent)
    (path : Text) (hnames : Spells target.parts names)
    (hin : rootLoc <+: names) :
    StaysInside depth rootLoc names
      (deleteTarget occurredAt event path target) := by
  refine .bind (staysInside_same fun _ => ⟨rfl, rfl⟩) fun isFile => ?_
  split
  · exact staysInside_publishAndAck
  · exact staysInside_orNak (staysInside_unlink hnames hin)
      fun _ => staysInside_publishAndAck

/-! ## Commands -/

theorem touched_inside {s : FileWorld} (hroot : s.fs.node? rootLoc = some .dir)
    (htouched : s.touched = []) {relative : Text}
    (hinside : ∀ p, resolvedWithin s.fs depth self.watchDir relative = .ok p →
      LeadsInside s.fs rootLoc p)
    {c : FileCommand} (hpath : c.path = .ok relative) :
    ∀ loc ∈ (c.run self depth s).touched, rootLoc <+: loc := by
  have hrun : ∀ {α : Type} {eventType : String} {decoded : Except Exn α}
      {path : α → Text} {body : α → PosixPath → FileProg Unit},
      (∀ request, decoded = .ok request → path request = relative) →
      (∀ request target names, Spells target.parts names →
        rootLoc <+: names →
        StaysInside depth rootLoc names (body request target)) →
      ∀ loc ∈ ((withTarget self.watchDir eventType c.event decoded path
        body).exec (FileAct.perform depth) s).2.touched, rootLoc <+: loc := by
    intro α eventType decoded path body hdecoded hbody
    rcases exec_withTarget depth s self.watchDir eventType c.event decoded path
      body with ⟨request, target, hrequest, htarget, hexec⟩ | ⟨-, hidle⟩
    · rw [hdecoded request hrequest] at htarget
      obtain ⟨names, hnames, hin, hfree⟩ := hinside target htarget
      rw [hexec]
      refine ((hbody request target names hnames hin).exec
        ⟨hroot, hfree, ?_⟩).touched
      rw [htouched]
      exact nofun
    · rw [hidle.touched, htouched]
      exact nofun
  obtain ⟨kind, occurredAt, event⟩ := c
  cases kind with
  | write =>
      refine hrun (fun request hrequest => ?_) fun request target names =>
        staysInside_writeTarget self occurredAt event request
      rw [FileCommand.path, hrequest] at hpath
      exact Except.ok.inj hpath
  | read =>
      refine hrun (fun request hrequest => ?_) fun request target names =>
        staysInside_readTarget occurredAt event request
      exact Except.ok.inj (hrequest.symm.trans hpath)
  | delete =>
      refine hrun (fun request hrequest => ?_) fun request target names =>
        staysInside_deleteTarget occurredAt event request
      exact Except.ok.inj (hrequest.symm.trans hpath)

/-- A request is confined unless resolving its path stops at a loop and leaves
a path over a link. -/
theorem confined_iff {relative : Text}
    (hroot : ExistingDir fs self.watchDir rootLoc) :
    Confined fs depth self relative rootLoc ↔
      ¬ StopsAtLoop fs depth self.watchDir relative := by
  constructor
  · intro h hstops
    obtain ⟨hrel, rootResolved, joined, names, hresolved, hjoined, -, hpre,
      hnames, hstat, hlink⟩ := hstops
    have hreal : realpath fs depth (rootResolved.join relative).parts =
        .ok (normpath joined.path) := bind_eq_ok.mpr ⟨joined, hjoined, rfl⟩
    have hok := resolvedWithin_eq_ok.mpr ⟨hrel, rootResolved, hresolved,
      resolve_eq_ok.mpr ⟨hreal, names, hnames, hstat⟩, hpre⟩
    obtain ⟨names', hnames', -, hfree⟩ := h.inside _ hok
    rw [hnames] at hnames'
    cases hnames'
    exact hlink hfree
  · intro hno
    have hinside : ∀ p,
        resolvedWithin fs depth self.watchDir relative = .ok p →
        LeadsInside fs rootLoc p := by
      intro p hp
      obtain ⟨hrel, rootResolved, hresolved, hp, hpre⟩ :=
        resolvedWithin_eq_ok.mp hp
      obtain ⟨hreal, names, hnames, hstat⟩ := resolve_eq_ok.mp hp
      refine ⟨names, hnames,
        spells_prefix (hroot.resolve hresolved) hnames hpre.2, ?_⟩
      obtain ⟨joined, hjoined, hnorm⟩ := bind_eq_ok.mp hreal
      have hp' : normpath joined.path = p := Except.ok.inj hnorm
      by_contra hlink
      cases hok : joined.ok with
      | true =>
          obtain ⟨names', hnames', hfree⟩ := (joinrealpath_clean depth [] _ _
            joined (clean_nil fs) (seenClean_empty fs) hjoined).2 hok
          rw [normpath_spells hnames'] at hp'
          rw [← hp'] at hnames
          cases hnames.symm.trans hnames'
          exact hlink hfree
      | false =>
          exact hno ⟨hrel, rootResolved, joined, names, hresolved, hjoined, hok,
            by rw [hp']; exact hpre, by rw [hp']; exact hnames, hstat, hlink⟩
    refine ⟨fun p hp => ?_, hinside, fun c hc =>
      touched_inside hroot.dir rfl hinside hc⟩
    obtain ⟨-, rootResolved, hresolved, -, hpre⟩ := resolvedWithin_eq_ok.mp hp
    exact ⟨rootResolved, hresolved, hpre⟩

/-! ## A loop in `watch_dir` -/

namespace Sample

def loopName : FileName := ⟨ascii "l", by decide⟩

def secretName : FileName := ⟨ascii "s", by decide⟩

/-- `/w` with the links `l -> l` and `x -> /s`, and the file `/s`. -/
def loopFs : Fs FileName :=
  ((emptyFs.put [rootName] loopName
      (.link ⟨false, [.name loopName]⟩) (by decide)).put
    [rootName] aliasName (.link ⟨true, [.name secretName]⟩) (by decide)).put
    [] secretName (.file [1, 2, 3]) (by decide)

def loopPath : Text := Text.ofString "l/../x"

end Sample

open Sample

/-- The path leads over the link, and a read of it reads the file outside. -/
theorem loop_escapes :
    ¬ Confined loopFs 1000 fileAdapter loopPath [rootName] ∧
      (FileCommand.run fileAdapter 1000 ⟨.read, "2026-01-01T00:00:00Z",
        fileMessage "FileReadRequested" (pathRequest "l/../x")⟩
        { fs := loopFs }).touched = [[secretName]] := by
  have hresolved : resolvedWithin loopFs 1000 fileAdapter.watchDir loopPath =
      .ok ⟨.slash, [rootName.text, aliasName.text]⟩ := by decide +kernel
  have hencode : PosixPath.encode ⟨.slash, [rootName.text, aliasName.text]⟩ =
      .ok [rootName, aliasName] := by decide +kernel
  refine ⟨fun h => ?_, by decide +kernel⟩
  obtain ⟨names, hnames, -, hfree⟩ := h.inside _ hresolved
  rw [hencode] at hnames
  cases hnames
  exact hfree _ List.prefix_rfl ⟨true, [.name secretName]⟩ (by decide +kernel)

/-- In the same directory, a path that goes up again from what is missing. -/
theorem confined_missing :
    Confined loopFs 1000 fileAdapter (Text.ofString "n/../b") [rootName] := by
  refine (confined_iff ⟨by decide +kernel, by decide +kernel⟩).mpr ?_
  intro h
  obtain ⟨-, rootResolved, joined, names, hroot, hjoined, hok, -⟩ := h
  have hroot' : fileAdapter.watchDir.resolve loopFs 1000 =
      .ok ⟨.slash, [rootName.text]⟩ := by decide +kernel
  rw [hroot'] at hroot
  cases hroot
  have hno : (joinrealpath loopFs 1000 []
      (PosixPath.join ⟨.slash, [rootName.text]⟩
        (Text.ofString "n/../b")).parts
      Dict.empty).map Joined.ok = .ok true := by decide +kernel
  rw [hjoined] at hno
  exact absurd (hok.symm.trans (Except.ok.inj hno)) Bool.false_ne_true

end JetCore
