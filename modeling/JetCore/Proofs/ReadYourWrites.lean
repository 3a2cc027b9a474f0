import JetCore.Proofs.Confined
import JetCore.Spec.FileStore

/-!
# Read your writes

What a command leaves of a filesystem is said in one way for all of them: the
same links, no directory lost, and another content at most in one place
(`Leaves`). Because the links and the root stay, a path that was resolved once
is resolved to the same target ever after (`Kept.resolved`). So one command
changes the contents exactly by the change it completed (`run_step`), a run
changes them by the log of its changes, and a read says what is there.
-/

namespace JetCore

open Lib

variable {fs fs' fs'' : Fs FileName} {depth : ℕ} {names : Location}

/-! ## What is left of a filesystem -/

/-- The same links, no directory lost, and another content at most in one
place. -/
structure Leaves (fs fs' : Fs FileName) (loc : Location) (x : Option Bytes) :
    Prop where
  links : SameLinks fs fs'
  dirs : ∀ d, fs.node? d = some .dir → fs'.node? d = some .dir
  contents : ∀ l, contentAt fs' l = if l = loc then x else contentAt fs l

theorem Leaves.refl (fs : Fs FileName) (loc : Location) :
    Leaves fs fs loc (contentAt fs loc) where
  links _ _ := Iff.rfl
  dirs _ h := h
  contents l := by
    split
    · next h => rw [h]
    · rfl

theorem Leaves.trans {loc : Location} {x y : Option Bytes}
    (h : Leaves fs fs' loc x) (h' : Leaves fs' fs'' loc y) :
    Leaves fs fs'' loc y where
  links l t := (h'.links l t).trans (h.links l t)
  dirs d hd := h'.dirs d (h.dirs d hd)
  contents l := by
    rw [h'.contents l]
    split
    · rfl
    · next hne => rw [h.contents l, if_neg hne]

theorem leaves_adds {made : List Location} (h : fs.Adds fs' made)
    (loc : Location) : Leaves fs fs' loc (contentAt fs loc) := by
  have hcontents : ∀ l, contentAt fs' l = contentAt fs l := by
    intro l
    rw [contentAt, contentAt]
    by_cases hl : l ∈ made
    · rw [(h.new l hl).1, (h.new l hl).2]
    · rw [h.same l hl]
  refine ⟨fun l t => h.no_link, fun d hd => h.node hd, fun l => ?_⟩
  rw [hcontents l]
  split
  · next heq => rw [heq]
  · rfl

theorem leaves_sets {loc : Location} {x : Option (Node FileName)}
    (h : fs.Sets fs' loc x) (hx : ∀ t, x ≠ some (.link t))
    (hlink : ∀ t, fs.node? loc ≠ some (.link t))
    (hdir : fs.node? loc ≠ some .dir) :
    Leaves fs fs' loc (contentAt fs' loc) where
  links l t := by
    by_cases hl : l = loc
    · rw [hl, h.at]
      exact iff_of_false (hx t) (hlink t)
    · rw [h.of_ne hl]
  dirs d hd := h.dir hdir hd
  contents l := by
    split
    · next hl => rw [hl]
    · next hl => rw [contentAt, contentAt, h.of_ne hl]

theorem contentAt_file {loc : Location} {content : Bytes}
    (h : fs.node? loc = some (.file content)) :
    contentAt fs loc = some content := by
  rw [contentAt, h]

theorem contentAt_eq_some {loc : Location} {content : Bytes} :
    contentAt fs loc = some content ↔ fs.node? loc = some (.file content) := by
  rw [contentAt]
  split
  · next c h =>
      rw [h]
      simp
  · next h =>
      constructor
      · exact nofun
      · exact fun hfile => absurd hfile (h content)

/-! ## The handlers -/

variable {target : PosixPath}

/-- A call answers, or it raises an `OSError`. -/
def AnswersOr {α : Type} (r : Except Exn α) : Prop :=
  (∃ a, r = .ok a) ∨ ∃ e, r = .error (.osError e)

theorem perform_mkdir (depth : ℕ) (hnames : Spells target.parts names)
    {s : FileWorld}
    (hfree : s.fs.LinkFree names) :
    ∃ r s', FileAct.perform depth (.mkdir target.parent) s = (r, s') ∧
      AnswersOr r ∧ s'.published = s.published ∧ s'.fs.LinkFree names ∧
      Leaves s.fs s'.fs names (contentAt s.fs names) := by
  have hparent : target.parent.encode = .ok names.dropLast :=
    spells_dropLast hnames
  have hmakes := mkdirs_makes (hfree.front (List.dropLast_prefix names))
  rw [FileAct.perform, FileWorld.onPath, hparent]
  refine ⟨_, _, rfl, ?_, rfl, hmakes.adds.linkFree hfree,
    leaves_adds hmakes.adds names⟩
  cases (mkdirs names.dropLast s.fs).1 with
  | ok u => exact .inl ⟨u, rfl⟩
  | error e => exact .inr ⟨e, rfl⟩

theorem perform_openWrite (depth : ℕ) (hnames : Spells target.parts names)
    {s : FileWorld}
    (hfree : s.fs.LinkFree names) :
    (∃ e, FileAct.perform depth (.openWrite target) s =
      (.error (.osError e), s)) ∨
    ∃ s', FileAct.perform depth (.openWrite target) s = (.ok names, s') ∧
      s'.published = s.published ∧
      s.fs.Sets s'.fs names (some (.file [])) ∧
      Leaves s.fs s'.fs names (some []) := by
  have hencode : target.encode = .ok names := hnames
  have hperform : FileAct.perform depth (.openWrite target) s =
      s.change (s.fs.openTrunc names) id := by
    rw [FileAct.perform, FileWorld.onPath, hencode]
  rw [hperform]
  cases hopen : s.fs.openTrunc names with
  | error e => exact .inl ⟨e, rfl⟩
  | ok opened =>
      obtain ⟨loc, fs'⟩ := opened
      obtain ⟨hlocate, -, -, hdir, hsets⟩ := Fs.openTrunc_eq_ok hopen
      obtain rfl := (Fs.locate_linkFree hfree hlocate).1
      have hleaves := leaves_sets hsets (by simp) (hfree loc List.prefix_rfl) hdir
      rw [contentAt_file hsets.at] at hleaves
      exact .inr ⟨_, rfl, rfl, hsets, hleaves⟩

theorem writeAt_leaves {old content : Bytes}
    (hfile : fs.node? names = some (.file old)) :
    Leaves fs (fs.writeAt names content) names (some content) := by
  have hsets := Fs.writeAt_sets content hfile
  have hleaves := leaves_sets hsets (by simp) (by simp [hfile])
    (by simp [hfile])
  rw [contentAt_file hsets.at] at hleaves
  exact hleaves

theorem exec_writeFile (depth : ℕ) (hnames : Spells target.parts names)
    {s : FileWorld} (hfree : s.fs.LinkFree names) (content : Bytes) :
    ∃ r s', (writeFile target content).exec (FileAct.perform depth) s =
        (r, s') ∧
      s'.published = s.published ∧
      (r = .ok () ∧ Leaves s.fs s'.fs names (some content) ∨
        (∃ e, r = .error (.osError e)) ∧
          Leaves s.fs s'.fs names (contentAt s.fs names)) := by
  obtain ⟨r, s₁, hmkdir, hr, hpub₁, hfree₁, hleaves₁⟩ :=
    perform_mkdir depth hnames hfree
  rw [writeFile, Prog.exec_bind, exec_call, hmkdir]
  rcases hr with ⟨u, rfl⟩ | ⟨e, rfl⟩
  · rw [Prog.resume_ok, Prog.exec_bind, exec_call]
    rcases perform_openWrite depth hnames hfree₁ with
      ⟨e, hopen⟩ | ⟨s₂, hopen, hpub₂, hsets, hleaves₂⟩
    · rw [hopen]
      exact ⟨_, _, rfl, hpub₁, .inr ⟨⟨e, rfl⟩, hleaves₁⟩⟩
    · rw [hopen, Prog.resume_ok, exec_call]
      refine ⟨_, _, rfl, hpub₂.trans hpub₁, .inl ⟨rfl, ?_⟩⟩
      exact (hleaves₁.trans hleaves₂).trans (writeAt_leaves hsets.at)
  · exact ⟨_, _, rfl, hpub₁, .inr ⟨⟨e, rfl⟩, hleaves₁⟩⟩

/-! ### One handler on its target -/

variable {event : ReceivedEvent}

theorem exec_publishAndAck (event : ReceivedEvent)
    (subject eventType : String) (payload : Bytes) (s : FileWorld) :
    ((publishAndAck event subject eventType payload).exec
        (FileAct.perform depth) s).2 =
      { s with
        published := s.published ++ [{
          subject := subject
          payload := payload
          eventType := eventType
          correlationId := some event.details.eventId }]
        settled := s.settled ++ [.acked] } := rfl

theorem exec_orNak_ok {α : Type} {doing : String} {x : FileProg α}
    {rest : α → FileProg Unit} {s s' : FileWorld} {a : α}
    (hx : x.exec (FileAct.perform depth) s = (.ok a, s')) :
    (orNak doing target event x rest).exec (FileAct.perform depth) s =
      (rest a).exec (FileAct.perform depth) s' := by
  rw [orNak, Prog.exec_bind, Prog.exec_attempt, hx]
  rfl

theorem exec_orNak_error {α : Type} {doing : String} {x : FileProg α}
    {rest : α → FileProg Unit} {s s' : FileWorld} {e : Errno}
    (hx : x.exec (FileAct.perform depth) s = (.error (.osError e), s')) :
    ((orNak doing target event x rest).exec (FileAct.perform depth) s).2 =
      { s' with
        log := s'.log ++ [.ioError doing target event.details.eventId]
        settled := s'.settled ++ [.nakked] } := by
  rw [orNak, Prog.exec_bind, Prog.exec_attempt, hx]
  rfl

/-- What a command's handling comes to. -/
structure Outcome (s s' : FileWorld) (loc : Location) (x : Option Bytes)
    (published : List PublishArgs) : Prop where
  leaves : Leaves s.fs s'.fs loc x
  published : s'.published = s.published ++ published

theorem exec_markRecent (depth : ℕ) (self : FileAdapter) (target : PosixPath)
    (s : FileWorld) :
    ∃ marked, (markRecent self target).exec (FileAct.perform depth) s =
      (.ok (), { s with marked := marked }) := by
  rw [markRecent]
  split
  · exact ⟨_, rfl⟩
  · exact ⟨_, rfl⟩

/-- A write either completes, says so and leaves its content, or it says
nothing and leaves the contents as they were. -/
theorem exec_writeTarget (depth : ℕ) (occurredAt : String)
    (event : ReceivedEvent) (self : FileAdapter) (request : WriteRequest)
    (hnames : Spells target.parts names) {s : FileWorld} (hfree : s.fs.LinkFree names) :
    ∃ s', ((writeTarget self occurredAt event request target).exec
        (FileAct.perform depth) s).2 = s' ∧
      ((∃ args, (args.eventType = "FileCreateCompleted" ∨
          args.eventType = "FileWriteCompleted") ∧
        Outcome s s' names (some request.content) [args]) ∨
      Outcome s s' names (contentAt s.fs names) []) := by
  refine ⟨_, rfl, ?_⟩
  rw [writeTarget, Prog.exec_bind, exec_call, FileAct.perform,
    PosixPath.exists?, test_linkFree hnames hfree, Prog.resume_ok]
  obtain ⟨r, s₁, hwrite, hpub, ⟨rfl, hleaves⟩ | ⟨⟨e, rfl⟩, hleaves⟩⟩ :=
    exec_writeFile depth hnames hfree request.content
  · obtain ⟨marked, hmark⟩ := exec_markRecent depth self target s₁
    rw [exec_orNak_ok hwrite, Prog.exec_bind, hmark, Prog.resume_ok]
    refine .inl ?_
    split
    · exact ⟨_, .inr rfl, hleaves, by rw [exec_publishAndAck, ← hpub]⟩
    · exact ⟨_, .inl rfl, hleaves, by rw [exec_publishAndAck, ← hpub]⟩
  · rw [exec_orNak_error hwrite]
    exact .inr ⟨hleaves, by rw [List.append_nil, ← hpub]⟩

/-- The three answers of the other two handlers. -/
def notFound (event : ReceivedEvent) (path : Text) (operation : String)
    (occurredAt : String) : PublishArgs where
  subject := "events.files.FileOperationFailed"
  payload := encodeOperationFailed path operation "not_found" occurredAt
  eventType := "FileOperationFailed"
  correlationId := some event.details.eventId

def readCompleted (event : ReceivedEvent) (path : Text) (content : Bytes)
    (occurredAt : String) : PublishArgs where
  subject := "events.files.FileReadCompleted"
  payload := encodeReadCompleted path content occurredAt
  eventType := "FileReadCompleted"
  correlationId := some event.details.eventId

def deleteCompleted (event : ReceivedEvent) (path : Text)
    (occurredAt : String) : PublishArgs where
  subject := "events.files.FileDeleteCompleted"
  payload := encodeDeleteCompleted path occurredAt
  eventType := "FileDeleteCompleted"
  correlationId := some event.details.eventId

theorem isFile_linkFree (hnames : Spells target.parts names)
    (hfree : fs.LinkFree names) :
    target.isFile fs = .ok (contentAt fs names).isSome := by
  rw [PosixPath.isFile, test_linkFree hnames hfree, contentAt]
  cases fs.node? names with
  | none => rfl
  | some node => cases node <;> rfl

theorem read_linkFree (hfree : fs.LinkFree names) {content : Bytes}
    (hfile : fs.node? names = some (.file content)) :
    fs.read names = .ok (names, content) := by
  rw [Fs.read, Fs.locate_of_node hfree (by simp [hfile])]
  show Fs.asFile names (fs.node? names) = _
  rw [hfile]
  rfl

/-- A read says what is there, or that nothing is. -/
theorem exec_readTarget (depth : ℕ) (occurredAt : String)
    (event : ReceivedEvent) (path : Text)
    (hnames : Spells target.parts names) {s : FileWorld}
    (hfree : s.fs.LinkFree names) :
    Outcome s ((readTarget occurredAt event path target).exec
        (FileAct.perform depth) s).2 names (contentAt s.fs names)
      [(contentAt s.fs names).elim (notFound event path "read" occurredAt)
        fun content => readCompleted event path content occurredAt] := by
  have hencode : target.encode = .ok names := hnames
  rw [readTarget, Prog.exec_bind, exec_call, FileAct.perform,
    isFile_linkFree hnames hfree, Prog.resume_ok]
  cases hcontent : contentAt s.fs names with
  | none =>
      have hsame := Leaves.refl s.fs names
      rw [hcontent] at hsame
      exact ⟨hsame, rfl⟩
  | some content =>
      have hread : (FileAct.call (.read target)).exec (FileAct.perform depth)
          s = (.ok content, s.touch [names] s.fs) := by
        rw [exec_call, FileAct.perform, FileWorld.onPath, hencode]
        simp only []
        rw [read_linkFree hfree (contentAt_eq_some.mp hcontent)]
      have hsame := Leaves.refl s.fs names
      rw [hcontent] at hsame
      rw [if_neg (by simp), exec_orNak_ok hread]
      exact ⟨hsame, rfl⟩

theorem unlink_linkFree (hfree : fs.LinkFree names) {content : Bytes}
    (hfile : fs.node? names = some (.file content)) :
    ∃ fs', fs.unlink names = .ok (names, fs') ∧ fs.Sets fs' names none := by
  have hentry : fs.entry names = .ok names := by
    rcases List.eq_nil_or_concat names with rfl | ⟨d, n, rfl⟩
    · rfl
    · rw [List.concat_eq_append] at hfile ⊢
      exact Fs.entry_in_dir (fs.parent d n fun h => by
        rw [Fs.node?, h] at hfile
        cases hfile)
  have hdir : fs.node? names ≠ some .dir := by simp [hfile]
  refine ⟨fs.remove names hdir, ?_, Fs.sets_remove hdir⟩
  rw [Fs.unlink, hentry]
  simp only [bind, Except.bind]
  rw [if_neg (by simp [hfile]), dif_pos hdir]

/-- A delete removes what is there and says so, or it says that nothing is. -/
theorem exec_deleteTarget (depth : ℕ) (occurredAt : String)
    (event : ReceivedEvent) (path : Text)
    (hnames : Spells target.parts names) {s : FileWorld}
    (hfree : s.fs.LinkFree names) :
    Outcome s ((deleteTarget occurredAt event path target).exec
        (FileAct.perform depth) s).2 names none
      [if (contentAt s.fs names).isSome then
          deleteCompleted event path occurredAt
        else notFound event path "delete" occurredAt] := by
  have hencode : target.encode = .ok names := hnames
  rw [deleteTarget, Prog.exec_bind, exec_call, FileAct.perform,
    isFile_linkFree hnames hfree, Prog.resume_ok]
  cases hcontent : contentAt s.fs names with
  | none =>
      have hsame := Leaves.refl s.fs names
      rw [hcontent] at hsame
      exact ⟨hsame, rfl⟩
  | some content =>
      have hfile := contentAt_eq_some.mp hcontent
      obtain ⟨fs', hunlink, hsets⟩ := unlink_linkFree hfree hfile
      have hrun : (FileAct.call (.unlink target)).exec (FileAct.perform depth)
          s = (.ok (), s.touch [names] fs') := by
        rw [exec_call, FileAct.perform, FileWorld.onPath, hencode]
        simp only []
        rw [hunlink]
        rfl
      have hleaves := leaves_sets hsets (by simp) (by simp [hfile])
        (by simp [hfile])
      have hgone : contentAt fs' names = none := by
        rw [contentAt, hsets.at]
      rw [hgone] at hleaves
      rw [if_neg (by simp), exec_orNak_ok hrun]
      exact ⟨hleaves, rfl⟩

/-! ## The same path, later -/

variable {rootLoc : Location} {watchDir : PosixPath} {relative : Text}

def NoLinkBelow (fs : Fs FileName) (rootLoc : Location) : Prop :=
  ∀ loc t, rootLoc <+: loc → fs.node? loc ≠ some (.link t)

theorem linkFree_below (hdir : fs.node? rootLoc = some .dir)
    (hno : NoLinkBelow fs rootLoc) (hin : rootLoc <+: names) :
    fs.LinkFree names := by
  intro p hp t
  rcases List.prefix_or_prefix_of_prefix hp hin with h | h
  · exact Fs.linkFree_of_dir hdir p h t
  · exact hno p t h

/-- Where the links and the root are still the same, the path leads to the same
target. -/
theorem resolvedWithin_of_links
    (hroot : ∀ q, realpath fs depth watchDir.parts = .ok q →
      Spells q.parts rootLoc)
    (hlinks : SameLinks fs fs') (hdir : fs'.node? rootLoc = some .dir)
    (hno : NoLinkBelow fs' rootLoc)
    (h : resolvedWithin fs depth watchDir relative = .ok target) :
    resolvedWithin fs' depth watchDir relative = .ok target ∧
      LeadsInside fs' rootLoc target := by
  obtain ⟨hrel, rootResolved, hresolved, htarget, hpre⟩ :=
    resolvedWithin_eq_ok.mp h
  obtain ⟨hreal, -⟩ := resolve_eq_ok.mp hresolved
  obtain ⟨hreal', names, hnames, -⟩ := resolve_eq_ok.mp htarget
  have hspells := hroot _ hreal
  have hin := spells_prefix hspells hnames hpre.2
  have hfree := linkFree_below hdir hno hin
  have hresolved' : watchDir.resolve fs' depth = .ok rootResolved :=
    resolve_eq_ok.mpr ⟨realpath_links hlinks hreal, rootLoc, hspells,
      Fs.stat_ne_eloop (Fs.linkFree_of_dir hdir)⟩
  have htarget' := resolve_eq_ok.mpr ⟨realpath_links hlinks hreal', names,
    hnames, Fs.stat_ne_eloop hfree⟩
  exact ⟨resolvedWithin_eq_ok.mpr ⟨hrel, rootResolved, hresolved', htarget',
    hpre⟩, names, hnames, hin, hfree⟩

/-! ## One command -/

variable {self : FileAdapter} {c : FileCommand} {s : FileWorld}

/-- Whether one of these says that a write or delete completed. -/
def saysCompleted (published : List PublishArgs) : Bool :=
  published.any fun args =>
    args.eventType = "FileCreateCompleted" ∨
      args.eventType = "FileWriteCompleted" ∨
      args.eventType = "FileDeleteCompleted"

theorem publishes_eq {published : List PublishArgs}
    (h : (c.run self depth s).published = s.published ++ published) :
    c.publishes self depth s = published := by
  rw [FileCommand.publishes, h, List.drop_left]

theorem change?_eq {published : List PublishArgs}
    (h : (c.run self depth s).published = s.published ++ published)
    (hpath : c.path = .ok relative)
    (hloc : locationOf fs depth self.watchDir relative = some names) :
    c.change? self depth fs s =
      if saysCompleted published then some ⟨names, c.content⟩ else none := by
  rw [FileCommand.change?, publishes_eq h, hpath]
  show (if saysCompleted published then _ else _) = _
  rw [Except.toOption]
  simp only [bind, Option.bind, hloc]
  rfl

theorem change?_idle (h : (c.run self depth s).published = s.published) :
    c.change? self depth fs s = none := by
  rw [FileCommand.change?, publishes_eq (by rw [h, List.append_nil])]
  rfl

/-- The links and the root are those of the beginning. -/
structure Kept (fs : Fs FileName) (rootLoc : Location) (s : FileWorld) :
    Prop where
  links : SameLinks fs s.fs
  dir : s.fs.node? rootLoc = some .dir

theorem Kept.leaves (h : Kept fs rootLoc s) {s' : FileWorld} {loc : Location}
    {x : Option Bytes} (hleaves : Leaves s.fs s'.fs loc x) :
    Kept fs rootLoc s' where
  links l t := (hleaves.links l t).trans (h.links l t)
  dir := hleaves.dirs rootLoc h.dir

theorem Kept.noLink (h : Kept fs rootLoc s) (hno : NoLinkBelow fs rootLoc) :
    NoLinkBelow s.fs rootLoc :=
  fun l t hl ht => hno l t hl ((h.links l t).mp ht)

theorem locationOf_eq_some {loc : Location} :
    locationOf fs depth watchDir relative = some loc ↔
      ∃ target : PosixPath,
        resolvedWithin fs depth watchDir relative = .ok target ∧
          target.encode = .ok loc := by
  rw [locationOf]
  cases resolvedWithin fs depth watchDir relative with
  | error e => simp
  | ok target =>
      cases htarget : target.encode with
      | error e => simp [htarget, Except.toOption]
      | ok loc' => simp [htarget, Except.toOption]

/-- What a path is resolved to during the run it was resolved to at first. -/
theorem Kept.resolved (h : Kept fs rootLoc s) (hno : NoLinkBelow fs rootLoc)
    (hroot : ExistingDir fs watchDir rootLoc)
    (htarget : resolvedWithin s.fs depth watchDir relative = .ok target) :
    ∃ names, Spells target.parts names ∧ s.fs.LinkFree names ∧
      locationOf fs depth watchDir relative = some names := by
  have hspells : ∀ q, realpath s.fs depth watchDir.parts = .ok q →
      Spells q.parts rootLoc := fun q hq =>
    hroot.realpath (realpath_links h.links.symm hq)
  obtain ⟨htarget₀, -⟩ := resolvedWithin_of_links hspells h.links.symm hroot.dir
    hno htarget
  obtain ⟨-, names, hnames, -, hfree⟩ := resolvedWithin_of_links hspells
    (fun _ _ => Iff.rfl) h.dir (h.noLink hno) htarget
  exact ⟨names, hnames, hfree, locationOf_eq_some.mpr ⟨target, htarget₀, hnames⟩⟩

/-- One command: the change it completed is what it did to the contents. -/
theorem run_step (depth : ℕ) (c : FileCommand)
    (hroot : ExistingDir fs self.watchDir rootLoc)
    (hno : NoLinkBelow fs rootLoc) (hs : Kept fs rootLoc s) :
    ∃ loc x, Leaves s.fs (c.run self depth s).fs loc x ∧
      (c.change? self depth fs s = some ⟨loc, x⟩ ∨
        c.change? self depth fs s = none ∧ x = contentAt s.fs loc) := by
  have hidle : Idle s (c.run self depth s) →
      ∃ loc x, Leaves s.fs (c.run self depth s).fs loc x ∧
        (c.change? self depth fs s = some ⟨loc, x⟩ ∨
          c.change? self depth fs s = none ∧ x = contentAt s.fs loc) := by
    intro hidle
    refine ⟨[], _, ?_, .inr ⟨change?_idle hidle.published, rfl⟩⟩
    rw [hidle.fs]
    exact .refl s.fs []
  obtain ⟨kind, occurredAt, event⟩ := c
  cases kind with
  | write =>
      rcases exec_withTarget depth s self.watchDir "FileWriteRequested" event
        (decodeWriteRequested event.payload) WriteRequest.path
        (writeTarget self occurredAt event) with
        ⟨request, target, hrequest, htarget, hexec⟩ | ⟨-, h⟩
      · obtain ⟨names, hnames, hfree, hloc⟩ := hs.resolved hno hroot htarget
        have hpath : FileCommand.path ⟨.write, occurredAt, event⟩ =
            .ok request.path := by
          rw [FileCommand.path, hrequest]
          rfl
        have hcontent : FileCommand.content ⟨.write, occurredAt, event⟩ =
            some request.content := by
          rw [FileCommand.content, hrequest]
          rfl
        obtain ⟨s', hs', hout⟩ := exec_writeTarget depth occurredAt event self
          request hnames hfree
        have hrun : FileCommand.run self depth ⟨.write, occurredAt, event⟩ s =
            s' := by
          rw [← hs']
          exact congrArg Prod.snd hexec
        rcases hout with ⟨args, hargs, hout⟩ | hout
        · refine ⟨names, some request.content, by rw [hrun]; exact hout.leaves,
            .inl ?_⟩
          rw [change?_eq (by rw [hrun]; exact hout.published) hpath hloc,
            hcontent, if_pos]
          rcases hargs with hargs | hargs
          · simp [saysCompleted, hargs]
          · simp [saysCompleted, hargs]
        · refine ⟨names, _, by rw [hrun]; exact hout.leaves, .inr ⟨?_, rfl⟩⟩
          rw [change?_eq (by rw [hrun]; exact hout.published) hpath hloc]
          rfl
      · exact hidle h
  | read =>
      rcases exec_withTarget depth s self.watchDir "FileReadRequested" event
        (decodePathOnlyRequest false event.payload) id
        (readTarget occurredAt event) with
        ⟨path, target, hpath, htarget, hexec⟩ | ⟨-, h⟩
      · obtain ⟨names, hnames, hfree, hloc⟩ := hs.resolved hno hroot htarget
        have hout := exec_readTarget depth occurredAt event path hnames hfree
        have hrun : FileCommand.run self depth ⟨.read, occurredAt, event⟩ s =
            _ := congrArg Prod.snd hexec
        rw [← hrun] at hout
        refine ⟨names, _, hout.leaves, .inr ⟨?_, rfl⟩⟩
        rw [change?_eq hout.published hpath hloc]
        cases contentAt s.fs names with
        | none => rfl
        | some content => rfl
      · exact hidle h
  | delete =>
      rcases exec_withTarget depth s self.watchDir "FileDeleteRequested" event
        (decodePathOnlyRequest false event.payload) id
        (deleteTarget occurredAt event) with
        ⟨path, target, hpath, htarget, hexec⟩ | ⟨-, h⟩
      · obtain ⟨names, hnames, hfree, hloc⟩ := hs.resolved hno hroot htarget
        have hout := exec_deleteTarget depth occurredAt event path hnames hfree
        have hrun : FileCommand.run self depth ⟨.delete, occurredAt, event⟩ s =
            _ := congrArg Prod.snd hexec
        rw [← hrun] at hout
        refine ⟨names, _, hout.leaves, ?_⟩
        rw [change?_eq hout.published hpath hloc]
        cases contentAt s.fs names with
        | none => exact .inr ⟨rfl, rfl⟩
        | some content => exact .inl rfl
      · exact hidle h

/-! ## Every sequence of commands -/

theorem latest_snoc (fs : Fs FileName) (log : List FileChange)
    (change : FileChange) (loc : Location) :
    latest fs (log ++ [change]) loc =
      if loc = change.loc then change.content else latest fs log loc := by
  rw [latest, latest, lastOn_append, lastOn, lastOn, Option.none_or]
  by_cases h : change.loc = loc
  · rw [if_pos h, if_pos h.symm]
    rfl
  · rw [if_neg h, if_neg (Ne.symm h), Option.none_or]

theorem runAll_contents (depth : ℕ) (hroot : ExistingDir fs self.watchDir rootLoc)
    (hno : NoLinkBelow fs rootLoc) (cs : List FileCommand) :
    ∀ (s : FileWorld) (log : List FileChange), Kept fs rootLoc s →
      (∀ loc, contentAt s.fs loc = latest fs log loc) →
      Kept fs rootLoc (runAll self depth cs s) ∧
        ∀ loc, contentAt (runAll self depth cs s).fs loc =
          latest fs (log ++ changes self depth fs cs s) loc := by
  induction cs with
  | nil =>
      intro s log hs hlog
      refine ⟨hs, fun loc => ?_⟩
      rw [changes, List.append_nil]
      exact hlog loc
  | cons c rest ih =>
      intro s log hs hlog
      obtain ⟨loc, x, hleaves, hchange⟩ := run_step depth c hroot hno hs
      have hnext := ih (c.run self depth s)
        (log ++ (c.change? self depth fs s).toList) (hs.leaves hleaves) ?_
      · rw [List.append_assoc] at hnext
        exact hnext
      · intro l
        rw [hleaves.contents l]
        rcases hchange with hchange | ⟨hchange, rfl⟩
        · rw [hchange]
          show _ = latest fs (log ++ [⟨loc, x⟩]) l
          rw [latest_snoc, hlog l]
        · rw [hchange]
          show _ = latest fs (log ++ []) l
          rw [List.append_nil, ← hlog l]
          split
          · next heq => rw [heq]
          · rfl

theorem change?_loc {change : FileChange}
    (h : c.change? self depth fs s = some change) :
    ∃ relative, c.path = .ok relative ∧
      locationOf fs depth self.watchDir relative = some change.loc := by
  rw [FileCommand.change?] at h
  split at h
  · rw [Option.bind_eq_bind, Option.bind_eq_some_iff] at h
    obtain ⟨relative, hpath, h⟩ := h
    rw [Option.bind_eq_bind, Option.bind_eq_some_iff] at h
    obtain ⟨loc, hloc, h⟩ := h
    cases h
    refine ⟨relative, ?_, hloc⟩
    cases hc : c.path with
    | error e =>
        rw [hc] at hpath
        cases hpath
    | ok path =>
        rw [hc] at hpath
        cases hpath
        rfl
  · cases h

/-! ## What a read answers -/

variable {occurredAt : String} {loc : Location}

def readAnswer (event : ReceivedEvent) (path : Text) (occurredAt : String)
    (content : Option Bytes) : PublishArgs :=
  content.elim (notFound event path "read" occurredAt)
    fun content => readCompleted event path content occurredAt

theorem answers_readAnswer (event : ReceivedEvent) (path : Text)
    (occurredAt : String) (content : Option Bytes) :
    Answers event path content [readAnswer event path occurredAt content] := by
  cases content with
  | none =>
      refine ⟨_, _, rfl, rfl, rfl, by rw [getItem_object]; rfl,
        fun c => ⟨fun h => ?_, nofun⟩, fun _ => ⟨rfl, ?_⟩⟩
      · have hne : "FileOperationFailed" = "FileReadCompleted" := h.1
        exact absurd hne (by decide)
      · rw [getItem_object]
        rfl
  | some content =>
      have hdecode : (do b64decodeValidated (← getItem (Json.object [
          ("path", .str path),
          ("content", Json.string (Base64.encode content)),
          ("sizeBytes", .int content.length),
          ("occurredAt", Json.string occurredAt)]) "content")) =
            .ok content := by
        rw [getItem_object]
        exact b64decodeValidated_encode content
      refine ⟨_, _, rfl, rfl, rfl, by rw [getItem_object]; rfl,
        fun c => ⟨fun h => ?_, fun h => ?_⟩, nofun⟩
      · exact congrArg some (Except.ok.inj (hdecode.symm.trans h.2.1))
      · cases h
        exact ⟨rfl, hdecode, by rw [getItem_object]; rfl⟩

theorem publishes_read (hroot : ExistingDir fs self.watchDir rootLoc)
    (hno : NoLinkBelow fs rootLoc)
    (hpath : decodePathOnlyRequest false event.payload = .ok relative)
    (hloc : locationOf fs depth self.watchDir relative = some loc)
    (hs : Kept fs rootLoc s) :
    FileCommand.publishes self depth ⟨.read, occurredAt, event⟩ s =
      [readAnswer event relative occurredAt (contentAt s.fs loc)] := by
  obtain ⟨target, htarget, hencode⟩ := locationOf_eq_some.mp hloc
  obtain ⟨htarget', names, hnames, -, hfree⟩ := resolvedWithin_of_links
    (fun q => hroot.realpath) hs.links hs.dir (hs.noLink hno) htarget
  rw [hencode] at hnames
  cases hnames
  rcases exec_withTarget depth s self.watchDir "FileReadRequested" event
    (decodePathOnlyRequest false event.payload) id
    (readTarget occurredAt event) with
    ⟨path, target', hpath', htarget'', hexec⟩ | ⟨hidle, -⟩
  · rw [hpath] at hpath'
    cases hpath'
    rw [id, htarget'] at htarget''
    cases htarget''
    have hout := exec_readTarget depth occurredAt event relative hencode hfree
    have hrun : FileCommand.run self depth ⟨.read, occurredAt, event⟩ s = _ :=
      congrArg Prod.snd hexec
    rw [← hrun] at hout
    exact publishes_eq hout.published
  · exact absurd htarget' (hidle relative target hpath)

/-- After any commands a read answers with what the last completed write or
delete of the same file left, or with what was there at first, and commands on
other files do not change what it answers. -/
theorem read_your_writes (depth : ℕ) (occurredAt : String)
    (hroot : ExistingDir fs self.watchDir rootLoc)
    (hno : NoLinkBelow fs rootLoc)
    (hpath : decodePathOnlyRequest false event.payload = .ok relative)
    (hloc : locationOf fs depth self.watchDir relative = some loc)
    (cs : List FileCommand) :
    Answers event relative
      (latest fs (changes self depth fs cs { fs := fs }) loc)
      (FileCommand.publishes self depth ⟨.read, occurredAt, event⟩
        (runAll self depth cs { fs := fs })) ∧
    ∀ c : FileCommand,
      (∀ r, c.path = .ok r → locationOf fs depth self.watchDir r ≠ some loc) →
      FileCommand.publishes self depth ⟨.read, occurredAt, event⟩
          (runAll self depth (cs ++ [c]) { fs := fs }) =
        FileCommand.publishes self depth ⟨.read, occurredAt, event⟩
          (runAll self depth cs { fs := fs }) := by
  have hstart : Kept fs rootLoc { fs := fs } :=
    ⟨fun _ _ => Iff.rfl, hroot.dir⟩
  obtain ⟨hs, hcontents⟩ := runAll_contents depth hroot hno cs _ [] hstart
    fun _ => rfl
  constructor
  · rw [publishes_read hroot hno hpath hloc hs, hcontents loc, List.nil_append]
    exact answers_readAnswer event relative occurredAt _
  · intro c hc
    rw [runAll, List.foldl_append, List.foldl_cons, List.foldl_nil, ← runAll]
    obtain ⟨loc', x, hleaves, hchange⟩ := run_step depth c hroot hno hs
    rw [publishes_read hroot hno hpath hloc (hs.leaves hleaves),
      publishes_read hroot hno hpath hloc hs, hleaves.contents loc]
    rcases hchange with hchange | ⟨-, rfl⟩
    · obtain ⟨r, hr, hloc'⟩ := change?_loc hchange
      rw [if_neg]
      rintro rfl
      exact hc r hr hloc'
    · split
      · next heq => rw [heq]
      · rfl

namespace Sample

/-- `/w` with the file `x`. -/
def fileFs : Fs FileName := watchFs (.file [1, 2, 3])

theorem noLinkBelow_fileFs : NoLinkBelow fileFs [rootName] := by
  intro loc t _
  rw [fileFs, watchFs, Fs.node?_put, emptyFs, Fs.node?_put, Fs.node?_bare]
  split
  · exact nofun
  · split
    · exact nofun
    · split
      · exact nofun
      · exact nofun

def writeCommand (path : String) (content : Bytes) : FileCommand where
  kind := .write
  occurredAt := "2026-01-01T00:00:00Z"
  event := fileMessage "FileWriteRequested" (writeRequest path content)

def deleteCommand (path : String) : FileCommand where
  kind := .delete
  occurredAt := "2026-01-01T00:00:00Z"
  event := fileMessage "FileDeleteRequested" (pathRequest path)

def readMessage : ReceivedEvent :=
  fileMessage "FileReadRequested" (pathRequest "n/../x")

end Sample

open Sample in
/-- A delete and a write of `x`, under other spellings, then a read. -/
theorem read_other_spelling : Answers readMessage (Text.ofString "n/../x")
    (some [7, 8])
    (FileCommand.publishes fileAdapter 1000
      ⟨.read, "2026-01-01T00:00:00Z", readMessage⟩
      (runAll fileAdapter 1000
        [deleteCommand "./x", writeCommand "n/./../x" [7, 8],
          writeCommand "x/y" [9]] { fs := fileFs })) := by
  have hloc : locationOf fileFs 1000 fileAdapter.watchDir
      (Text.ofString "n/../x") = some [rootName, aliasName] := by
    decide +kernel
  have hpath : decodePathOnlyRequest false readMessage.payload =
      .ok (Text.ofString "n/../x") :=
    decodePathOnlyRequest_pathRequest (by decide) false
  have hlatest : latest fileFs (changes fileAdapter 1000 fileFs
      [deleteCommand "./x", writeCommand "n/./../x" [7, 8],
        writeCommand "x/y" [9]] { fs := fileFs }) [rootName, aliasName] =
      some [7, 8] := by
    decide +kernel
  have h := (read_your_writes 1000 "2026-01-01T00:00:00Z"
    ⟨by decide +kernel, by decide +kernel⟩ noLinkBelow_fileFs hpath hloc
    [deleteCommand "./x", writeCommand "n/./../x" [7, 8],
      writeCommand "x/y" [9]]).1
  rw [hlatest] at h
  exact h

end JetCore
