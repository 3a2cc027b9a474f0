import JetCore.Proofs.Confined
import Mathlib.Data.List.Lex
import Mathlib.Order.Fin.Basic

/-!
# What a listing tells of what is outside `watch_dir`

The directory itself is resolved and checked, so what is listed is what its
node holds, in an order that depends on the names alone. Each child is then
looked up by itself, links followed. Where that stays inside, two filesystems
that differ outside only give the same answer; where it does not, a filesystem
with nothing outside loses the child, and one child lost is the whole listing
(`listing_noninterference`). `listing_leaks` is a directory with one link.
-/

namespace JetCore

open Lib

variable {fs fs' : Fs FileName} {depth : ℕ}

/-! ## Resolving a path through no link -/

theorem normFrom_append (rest rest' : List Text) : ∀ done : List Text,
    normFrom done (rest ++ rest') = normFrom (normFrom done rest) rest' := by
  induction rest with
  | nil => exact fun _ => rfl
  | cons t rest ih =>
      intro done
      rw [List.cons_append, normFrom, normFrom]
      split
      · exact ih _
      · split
        · exact ih _
        · exact ih _

/-- What is left of `_joinrealpath` where there are no links: each name is
encoded. -/
def joinPlain : List Text → List Text → Except Exn (List Text)
  | path, [] => .ok path
  | path, name :: rest =>
      if name = [] ∨ name = dotText then joinPlain path rest
      else if name = dotdotText then joinPlain path.dropLast rest
      else do
        let _ ← encodeName name
        joinPlain (path ++ [name]) rest

theorem joinLoop_plain
    {follow : List Text → LinkTarget FileName → Seen → Except Exn Joined}
    {parts : List Text} (hplain : ThroughNoLink fs parts) (seen : Seen) :
    ∀ (rest front : List Text), front ++ rest = parts →
      Clean fs (normpath front).parts →
      joinLoop fs follow (normpath front).parts rest seen =
        (joinPlain (normpath front).parts rest).map fun path =>
          ⟨path, true, seen⟩ := by
  intro rest
  induction rest with
  | nil => exact fun _ _ _ => rfl
  | cons name rest ih =>
      intro front hfront hclean
      have hnext : front ++ [name] ++ rest = parts := by
        rw [← hfront, List.append_assoc]
        rfl
      have hnorm : (normpath (front ++ [name])).parts =
          normFrom (normpath front).parts [name] :=
        normFrom_append front [name] []
      have ih' := ih (front ++ [name]) hnext
      rw [hnorm, normFrom] at ih'
      rw [joinLoop, joinPlain]
      by_cases hskip : name = [] ∨ name = dotText
      · rw [if_pos hskip] at ih' ⊢
        rw [if_pos hskip]
        exact ih' hclean
      rw [if_neg hskip] at ih' ⊢
      rw [if_neg hskip]
      by_cases hup : name = dotdotText
      · rw [if_pos hup] at ih' ⊢
        rw [if_pos hup]
        exact ih' hclean.dropLast
      rw [if_neg hup] at ih' ⊢
      rw [if_neg hup]
      obtain ⟨d, hspells, hfree⟩ := hclean
      simp only [readLink_clean hspells hfree]
      cases hn : encodeName name with
      | error e => rfl
      | ok n =>
          have hspells' : Spells ((normpath front).parts ++ [name])
              (d ++ [n]) := spells_concat.mpr ⟨d, n, hspells, hn, rfl⟩
          have hnolink : ∀ t, fs.node? (d ++ [n]) ≠ some (.link t) := by
            refine hplain (front ++ [name]) ⟨rest, hnext⟩ _ ?_
            rw [PosixPath.encode, hnorm, normFrom, if_neg hskip, if_neg hup]
            exact hspells'
          simp only [Except.map, bind, Except.bind,
            linkAt_eq_none.mpr hnolink]
          exact ih' ⟨_, hspells', Fs.linkFree_concat.mpr ⟨hfree, hnolink⟩⟩

theorem joinrealpath_plain {parts : List Text}
    (hplain : ThroughNoLink fs parts) (depth : ℕ) :
    joinrealpath fs (depth + 1) [] parts Dict.empty =
      (joinPlain [] parts).map fun path => ⟨path, true, Dict.empty⟩ :=
  joinLoop_plain hplain _ parts [] rfl (clean_nil fs)

/-- A path through no link in either of two filesystems is resolved alike, and
what it is resolved to has none on it. -/
theorem resolve_plain {p q : PosixPath} (hplain : ThroughNoLink fs p.parts)
    (hplain' : ThroughNoLink fs' p.parts)
    (h : p.resolve fs depth = .ok q) :
    p.resolve fs' depth = .ok q ∧ Clean fs' q.parts := by
  obtain ⟨hreal, -⟩ := resolve_eq_ok.mp h
  obtain ⟨joined, hjoined, hnorm⟩ := bind_eq_ok.mp hreal
  cases depth with
  | zero => cases hjoined
  | succ depth =>
      rw [joinrealpath_plain hplain] at hjoined
      have hjoined' : joinrealpath fs' (depth + 1) [] p.parts Dict.empty =
          .ok joined := by rw [joinrealpath_plain hplain', hjoined]
      have hok : joined.ok = true := by
        cases hpath : joinPlain [] p.parts with
        | error e =>
            rw [hpath] at hjoined
            cases hjoined
        | ok path =>
            rw [hpath] at hjoined
            cases hjoined
            rfl
      have hclean := (joinrealpath_clean (depth + 1) [] _ _ joined
        (clean_nil fs') (seenClean_empty fs') hjoined').2 hok
      have hq : normpath joined.path = q := Except.ok.inj hnorm
      obtain ⟨names, hnames, hfree⟩ := hclean
      have hreal' : realpath fs' (depth + 1) p.parts = .ok q :=
        bind_eq_ok.mpr ⟨joined, hjoined', hnorm⟩
      rw [normpath_spells hnames] at hq
      subst hq
      exact ⟨resolve_eq_ok.mpr ⟨hreal', names, hnames,
        Fs.stat_ne_eloop hfree⟩, names, hnames, hfree⟩

theorem throughNoLink_spells {parts : List Text} {names : Location}
    (hspells : Spells parts names) (hfree : fs.LinkFree names) :
    ThroughNoLink fs parts := by
  intro front hfront names' hnames'
  obtain ⟨rest, rfl⟩ := hfront
  obtain ⟨before, after, hbefore, -, rfl⟩ := spells_append.mp hspells
  rw [normpath_spells hbefore] at hnames'
  cases hnames'.symm.trans hbefore
  exact hfree _ (List.prefix_append _ after)

variable {watchDir rootResolved target : PosixPath} {relative : Text}
  {rootLoc names : Location}

theorem Views.resolves
    (h : Views fs depth watchDir relative rootResolved rootLoc)
    (h' : Views fs' depth watchDir relative rootResolved rootLoc)
    (htarget : resolvedWithin fs depth watchDir relative = .ok target) :
    resolvedWithin fs' depth watchDir relative = .ok target ∧
      LeadsInside fs' rootLoc target := by
  obtain ⟨hrel, root, hroot, hcandidate, hpre⟩ :=
    resolvedWithin_eq_ok.mp htarget
  rw [h.root] at hroot
  cases hroot
  obtain ⟨hcandidate', names, hnames, hfree⟩ :=
    resolve_plain h.plain h'.plain hcandidate
  exact ⟨resolvedWithin_eq_ok.mpr ⟨hrel, _, h'.root, hcandidate', hpre⟩,
    names, hnames, spells_prefix h.encode hnames hpre.2, hfree⟩

/-! ## The entries -/

/-- The entry of a child by what `stat` says of it. -/
def FileEntry.ofStat (name : Text) :
    Except Errno (Node FileName) → Except Exn FileEntry
  | .ok .dir => .ok ⟨name, true, 0⟩
  | .ok node => .ok ⟨name, false, Node.size node⟩
  | .error e => .error (.osError e)

theorem exec_listEntry_dir {child : PosixPath} {s : FileWorld}
    (hdir : child.isDir s.fs = .ok true) :
    (listEntry child).exec (FileAct.perform depth) s =
      (.ok ⟨child.name, true, 0⟩, s) := by
  rw [listEntry, Prog.exec_bind, exec_call, FileAct.perform, hdir,
    Prog.resume_ok, entrySize, Prog.exec_bind, Prog.exec_bind, exec_call,
    FileAct.perform, hdir]
  rfl

theorem exec_listEntry_size {child : PosixPath} {s : FileWorld}
    (hdir : child.isDir s.fs = .ok false) {size : Except Exn ℕ}
    (hsize : FileAct.perform depth (.size child) s = (size, s)) :
    (listEntry child).exec (FileAct.perform depth) s =
      (size.map fun sizeBytes => ⟨child.name, false, sizeBytes⟩, s) := by
  have hrest : (entrySize child).exec (FileAct.perform depth) s = (size, s) := by
    rw [entrySize, Prog.exec_bind, exec_call, FileAct.perform, hdir,
      Prog.resume_ok, if_neg Bool.false_ne_true, exec_call, hsize]
  rw [listEntry, Prog.exec_bind, exec_call, FileAct.perform, hdir,
    Prog.resume_ok, Prog.exec_bind, hrest]
  cases size with
  | error e => rfl
  | ok sizeBytes => rfl

theorem exec_listEntry {child : PosixPath} {path : Location}
    (hpath : child.encode = .ok path) (s : FileWorld) :
    (listEntry child).exec (FileAct.perform depth) s =
      (FileEntry.ofStat child.name (s.fs.stat path), s) := by
  have hsize : FileAct.perform depth (.size child) s =
      s.look (s.fs.stat path) Node.size := by
    rw [FileAct.perform, FileWorld.onPath, hpath]
  cases hstat : s.fs.stat path with
  | error e =>
      rw [hstat] at hsize
      have hdir : child.isDir s.fs = _ := test_error hpath hstat _
      by_cases he : PosixPath.ignoresError e = true
      · rw [if_pos he] at hdir
        rw [exec_listEntry_size hdir hsize]
        rfl
      · rw [if_neg he] at hdir
        rw [listEntry, Prog.exec_bind, exec_call, FileAct.perform, hdir]
        rfl
  | ok node =>
      rw [hstat] at hsize
      have hdir : child.isDir s.fs = _ := test_ok hpath hstat _
      cases node with
      | dir => exact exec_listEntry_dir hdir
      | file content => exact exec_listEntry_size hdir hsize
      | link t => exact exec_listEntry_size hdir hsize

theorem child_encode (hnames : Spells target.parts names) (n : FileName) :
    (target.child n).encode = .ok (names ++ [n]) :=
  spells_concat.mpr ⟨names, n, hnames, encodeName_text n, rfl⟩

theorem sortedPaths_pairwise (paths : List PosixPath) :
    (sortedPaths paths).Pairwise fun p q => p.parts ≤ q.parts := by
  have htotal : Std.Total fun p q : PosixPath => ¬ q.parts < p.parts :=
    ⟨fun p q => (le_total p.parts q.parts).imp not_lt.mpr not_lt.mpr⟩
  have htrans : IsTrans PosixPath fun p q => ¬ q.parts < p.parts :=
    ⟨fun p q r hpq hqr =>
      not_lt.mpr ((not_lt.mp hpq).trans (not_lt.mp hqr))⟩
  exact (List.pairwise_insertionSort _ _).imp not_lt.mp

theorem mem_sortedPaths {children : List FileName} {child : PosixPath} :
    child ∈ sortedPaths (children.map target.child) ↔
      ∃ n ∈ children, target.child n = child := by
  rw [sortedPaths, List.mem_insertionSort, List.mem_map]

/-- `sorted` does not depend on the order in which the children come. -/
theorem sortedPaths_perm {children children' : List FileName}
    (h : children.Perm children') :
    sortedPaths (children.map target.child) =
      sortedPaths (children'.map target.child) := by
  refine List.Perm.eq_of_pairwise (fun p q hp hq hle hge => ?_)
    (sortedPaths_pairwise _) (sortedPaths_pairwise _) ?_
  · obtain ⟨n, -, rfl⟩ := mem_sortedPaths.mp hp
    obtain ⟨n', -, rfl⟩ := mem_sortedPaths.mp hq
    exact congrArg (PosixPath.mk target.root) (le_antisymm hle hge)
  · exact ((List.perm_insertionSort _ _).trans (h.map target.child)).trans
      (List.perm_insertionSort _ _).symm

/-- The children of the directory a path leads to, each once. -/
theorem readdir_dirAt {loc : Location} (hdir : fs.dirAt names = .ok loc) :
    ∃ children, fs.readdir names = .ok children ∧ children.Nodup ∧
      ∀ n, n ∈ children ↔ Child fs loc n := by
  have hmem : ∀ n l, (if l.dropLast = loc then l.getLast? else none) =
      some n ↔ l = loc ++ [n] := by
    intro n l
    split
    · next hd =>
        rw [List.getLast?_eq_some_iff]
        constructor
        · intro h
          obtain ⟨d, rfl⟩ := h
          rw [List.dropLast_concat] at hd
          rw [hd]
        · exact fun h => ⟨loc, h⟩
    · next hd =>
        refine ⟨nofun, fun h => absurd ?_ hd⟩
        rw [h, List.dropLast_concat]
  refine ⟨_, by rw [Fs.readdir, hdir]; rfl, ?_, fun n => ?_⟩
  · refine List.Nodup.filterMap (fun l l' n hl hl' => ?_) fs.nodes.nodup
    rw [Option.mem_def, hmem] at hl hl'
    rw [hl, hl']
  · rw [List.mem_filterMap]
    constructor
    · intro h
      obtain ⟨l, hl, h⟩ := h
      rw [hmem] at h
      subst h
      exact fun hnone => Dict.get?_eq_none.mp hnone hl
    · intro h
      refine ⟨loc ++ [n], ?_, (hmem n _).mpr rfl⟩
      by_contra hloc
      exact h (Dict.get?_eq_none.mpr hloc)

theorem readdir_dir (hdir : fs.node? names = some .dir) :
    ∃ children, fs.readdir names = .ok children ∧ children.Nodup ∧
      ∀ n, n ∈ children ↔ Child fs names n :=
  readdir_dirAt (Fs.dirAt_of_dir hdir)

/-- The entry of a path that is a child. -/
def entryOf (fs : Fs FileName) (child : PosixPath) : Except Exn FileEntry := do
  let path ← child.encode
  FileEntry.ofStat child.name (fs.stat path)

/-- What a directory lists is what its children, in order, are found to be. -/
theorem exec_listEntries (hnames : Spells target.parts names) {s : FileWorld}
    {children : List FileName} (hread : s.fs.readdir names = .ok children) :
    (listEntries target).exec (FileAct.perform depth) s =
      ((sortedPaths (children.map target.child)).mapM (entryOf s.fs), s) := by
  have hencode : target.encode = .ok names := hnames
  have hiter : FileAct.perform depth (.iterdir target) s =
      (.ok (children.map target.child), s) := by
    rw [FileAct.perform, FileWorld.onPath, hencode]
    simp only []
    rw [hread]
    rfl
  rw [listEntries, Prog.exec_bind, exec_call, hiter, Prog.resume_ok]
  refine Prog.exec_each fun child hchild => ?_
  rw [sortedPaths, List.mem_insertionSort, List.mem_map] at hchild
  obtain ⟨n, -, rfl⟩ := hchild
  rw [exec_listEntry (child_encode hnames n), entryOf, child_encode hnames n]
  rfl

/-! ## What is published -/

variable {occurredAt : String} {event : ReceivedEvent}

def listFailed (event : ReceivedEvent) (path : Text) (reason : String)
    (occurredAt : String) : PublishArgs where
  subject := "events.files.FileOperationFailed"
  payload := encodeOperationFailed path "list" reason occurredAt
  eventType := "FileOperationFailed"
  correlationId := some event.details.eventId

def listCompleted (event : ReceivedEvent) (path : Text)
    (entries : List FileEntry) (occurredAt : String) : PublishArgs where
  subject := "events.files.FileListCompleted"
  payload := encodeListCompleted path entries occurredAt
  eventType := "FileListCompleted"
  correlationId := some event.details.eventId

/-- What is published about a target, by the node there and what its children
are found to be. -/
def listAnswer (event : ReceivedEvent) (path : Text) (occurredAt : String) :
    Option (Node FileName) → Except Exn (List FileEntry) → List PublishArgs
  | none, _ => [listFailed event path "not_found" occurredAt]
  | some .dir, .ok entries => [listCompleted event path entries occurredAt]
  | some .dir, .error _ => []
  | some _, _ => [listFailed event path "not_a_directory" occurredAt]

theorem published_listTarget (hnames : Spells target.parts names)
    {s : FileWorld} (hfree : s.fs.LinkFree names) (path : Text)
    {entries : Except Exn (List FileEntry)}
    (hentries : s.fs.node? names = some .dir →
      (listEntries target).exec (FileAct.perform depth) s = (entries, s)) :
    ((listTarget occurredAt event path target).exec (FileAct.perform depth)
      s).2.published = s.published ++
        listAnswer event path occurredAt (s.fs.node? names) entries := by
  have hencode : target.encode = .ok names := hnames
  rw [listTarget, Prog.exec_bind, exec_call, FileAct.perform,
    PosixPath.exists?, test_linkFree hencode hfree, Prog.resume_ok]
  cases hnode : s.fs.node? names with
  | none => rfl
  | some node =>
      rw [Option.elim_some, if_neg (by simp), Prog.exec_bind, exec_call,
        FileAct.perform, PosixPath.isDir, test_linkFree hencode hfree,
        Prog.resume_ok, hnode]
      cases node with
      | file content => rfl
      | link t => rfl
      | dir =>
          rw [Option.elim_some, if_neg (by simp), orNak, Prog.exec_bind,
            Prog.exec_attempt, hentries hnode, Prog.resume_ok]
          cases entries with
          | ok entries => rfl
          | error e =>
              simp only [listAnswer, List.append_nil]
              split
              · rfl
              · rfl

/-- The handler has nothing to do but its target. -/
theorem exec_handleList {self : FileAdapter}
    (hpath : decodePathOnlyRequest true event.payload = .ok relative)
    (htarget : resolvedWithin fs depth self.watchDir relative = .ok target) :
    (handleList self occurredAt event).exec (FileAct.perform depth)
        { fs := fs } =
      (listTarget occurredAt event relative target).exec
        (FileAct.perform depth) { fs := fs } := by
  rw [handleList]
  rcases exec_withTarget depth { fs := fs } self.watchDir "FileListRequested"
    event (decodePathOnlyRequest true event.payload) id
    (listTarget occurredAt event) with
    ⟨path, target', hpath', htarget', hexec⟩ | ⟨hno, -⟩
  · rw [hexec]
    rw [hpath] at hpath'
    cases hpath'
    replace htarget' : resolvedWithin fs depth self.watchDir relative =
      .ok target' := htarget'
    rw [htarget] at htarget'
    cases htarget'
    rfl
  · exact absurd htarget (hno relative target hpath)

theorem listPublishes_eq {self : FileAdapter}
    (hpath : decodePathOnlyRequest true event.payload = .ok relative)
    (htarget : resolvedWithin fs depth self.watchDir relative = .ok target) :
    listPublishes self depth occurredAt event fs =
      ((listTarget occurredAt event relative target).exec
        (FileAct.perform depth) { fs := fs }).2.published := by
  rw [listPublishes, exec_handleList hpath htarget]

section

variable {α β : Type} {g g' : α → Except Exn β} {l : List α}

theorem mapM_congr (h : ∀ a ∈ l, g a = g' a) : l.mapM g = l.mapM g' := by
  induction l with
  | nil => rfl
  | cons a rest ih =>
      rw [List.mapM_cons, List.mapM_cons, h a List.mem_cons_self,
        ih fun b hb => h b (List.mem_cons_of_mem a hb)]

theorem mapM_error {a : α} (ha : a ∈ l) {e : Exn} (he : g a = .error e) :
    ∃ e, l.mapM g = .error e := by
  cases h : l.mapM g with
  | error e => exact ⟨e, rfl⟩
  | ok bs =>
      exfalso
      induction l generalizing bs with
      | nil => cases ha
      | cons b rest ih =>
          rw [List.mapM_cons] at h
          obtain ⟨c, hc, h⟩ := bind_eq_ok.mp h
          obtain ⟨cs, hcs, -⟩ := bind_eq_ok.mp h
          rcases List.mem_cons.mp ha with rfl | ha
          · rw [he] at hc
            cases hc
          · exact ih ha cs hcs

theorem mapM_ok (h : ∀ a ∈ l, ∃ b, g a = .ok b) : ∃ bs, l.mapM g = .ok bs := by
  induction l with
  | nil => exact ⟨[], rfl⟩
  | cons a rest ih =>
      obtain ⟨b, hb⟩ := h a List.mem_cons_self
      obtain ⟨bs, hbs⟩ := ih fun c hc => h c (List.mem_cons_of_mem a hc)
      exact ⟨b :: bs, by rw [List.mapM_cons, hb, hbs]; rfl⟩

end

/-- The entries of the directory at `names`, as they are found. -/
def entriesOf (fs : Fs FileName) (target : PosixPath) (names : Location) :
    Except Exn (List FileEntry) := do
  let children ← (fs.readdir names).mapError .osError
  (sortedPaths (children.map target.child)).mapM (entryOf fs)

theorem exec_entriesOf (hnames : Spells target.parts names) {s : FileWorld}
    (hdir : s.fs.node? names = some .dir) :
    (listEntries target).exec (FileAct.perform depth) s =
      (entriesOf s.fs target names, s) := by
  obtain ⟨children, hread, -, -⟩ := readdir_dir hdir
  rw [exec_listEntries hnames hread, entriesOf, hread]
  rfl

theorem entryOf_child (hnames : Spells target.parts names) (n : FileName) :
    entryOf fs (target.child n) =
      FileEntry.ofStat (target.child n).name (fs.stat (names ++ [n])) := by
  rw [entryOf, child_encode hnames n]
  rfl

/-- Two directories with the same children that are found alike. -/
theorem entriesOf_eq (hnames : Spells target.parts names)
    (hdir : fs.node? names = some .dir) (hdir' : fs'.node? names = some .dir)
    (hchild : ∀ n, Child fs' names n ↔ Child fs names n)
    (hstat : ∀ n, Child fs names n →
      fs'.stat (names ++ [n]) = fs.stat (names ++ [n])) :
    entriesOf fs' target names = entriesOf fs target names := by
  obtain ⟨children, hread, hnodup, hmem⟩ := readdir_dir hdir
  obtain ⟨children', hread', hnodup', hmem'⟩ := readdir_dir hdir'
  have hperm : children'.Perm children := by
    rw [List.perm_ext_iff_of_nodup hnodup' hnodup]
    intro n
    rw [hmem, hmem', hchild]
  rw [entriesOf, entriesOf, hread, hread']
  show List.mapM _ _ = List.mapM _ _
  rw [sortedPaths_perm hperm]
  refine mapM_congr fun child h => ?_
  obtain ⟨n, hn, rfl⟩ := mem_sortedPaths.mp h
  rw [entryOf_child hnames, entryOf_child hnames, hstat n ((hmem n).mp hn)]

theorem entriesOf_error (hnames : Spells target.parts names)
    {loc : Location} (hdir : fs.dirAt names = .ok loc) {n : FileName}
    (hn : Child fs loc n) {e : Errno}
    (he : fs.stat (names ++ [n]) = .error e) :
    ∃ e, entriesOf fs target names = .error e := by
  obtain ⟨children, hread, -, hmem⟩ := readdir_dirAt hdir
  rw [entriesOf, hread]
  refine mapM_error (mem_sortedPaths.mpr ⟨n, (hmem n).mpr hn, rfl⟩)
    (e := .osError e) ?_
  rw [entryOf_child hnames, he]
  rfl

theorem entriesOf_ok (hnames : Spells target.parts names)
    {loc : Location} (hdir : fs.dirAt names = .ok loc)
    (hok : ∀ n, Child fs loc n → ∃ node, fs.stat (names ++ [n]) = .ok node) :
    ∃ entries, entriesOf fs target names = .ok entries := by
  obtain ⟨children, hread, -, hmem⟩ := readdir_dirAt hdir
  rw [entriesOf, hread]
  refine mapM_ok fun child h => ?_
  obtain ⟨n, hn, rfl⟩ := mem_sortedPaths.mp h
  obtain ⟨node, hnode⟩ := hok n ((hmem n).mp hn)
  rw [entryOf_child hnames, hnode]
  cases node with
  | dir => exact ⟨_, rfl⟩
  | file content => exact ⟨_, rfl⟩
  | link t => exact ⟨_, rfl⟩

theorem listPublishes_answer {self : FileAdapter}
    (hpath : decodePathOnlyRequest true event.payload = .ok relative)
    (htarget : resolvedWithin fs depth self.watchDir relative = .ok target)
    (hnames : Spells target.parts names) (hfree : fs.LinkFree names) :
    listPublishes self depth occurredAt event fs =
      listAnswer event relative occurredAt (fs.node? names)
        (entriesOf fs target names) := by
  rw [listPublishes_eq hpath htarget, published_listTarget hnames hfree relative
    (exec_entriesOf hnames), List.nil_append]

/-! ## Noninterference -/

theorem listAnswer_not_dir {path : Text} {node : Option (Node FileName)}
    (hnode : node ≠ some .dir) (r r' : Except Exn (List FileEntry)) :
    listAnswer event path occurredAt node r =
      listAnswer event path occurredAt node r' := by
  cases node with
  | none => rfl
  | some node =>
      cases node with
      | dir => exact absurd rfl hnode
      | file content => rfl
      | link t => rfl

/-- With nothing outside, the same path leads to the same directory. -/
theorem Views.restrict
    (h : Views fs depth watchDir relative rootResolved rootLoc)
    (hcanonical : watchDir.encode = .ok rootLoc)
    [DecidablePred (Fs.Near rootLoc)] :
    Views (fs.restrict (Fs.Near rootLoc) (Fs.upward_near rootLoc)) depth
      watchDir relative rootResolved rootLoc := by
  have hnode := fs.node?_restrict (Fs.upward_near rootLoc)
  have hdir : (fs.restrict (Fs.Near rootLoc)
      (Fs.upward_near rootLoc)).node? rootLoc = some .dir := by
    rw [hnode, if_pos (.inl List.prefix_rfl), h.dir]
  refine ⟨(resolve_plain (throughNoLink_spells hcanonical
    (Fs.linkFree_of_dir h.dir)) (throughNoLink_spells hcanonical
    (Fs.linkFree_of_dir hdir)) h.root).1, h.encode, hdir, ?_⟩
  intro front hfront names hnames t ht
  rw [hnode] at ht
  split at ht
  · exact h.plain front hfront names hnames t ht
  · cases ht

/-- A listing tells nothing of what is outside the root, if looking up each
child stays inside or if there is no listing at all. For a `watch_dir` that is
the directory's own path that is also the only case. -/
theorem listing_noninterference {self : FileAdapter} (occurredAt : String)
    (hviews : Views fs depth self.watchDir relative rootResolved rootLoc)
    (htarget : resolvedWithin fs depth self.watchDir relative = .ok target)
    (hnames : target.encode = .ok names)
    (hpath : decodePathOnlyRequest true event.payload = .ok relative) :
    (ChildrenInside fs rootLoc names ∨ NeverLists depth self.watchDir relative
        fs rootResolved rootLoc names →
      ListsAlike self depth occurredAt event relative fs rootResolved
        rootLoc) ∧
    (self.watchDir.encode = .ok rootLoc →
      ListsAlike self depth occurredAt event relative fs rootResolved
        rootLoc →
      ChildrenInside fs rootLoc names ∨ NeverLists depth self.watchDir relative
        fs rootResolved rootLoc names) := by
  obtain ⟨names', hnames', hin, -⟩ := (hviews.resolves hviews htarget).2
  rw [hnames] at hnames'
  cases hnames'
  -- what any filesystem of the same inside publishes
  have hanswer : ∀ fs', Fs.SameBelow rootLoc fs fs' →
      Views fs' depth self.watchDir relative rootResolved rootLoc →
      fs'.node? names = fs.node? names ∧
      listPublishes self depth occurredAt event fs' =
        listAnswer event relative occurredAt (fs.node? names)
          (entriesOf fs' target names) := by
    intro fs' hsame hviews'
    obtain ⟨htarget', names', hnames', -, hfree'⟩ :=
      hviews.resolves hviews' htarget
    rw [hnames] at hnames'
    cases hnames'
    have hnode := hsame names hin
    exact ⟨hnode, by
      rw [listPublishes_answer hpath htarget' hnames hfree', hnode]⟩
  have hchild : ∀ fs', Fs.SameBelow rootLoc fs fs' → ∀ n,
      Child fs' names n ↔ Child fs names n := by
    intro fs' hsame n
    rw [Child, Child, hsame _ (hin.trans (List.prefix_append names [n]))]
  have hrefl : Fs.SameBelow rootLoc fs fs := fun _ _ => rfl
  constructor
  · intro hcond fs' hsame hviews'
    obtain ⟨hnode, hpub'⟩ := hanswer fs' hsame hviews'
    rw [hpub', (hanswer fs hrefl hviews).2]
    by_cases hdir : fs.node? names = some .dir
    · rw [hdir] at hnode ⊢
      rcases hcond with hinside | hnever
      · rw [entriesOf_eq hnames hdir hnode (hchild fs' hsame)]
        exact fun n hn => Fs.stat_agree (Fs.upward_near rootLoc)
          (fun l hl => hsame.near hviews.dir hl) (hinside n hn)
      · obtain ⟨n, hn, e, he⟩ := hnever fs hrefl hviews
        obtain ⟨n', hn', e', he'⟩ := hnever fs' hsame hviews'
        obtain ⟨err, herr⟩ := entriesOf_error hnames (Fs.dirAt_of_dir hdir)
          hn he
        obtain ⟨err', herr'⟩ := entriesOf_error hnames
          (Fs.dirAt_of_dir hnode)
          ((hchild fs' hsame n').mpr hn') he'
        rw [herr, herr']
        rfl
    · exact listAnswer_not_dir hdir _ _
  · intro hcanonical halike
    classical
    by_contra hcond
    obtain ⟨hleaves, hlists⟩ := not_or.mp hcond
    -- one filesystem in which every child can be looked up
    obtain ⟨fs₁, hsame₁, hviews₁, hok⟩ : ∃ fs₁, Fs.SameBelow rootLoc fs fs₁ ∧
        Views fs₁ depth self.watchDir relative rootResolved rootLoc ∧
        ∀ n, Child fs names n →
          ∃ node, fs₁.stat (names ++ [n]) = .ok node := by
      by_contra hno
      refine hlists fun fs' hsame hviews' => ?_
      by_contra hall
      refine hno ⟨fs', hsame, hviews', fun n hn => ?_⟩
      cases hstat : fs'.stat (names ++ [n]) with
      | ok node => exact ⟨node, rfl⟩
      | error e => exact absurd ⟨n, hn, e, hstat⟩ hall
    -- and one with nothing outside, where a child that leads there is lost
    obtain ⟨n, hn, hlooks⟩ : ∃ n, Child fs names n ∧
        ¬ fs.LooksWithin (Fs.Near rootLoc) Fs.maxLinks []
          ((names ++ [n]).map .name) := by
      by_contra hno
      refine hleaves fun n hn => ?_
      by_contra hlooks
      exact hno ⟨n, hn, hlooks⟩
    have hnode₂ := fs.node?_restrict (Fs.upward_near rootLoc)
    have hsame₂ : Fs.SameBelow rootLoc fs
        (fs.restrict (Fs.Near rootLoc) (Fs.upward_near rootLoc)) := by
      intro l hl
      rw [hnode₂, if_pos (.inr hl)]
    have hviews₂ := hviews.restrict hcanonical
    obtain ⟨e, he⟩ := Fs.stat_lost (Fs.upward_near rootLoc)
      (fun l hl => hsame₂.near hviews.dir hl)
      (fun l hl => by rw [hnode₂, if_neg hl]) hlooks
    have hdir : fs.node? names = some .dir := fs.parent names n hn
    obtain ⟨hdir₁, hpub₁⟩ := hanswer fs₁ hsame₁ hviews₁
    obtain ⟨hdir₂, hpub₂⟩ := hanswer _ hsame₂ hviews₂
    rw [hdir] at hdir₁ hdir₂ hpub₁ hpub₂
    obtain ⟨entries, hentries⟩ := entriesOf_ok hnames
      (Fs.dirAt_of_dir hdir₁) fun n hn =>
      hok n ((hchild fs₁ hsame₁ n).mp hn)
    obtain ⟨err, herr⟩ := entriesOf_error hnames
      (Fs.dirAt_of_dir hdir₂)
      ((hchild _ hsame₂ n).mpr hn) he
    have heq := (halike fs₁ hsame₁ hviews₁).trans
      (halike _ hsame₂ hviews₂).symm
    rw [hpub₁, hpub₂, hentries, herr] at heq
    cases heq

/-! ## A link in the listed directory -/

theorem childrenInside_of_no_link (hdir : fs.node? names = some .dir)
    (hin : rootLoc <+: names)
    (h : ∀ n t, fs.node? (names ++ [n]) ≠ some (.link t)) :
    ChildrenInside fs rootLoc names := by
  intro n _
  refine Fs.looksWithin_linkFree (fun p hp => ?_)
    (Fs.linkFree_concat.mpr ⟨Fs.linkFree_of_dir hdir, h n⟩) _
  exact List.prefix_or_prefix_of_prefix hp
    (hin.trans (List.prefix_append names [n]))

namespace Sample

/-- `/w` with a link `x -> /s`. -/
def aliasFs : Fs FileName := watchFs (.link ⟨true, [.name secretName]⟩)

def secretFs : Fs FileName :=
  aliasFs.put [] secretName (.file [1, 2, 3]) (by decide)

def listMessage : ReceivedEvent :=
  fileMessage "FileListRequested" (pathRequest ".")

theorem views_rootName {fs : Fs FileName}
    (hroot : fileAdapter.watchDir.resolve fs 1000 =
      .ok ⟨.slash, [rootName.text]⟩)
    (hdir : fs.node? [rootName] = some .dir) :
    Views fs 1000 fileAdapter.watchDir (Text.ofString ".")
      ⟨.slash, [rootName.text]⟩ [rootName] where
  root := hroot
  encode := by decide +kernel
  dir := hdir
  plain := by
    have hparts : (PosixPath.join ⟨.slash, [rootName.text]⟩
        (Text.ofString ".")).parts = [rootName.text] := by decide +kernel
    rw [hparts]
    exact throughNoLink_spells (by decide +kernel) (Fs.linkFree_of_dir hdir)

end Sample

open Sample

/-- The size of a file outside is in the listing, or whether it is there. -/
theorem listing_leaks :
    Views aliasFs 1000 fileAdapter.watchDir (Text.ofString ".")
      ⟨.slash, [rootName.text]⟩ [rootName] ∧
    ¬ ListsAlike fileAdapter 1000 "2026-01-01T00:00:00Z" listMessage
      (Text.ofString ".") aliasFs ⟨.slash, [rootName.text]⟩ [rootName] := by
  refine ⟨views_rootName (by decide +kernel) (by decide +kernel),
    fun h => ?_⟩
  have hsame : Fs.SameBelow [rootName] aliasFs secretFs := by
    intro l hl
    rw [secretFs, Fs.node?_put, if_neg]
    rintro rfl
    exact absurd hl (by decide)
  have heq := h secretFs hsame
    (views_rootName (by decide +kernel) (by decide +kernel))
  exact absurd heq (by decide +kernel)

/-- With a file instead of the link nothing outside shows. -/
theorem listing_alike_file : ListsAlike fileAdapter 1000
    "2026-01-01T00:00:00Z" listMessage (Text.ofString ".")
    (watchFs (.file [1, 2, 3])) ⟨.slash, [rootName.text]⟩ [rootName] := by
  have hdir : (watchFs (.file [1, 2, 3])).node? [rootName] = some .dir := by
    decide +kernel
  have htarget : resolvedWithin (watchFs (.file [1, 2, 3])) 1000
      fileAdapter.watchDir (Text.ofString ".") =
      .ok ⟨.slash, [rootName.text]⟩ := by
    decide +kernel
  have hnames : PosixPath.encode ⟨.slash, [rootName.text]⟩ = .ok [rootName] := by
    decide +kernel
  have hpath : decodePathOnlyRequest true listMessage.payload =
      .ok (Text.ofString ".") :=
    decodePathOnlyRequest_pathRequest (by decide) true
  refine (listing_noninterference "2026-01-01T00:00:00Z"
    (views_rootName (by decide +kernel) hdir) htarget hnames hpath).1 (.inl ?_)
  refine childrenInside_of_no_link hdir List.prefix_rfl fun n t => ?_
  rw [watchFs, Fs.node?_put, emptyFs, Fs.node?_put, Fs.node?_bare]
  split
  · exact nofun
  · simp

end JetCore
