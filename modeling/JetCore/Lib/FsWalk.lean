import JetCore.Lib.Fs
import Mathlib.Data.List.Induction

/-!
# Paths without links, and what a walk depends on

A path none of whose prefixes is a link leads where it says: the walk goes
through its directories one by one and never looks at `maxLinks`. So every
call on such a path is described by the nodes on it, and it fails only because
something on the way is missing or no directory, never because of a loop.

The second half is about walks in general, links included. A walk over
appended components is one walk after the other, and where everything that was
there is there still, a walk that arrived at something arrives there again.
-/

namespace Lib.Fs

universe u

variable {ν : Type u} [DecidableEq ν] {fs : Fs ν}

/-- No prefix of the path is a link. -/
def LinkFree (fs : Fs ν) (path : List ν) : Prop :=
  ∀ p, p <+: path → ∀ t, fs.node? p ≠ some (.link t)

theorem node?_nil (fs : Fs ν) : fs.node? [] = some .dir := fs.root

theorem LinkFree.front {p path : List ν} (h : fs.LinkFree path)
    (hp : p <+: path) : fs.LinkFree p := fun q hq =>
  h q (hq.trans hp)

theorem linkFree_nil (fs : Fs ν) : fs.LinkFree [] := by
  intro p hp t
  rw [List.prefix_nil.mp hp, node?_nil]
  exact nofun

theorem linkFree_concat {d : List ν} {n : ν} :
    fs.LinkFree (d ++ [n]) ↔
      fs.LinkFree d ∧ ∀ t, fs.node? (d ++ [n]) ≠ some (.link t) := by
  constructor
  · exact fun h => ⟨h.front (List.prefix_append _ _),
      h _ List.prefix_rfl⟩
  · intro h p hp
    rcases List.prefix_concat_iff.mp hp with rfl | hp
    · exact h.2
    · exact h.1 p hp

/-- What is above a node is a directory. -/
theorem dir_above {p : List ν} : ∀ {loc : List ν}, fs.node? loc ≠ none →
    p <+: loc → p ≠ loc → fs.node? p = some .dir := by
  intro loc
  induction loc using List.reverseRecOn with
  | nil =>
      intro _ hp hne
      exact absurd (List.prefix_nil.mp hp) hne
  | append_singleton d n ih =>
      intro hnode hp hne
      have hdir : fs.node? d = some .dir := fs.parent d n hnode
      rcases List.prefix_concat_iff.mp hp with rfl | hp
      · exact absurd rfl hne
      · by_cases heq : p = d
        · rw [heq, hdir]
        · exact ih (by simp [hdir]) hp heq

/-- Below what is no directory there is nothing. -/
theorem node?_below {d s : List ν} (hd : fs.node? d ≠ some .dir)
    (hs : s ≠ []) : fs.node? (d ++ s) = none := by
  by_contra hnode
  refine hd (dir_above hnode (List.prefix_append d s) fun heq => hs ?_)
  exact List.append_right_eq_self.mp heq.symm

theorem linkFree_of_dir {d : List ν} (h : fs.node? d = some .dir) :
    fs.LinkFree d := by
  intro p hp t hlink
  have hdir : fs.node? p = some .dir := by
    by_cases heq : p = d
    · rw [heq, h]
    · exact dir_above (by simp [h]) hp heq
  rw [hdir] at hlink
  cases hlink

theorem dir_dropLast {loc : List ν} (h : fs.node? loc = some .dir) :
    fs.node? loc.dropLast = some .dir := by
  by_cases heq : loc.dropLast = loc
  · rw [heq, h]
  · exact dir_above (by simp [h]) (List.dropLast_prefix loc) heq

/-! ## The walk over a path without links -/

/-- Every walk is a walk that does something or other at a link. -/
theorem walk_eq (fs : Fs ν) (links : ℕ) :
    ∃ follow, fs.walk links = fs.walkWith follow := by
  cases links with
  | zero => exact ⟨_, rfl⟩
  | succ n => exact ⟨_, rfl⟩

variable {follow : List ν → List (Comp ν) → Except Errno (List ν)}

/-- Through directories. -/
theorem walkWith_through {rest : List (Comp ν)} :
    ∀ {names cur : List ν}, fs.node? (cur ++ names) = some .dir →
      fs.walkWith follow cur (names.map .name ++ rest) =
        fs.walkWith follow (cur ++ names) rest := by
  intro names
  induction names with
  | nil =>
      intro cur _
      rw [List.append_nil]
      rfl
  | cons n names ih =>
      intro cur h
      rw [List.append_cons] at h
      have hdir : fs.node? (cur ++ [n]) = some .dir := by
        cases names with
        | nil => rw [← h, List.append_nil]
        | cons m ms =>
            refine dir_above (by rw [h]; exact nofun)
              (List.prefix_append _ _) fun heq => ?_
            exact absurd (List.append_right_eq_self.mp heq.symm) nofun
      rw [List.map_cons, List.cons_append, walkWith, hdir]
      show fs.walkWith follow (cur ++ [n]) (names.map .name ++ rest) = _
      rw [ih h, ← List.append_cons]

/-- The last component of a path without links, from its directory. -/
theorem walkWith_last {d : List ν} {n : ν}
    (h : ∀ t, fs.node? (d ++ [n]) ≠ some (.link t)) :
    fs.walkWith follow d [.name n] = .ok (d ++ [n]) := by
  rw [walkWith]
  split
  · rfl
  · rfl
  · rfl
  · next t ht => exact absurd ht (h t)

theorem locate_nil (fs : Fs ν) : fs.locate [] = .ok [] := rfl

/-- In a directory a path leads to its last component, there or not. -/
theorem locate_in_dir {d : List ν} {n : ν} (hd : fs.node? d = some .dir)
    (h : ∀ t, fs.node? (d ++ [n]) ≠ some (.link t)) :
    fs.locate (d ++ [n]) = .ok (d ++ [n]) := by
  obtain ⟨follow, hwalk⟩ := fs.walk_eq maxLinks
  rw [locate, hwalk, List.map_append]
  show fs.walkWith follow [] (d.map .name ++ [.name n]) = _
  rw [walkWith_through (by rw [List.nil_append, hd]), List.nil_append,
    walkWith_last h]

theorem locate_of_node {loc : List ν} (h : fs.LinkFree loc)
    (hnode : fs.node? loc ≠ none) : fs.locate loc = .ok loc := by
  induction loc using List.reverseRecOn with
  | nil => exact locate_nil fs
  | append_singleton d n =>
      exact locate_in_dir (fs.parent d n hnode) (h _ List.prefix_rfl)

/-- The two ways in which a path without links leads nowhere. -/
def Nowhere (e : Errno) : Prop := e = .enoent ∨ e = .enotdir

theorem walkWith_blocked {last : ν} : ∀ {names cur : List ν},
    fs.node? cur = some .dir → fs.LinkFree (cur ++ names) →
    fs.node? (cur ++ names) ≠ some .dir →
    ∃ e, Nowhere e ∧ fs.walkWith follow cur
      (names.map .name ++ [.name last]) = .error e := by
  intro names
  induction names with
  | nil =>
      intro cur hcur _ hne
      rw [List.append_nil] at hne
      exact absurd hcur hne
  | cons n names ih =>
      intro cur hcur hfree hne
      rw [List.append_cons] at hfree hne
      rw [List.map_cons, List.cons_append, walkWith]
      split
      · exact ⟨.enoent, .inl rfl, if_neg (by simp)⟩
      · next hdir => exact ih hdir hfree hne
      · exact ⟨.enotdir, .inr rfl, if_neg (by simp)⟩
      · next t ht =>
          exact absurd ht (hfree _ (List.prefix_append _ _) t)

theorem locate_blocked {d : List ν} {n : ν} (hfree : fs.LinkFree d)
    (hd : fs.node? d ≠ some .dir) :
    ∃ e, Nowhere e ∧ fs.locate (d ++ [n]) = .error e := by
  obtain ⟨follow, hwalk⟩ := fs.walk_eq maxLinks
  rw [locate, hwalk, List.map_append]
  exact walkWith_blocked fs.node?_nil (by rw [List.nil_append]; exact hfree)
    (by rw [List.nil_append]; exact hd)

/-! ## Calls on a path without links -/

/-- `stat` finds the node the path says, or nothing is there. -/
theorem stat_linkFree {loc : List ν} (h : fs.LinkFree loc) :
    (∃ node, fs.node? loc = some node ∧ fs.stat loc = .ok node) ∨
      fs.node? loc = none ∧ ∃ e, Nowhere e ∧ fs.stat loc = .error e := by
  cases hnode : fs.node? loc with
  | some node =>
      refine .inl ⟨node, rfl, ?_⟩
      rw [stat, locate_of_node h (by simp [hnode])]
      show (fs.node? loc).elim _ _ = _
      rw [hnode]
      rfl
  | none =>
      refine .inr ⟨rfl, ?_⟩
      induction loc using List.reverseRecOn with
      | nil =>
          rw [node?_nil] at hnode
          cases hnode
      | append_singleton d n =>
          by_cases hd : fs.node? d = some .dir
          · refine ⟨.enoent, .inl rfl, ?_⟩
            rw [stat, locate_in_dir hd (h _ List.prefix_rfl)]
            show (fs.node? _).elim _ _ = _
            rw [hnode]
            rfl
          · obtain ⟨e, he, hlocate⟩ := locate_blocked (n := n)
              (linkFree_concat.mp h).1 hd
            exact ⟨e, he, by rw [stat, hlocate]; rfl⟩

theorem stat_ne_eloop {loc : List ν} (h : fs.LinkFree loc) :
    fs.stat loc ≠ .error .eloop := by
  rcases stat_linkFree h with ⟨node, -, hstat⟩ | ⟨-, e, he, hstat⟩
  · rw [hstat]
    exact nofun
  · rw [hstat]
    rcases he with rfl | rfl
    · exact nofun
    · exact nofun

theorem dirAt_of_dir {d : List ν} (h : fs.node? d = some .dir) :
    fs.dirAt d = .ok d := by
  rw [dirAt, locate_of_node (linkFree_of_dir h) (by simp [h])]
  show asDir d (fs.node? d) = _
  rw [h]
  rfl

theorem dirAt_eq_ok {path d : List ν} (h : fs.dirAt path = .ok d) :
    fs.locate path = .ok d ∧ fs.node? d = some .dir := by
  rw [dirAt] at h
  cases hlocate : fs.locate path with
  | error e =>
      rw [hlocate] at h
      cases h
  | ok loc =>
      rw [hlocate] at h
      replace h : asDir loc (fs.node? loc) = .ok d := h
      cases hnode : fs.node? loc with
      | none =>
          rw [hnode] at h
          cases h
      | some node =>
          rw [hnode] at h
          cases node with
          | dir =>
              cases h
              exact ⟨rfl, hnode⟩
          | file content => cases h
          | link t => cases h

/-- A path without links leads to itself or nowhere. -/
theorem locate_linkFree {path loc : List ν} (hfree : fs.LinkFree path)
    (h : fs.locate path = .ok loc) : loc = path ∧
      (path = [] ∨ fs.node? path.dropLast = some .dir) := by
  induction path using List.reverseRecOn with
  | nil => exact ⟨(Except.ok.inj h).symm, .inl rfl⟩
  | append_singleton d n =>
      rw [List.dropLast_concat]
      by_cases hd : fs.node? d = some .dir
      · rw [locate_in_dir hd (hfree _ List.prefix_rfl)] at h
        exact ⟨(Except.ok.inj h).symm, .inr hd⟩
      · obtain ⟨e, -, he⟩ := locate_blocked (n := n)
          (linkFree_concat.mp hfree).1 hd
        rw [he] at h
        cases h

theorem dirAt_blocked {d : List ν} (hfree : fs.LinkFree d)
    (hd : fs.node? d ≠ some .dir) : ∃ e, fs.dirAt d = .error e := by
  cases h : fs.dirAt d with
  | error e => exact ⟨e, rfl⟩
  | ok loc =>
      obtain ⟨hlocate, hdir⟩ := dirAt_eq_ok h
      rw [(locate_linkFree hfree hlocate).1] at hdir
      exact absurd hdir hd

theorem entry_concat (fs : Fs ν) (d : List ν) (n : ν) :
    fs.entry (d ++ [n]) = (do
      let d ← fs.dirAt d
      .ok (d ++ [n])) := by
  rw [entry, List.getLast?_concat, List.dropLast_concat]

theorem entry_in_dir {d : List ν} {n : ν} (hd : fs.node? d = some .dir) :
    fs.entry (d ++ [n]) = .ok (d ++ [n]) := by
  rw [entry_concat, dirAt_of_dir hd]
  rfl

theorem lstat_in_dir {d : List ν} {n : ν} (hd : fs.node? d = some .dir) :
    fs.lstat (d ++ [n]) =
      (fs.node? (d ++ [n])).elim (.error .enoent) .ok := by
  rw [lstat, entry_in_dir hd]
  rfl

theorem lstat_blocked {d : List ν} {n : ν} (hfree : fs.LinkFree d)
    (hd : fs.node? d ≠ some .dir) : ∃ e, fs.lstat (d ++ [n]) = .error e := by
  obtain ⟨e, he⟩ := dirAt_blocked hfree hd
  exact ⟨e, by rw [lstat, entry_concat, he]; rfl⟩

/-! ## Walks in general -/

theorem walkWith_append {d : List ν} {rest : List (Comp ν)}
    (hd : fs.node? d = some .dir) (links : ℕ)
    (hbase : fs.walkWith follow d rest = fs.walk links d rest)
    (hfollow : ∀ comps cur, follow cur comps = .ok d →
      ∃ left, follow cur (comps ++ rest) = fs.walk left d rest) :
    ∀ (comps : List (Comp ν)) (cur : List ν),
      fs.walkWith follow cur comps = .ok d →
      ∃ left, fs.walkWith follow cur (comps ++ rest) =
        fs.walk left d rest := by
  intro comps
  induction comps with
  | nil =>
      intro cur h
      cases h
      exact ⟨links, hbase⟩
  | cons c comps ih =>
      intro cur h
      cases c with
      | empty => exact ih cur h
      | dot => exact ih cur h
      | dotdot => exact ih _ h
      | name n =>
          rw [walkWith] at h
          rw [List.cons_append, walkWith]
          split at h
          · next hnode =>
              split at h
              · cases h
                rw [hd] at hnode
                cases hnode
              · cases h
          · next hnode => exact ih _ h
          · next content hnode =>
              split at h
              · cases h
                rw [hd] at hnode
                cases hnode
              · cases h
          · next t hnode =>
              obtain ⟨left, hleft⟩ := hfollow _ _ h
              exact ⟨left, by rw [← hleft, List.append_assoc]⟩

/-- From a directory a walk reached, it goes on over what is left, with some
of the links used up. -/
theorem walk_append {d : List ν} (rest : List (Comp ν))
    (hd : fs.node? d = some .dir) : ∀ (links : ℕ) (comps : List (Comp ν))
    (cur : List ν), fs.walk links cur comps = .ok d →
      ∃ left, fs.walk links cur (comps ++ rest) = fs.walk left d rest := by
  intro links
  induction links with
  | zero => exact walkWith_append hd 0 rfl nofun
  | succ links ih =>
      exact walkWith_append hd (links + 1) rfl
        fun comps cur => ih comps cur

/-- What was there is there still. What a file holds plays no part. -/
structure Extends (fs fs' : Fs ν) : Prop where
  dir : ∀ loc, fs.node? loc = some .dir → fs'.node? loc = some .dir
  file : ∀ loc content, fs.node? loc = some (.file content) →
    ∃ content', fs'.node? loc = some (.file content')
  link : ∀ loc t, fs.node? loc = some (.link t) →
    fs'.node? loc = some (.link t)

theorem Extends.refl (fs : Fs ν) : fs.Extends fs :=
  ⟨fun _ h => h, fun _ content h => ⟨content, h⟩, fun _ _ h => h⟩

theorem Extends.walkWith {fs' : Fs ν} (h : fs.Extends fs') {loc : List ν}
    (hlast : fs.node? loc = none → ∀ t, fs'.node? loc ≠ some (.link t))
    {follow' : List ν → List (Comp ν) → Except Errno (List ν)}
    (hfollow : ∀ cur comps, follow cur comps = .ok loc →
      follow' cur comps = .ok loc) : ∀ (comps : List (Comp ν)) (cur : List ν),
    fs.walkWith follow cur comps = .ok loc →
      fs'.walkWith follow' cur comps = .ok loc := by
  intro comps
  induction comps with
  | nil => exact fun cur hwalk => hwalk
  | cons c comps ih =>
      intro cur hwalk
      cases c with
      | empty => exact ih cur hwalk
      | dot => exact ih cur hwalk
      | dotdot => exact ih _ hwalk
      | name n =>
          rw [Fs.walkWith] at hwalk ⊢
          split at hwalk
          · next hnode =>
              split at hwalk
              · next hnil =>
                  cases hwalk
                  subst hnil
                  -- whatever is there now, it is no link
                  split
                  · rfl
                  · rfl
                  · rfl
                  · next t ht => exact absurd ht (hlast hnode t)
              · cases hwalk
          · next hnode =>
              rw [h.dir _ hnode]
              exact ih _ hwalk
          · next content hnode =>
              obtain ⟨content', hfile⟩ := h.file _ content hnode
              rw [hfile]
              exact hwalk
          · next t hnode =>
              rw [h.link _ t hnode]
              exact hfollow _ _ hwalk

/-- A walk that arrived still arrives, unless there is a link now where it
found nothing. -/
theorem Extends.walk {fs' : Fs ν} (h : fs.Extends fs') {loc : List ν}
    (hlast : fs.node? loc = none → ∀ t, fs'.node? loc ≠ some (.link t)) :
    ∀ (links : ℕ) (comps : List (Comp ν)) (cur : List ν),
      fs.walk links cur comps = .ok loc →
        fs'.walk links cur comps = .ok loc := by
  intro links
  induction links with
  | zero =>
      exact fun comps cur => h.walkWith hlast
        (fun _ _ (hloop : Except.error Errno.eloop = .ok loc) => by cases hloop)
        comps cur
  | succ links ih =>
      exact fun comps cur => h.walkWith hlast (fun cur comps => ih comps cur)
        comps cur

/-- The same directories, links and files as before, and new ones, but no new
links. -/
structure Grows (fs fs' : Fs ν) : Prop extends fs.Extends fs' where
  no_link : ∀ loc t, fs'.node? loc = some (.link t) →
    fs.node? loc = some (.link t)

theorem Grows.refl (fs : Fs ν) : fs.Grows fs :=
  ⟨.refl fs, fun _ _ h => h⟩

theorem Grows.trans {fs' fs'' : Fs ν} (h : fs.Grows fs')
    (h' : fs'.Grows fs'') : fs.Grows fs'' where
  dir loc hdir := h'.dir loc (h.dir loc hdir)
  file loc content hfile := by
    obtain ⟨content', hfile'⟩ := h.file loc content hfile
    exact h'.file loc content' hfile'
  link loc t hlink := h'.link loc t (h.link loc t hlink)
  no_link loc t hlink := h.no_link loc t (h'.no_link loc t hlink)

theorem Grows.locate {fs' : Fs ν} (h : fs.Grows fs') {path loc : List ν}
    (hlocate : fs.locate path = .ok loc) : fs'.locate path = .ok loc := by
  refine h.walk (fun hnone t ht => ?_) maxLinks _ [] hlocate
  rw [h.no_link loc t ht] at hnone
  cases hnone

/-! ## Where a walk ends -/

theorem walkWith_no_link {loc : List ν}
    (hfollow : ∀ comps cur, fs.node? cur = some .dir →
      follow cur comps = .ok loc → ∀ t, fs.node? loc ≠ some (.link t)) :
    ∀ (comps : List (Comp ν)) (cur : List ν), fs.node? cur = some .dir →
      fs.walkWith follow cur comps = .ok loc →
        ∀ t, fs.node? loc ≠ some (.link t) := by
  intro comps
  induction comps with
  | nil =>
      intro cur hcur h
      cases h
      rw [hcur]
      exact nofun
  | cons c comps ih =>
      intro cur hcur h
      cases c with
      | empty => exact ih cur hcur h
      | dot => exact ih cur hcur h
      | dotdot => exact ih _ (dir_dropLast hcur) h
      | name n =>
          rw [Fs.walkWith] at h
          split at h
          · next hnode =>
              split at h
              · cases h
                rw [hnode]
                exact nofun
              · cases h
          · next hnode => exact ih _ hnode h
          · next content hnode =>
              split at h
              · cases h
                rw [hnode]
                exact nofun
              · cases h
          · refine hfollow _ _ ?_ h
            split
            · exact fs.node?_nil
            · exact hcur

theorem walk_no_link {loc : List ν} : ∀ (links : ℕ) (comps : List (Comp ν))
    (cur : List ν), fs.node? cur = some .dir →
      fs.walk links cur comps = .ok loc →
        ∀ t, fs.node? loc ≠ some (.link t) := by
  intro links
  induction links with
  | zero => exact walkWith_no_link nofun
  | succ links ih => exact walkWith_no_link ih

/-- A path leads to no link. -/
theorem locate_no_link {path loc : List ν} (h : fs.locate path = .ok loc) :
    ∀ t, fs.node? loc ≠ some (.link t) :=
  walk_no_link maxLinks _ [] fs.node?_nil h

/-- From a directory on, what is below a name with nothing there. -/
theorem walk_missing {d : List ν} {n : ν} (hnone : fs.node? (d ++ [n]) = none)
    {rest : List (Comp ν)} (hrest : rest ≠ []) (links : ℕ) :
    fs.walk links d (.name n :: rest) = .error .enoent := by
  obtain ⟨follow, hfollow⟩ := fs.walk_eq links
  rw [hfollow, walkWith, hnone]
  exact if_neg hrest

/-! ## One component after the other -/

/-- More links to spare change nothing. -/
theorem walk_mono {links links' : ℕ} (hle : links ≤ links') {loc : List ν}
    {comps : List (Comp ν)} {cur : List ν}
    (h : fs.walk links cur comps = .ok loc) :
    fs.walk links' cur comps = .ok loc := by
  have hsame : fs.node? loc = none → ∀ t, fs.node? loc ≠ some (.link t) := by
    intro hnone t ht
    rw [hnone] at ht
    cases ht
  have hstep : ∀ (n : ℕ) (comps : List (Comp ν)) (cur : List ν),
      fs.walk n cur comps = .ok loc → fs.walk (n + 1) cur comps = .ok loc := by
    intro n
    induction n with
    | zero =>
        exact fun comps cur => (Extends.refl fs).walkWith hsame
          (fun _ _ (hloop : Except.error Errno.eloop = .ok loc) => by cases hloop)
          comps cur
    | succ n ih =>
        exact fun comps cur => (Extends.refl fs).walkWith hsame
          (fun cur comps => ih comps cur) comps cur
  induction hle with
  | refl => exact h
  | step _ ih => exact hstep _ _ _ ih

theorem walkWith_split {loc : List ν} {rest : List (Comp ν)}
    (hrest : rest ≠ []) {links : ℕ}
    (hbase : fs.walkWith follow = fs.walk links)
    (hfollow : ∀ comps cur, fs.node? cur = some .dir →
      follow cur (comps ++ rest) = .ok loc →
        ∃ d, follow cur comps = .ok d ∧ fs.node? d = some .dir ∧
          fs.walk links d rest = .ok loc) :
    ∀ (comps : List (Comp ν)) (cur : List ν), fs.node? cur = some .dir →
      fs.walkWith follow cur (comps ++ rest) = .ok loc →
        ∃ d, fs.walkWith follow cur comps = .ok d ∧
          fs.node? d = some .dir ∧ fs.walk links d rest = .ok loc := by
  intro comps
  induction comps with
  | nil =>
      intro cur hcur h
      rw [List.nil_append, hbase] at h
      exact ⟨cur, rfl, hcur, h⟩
  | cons c comps ih =>
      intro cur hcur h
      cases c with
      | empty => exact ih cur hcur h
      | dot => exact ih cur hcur h
      | dotdot => exact ih _ (dir_dropLast hcur) h
      | name n =>
          rw [List.cons_append, Fs.walkWith] at h
          rw [Fs.walkWith]
          have hmore : comps ++ rest ≠ [] := by simp [hrest]
          split at h
          · rw [if_neg hmore] at h
            cases h
          · next hdir => exact ih _ hdir h
          · rw [if_neg hmore] at h
            cases h
          · next t ht =>
              rw [← List.append_assoc] at h
              refine hfollow _ _ ?_ h
              split
              · exact fs.node?_nil
              · exact hcur

/-- A walk that arrived came by a directory between any two parts. -/
theorem walk_split {loc : List ν} {rest : List (Comp ν)}
    (hrest : rest ≠ []) : ∀ (links : ℕ) (comps : List (Comp ν))
    (cur : List ν), fs.node? cur = some .dir →
      fs.walk links cur (comps ++ rest) = .ok loc →
        ∃ d, fs.walk links cur comps = .ok d ∧
          fs.node? d = some .dir ∧ fs.walk links d rest = .ok loc := by
  intro links
  induction links with
  | zero => exact walkWith_split hrest rfl nofun
  | succ links ih =>
      refine walkWith_split hrest rfl fun comps cur hcur h => ?_
      obtain ⟨d, hd, hdir, hrest⟩ := ih comps cur hcur h
      exact ⟨d, hd, hdir, walk_mono (Nat.le_succ links) hrest⟩

/-- Where a link in the directory `d` leads. -/
def Leads (fs : Fs ν) (links : ℕ) (d : List ν) (t : LinkTarget ν)
    (loc : List ν) : Prop :=
  fs.walk links (if t.absolute then [] else d) t.comps = .ok loc

theorem Leads.unique {links links' : ℕ} {d loc loc' : List ν}
    {t : LinkTarget ν} (h : fs.Leads links d t loc)
    (h' : fs.Leads links' d t loc') : loc = loc' := by
  have hloc := walk_mono (le_max_left links links') h
  rw [walk_mono (le_max_right links links') h'] at hloc
  exact (Except.ok.inj hloc).symm

/-- What is left of a walk that arrives. At its end it may be anywhere, before
that it is in a directory. -/
def Reaches (fs : Fs ν) (links : ℕ) (d : List ν) (rest : List (Comp ν))
    (loc : List ν) : Prop :=
  rest = [] ∧ d = loc ∨
    fs.node? d = some .dir ∧ fs.walk links d rest = .ok loc

theorem reaches_nil {links : ℕ} {d loc : List ν}
    (h : fs.Reaches links d [] loc) : d = loc := by
  rcases h with ⟨-, heq⟩ | ⟨-, hwalk⟩
  · exact heq
  · obtain ⟨follow, hfollow⟩ := fs.walk_eq links
    rw [hfollow] at hwalk
    exact Except.ok.inj hwalk

theorem Reaches.dir {links : ℕ} {d loc : List ν} {c : Comp ν}
    {rest : List (Comp ν)} (h : fs.Reaches links d (c :: rest) loc) :
    fs.node? d = some .dir ∧ fs.walk links d (c :: rest) = .ok loc :=
  h.resolve_left fun h => List.cons_ne_nil c rest h.1

theorem Reaches.skip {links : ℕ} {d loc : List ν} {c : Comp ν}
    {rest : List (Comp ν)} (hc : c = .empty ∨ c = .dot)
    (h : fs.Reaches links d (c :: rest) loc) :
    fs.Reaches links d rest loc := by
  obtain ⟨hdir, hwalk⟩ := h.dir
  obtain ⟨follow, hfollow⟩ := fs.walk_eq links
  refine .inr ⟨hdir, ?_⟩
  rw [hfollow] at hwalk ⊢
  rcases hc with rfl | rfl
  · exact hwalk
  · exact hwalk

theorem Reaches.up {links : ℕ} {d loc : List ν} {rest : List (Comp ν)}
    (h : fs.Reaches links d (.dotdot :: rest) loc) :
    fs.Reaches links d.dropLast rest loc := by
  obtain ⟨hdir, hwalk⟩ := h.dir
  obtain ⟨follow, hfollow⟩ := fs.walk_eq links
  refine .inr ⟨dir_dropLast hdir, ?_⟩
  rw [hfollow] at hwalk ⊢
  exact hwalk

/-- At a name the walk goes into what is there, or to where the link there
leads, with one link less on the way. -/
theorem Reaches.name {links : ℕ} {d loc : List ν} {n : ν}
    {rest : List (Comp ν)} (h : fs.Reaches links d (.name n :: rest) loc) :
    ((∀ t, fs.node? (d ++ [n]) ≠ some (.link t)) ∧
      fs.Reaches links (d ++ [n]) rest loc) ∨
    ∃ t left mid, fs.node? (d ++ [n]) = some (.link t) ∧ left < links ∧
      fs.Leads left d t mid ∧ fs.Reaches links mid rest loc := by
  obtain ⟨hdir, hwalk⟩ := h.dir
  obtain ⟨follow, hfollow⟩ := fs.walk_eq links
  cases hnode : fs.node? (d ++ [n]) with
  | none =>
      rw [hfollow, Fs.walkWith, hnode] at hwalk
      simp only [] at hwalk
      split at hwalk
      · next hnil => exact .inl ⟨nofun, .inl ⟨hnil, Except.ok.inj hwalk⟩⟩
      · cases hwalk
  | some node =>
      cases node with
      | dir =>
          rw [hfollow, Fs.walkWith, hnode] at hwalk
          refine .inl ⟨nofun, .inr ⟨hnode, ?_⟩⟩
          rw [hfollow]
          exact hwalk
      | file content =>
          rw [hfollow, Fs.walkWith, hnode] at hwalk
          simp only [] at hwalk
          split at hwalk
          · next hnil => exact .inl ⟨nofun, .inl ⟨hnil, Except.ok.inj hwalk⟩⟩
          · cases hwalk
      | link t =>
          refine .inr ?_
          cases links with
          | zero =>
              rw [Fs.walk, Fs.walkWith, hnode] at hwalk
              cases hwalk
          | succ left =>
              rw [Fs.walk, Fs.walkWith, hnode] at hwalk
              replace hwalk : fs.walk left (if t.absolute then [] else d)
                (t.comps ++ rest) = .ok loc := hwalk
              by_cases hnil : rest = []
              · subst hnil
                rw [List.append_nil] at hwalk
                exact ⟨t, left, loc, rfl, Nat.lt_succ_self left, hwalk,
                  .inl ⟨rfl, rfl⟩⟩
              · have hstart : fs.node? (if t.absolute then [] else d) =
                    some .dir := by
                  split
                  · exact fs.node?_nil
                  · exact hdir
                obtain ⟨mid, hmid, hmiddir, hrest⟩ :=
                  walk_split hnil left t.comps _ hstart hwalk
                exact ⟨t, left, mid, rfl, Nat.lt_succ_self left, hmid,
                  .inr ⟨hmiddir, walk_mono (Nat.le_succ left) hrest⟩⟩

/-! ## What a walk fails with -/

/-- The errors of looking a path up. -/
def LookupError (e : Errno) : Prop := e = .enoent ∨ e = .enotdir ∨ e = .eloop

theorem walkWith_error
    (hfollow : ∀ cur comps e, follow cur comps = .error e → LookupError e)
    {e : Errno} : ∀ {comps : List (Comp ν)} {cur : List ν},
    fs.walkWith follow cur comps = .error e → LookupError e := by
  intro comps
  induction comps with
  | nil =>
      intro cur h
      rw [walkWith] at h
      cases h
  | cons c rest ih =>
      intro cur h
      cases c with
      | empty => exact ih h
      | dot => exact ih h
      | dotdot => exact ih h
      | name n =>
          rw [walkWith] at h
          split at h
          · split at h
            · cases h
            · cases h
              exact .inl rfl
          · exact ih h
          · split at h
            · cases h
            · cases h
              exact .inr (.inl rfl)
          · exact hfollow _ _ _ h

theorem walk_error : ∀ {links : ℕ} {cur : List ν} {comps : List (Comp ν)}
    {e : Errno}, fs.walk links cur comps = .error e → LookupError e := by
  intro links
  induction links with
  | zero =>
      exact fun h => walkWith_error
        (fun _ _ _ h => by cases h; exact .inr (.inr rfl)) h
  | succ links ih => exact fun h => walkWith_error (fun _ _ _ => ih) h

theorem stat_error {path : List ν} {e : Errno}
    (h : fs.stat path = .error e) : LookupError e := by
  rw [stat] at h
  cases hlocate : fs.locate path with
  | error e' =>
      rw [hlocate] at h
      cases h
      exact walk_error hlocate
  | ok loc =>
      rw [hlocate] at h
      replace h : (fs.node? loc).elim (Except.error Errno.enoent) Except.ok =
        .error e := h
      cases hnode : fs.node? loc with
      | none =>
          rw [hnode] at h
          cases h
          exact .inl rfl
      | some node =>
          rw [hnode] at h
          cases h

end Lib.Fs
