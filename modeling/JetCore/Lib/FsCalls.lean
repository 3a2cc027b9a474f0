import JetCore.Lib.FsWalk

/-!
# What the calls change

A call that succeeds sets what is at one location and leaves the rest as it
was (`Sets`), and on a path without links that location is the path. Making a
directory with its parents sets several, each a prefix of the path where there
was nothing (`Adds`).
-/

namespace Lib.Fs

universe u

variable {ν : Type u} [DecidableEq ν] {fs fs' : Fs ν}

/-- At `loc` there is now `x`, elsewhere what there was. -/
def Sets (fs fs' : Fs ν) (loc : List ν) (x : Option (Node ν)) : Prop :=
  ∀ l, fs'.node? l = if l = loc then x else fs.node? l

theorem Sets.at {loc : List ν} {x : Option (Node ν)}
    (h : fs.Sets fs' loc x) : fs'.node? loc = x := by
  rw [h loc, if_pos rfl]

theorem Sets.of_ne {loc l : List ν} {x : Option (Node ν)}
    (h : fs.Sets fs' loc x) (hne : l ≠ loc) : fs'.node? l = fs.node? l := by
  rw [h l, if_neg hne]

/-- The directories stay directories, unless it is one that was replaced. -/
theorem Sets.dir {loc d : List ν} {x : Option (Node ν)}
    (h : fs.Sets fs' loc x) (hloc : fs.node? loc ≠ some .dir)
    (hd : fs.node? d = some .dir) : fs'.node? d = some .dir := by
  rw [h.of_ne (by rintro rfl; exact hloc hd), hd]

theorem Sets.no_link {loc : List ν} {x : Option (Node ν)}
    (h : fs.Sets fs' loc x) (hx : ∀ t, x ≠ some (.link t)) {l : List ν}
    (hl : ∀ t, fs.node? l ≠ some (.link t)) :
    ∀ t, fs'.node? l ≠ some (.link t) := by
  intro t ht
  rw [h l] at ht
  split at ht
  · exact hx t ht
  · exact hl t ht

theorem Sets.linkFree {loc : List ν} {x : Option (Node ν)}
    (h : fs.Sets fs' loc x) (hx : ∀ t, x ≠ some (.link t)) {path : List ν}
    (hfree : fs.LinkFree path) : fs'.LinkFree path :=
  fun p hp => h.no_link hx (hfree p hp)

theorem sets_put {d : List ν} {n : ν} (node : Node ν) (h : fs.Open d n) :
    fs.Sets (fs.put d n node h) (d ++ [n]) (some node) :=
  fs.node?_put node h

theorem sets_remove {loc : List ν} (h : fs.node? loc ≠ some .dir) :
    fs.Sets (fs.remove loc h) loc none :=
  fs.node?_remove h

/-! ## One call -/

theorem openTrunc_eq_ok {path loc : List ν}
    (h : fs.openTrunc path = .ok (loc, fs')) :
    fs.locate path = .ok loc ∧ loc ≠ [] ∧
      fs.node? loc.dropLast = some .dir ∧ fs.node? loc ≠ some .dir ∧
      fs.Sets fs' loc (some (.file [])) := by
  rw [openTrunc] at h
  cases hlocate : fs.locate path with
  | error e =>
      rw [hlocate] at h
      cases h
  | ok loc' =>
      rw [hlocate] at h
      simp only [bind, Except.bind] at h
      split at h
      · cases h
      · next n hn =>
          split at h
          · cases h
          · next hdir =>
              split at h
              · next hopen =>
                  have heq := List.dropLast_append_getLast? n hn
                  obtain ⟨rfl, rfl⟩ := Prod.mk.inj (Except.ok.inj h)
                  refine ⟨rfl, ?_, hopen.1, hdir, ?_⟩
                  · rintro rfl
                    cases hn
                  · have hsets := sets_put (.file []) hopen
                    rw [heq] at hsets
                    exact hsets
              · cases h

theorem read_eq_ok {path loc : List ν} {content : Bytes}
    (h : fs.read path = .ok (loc, content)) :
    fs.locate path = .ok loc ∧ fs.node? loc = some (.file content) := by
  rw [read] at h
  cases hlocate : fs.locate path with
  | error e =>
      rw [hlocate] at h
      cases h
  | ok loc' =>
      rw [hlocate] at h
      replace h : asFile loc' (fs.node? loc') = .ok (loc, content) := h
      rw [asFile.eq_def] at h
      split at h
      · next c hnode =>
          obtain ⟨rfl, rfl⟩ := Prod.mk.inj (Except.ok.inj h)
          exact ⟨rfl, hnode⟩
      · cases h
      · cases h

theorem unlink_eq_ok {path loc : List ν}
    (h : fs.unlink path = .ok (loc, fs')) :
    fs.entry path = .ok loc ∧ fs.node? loc ≠ none ∧
      fs.node? loc ≠ some .dir ∧ fs.Sets fs' loc none := by
  rw [unlink] at h
  cases hentry : fs.entry path with
  | error e =>
      rw [hentry] at h
      cases h
  | ok loc' =>
      rw [hentry] at h
      simp only [bind, Except.bind] at h
      split at h
      · cases h
      · next hnode =>
          split at h
          · next hdir =>
              obtain ⟨rfl, rfl⟩ := Prod.mk.inj (Except.ok.inj h)
              exact ⟨rfl, hnode, hdir, sets_remove hdir⟩
          · cases h

theorem mkdir_eq_ok {path loc : List ν}
    (h : fs.mkdir path = .ok (loc, fs')) :
    fs.entry path = .ok loc ∧ fs.node? loc = none ∧
      fs.Sets fs' loc (some .dir) := by
  rw [mkdir] at h
  rw [entry]
  split at h
  · cases h
  · next n hn =>
      cases hd : fs.dirAt path.dropLast with
      | error e =>
          rw [hd] at h
          cases h
      | ok d =>
          rw [hd] at h
          simp only [bind, Except.bind] at h
          split at h
          · cases h
          · next hnone =>
              split at h
              · next hopen =>
                  obtain ⟨rfl, rfl⟩ := Prod.mk.inj (Except.ok.inj h)
                  exact ⟨rfl, not_not.mp hnone, sets_put _ hopen⟩
              · cases h

/-- A write leaves another content in the file that was opened, if it is still
there. -/
theorem writeAt_eq (fs : Fs ν) (loc : List ν) (content : Bytes) :
    fs.writeAt loc content = fs ∨
      (∃ old, fs.node? loc = some (.file old)) ∧
        fs.Sets (fs.writeAt loc content) loc (some (.file content)) := by
  rw [writeAt]
  split
  · next old n hnode hn =>
      split
      · next hopen =>
          have hsets := sets_put (.file content) hopen
          rw [List.dropLast_append_getLast? n hn] at hsets
          exact .inr ⟨⟨old, hnode⟩, hsets⟩
      · exact .inl rfl
  · exact .inl rfl

theorem writeAt_sets {loc : List ν} {old : Bytes} (content : Bytes)
    (h : fs.node? loc = some (.file old)) :
    fs.Sets (fs.writeAt loc content) loc (some (.file content)) := by
  cases hn : loc.getLast? with
  | none =>
      rw [List.getLast?_eq_none_iff.mp hn, node?_nil] at h
      cases h
  | some n =>
      have heq := List.dropLast_append_getLast? n hn
      have hopen : fs.Open loc.dropLast n := by
        rw [Open, heq, h]
        refine ⟨fs.parent loc.dropLast n ?_, nofun⟩
        rw [heq]
        intro hnone
        rw [node?, hnone] at h
        cases h
      rw [writeAt, h, hn]
      simp only []
      rw [dif_pos hopen]
      have hsets := sets_put (.file content) hopen
      rw [heq] at hsets
      exact hsets

/-- Nothing that was there is lost, and no link made or replaced. -/
theorem Sets.grows {loc : List ν} {node : Node ν}
    (h : fs.Sets fs' loc (some node)) (hlink : ∀ t, node ≠ .link t)
    (hold : ∀ t, fs.node? loc ≠ some (.link t))
    (hdir : fs.node? loc ≠ some .dir)
    (hfile : fs.node? loc ≠ none → ∃ content, node = .file content) :
    fs.Grows fs' where
  dir l hl := h.dir hdir hl
  file l content hl := by
    by_cases heq : l = loc
    · rw [heq] at hl ⊢
      obtain ⟨content', rfl⟩ := hfile (by simp [hl])
      exact ⟨content', h.at⟩
    · exact ⟨content, by rw [h.of_ne heq, hl]⟩
  link l t hl := by
    rw [h.of_ne, hl]
    rintro rfl
    exact hold t hl
  no_link l t hl := by
    rw [h l] at hl
    split at hl
    · exact absurd (Option.some.inj hl) (hlink t)
    · exact hl

theorem entry_concat_ok {d loc : List ν} {n : ν}
    (h : fs.entry (d ++ [n]) = .ok loc) :
    ∃ d', fs.locate d = .ok d' ∧ fs.node? d' = some .dir ∧
      loc = d' ++ [n] := by
  rw [entry_concat] at h
  cases hd : fs.dirAt d with
  | error e =>
      rw [hd] at h
      cases h
  | ok d' =>
      rw [hd] at h
      obtain ⟨hlocate, hdir⟩ := dirAt_eq_ok hd
      exact ⟨d', hlocate, hdir, (Except.ok.inj h).symm⟩

/-- Making a directory makes nothing below it. -/
theorem mkdir_stat {path loc rest : List ν}
    (h : fs.mkdir path = .ok (loc, fs')) (hrest : rest ≠ []) :
    fs'.stat (path ++ rest) = fs.stat (path ++ rest) := by
  obtain ⟨hentry, hnone, hsets⟩ := mkdir_eq_ok h
  have hgrows : fs.Grows fs' := hsets.grows (by simp) (by simp [hnone])
    (by simp [hnone]) fun hne => absurd hnone hne
  rcases List.eq_nil_or_concat path with rfl | ⟨d, n, rfl⟩
  · cases h
  rw [List.concat_eq_append] at hentry ⊢
  obtain ⟨d', hlocate, hdir, rfl⟩ := entry_concat_ok hentry
  obtain ⟨m, ms, rfl⟩ := List.exists_cons_of_ne_nil hrest
  have hpath : (d ++ [n] ++ m :: ms).map Comp.name =
      d.map .name ++ (.name n :: .name m :: ms.map .name) := by simp
  obtain ⟨left, hleft⟩ :=
    walk_append (.name n :: .name m :: ms.map .name) hdir maxLinks
      (d.map .name) [] hlocate
  obtain ⟨left', hleft'⟩ :=
    walk_append (.name n :: .name m :: ms.map .name)
      (hgrows.dir d' hdir) maxLinks (d.map .name) []
      (hgrows.locate hlocate)
  have hbefore : fs.stat (d ++ [n] ++ m :: ms) = .error .enoent := by
    rw [stat, locate, hpath, hleft, walk_missing hnone (by simp)]
    rfl
  have hbelow : fs'.node? (d' ++ [n] ++ [m]) = none := by
    rw [hsets.of_ne (by simp)]
    exact node?_below (by simp [hnone]) (by simp)
  obtain ⟨follow, hfollow⟩ := fs'.walk_eq left'
  rw [hbefore, stat, locate, hpath, hleft', hfollow, walkWith, hsets.at]
  simp only []
  rw [walkWith, hbelow]
  simp only []
  split
  · show (fs'.node? (d' ++ [n] ++ [m])).elim _ _ = _
    rw [hbelow]
    rfl
  · rfl

theorem stat_eq_ok {path : List ν} {node : Node ν} :
    fs.stat path = .ok node ↔
      ∃ loc, fs.locate path = .ok loc ∧ fs.node? loc = some node := by
  rw [stat]
  cases fs.locate path with
  | error e =>
      constructor
      · intro h
        cases h
      · intro h
        obtain ⟨loc, hloc, -⟩ := h
        cases hloc
  | ok loc =>
      show (fs.node? loc).elim (Except.error Errno.enoent) Except.ok =
        .ok node ↔ _
      cases hnode : fs.node? loc with
      | none => simp [hnode]
      | some node' => simp [hnode]

/-- What was unlinked is not found any more. -/
theorem unlink_stat {path loc : List ν} (h : fs.unlink path = .ok (loc, fs'))
    (node : Node ν) : fs'.stat path ≠ .ok node := by
  obtain ⟨hentry, -, hne, hsets⟩ := unlink_eq_ok h
  have hold : ∀ l node, fs'.node? l = some node → fs.node? l = some node := by
    intro l node hl
    rw [hsets l] at hl
    split at hl
    · cases hl
    · exact hl
  have hless : fs'.Extends fs :=
    ⟨fun l => hold l .dir, fun l content hl => ⟨content, hold l _ hl⟩,
      fun l t => hold l (.link t)⟩
  intro hstat
  obtain ⟨loc', hlocate, hnode⟩ := stat_eq_ok.mp hstat
  rcases List.eq_nil_or_concat path with rfl | ⟨d, n, rfl⟩
  · obtain rfl := Except.ok.inj hentry
    exact hne fs.node?_nil
  rw [List.concat_eq_append] at hentry hlocate
  rw [locate, List.map_append] at hlocate
  obtain ⟨d', hlocated, -, rfl⟩ := entry_concat_ok hentry
  obtain ⟨d₁, hwalk, hdir, hlast⟩ :=
    walk_split (List.cons_ne_nil (Comp.name n) []) maxLinks (d.map .name) []
      fs'.node?_nil hlocate
  -- the walk to the directory is the one before the unlink
  have hsame := hless.walk (fun hnone => by rw [hdir] at hnone; cases hnone)
    maxLinks (d.map .name) [] hwalk
  rw [locate, hsame] at hlocated
  obtain rfl := Except.ok.inj hlocated
  obtain ⟨follow, hfollow⟩ := fs'.walk_eq maxLinks
  rw [hfollow, walkWith_last (by simp [hsets.at])] at hlast
  obtain rfl := Except.ok.inj hlast
  rw [hsets.at] at hnode
  cases hnode

theorem entry_linkFree {path loc : List ν} (hfree : fs.LinkFree path)
    (h : fs.entry path = .ok loc) : loc = path := by
  induction path using List.reverseRecOn with
  | nil => exact (Except.ok.inj h).symm
  | append_singleton d n =>
      obtain ⟨d', hlocate, -, rfl⟩ := entry_concat_ok h
      rw [(locate_linkFree (linkFree_concat.mp hfree).1 hlocate).1]

/-! ## Directories made on the way -/

/-- The locations have become directories, and there was nothing before. -/
structure Adds (fs fs' : Fs ν) (made : List (List ν)) : Prop where
  new : ∀ l ∈ made, fs.node? l = none ∧ fs'.node? l = some .dir
  same : ∀ l, l ∉ made → fs'.node? l = fs.node? l

theorem Adds.refl (fs : Fs ν) : fs.Adds fs [] :=
  ⟨nofun, fun _ _ => rfl⟩

theorem Adds.trans {fs'' : Fs ν} {made made' : List (List ν)}
    (h : fs.Adds fs' made) (h' : fs'.Adds fs'' made') :
    fs.Adds fs'' (made ++ made') where
  new l hl := by
    rcases List.mem_append.mp hl with hl | hl
    · by_cases hl' : l ∈ made'
      · have hnone := (h'.new l hl').1
        rw [(h.new l hl).2] at hnone
        cases hnone
      · exact ⟨(h.new l hl).1, by rw [h'.same l hl', (h.new l hl).2]⟩
    · by_cases hl' : l ∈ made
      · have hnone := (h'.new l hl).1
        rw [(h.new l hl').2] at hnone
        cases hnone
      · have hnone := (h'.new l hl).1
        rw [h.same l hl'] at hnone
        exact ⟨hnone, (h'.new l hl).2⟩
  same l hl := by
    rw [List.mem_append, not_or] at hl
    rw [h'.same l hl.2, h.same l hl.1]

theorem Sets.adds {loc : List ν} (h : fs.Sets fs' loc (some .dir))
    (hloc : fs.node? loc = none) : fs.Adds fs' [loc] where
  new l hl := by
    obtain rfl := List.mem_singleton.mp hl
    exact ⟨hloc, h.at⟩
  same l hl := h.of_ne fun heq => hl (List.mem_singleton.mpr heq)

theorem Adds.node {made : List (List ν)} (h : fs.Adds fs' made)
    {loc : List ν} {node : Node ν} (hnode : fs.node? loc = some node) :
    fs'.node? loc = some node := by
  rw [h.same loc, hnode]
  intro hloc
  rw [(h.new loc hloc).1] at hnode
  cases hnode

theorem Adds.no_link {made : List (List ν)} (h : fs.Adds fs' made)
    {loc : List ν} {t : LinkTarget ν} :
    fs'.node? loc = some (.link t) ↔ fs.node? loc = some (.link t) := by
  constructor
  · intro ht
    by_cases hloc : loc ∈ made
    · rw [(h.new loc hloc).2] at ht
      cases ht
    · rw [← h.same loc hloc, ht]
  · exact h.node

theorem Adds.linkFree {made : List (List ν)} (h : fs.Adds fs' made)
    {path : List ν} (hfree : fs.LinkFree path) : fs'.LinkFree path :=
  fun p hp t ht => hfree p hp t (h.no_link.mp ht)

end Lib.Fs
