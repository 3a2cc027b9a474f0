import JetCore.Lib.FsCalls

/-!
# What a lookup looks at

Every node a walk looks at stands at a location, and two filesystems that have
the same nodes at those locations have the same walk. `LooksWithin` says that
the locations are all among some, and `stat_agree` is what follows from it. The
converse is `stat_lost`: where there is nothing but what is at those locations,
a walk that leaves them finds nothing.
-/

namespace Lib.Fs

universe u

variable {ν : Type u} [DecidableEq ν] {fs fs' : Fs ν}

/-- The walk looks at no location but these. What holds of it at a link is the
argument. -/
def looksWith (fs : Fs ν) (K : List ν → Prop)
    (follow : List ν → List (Comp ν) → Prop) : List ν → List (Comp ν) → Prop
  | _, [] => True
  | cur, .empty :: rest => fs.looksWith K follow cur rest
  | cur, .dot :: rest => fs.looksWith K follow cur rest
  | cur, .dotdot :: rest => fs.looksWith K follow cur.dropLast rest
  | cur, .name n :: rest =>
      K (cur ++ [n]) ∧
        match fs.node? (cur ++ [n]) with
        | some .dir => fs.looksWith K follow (cur ++ [n]) rest
        | some (.link t) =>
            follow (if t.absolute then [] else cur) (t.comps ++ rest)
        | _ => True

def LooksWithin (fs : Fs ν) (K : List ν → Prop) :
    ℕ → List ν → List (Comp ν) → Prop
  | 0 => fs.looksWith K fun _ _ => True
  | links + 1 => fs.looksWith K (fs.LooksWithin K links)

/-- Locations that have what is above them among them. -/
structure Upward (K : List ν → Prop) : Prop where
  root : K []
  up : ∀ l, K l → K l.dropLast

variable {K : List ν → Prop}

omit [DecidableEq ν] in
theorem Upward.start (hK : Upward K) {t : LinkTarget ν} {cur : List ν}
    (hcur : K cur) : K (if t.absolute then [] else cur) := by
  split
  · exact hK.root
  · exact hcur

/-- Without links the walk looks at what is above the path, and at it. -/
theorem looksWith_linkFree {looks : List ν → List (Comp ν) → Prop} :
    ∀ {names cur : List ν}, (∀ p, p <+: cur ++ names → K p) →
      fs.LinkFree (cur ++ names) →
      fs.looksWith K looks cur (names.map .name) := by
  intro names
  induction names with
  | nil => exact fun _ _ => trivial
  | cons n names ih =>
      intro cur hK hfree
      rw [List.append_cons] at hK hfree
      refine ⟨hK _ (List.prefix_append _ names), ?_⟩
      split
      · exact ih hK hfree
      · next t ht => exact absurd ht (hfree _ (List.prefix_append _ names) t)
      · trivial

theorem looksWithin_linkFree {path : List ν} (hK : ∀ p, p <+: path → K p)
    (hfree : fs.LinkFree path) (links : ℕ) :
    fs.LooksWithin K links [] (path.map .name) := by
  cases links with
  | zero => exact looksWith_linkFree hK hfree
  | succ links => exact looksWith_linkFree hK hfree

/-! ## Agreement -/

theorem walkWith_agree (hK : Upward K)
    (hsame : ∀ l, K l → fs'.node? l = fs.node? l)
    {follow follow' : List ν → List (Comp ν) → Except Errno (List ν)}
    {looks : List ν → List (Comp ν) → Prop}
    (hfollow : ∀ comps cur, K cur → looks cur comps →
      follow' cur comps = follow cur comps ∧
        ∀ loc, follow cur comps = .ok loc → K loc) :
    ∀ (comps : List (Comp ν)) (cur : List ν), K cur →
      fs.looksWith K looks cur comps →
      fs'.walkWith follow' cur comps = fs.walkWith follow cur comps ∧
        ∀ loc, fs.walkWith follow cur comps = .ok loc → K loc := by
  intro comps
  induction comps with
  | nil =>
      intro cur hcur _
      refine ⟨rfl, fun loc h => ?_⟩
      cases h
      exact hcur
  | cons c comps ih =>
      intro cur hcur h
      cases c with
      | empty => exact ih cur hcur h
      | dot => exact ih cur hcur h
      | dotdot => exact ih _ (hK.up cur hcur) h
      | name n =>
          obtain ⟨hn, h⟩ := h
          rw [walkWith, walkWith, hsame _ hn]
          cases hnode : fs.node? (cur ++ [n]) with
          | none =>
              refine ⟨rfl, fun loc hloc => ?_⟩
              simp only [] at hloc
              split at hloc
              · cases hloc
                exact hn
              · cases hloc
          | some node =>
              rw [hnode] at h
              cases node with
              | dir => exact ih _ hn h
              | file content =>
                  refine ⟨rfl, fun loc hloc => ?_⟩
                  simp only [] at hloc
                  split at hloc
                  · cases hloc
                    exact hn
                  · cases hloc
              | link t => exact hfollow _ _ (hK.start hcur) h

theorem walk_agree (hK : Upward K)
    (hsame : ∀ l, K l → fs'.node? l = fs.node? l) :
    ∀ (links : ℕ) (comps : List (Comp ν)) (cur : List ν), K cur →
      fs.LooksWithin K links cur comps →
      fs'.walk links cur comps = fs.walk links cur comps ∧
        ∀ loc, fs.walk links cur comps = .ok loc → K loc := by
  intro links
  induction links with
  | zero => exact walkWith_agree hK hsame fun _ _ _ _ => ⟨rfl, nofun⟩
  | succ links ih => exact walkWith_agree hK hsame ih

theorem stat_agree (hK : Upward K)
    (hsame : ∀ l, K l → fs'.node? l = fs.node? l) {path : List ν}
    (h : fs.LooksWithin K maxLinks [] (path.map .name)) :
    fs'.stat path = fs.stat path := by
  obtain ⟨hwalk, hin⟩ := walk_agree hK hsame maxLinks _ [] hK.root h
  rw [stat, stat, locate, locate, hwalk]
  cases hloc : fs.walk maxLinks [] (path.map .name) with
  | error e => rfl
  | ok loc =>
      show (fs'.node? loc).elim _ _ = (fs.node? loc).elim _ _
      rw [hsame loc (hin loc hloc)]

/-! ## Nothing but what is looked at -/

theorem walkWith_lost (hK : Upward K)
    (hsame : ∀ l, K l → fs'.node? l = fs.node? l)
    (hnone : ∀ l, ¬ K l → fs'.node? l = none)
    {follow' : List ν → List (Comp ν) → Except Errno (List ν)}
    {looks : List ν → List (Comp ν) → Prop}
    (hfollow : ∀ comps cur, K cur → ¬ looks cur comps →
      ∀ loc, follow' cur comps = .ok loc → fs'.node? loc = none) :
    ∀ (comps : List (Comp ν)) (cur : List ν), K cur →
      ¬ fs.looksWith K looks cur comps →
      ∀ loc, fs'.walkWith follow' cur comps = .ok loc →
        fs'.node? loc = none := by
  intro comps
  induction comps with
  | nil => exact fun cur _ h => absurd trivial h
  | cons c comps ih =>
      intro cur hcur h
      cases c with
      | empty => exact ih cur hcur h
      | dot => exact ih cur hcur h
      | dotdot => exact ih _ (hK.up cur hcur) h
      | name n =>
          intro loc hloc
          rw [walkWith] at hloc
          rw [looksWith] at h
          by_cases hn : K (cur ++ [n])
          · rw [hsame _ hn] at hloc
            cases hnode : fs.node? (cur ++ [n]) with
            | none => exact absurd ⟨hn, by rw [hnode]; trivial⟩ h
            | some node =>
                rw [hnode] at h hloc
                cases node with
                | dir => exact ih _ hn (fun h' => h ⟨hn, h'⟩) loc hloc
                | file content => exact absurd ⟨hn, trivial⟩ h
                | link t =>
                    exact hfollow _ _ (hK.start hcur) (fun h' => h ⟨hn, h'⟩)
                      loc hloc
          · rw [hnone _ hn] at hloc
            simp only [] at hloc
            split at hloc
            · cases hloc
              exact hnone _ hn
            · cases hloc

theorem walk_lost (hK : Upward K)
    (hsame : ∀ l, K l → fs'.node? l = fs.node? l)
    (hnone : ∀ l, ¬ K l → fs'.node? l = none) :
    ∀ (links : ℕ) (comps : List (Comp ν)) (cur : List ν), K cur →
      ¬ fs.LooksWithin K links cur comps →
      ∀ loc, fs'.walk links cur comps = .ok loc → fs'.node? loc = none := by
  intro links
  induction links with
  | zero => exact walkWith_lost hK hsame hnone fun _ _ _ h => absurd trivial h
  | succ links ih => exact walkWith_lost hK hsame hnone ih

theorem stat_lost (hK : Upward K)
    (hsame : ∀ l, K l → fs'.node? l = fs.node? l)
    (hnone : ∀ l, ¬ K l → fs'.node? l = none) {path : List ν}
    (h : ¬ fs.LooksWithin K maxLinks [] (path.map .name)) :
    ∃ e, fs'.stat path = .error e := by
  rw [stat, locate]
  cases hloc : fs'.walk maxLinks [] (path.map .name) with
  | error e => exact ⟨e, rfl⟩
  | ok loc =>
      have hnode := walk_lost hK hsame hnone maxLinks _ [] hK.root h loc hloc
      refine ⟨.enoent, ?_⟩
      show (fs'.node? loc).elim _ _ = _
      rw [hnode]
      rfl

/-- What is at these locations, and nothing else. -/
def restrict (fs : Fs ν) (K : List ν → Prop) [DecidablePred K]
    (hK : Upward K) : Fs ν where
  nodes := fs.nodes.filterKeys K
  root := by
    rw [Dict.get?_filterKeys, if_pos hK.root]
    exact fs.root
  parent := by
    intro d n h
    rw [Dict.get?_filterKeys] at h
    split at h
    · next hn =>
        have hd := hK.up _ hn
        rw [List.dropLast_concat] at hd
        rw [Dict.get?_filterKeys, if_pos hd]
        exact fs.parent d n h
    · exact absurd rfl h

variable (fs) in
theorem node?_restrict [DecidablePred K] (hK : Upward K) (l : List ν) :
    (fs.restrict K hK).node? l = if K l then fs.node? l else none :=
  Dict.get?_filterKeys _ _ _

/-! ## In and above a directory -/

/-- In the subtree at `loc`, or on the way to it. -/
def Near (loc l : List ν) : Prop := l <+: loc ∨ loc <+: l

omit [DecidableEq ν] in
theorem upward_near (loc : List ν) : Upward (Near loc) where
  root := .inl (List.nil_prefix)
  up l h := by
    have hup := List.dropLast_prefix l
    rcases h with h | h
    · exact .inl (hup.trans h)
    · rcases List.prefix_or_prefix_of_prefix hup h with h | h
      · exact .inl h
      · exact .inr h

/-- The same nodes in the subtree. -/
def SameBelow (loc : List ν) (fs fs' : Fs ν) : Prop :=
  ∀ l, loc <+: l → fs'.node? l = fs.node? l

theorem SameBelow.near {loc : List ν} (h : SameBelow loc fs fs')
    (hloc : fs.node? loc = some .dir) {l : List ν} (hl : Near loc l) :
    fs'.node? l = fs.node? l := by
  rcases hl with hl | hl
  · by_cases heq : l = loc
    · rw [heq]
      exact h loc List.prefix_rfl
    · have hloc' : fs'.node? loc = some .dir := by
        rw [h loc List.prefix_rfl, hloc]
      have hne : fs.node? loc ≠ none := by simp [hloc]
      have hne' : fs'.node? loc ≠ none := by simp [hloc']
      rw [dir_above hne hl heq, dir_above hne' hl heq]
  · exact h l hl

end Lib.Fs
