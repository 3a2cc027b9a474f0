import JetCore.Lib.FsWalk
import JetCore.Ref.FileWorld

/-!
# Where `resolve` leads

Unless `_joinrealpath` stopped at a loop, no prefix of the path it returns is a
link: it only ever extends a path without links by a name that is none, and
what it remembers of links are such paths too (`joinrealpath_clean`). And the
links are all it depends on: two filesystems with the same links in the same
places resolve every path alike (`joinrealpath_links`).

What a path without links does to the calls made on it is in the library. The
rest is about `encode`, which is a renaming of the components.
-/

namespace JetCore

open Lib

/-! ## Names and texts -/

theorem fsencode_cons (c : CodePoint) (t : Text) :
    fsencode (c :: t) = (fsencodePoint c).bind fun b =>
      (fsencode t).map (b ++ ·) := by
  rw [fsencode, fsencode, List.mapM_cons]
  cases fsencodePoint c with
  | none => rfl
  | some b =>
      cases t.mapM fsencodePoint with
      | none => rfl
      | some bs => rfl

theorem fsencodePoint_escape {b : UInt8} (hb : 0x80 ≤ b.toNat)
    (h : 0xDC00 + b.toNat < 0x110000) :
    fsencodePoint ⟨0xDC00 + b.toNat, h⟩ = some [b] := by
  have hlt := b.toNat_lt
  rw [fsencodePoint, if_pos (by simp only []; omega)]
  simp

theorem step_ascii {b : UInt8} {rest : Bytes} (hb : b.toNat < 0x80) :
    Utf8.step (b :: rest) = some (⟨b.toNat, by omega⟩, rest) := by
  rw [Utf8.step.eq_def]
  simp only []
  rw [if_pos hb, Utf8.point, dif_pos (by omega)]
  rfl

/-- What is read off the front is encoded as what was read. -/
theorem fsencodePoint_fsdecodePoint (b : UInt8) (rest : Bytes) :
    ∃ read, fsencodePoint (fsdecodePoint (b :: rest)).1 = some read ∧
      read ++ (fsdecodePoint (b :: rest)).2 = b :: rest ∧ read ≠ [] := by
  by_cases hb : b.toNat < 0x80
  · have hpoint : fsencodePoint ⟨b.toNat, by omega⟩ =
        some (Utf8.encodePoint ⟨b.toNat, by omega⟩) := by
      rw [fsencodePoint, if_neg (by simp only []; omega), if_neg]
      simp [Text.isSurrogate]
      omega
    have hencode : Utf8.encodePoint ⟨b.toNat, by omega⟩ = [b] := by
      rw [Utf8.encodePoint, if_pos hb]
      simp
    refine ⟨[b], ?_, ?_, List.cons_ne_nil b []⟩
    · rw [fsdecodePoint, step_ascii hb]
      simp only []
      rw [if_pos ⟨hpoint, by rw [hencode]; rfl⟩, hpoint, hencode]
    · rw [fsdecodePoint, step_ascii hb]
      simp only []
      rw [if_pos ⟨hpoint, by rw [hencode]; rfl⟩]
      rfl
  · have hescape := fsencodePoint_escape (b := b) (by omega)
      (by have := b.toNat_lt; omega)
    rw [fsdecodePoint]
    split
    · next c rest' hstep =>
        split
        · next h =>
            exact ⟨_, h.1, h.2, Utf8.encodePoint_ne_nil c⟩
        · exact ⟨[b], hescape, rfl, List.cons_ne_nil b []⟩
    · exact ⟨[b], hescape, rfl, List.cons_ne_nil b []⟩

theorem fsencode_fsdecodeFuel : ∀ (n : ℕ) (b : Bytes), b.length ≤ n →
    fsencode (fsdecodeFuel n b) = some b := by
  intro n
  induction n with
  | zero =>
      intro b hb
      rw [List.length_eq_zero_iff.mp (Nat.le_zero.mp hb)]
      rfl
  | succ n ih =>
      intro b hb
      cases b with
      | nil => rfl
      | cons b rest =>
          obtain ⟨read, hread, hwhole, hne⟩ :=
            fsencodePoint_fsdecodePoint b rest
          have hlen := congrArg List.length hwhole
          have hpos := List.length_pos_iff.mpr hne
          rw [List.length_append] at hlen
          rw [fsdecodeFuel, fsencode_cons, hread, ih _ (by omega)]
          exact congrArg some hwhole

/-- Every name comes back from its text. -/
theorem encodeName_text (n : FileName) : encodeName n.text = .ok n := by
  rw [encodeName, FileName.text, fsdecode, fsencode_fsdecodeFuel _ _ le_rfl]
  simp only []
  rw [dif_pos n.property]

theorem encodeName_ne {t : Text} {n : FileName} (h : encodeName t = .ok n) :
    t ≠ [] ∧ t ≠ dotText ∧ t ≠ dotdotText := by
  refine ⟨?_, ?_, ?_⟩
  · rintro rfl
    cases h
  · rintro rfl
    cases h
  · rintro rfl
    cases h

/-! ## Encoding a path -/

/-- The components of a path are the names, each as the calls encode it. -/
abbrev Spells (parts : List Text) (names : Location) : Prop :=
  encodeParts parts = .ok names

theorem encode_cons (t : Text) (parts : List Text) :
    encodeParts (t :: parts) = (do
      let n ← encodeName t
      let names ← encodeParts parts
      .ok (n :: names)) :=
  List.mapM_cons

theorem spells_nil : Spells [] [] := rfl

theorem spells_cons {t : Text} {parts : List Text} {names : Location} :
    Spells (t :: parts) names ↔
      ∃ n rest, encodeName t = .ok n ∧ Spells parts rest ∧
        names = n :: rest := by
  rw [Spells, encode_cons, bind_eq_ok]
  constructor
  · intro h
    obtain ⟨n, hn, h⟩ := h
    obtain ⟨rest, hrest, h⟩ := bind_eq_ok.mp h
    exact ⟨n, rest, hn, hrest, (Except.ok.inj h).symm⟩
  · intro h
    obtain ⟨n, rest, hn, hrest, rfl⟩ := h
    exact ⟨n, hn, bind_eq_ok.mpr ⟨rest, hrest, rfl⟩⟩

theorem spells_append {parts parts' : List Text} : ∀ {names : Location},
    Spells (parts ++ parts') names ↔
      ∃ a b, Spells parts a ∧ Spells parts' b ∧ names = a ++ b := by
  induction parts with
  | nil =>
      intro names
      constructor
      · exact fun h => ⟨[], names, rfl, h, rfl⟩
      · intro h
        obtain ⟨a, b, ha, hb, rfl⟩ := h
        cases ha
        exact hb
  | cons t parts ih =>
      intro names
      rw [List.cons_append, spells_cons]
      constructor
      · intro h
        obtain ⟨n, rest, hn, hrest, rfl⟩ := h
        obtain ⟨a, b, ha, hb, rfl⟩ := ih.mp hrest
        exact ⟨n :: a, b, spells_cons.mpr ⟨n, a, hn, ha, rfl⟩, hb, rfl⟩
      · intro h
        obtain ⟨a, b, ha, hb, rfl⟩ := h
        obtain ⟨n, a', hn, ha', rfl⟩ := spells_cons.mp ha
        exact ⟨n, a' ++ b, hn, ih.mpr ⟨a', b, ha', hb, rfl⟩, rfl⟩

theorem spells_concat {parts : List Text} {t : Text} {names : Location} :
    Spells (parts ++ [t]) names ↔
      ∃ d n, Spells parts d ∧ encodeName t = .ok n ∧ names = d ++ [n] := by
  rw [spells_append]
  constructor
  · intro h
    obtain ⟨d, b, hd, hb, rfl⟩ := h
    obtain ⟨n, rest, hn, hrest, rfl⟩ := spells_cons.mp hb
    cases hrest
    exact ⟨d, n, hd, hn, rfl⟩
  · intro h
    obtain ⟨d, n, hd, hn, rfl⟩ := h
    exact ⟨d, [n], hd, spells_cons.mpr ⟨n, [], hn, rfl, rfl⟩, rfl⟩

theorem spells_dropLast {parts : List Text} {names : Location}
    (h : Spells parts names) : Spells parts.dropLast names.dropLast := by
  rcases List.eq_nil_or_concat parts with rfl | ⟨init, t, rfl⟩
  · cases h
    rfl
  · rw [List.concat_eq_append] at h ⊢
    obtain ⟨d, n, hd, -, rfl⟩ := spells_concat.mp h
    rw [List.dropLast_concat, List.dropLast_concat]
    exact hd

/-- A path that can be encoded has names for components only. -/
theorem normpath_spells {parts : List Text} {names : Location}
    (h : Spells parts names) : normpath parts = ⟨.slash, parts⟩ := by
  have hfrom : ∀ {rest names done}, Spells rest names →
      normFrom done rest = done ++ rest := by
    intro rest
    induction rest with
    | nil => exact fun _ => (List.append_nil _).symm
    | cons t rest ih =>
        intro names done h
        obtain ⟨n, names', hn, hrest, rfl⟩ := spells_cons.mp h
        obtain ⟨hnil, hdot, hdotdot⟩ := encodeName_ne hn
        rw [normFrom, if_neg (not_or.mpr ⟨hnil, hdot⟩), if_neg hdotdot,
          ih hrest, ← List.append_cons]
  have hroot : normRoot parts = .slash := by
    cases parts with
    | nil => rfl
    | cons t parts =>
        obtain ⟨n, -, hn, -, -⟩ := spells_cons.mp h
        have hne := (encodeName_ne hn).1
        cases t with
        | nil => exact absurd rfl hne
        | cons c t => rfl
  rw [normpath, hroot, hfrom h]
  rfl

/-! ## `_joinrealpath` keeps off links -/

variable {fs : Fs FileName}

/-- A path that leads where it says. -/
def Clean (fs : Fs FileName) (path : List Text) : Prop :=
  ∃ names, Spells path names ∧ fs.LinkFree names

def linkAt (fs : Fs FileName) (loc : Location) :
    Option (LinkTarget FileName) :=
  match fs.node? loc with
  | some (.link t) => some t
  | _ => none

theorem linkAt_eq_some {loc : Location} {t : LinkTarget FileName} :
    linkAt fs loc = some t ↔ fs.node? loc = some (.link t) := by
  rw [linkAt]
  split
  · next t' h =>
      rw [h]
      simp
  · next h =>
      constructor
      · exact nofun
      · exact fun hlink => absurd hlink (h t)

theorem linkAt_eq_none {loc : Location} :
    linkAt fs loc = none ↔ ∀ t, fs.node? loc ≠ some (.link t) := by
  rw [Option.eq_none_iff_forall_ne_some]
  exact forall_congr' fun t => not_congr linkAt_eq_some

theorem clean_nil (fs : Fs FileName) : Clean fs [] :=
  ⟨[], rfl, Fs.linkFree_nil fs⟩

theorem Clean.dropLast {path : List Text} (h : Clean fs path) :
    Clean fs path.dropLast := by
  obtain ⟨names, hspells, hfree⟩ := h
  exact ⟨names.dropLast, spells_dropLast hspells,
    hfree.front (List.dropLast_prefix names)⟩

theorem encode_concat (path : List Text) (t : Text) :
    encodeParts (path ++ [t]) = (do
      let d ← encodeParts path
      let n ← encodeName t
      .ok (d ++ [n])) := by
  rw [encodeParts, encodeParts, List.mapM_append]
  cases path.mapM encodeName with
  | error e => rfl
  | ok d =>
      simp only [List.mapM_cons, List.mapM_nil]
      cases encodeName t with
      | error e => rfl
      | ok n => rfl

/-- One component further, what is there is known by its location. -/
theorem readLink_clean {path : List Text} {d : Location} {name : Text}
    (hspells : Spells path d) (hfree : fs.LinkFree d) :
    readLink fs (path ++ [name]) =
      (encodeName name).map fun n => linkAt fs (d ++ [n]) := by
  rw [readLink, encode_concat, hspells]
  cases encodeName name with
  | error e => rfl
  | ok n =>
      show _ = Except.ok (linkAt fs (d ++ [n]))
      simp only [bind, Except.bind]
      by_cases hd : fs.node? d = some .dir
      · rw [Fs.lstat_in_dir hd, linkAt]
        cases fs.node? (d ++ [n]) with
        | none => rfl
        | some node =>
            cases node with
            | dir => rfl
            | file content => rfl
            | link t => rfl
      · obtain ⟨e, he⟩ := Fs.lstat_blocked (n := n) hfree hd
        rw [he, linkAt, Fs.node?_below hd (List.cons_ne_nil n [])]

/-- What is remembered of the links are paths that lead where they say. -/
def SeenClean (fs : Fs FileName) (seen : Seen) : Prop :=
  ∀ key path, seen.get? key = some (some path) → Clean fs path

theorem seenClean_empty (fs : Fs FileName) : SeenClean fs Dict.empty := by
  intro key path h
  cases h

theorem SeenClean.set {seen : Seen} (h : SeenClean fs seen)
    {key : List Text} {value : Option (List Text)}
    (hvalue : ∀ path, value = some path → Clean fs path) :
    SeenClean fs (seen.set key value) := by
  intro key' path hget
  rw [Dict.get?_set] at hget
  split at hget
  · exact hvalue path (Option.some.inj hget)
  · exact h key' path hget

/-- What the loop does at a name. -/
inductive AtName (fs : Fs FileName)
    (follow : List Text → LinkTarget FileName → Seen → Except Exn Joined)
    (path : List Text) (d : Location) (name : Text) (rest : List Text)
    (seen : Seen) (joined : Joined) : Prop
  /-- It is no link. -/
  | plain {n : FileName} : encodeName name = .ok n →
      (∀ t, fs.node? (d ++ [n]) ≠ some (.link t)) →
      joinLoop fs follow (path ++ [name]) rest seen = .ok joined →
      AtName fs follow path d name rest seen joined
  /-- A link that was resolved before. -/
  | known {n : FileName} {target : LinkTarget FileName} {path' : List Text} :
      encodeName name = .ok n →
      fs.node? (d ++ [n]) = some (.link target) →
      seen.get? (path ++ [name]) = some (some path') →
      joinLoop fs follow path' rest seen = .ok joined →
      AtName fs follow path d name rest seen joined
  /-- A link that is being resolved. -/
  | loop {n : FileName} {target : LinkTarget FileName} :
      encodeName name = .ok n →
      fs.node? (d ++ [n]) = some (.link target) →
      seen.get? (path ++ [name]) = some none →
      joined = ⟨joinRest (path ++ [name]) rest, false, seen⟩ →
      AtName fs follow path d name rest seen joined
  /-- A link that was resolved now. -/
  | resolved {n : FileName} {target : LinkTarget FileName} {inner : Joined} :
      encodeName name = .ok n →
      fs.node? (d ++ [n]) = some (.link target) →
      seen.get? (path ++ [name]) = none →
      follow path target (seen.set (path ++ [name]) none) = .ok inner →
      inner.ok = true →
      joinLoop fs follow inner.path rest
        (inner.seen.set (path ++ [name]) (some inner.path)) = .ok joined →
      AtName fs follow path d name rest seen joined
  /-- A link on whose way there is a loop. -/
  | stopped {n : FileName} {target : LinkTarget FileName} {inner : Joined} :
      encodeName name = .ok n →
      fs.node? (d ++ [n]) = some (.link target) →
      seen.get? (path ++ [name]) = none →
      follow path target (seen.set (path ++ [name]) none) = .ok inner →
      inner.ok = false →
      joined = ⟨joinRest inner.path rest, false, inner.seen⟩ →
      AtName fs follow path d name rest seen joined

variable
  {follow : List Text → LinkTarget FileName → Seen → Except Exn Joined}

theorem joinLoop_name {path : List Text} {d : Location} {name : Text}
    {rest : List Text} {seen : Seen} {joined : Joined}
    (hspells : Spells path d) (hfree : fs.LinkFree d)
    (hskip : ¬(name = [] ∨ name = dotText)) (hup : name ≠ dotdotText)
    (h : joinLoop fs follow path (name :: rest) seen = .ok joined) :
    AtName fs follow path d name rest seen joined := by
  rw [joinLoop, if_neg hskip, if_neg hup] at h
  obtain ⟨link, hlink, h⟩ := bind_eq_ok.mp h
  rw [readLink_clean hspells hfree] at hlink
  cases hname : encodeName name with
  | error e =>
      rw [hname] at hlink
      cases hlink
  | ok n =>
      rw [hname] at hlink
      obtain rfl : linkAt fs (d ++ [n]) = link := Except.ok.inj hlink
      split at h
      · next hnone => exact .plain hname (linkAt_eq_none.mp hnone) h
      · next target htarget =>
          rw [linkAt_eq_some] at htarget
          split at h
          · next path' hknown => exact .known hname htarget hknown h
          · next hloop =>
              exact .loop hname htarget hloop (Except.ok.inj h).symm
          · next hnew =>
              obtain ⟨inner, hinner, h⟩ := bind_eq_ok.mp h
              split at h
              · next hok => exact .resolved hname htarget hnew hinner hok h
              · next hok =>
                  rw [Bool.not_eq_true] at hok
                  exact .stopped hname htarget hnew hinner hok
                    (Except.ok.inj h).symm

/-- What the loop returns, given that for its calls at links. -/
theorem joinLoop_clean
    (hfollow : ∀ path target seen joined, Clean fs path → SeenClean fs seen →
      follow path target seen = .ok joined →
        SeenClean fs joined.seen ∧
          (joined.ok = true → Clean fs joined.path)) :
    ∀ (rest path : List Text) (seen : Seen) (joined : Joined),
      Clean fs path → SeenClean fs seen →
      joinLoop fs follow path rest seen = .ok joined →
        SeenClean fs joined.seen ∧
          (joined.ok = true → Clean fs joined.path) := by
  intro rest
  induction rest with
  | nil =>
      intro path seen joined hpath hseen h
      cases h
      exact ⟨hseen, fun _ => hpath⟩
  | cons name rest ih =>
      intro path seen joined hpath hseen h
      by_cases hskip : name = [] ∨ name = dotText
      · rw [joinLoop, if_pos hskip] at h
        exact ih path seen joined hpath hseen h
      by_cases hup : name = dotdotText
      · rw [joinLoop, if_neg hskip, if_pos hup] at h
        exact ih _ seen joined hpath.dropLast hseen h
      obtain ⟨d, hspells, hfree⟩ := hpath
      cases joinLoop_name hspells hfree hskip hup h with
      | @plain n hname hplain h =>
          refine ih _ seen joined ⟨d ++ [n], ?_, ?_⟩ hseen h
          · exact spells_concat.mpr ⟨d, n, hspells, hname, rfl⟩
          · exact Fs.linkFree_concat.mpr ⟨hfree, hplain⟩
      | known hname htarget hknown h =>
          exact ih _ seen joined (hseen _ _ hknown) hseen h
      | loop hname htarget hloop h =>
          subst h
          exact ⟨hseen, nofun⟩
      | resolved hname htarget hnew hinner hok h =>
          obtain ⟨hseen', hclean⟩ := hfollow _ _ _ _ ⟨d, hspells, hfree⟩
            (hseen.set (by nofun)) hinner
          refine ih _ _ joined (hclean hok) (hseen'.set fun p hp => ?_) h
          rw [← Option.some.inj hp]
          exact hclean hok
      | stopped hname htarget hnew hinner hok h =>
          subst h
          exact ⟨(hfollow _ _ _ _ ⟨d, hspells, hfree⟩ (hseen.set (by nofun))
            hinner).1, nofun⟩

theorem joinrealpath_clean : ∀ (depth : ℕ) (path rest : List Text)
    (seen : Seen) (joined : Joined), Clean fs path → SeenClean fs seen →
      joinrealpath fs depth path rest seen = .ok joined →
        SeenClean fs joined.seen ∧
          (joined.ok = true → Clean fs joined.path) := by
  intro depth
  induction depth with
  | zero =>
      intro path rest seen joined _ _ h
      cases h
  | succ depth ih =>
      intro path rest seen joined hpath hseen h
      refine joinLoop_clean (fun path target seen joined hpath hseen h => ?_)
        rest path seen joined hpath hseen h
      refine ih _ _ seen joined ?_ hseen h
      split
      · exact clean_nil fs
      · exact hpath

/-! ## Only the links matter -/

theorem joinLoop_of_atName {path : List Text} {d : Location} {name : Text}
    {rest : List Text} {seen : Seen} {joined : Joined}
    (hspells : Spells path d) (hfree : fs.LinkFree d)
    (hskip : ¬(name = [] ∨ name = dotText)) (hup : name ≠ dotdotText)
    (h : AtName fs follow path d name rest seen joined) :
    joinLoop fs follow path (name :: rest) seen = .ok joined := by
  have hread : ∀ {n}, encodeName name = .ok n →
      readLink fs (path ++ [name]) = .ok (linkAt fs (d ++ [n])) := by
    intro n hname
    rw [readLink_clean hspells hfree, hname]
    rfl
  rw [joinLoop, if_neg hskip, if_neg hup]
  refine bind_eq_ok.mpr ?_
  cases h with
  | plain hname hplain h =>
      exact ⟨none, by rw [hread hname, linkAt_eq_none.mpr hplain], h⟩
  | known hname htarget hknown h =>
      refine ⟨_, by rw [hread hname, linkAt_eq_some.mpr htarget], ?_⟩
      simp only [hknown]
      exact h
  | loop hname htarget hloop h =>
      refine ⟨_, by rw [hread hname, linkAt_eq_some.mpr htarget], ?_⟩
      simp only [hloop]
      rw [h]
  | resolved hname htarget hnew hinner hok h =>
      refine ⟨_, by rw [hread hname, linkAt_eq_some.mpr htarget], ?_⟩
      simp only [hnew]
      refine bind_eq_ok.mpr ⟨_, hinner, ?_⟩
      rw [if_pos hok]
      exact h
  | stopped hname htarget hnew hinner hok h =>
      refine ⟨_, by rw [hread hname, linkAt_eq_some.mpr htarget], ?_⟩
      simp only [hnew]
      refine bind_eq_ok.mpr ⟨_, hinner, ?_⟩
      rw [if_neg (by rw [hok]; exact Bool.false_ne_true), h]

/-- The same links. -/
def SameLinks (fs fs' : Fs FileName) : Prop :=
  ∀ loc t, fs'.node? loc = some (.link t) ↔ fs.node? loc = some (.link t)

theorem SameLinks.symm {fs' : Fs FileName} (h : SameLinks fs fs') :
    SameLinks fs' fs := fun loc t => (h loc t).symm

theorem SameLinks.linkFree {fs' : Fs FileName} (h : SameLinks fs fs')
    {loc : Location} (hfree : fs.LinkFree loc) : fs'.LinkFree loc :=
  fun p hp t ht => hfree p hp t ((h p t).mp ht)

theorem joinLoop_links {fs' : Fs FileName} (hlinks : SameLinks fs fs')
    {follow' : List Text → LinkTarget FileName → Seen → Except Exn Joined}
    (hfollow : ∀ path target seen joined, Clean fs path → SeenClean fs seen →
      follow path target seen = .ok joined →
        follow' path target seen = .ok joined ∧ SeenClean fs joined.seen ∧
          (joined.ok = true → Clean fs joined.path)) :
    ∀ (rest path : List Text) (seen : Seen) (joined : Joined),
      Clean fs path → SeenClean fs seen →
      joinLoop fs follow path rest seen = .ok joined →
        joinLoop fs' follow' path rest seen = .ok joined := by
  intro rest
  induction rest with
  | nil => exact fun path seen joined _ _ h => h
  | cons name rest ih =>
      intro path seen joined hpath hseen h
      by_cases hskip : name = [] ∨ name = dotText
      · rw [joinLoop, if_pos hskip] at h ⊢
        exact ih path seen joined hpath hseen h
      by_cases hup : name = dotdotText
      · rw [joinLoop, if_neg hskip, if_pos hup] at h ⊢
        exact ih _ seen joined hpath.dropLast hseen h
      obtain ⟨d, hspells, hfree⟩ := hpath
      refine joinLoop_of_atName hspells (hlinks.linkFree hfree) hskip hup ?_
      cases joinLoop_name hspells hfree hskip hup h with
      | @plain n hname hplain h =>
          refine .plain hname (fun t ht => hplain t ((hlinks _ t).mp ht))
            (ih _ seen joined ⟨d ++ [n], ?_, ?_⟩ hseen h)
          · exact spells_concat.mpr ⟨d, n, hspells, hname, rfl⟩
          · exact Fs.linkFree_concat.mpr ⟨hfree, hplain⟩
      | known hname htarget hknown h =>
          exact .known hname ((hlinks _ _).mpr htarget) hknown
            (ih _ seen joined (hseen _ _ hknown) hseen h)
      | loop hname htarget hloop h =>
          exact .loop hname ((hlinks _ _).mpr htarget) hloop h
      | resolved hname htarget hnew hinner hok h =>
          obtain ⟨hinner', hseen', hclean⟩ := hfollow _ _ _ _
            ⟨d, hspells, hfree⟩ (hseen.set (by nofun)) hinner
          refine .resolved hname ((hlinks _ _).mpr htarget) hnew hinner' hok
            (ih _ _ joined (hclean hok) (hseen'.set fun p hp => ?_) h)
          rw [← Option.some.inj hp]
          exact hclean hok
      | stopped hname htarget hnew hinner hok h =>
          obtain ⟨hinner', -, -⟩ := hfollow _ _ _ _
            ⟨d, hspells, hfree⟩ (hseen.set (by nofun)) hinner
          exact .stopped hname ((hlinks _ _).mpr htarget) hnew hinner' hok h

theorem joinrealpath_links {fs' : Fs FileName} (hlinks : SameLinks fs fs') :
    ∀ (depth : ℕ) (path rest : List Text) (seen : Seen) (joined : Joined),
      Clean fs path → SeenClean fs seen →
      joinrealpath fs depth path rest seen = .ok joined →
        joinrealpath fs' depth path rest seen = .ok joined := by
  intro depth
  induction depth with
  | zero =>
      intro path rest seen joined _ _ h
      cases h
  | succ depth ih =>
      intro path rest seen joined hpath hseen h
      refine joinLoop_links hlinks
        (fun path target seen joined hpath hseen h => ?_)
        rest path seen joined hpath hseen h
      have hstart : Clean fs (if target.absolute then [] else path) := by
        split
        · exact clean_nil fs
        · exact hpath
      exact ⟨ih _ _ seen joined hstart hseen h,
        joinrealpath_clean depth _ _ seen joined hstart hseen h⟩

theorem realpath_links {fs' : Fs FileName} (hlinks : SameLinks fs fs')
    {depth : ℕ} {path : List Text} {q : PosixPath}
    (h : realpath fs depth path = .ok q) :
    realpath fs' depth path = .ok q := by
  obtain ⟨joined, hjoined, h⟩ := bind_eq_ok.mp h
  exact bind_eq_ok.mpr ⟨joined, joinrealpath_links hlinks depth [] path
    Dict.empty joined (clean_nil fs) (seenClean_empty fs) hjoined, h⟩

end JetCore
