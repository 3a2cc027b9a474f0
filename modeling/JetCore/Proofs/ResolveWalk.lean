import JetCore.Proofs.Resolve
import JetCore.Spec.FileCommands

/-!
# `resolve` and the kernel agree

Where the kernel's walk over the same components arrives, `_joinrealpath` does
not stop at a loop and returns the location the walk arrived at. What carries
the induction is the number of links the walk may still follow: each link in
`seen` that is still being resolved needs at least that many, so the walk
cannot come to one of them, and a link it does come to is given the least
number it can be resolved with (`Pending`).

So an existing directory, spelled in any way, is resolved to its own location.
-/

namespace JetCore

open Lib

variable {fs : Fs FileName}

/-! ## Components -/

/-- What the kernel makes of what stands between two slashes. -/
inductive Means : Text → Comp FileName → Prop
  | empty : Means [] .empty
  | dot : Means dotText .dot
  | dotdot : Means dotdotText .dotdot
  | name {t : Text} {n : FileName} : encodeName t = .ok n → Means t (.name n)

theorem means_text (c : Comp FileName) : Means (Comp.text c) c := by
  cases c with
  | empty => exact .empty
  | dot => exact .dot
  | dotdot => exact .dotdot
  | name n => exact .name (encodeName_text n)

theorem means_texts (comps : List (Comp FileName)) :
    List.Forall₂ Means (comps.map Comp.text) comps := by
  induction comps with
  | nil => exact .nil
  | cons c comps ih => exact .cons (means_text c) ih

theorem means_of_kernelComp {t : Text} {c : Comp FileName}
    (h : kernelComp t = .ok c) : Means t c := by
  rw [kernelComp] at h
  split at h
  · next ht =>
      cases h
      rw [ht]
      exact .empty
  split at h
  · next ht =>
      cases h
      rw [ht]
      exact .dot
  split at h
  · next ht =>
      cases h
      rw [ht]
      exact .dotdot
  cases hn : encodeName t with
  | error e =>
      rw [hn] at h
      cases h
  | ok n =>
      rw [hn] at h
      cases h
      exact .name hn

theorem means_of_mapM : ∀ {parts : List Text} {comps : List (Comp FileName)},
    parts.mapM kernelComp = .ok comps → List.Forall₂ Means parts comps := by
  intro parts
  induction parts with
  | nil =>
      intro comps h
      cases h
      exact .nil
  | cons t parts ih =>
      intro comps h
      rw [List.mapM_cons] at h
      obtain ⟨c, hc, h⟩ := bind_eq_ok.mp h
      obtain ⟨rest, hrest, h⟩ := bind_eq_ok.mp h
      cases h
      exact .cons (means_of_kernelComp hc) (ih hrest)

/-! ## The links met so far -/

/-- The text names a link by its last component. -/
structure NamesLink (fs : Fs FileName) (path : List Text) (name : Text)
    (d : Location) (t : LinkTarget FileName) : Prop where
  spells : Spells path d
  node : ∃ n, encodeName name = .ok n ∧ fs.node? (d ++ [n]) = some (.link t)

/-- What is remembered of links is where they lead. -/
def Known (fs : Fs FileName) (seen : Seen) : Prop :=
  ∀ {path name d t path'}, NamesLink fs path name d t →
    seen.get? (path ++ [name]) = some (some path') →
      ∃ links loc, fs.Leads links d t loc ∧ Spells path' loc

/-- No link that is being resolved leads anywhere with fewer links. -/
def Pending (fs : Fs FileName) (links : ℕ) (seen : Seen) : Prop :=
  ∀ {path name d t}, NamesLink fs path name d t →
    seen.get? (path ++ [name]) = some none →
      ∀ left < links, ∀ loc, ¬ fs.Leads left d t loc

theorem NamesLink.unique {path path' : List Text} {name name' : Text}
    {d d' : Location} {t t' : LinkTarget FileName}
    (h : NamesLink fs path name d t) (h' : NamesLink fs path' name' d' t')
    (heq : path ++ [name] = path' ++ [name']) : d = d' ∧ t = t' := by
  obtain ⟨rfl, rfl⟩ := Fs.append_singleton_inj heq
  obtain rfl : d = d' := by
    have hd := h.spells
    rw [Spells, h'.spells] at hd
    exact (Except.ok.inj hd).symm
  obtain ⟨n, hn, hnode⟩ := h.node
  obtain ⟨n', hn', hnode'⟩ := h'.node
  rw [hn] at hn'
  obtain rfl := Except.ok.inj hn'
  rw [hnode] at hnode'
  exact ⟨rfl, Node.link.inj (Option.some.inj hnode')⟩

theorem known_empty (fs : Fs FileName) : Known fs Dict.empty := by
  intro path name d t path' _ h
  cases h

theorem pending_empty (fs : Fs FileName) (links : ℕ) :
    Pending fs links Dict.empty := by
  intro path name d t _ h
  cases h

theorem Known.begin {seen : Seen} (h : Known fs seen) (key : List Text) :
    Known fs (seen.set key none) := by
  intro path name d t path' hlink hget
  rw [Dict.get?_set] at hget
  split at hget
  · cases hget
  · exact h hlink hget

theorem Known.finish {seen : Seen} (h : Known fs seen) {path : List Text}
    {name : Text} {d : Location} {t : LinkTarget FileName}
    (hlink : NamesLink fs path name d t) {links : ℕ} {loc : Location}
    (hleads : fs.Leads links d t loc) {path' : List Text}
    (hspells : Spells path' loc) :
    Known fs (seen.set (path ++ [name]) (some path')) := by
  intro p m d' t' p' hlink' hget
  rw [Dict.get?_set] at hget
  split at hget
  · next heq =>
      obtain ⟨rfl, rfl⟩ := hlink'.unique hlink heq
      obtain rfl := Option.some.inj (Option.some.inj hget)
      exact ⟨links, loc, hleads, hspells⟩
  · exact h hlink' hget

theorem Pending.mono {seen seen' : Seen} {links links' : ℕ}
    (h : Pending fs links seen) (hle : links' ≤ links)
    (hsub : ∀ key, seen'.get? key = some none → seen.get? key = some none) :
    Pending fs links' seen' := by
  intro path name d t hlink hget left hlt
  exact h hlink (hsub _ hget) left (by omega)

/-- A link that is begun with the fewest links it needs. -/
theorem Pending.begin {seen : Seen} {links least : ℕ}
    (h : Pending fs links seen) (hle : least ≤ links) {path : List Text}
    {name : Text} {d : Location} {t : LinkTarget FileName}
    (hlink : NamesLink fs path name d t)
    (hleast : ∀ left < least, ∀ loc, ¬ fs.Leads left d t loc) :
    Pending fs least (seen.set (path ++ [name]) none) := by
  intro p m d' t' hlink' hget left hlt
  rw [Dict.get?_set] at hget
  split at hget
  · next heq =>
      obtain ⟨rfl, rfl⟩ := hlink'.unique hlink heq
      exact hleast left hlt
  · exact h hlink' hget left (by omega)

/-! ## The agreement -/

/-- Without a loop, at the location, and nothing new is being resolved. -/
structure Arrives (fs : Fs FileName) (seen : Seen) (loc : Location)
    (joined : Joined) : Prop where
  ok : joined.ok = true
  spells : Spells joined.path loc
  known : Known fs joined.seen
  pending : ∀ key, joined.seen.get? key = some none →
    seen.get? key = some none

variable
  {follow : List Text → LinkTarget FileName → Seen → Except Exn Joined}

theorem AtName.of_plain {path : List Text} {d : Location} {name : Text}
    {rest : List Text} {seen : Seen} {joined : Joined} {n : FileName}
    (h : AtName fs follow path d name rest seen joined)
    (hn : encodeName name = .ok n)
    (hplain : ∀ t, fs.node? (d ++ [n]) ≠ some (.link t)) :
    joinLoop fs follow (path ++ [name]) rest seen = .ok joined := by
  have hno : ∀ {n' t}, encodeName name = .ok n' →
      fs.node? (d ++ [n']) ≠ some (.link t) := by
    intro n' t hn' ht
    rw [hn] at hn'
    cases hn'
    exact hplain t ht
  cases h with
  | plain _ _ h => exact h
  | known hn' ht => exact absurd ht (hno hn')
  | loop hn' ht => exact absurd ht (hno hn')
  | resolved hn' ht => exact absurd ht (hno hn')
  | stopped hn' ht => exact absurd ht (hno hn')

/-- At a link that leads somewhere the loop goes on from there, whether the
link was met before or is followed now. -/
theorem AtName.of_link
    (hfollow : ∀ {path d t seen links loc joined}, Spells path d →
      fs.node? d = some .dir → Known fs seen → Pending fs links seen →
      fs.Leads links d t loc → follow path t seen = .ok joined →
        Arrives fs seen loc joined)
    {path : List Text} {d : Location} {name : Text} {rest : List Text}
    {seen : Seen} {joined : Joined} {t : LinkTarget FileName}
    (h : AtName fs follow path d name rest seen joined)
    (hdir : fs.node? d = some .dir) (hlink : NamesLink fs path name d t)
    {links left : ℕ} (hlt : left < links) {mid : Location}
    (hleads : fs.Leads left d t mid) (hknown : Known fs seen)
    (hpending : Pending fs links seen) :
    ∃ path' seen', Spells path' mid ∧ Known fs seen' ∧
      (∀ key, seen'.get? key = some none → seen.get? key = some none) ∧
      joinLoop fs follow path' rest seen' = .ok joined := by
  obtain ⟨n, hn, ht⟩ := hlink.node
  -- what following it comes to, when it is new
  have hinner : ∀ {inner}, follow path t (seen.set (path ++ [name]) none) =
      .ok inner → Arrives fs (seen.set (path ++ [name]) none) mid inner := by
    intro inner h
    classical
    have hsome : ∃ links, fs.Leads links d t mid := ⟨left, hleads⟩
    have hle : Nat.find hsome ≤ links := by
      have := Nat.find_min' hsome hleads
      omega
    refine hfollow hlink.spells hdir (hknown.begin _)
      (hpending.begin hle hlink fun less hless loc hloc => ?_)
      (Nat.find_spec hsome) h
    rw [hloc.unique hleads] at hloc
    exact Nat.find_min hsome hless hloc
  cases h with
  | plain hn' hplain =>
      rw [hn] at hn'
      cases hn'
      exact absurd ht (hplain t)
  | @known _ _ path' _ _ hseen h =>
      obtain ⟨links', loc, hloc, hspells⟩ := hknown hlink hseen
      rw [hloc.unique hleads] at hspells
      exact ⟨path', seen, hspells, hknown, fun _ h => h, h⟩
  | loop _ _ hseen =>
      exact absurd hleads (hpending hlink hseen left hlt mid)
  | @resolved n' t' inner hn' ht' hnew hfollowed hok h =>
      rw [hn] at hn'
      cases hn'
      rw [ht] at ht'
      cases ht'
      have harrives := hinner hfollowed
      refine ⟨inner.path, _, harrives.spells,
        Known.finish harrives.known hlink hleads harrives.spells, ?_, h⟩
      intro key hkey
      rw [Dict.get?_set] at hkey
      split at hkey
      · cases hkey
      · next hne =>
          have hkey := harrives.pending key hkey
          rw [Dict.get?_set_of_ne _ _ hne] at hkey
          exact hkey
  | @stopped n' t' inner hn' ht' hnew hfollowed hok =>
      rw [hn] at hn'
      cases hn'
      rw [ht] at ht'
      cases ht'
      rw [(hinner hfollowed).ok] at hok
      cases hok

theorem joinLoop_walk
    (hfollow : ∀ {path d t seen links loc joined}, Spells path d →
      fs.node? d = some .dir → Known fs seen → Pending fs links seen →
      fs.Leads links d t loc → follow path t seen = .ok joined →
        Arrives fs seen loc joined) {loc : Location} {joined : Joined} :
    ∀ {rest : List Text} {comps : List (Comp FileName)} {path : List Text}
      {d : Location} {seen : Seen} {links : ℕ},
      List.Forall₂ Means rest comps → Spells path d →
      fs.Reaches links d comps loc → Known fs seen → Pending fs links seen →
      joinLoop fs follow path rest seen = .ok joined →
        Arrives fs seen loc joined := by
  intro rest comps path d seen links hmeans
  induction hmeans generalizing path d seen with
  | nil =>
      intro hspells hreaches hknown hpending h
      cases h
      exact ⟨rfl, Fs.reaches_nil hreaches ▸ hspells, hknown, fun _ h => h⟩
  | @cons name c rest comps hname _ ih =>
      intro hspells hreaches hknown hpending h
      cases hname with
      | empty =>
          rw [joinLoop, if_pos (.inl rfl)] at h
          exact ih hspells (hreaches.skip (.inl rfl)) hknown hpending h
      | dot =>
          rw [joinLoop, if_pos (.inr rfl)] at h
          exact ih hspells (hreaches.skip (.inr rfl)) hknown hpending h
      | dotdot =>
          rw [joinLoop, if_neg (by decide), if_pos rfl] at h
          exact ih (spells_dropLast hspells) hreaches.up hknown hpending h
      | @name _ n hn =>
          obtain ⟨hnil, hdot, hup⟩ := encodeName_ne hn
          have hdir := hreaches.dir.1
          have hat := joinLoop_name hspells
            (Fs.linkFree_of_dir hdir) (not_or.mpr ⟨hnil, hdot⟩) hup h
          rcases hreaches.name with ⟨hplain, hreaches⟩ |
            ⟨t, left, mid, ht, hlt, hleads, hreaches⟩
          · exact ih (spells_concat.mpr ⟨d, n, hspells, hn, rfl⟩) hreaches
              hknown hpending (hat.of_plain hn hplain)
          · have hlink : NamesLink fs path name d t := ⟨hspells, n, hn, ht⟩
            obtain ⟨path', seen', hspells', hknown', hsub, h⟩ := hat.of_link
              hfollow hdir hlink hlt hleads hknown hpending
            have harrives := ih hspells' hreaches hknown'
              (hpending.mono le_rfl hsub) h
            exact { harrives with
              pending := fun key hkey => hsub key (harrives.pending key hkey) }

theorem joinrealpath_walk {depth : ℕ} : ∀ {rest : List Text}
    {comps : List (Comp FileName)} {path : List Text} {d : Location}
    {seen : Seen} {links : ℕ} {loc : Location} {joined : Joined},
      List.Forall₂ Means rest comps → Spells path d →
      fs.Reaches links d comps loc → Known fs seen → Pending fs links seen →
      joinrealpath fs depth path rest seen = .ok joined →
        Arrives fs seen loc joined := by
  induction depth with
  | zero =>
      intro rest comps path d seen links loc joined _ _ _ _ _ h
      cases h
  | succ depth ih =>
      intro rest comps path d seen links loc joined hmeans hspells hreaches
        hknown hpending h
      refine joinLoop_walk (fun hspells hdir hknown hpending hleads h => ?_)
        hmeans hspells hreaches hknown hpending h
      next path d t seen links loc joined =>
        rw [Fs.Leads] at hleads
        refine ih (means_texts t.comps) (d := if t.absolute then [] else d) ?_
          (.inr ⟨?_, hleads⟩) hknown hpending h
        · split
          · exact spells_nil
          · exact hspells
        · split
          · exact fs.node?_nil
          · exact hdir

/-! ## `resolve` -/

theorem encode_error {parts : List Text} {e : Exn}
    (h : encodeParts parts = .error e) : ∀ errno, e ≠ .osError errno := by
  induction parts with
  | nil => cases h
  | cons t parts ih =>
      rw [encode_cons] at h
      cases ht : encodeName t with
      | error e' =>
          rw [ht] at h
          cases h
          rw [encodeName] at ht
          split at ht
          · cases ht
            simp
          · split at ht
            · cases ht
            · cases ht
              simp
      | ok n =>
          rw [ht] at h
          cases hrest : encodeParts parts with
          | error e' =>
              rw [hrest] at h
              cases h
              exact ih hrest
          | ok names =>
              rw [hrest] at h
              cases h

/-- `resolve` returns what `realpath` does if a call on it can be made and
does not end in a loop. -/
theorem resolve_eq_ok {p q : PosixPath} {depth : ℕ} :
    p.resolve fs depth = .ok q ↔ realpath fs depth p.parts = .ok q ∧
      ∃ names, Spells q.parts names ∧ fs.stat names ≠ .error .eloop := by
  rw [PosixPath.resolve, bind_eq_ok]
  constructor
  · intro h
    obtain ⟨resolved, hreal, h⟩ := h
    simp only [PosixPath.stat] at h
    cases hnames : resolved.encode with
    | error e =>
        rw [hnames] at h
        simp only [bind, Except.bind] at h
        split at h
        · cases h
        · next herr =>
            exact absurd (Except.error.inj herr) (encode_error hnames _)
        · cases h
        · next herr => cases herr
    | ok names =>
        rw [hnames] at h
        simp only [bind, Except.bind] at h
        cases hstat : fs.stat names with
        | ok node =>
            rw [hstat] at h
            cases h
            exact ⟨hreal, names, hnames, by simp [hstat]⟩
        | error errno =>
            rw [hstat] at h
            cases errno with
            | eloop => cases h
            | _ =>
                cases h
                exact ⟨hreal, names, hnames, by simp [hstat]⟩
  · intro h
    obtain ⟨hreal, names, hnames, hstat⟩ := h
    refine ⟨q, hreal, ?_⟩
    simp only [PosixPath.stat]
    rw [PosixPath.encode, hnames]
    simp only [bind, Except.bind]
    cases hstat' : fs.stat names with
    | ok node => rfl
    | error errno =>
        cases errno with
        | eloop => exact absurd hstat' hstat
        | _ => rfl

/-- An existing directory is resolved to its location. -/
theorem ExistingDir.realpath {p q : PosixPath} {loc : Location} {depth : ℕ}
    (h : ExistingDir fs p loc) (hreal : realpath fs depth p.parts = .ok q) :
    Spells q.parts loc := by
  obtain ⟨joined, hjoined, hnorm⟩ := bind_eq_ok.mp hreal
  obtain ⟨comps, hcomps, hwalk⟩ := bind_eq_ok.mp h.walk
  have hwalk : fs.walk Fs.maxLinks [] comps = .ok loc := by
    cases hloc : fs.walk Fs.maxLinks [] comps with
    | error e =>
        rw [hloc] at hwalk
        cases hwalk
    | ok loc' =>
        rw [hloc] at hwalk
        cases hwalk
        rfl
  have harrives := joinrealpath_walk (means_of_mapM hcomps) spells_nil
    (.inr ⟨fs.node?_nil, hwalk⟩) (known_empty fs) (pending_empty fs _) hjoined
  have hq : normpath joined.path = q := Except.ok.inj hnorm
  rw [normpath_spells harrives.spells] at hq
  rw [← hq]
  exact harrives.spells

theorem ExistingDir.resolve {p q : PosixPath} {loc : Location} {depth : ℕ}
    (h : ExistingDir fs p loc) (hq : p.resolve fs depth = .ok q) :
    Spells q.parts loc :=
  h.realpath (resolve_eq_ok.mp hq).1

end JetCore
