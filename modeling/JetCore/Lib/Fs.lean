import JetCore.Lib.Dict
import JetCore.Lib.Text

/-!
# A filesystem of directories, files and symbolic links

The nodes stand under their locations: the location of a node is the list of
names that leads to it from the root through directories only, so it names no
link on the way. A path is what a system call is given, and finding the
location it leads to is the kernel's walk: name by name, `..` going up from
where the walk stands, a link replaced by its target, at most `maxLinks` of
them altogether.

`locate` answers for a path whose last component may be missing, which is what
an `open` that creates needs. `entry` stands before the last component and does
not follow it, which is what `lstat`, `mkdir` and `unlink` need. The other
calls are these two and a look at the node.

Neither a name's form nor its length plays a part here, and no call fails for
a reason outside the tree.
-/

namespace Lib

universe u

inductive Errno where
  | enoent
  | enotdir
  | eisdir
  | eexist
  | eloop
  /-- Any other, a fault of the device among them. -/
  | other
  deriving DecidableEq

/-- What may stand between two slashes. -/
inductive Comp (ν : Type u) where
  | empty
  | dot
  | dotdot
  | name (n : ν)
  deriving DecidableEq

/-- Where a link leads, from the root or from the directory it is in. -/
structure LinkTarget (ν : Type u) where
  absolute : Bool
  comps : List (Comp ν)
  deriving DecidableEq

inductive Node (ν : Type u) where
  | dir
  | file (content : Bytes)
  | link (target : LinkTarget ν)
  deriving DecidableEq

/-- A filesystem: its nodes by location. -/
structure Fs (ν : Type u) [DecidableEq ν] where
  nodes : Dict (List ν) (Node ν)
  root : nodes.get? [] = some .dir
  /-- Every other node is in a directory. -/
  parent : ∀ d n, nodes.get? (d ++ [n]) ≠ none → nodes.get? d = some .dir

namespace Fs

variable {ν : Type u} [DecidableEq ν]

def node? (fs : Fs ν) (loc : List ν) : Option (Node ν) := fs.nodes.get? loc

/-- Nothing but the root. -/
def bare : Fs ν where
  nodes := Dict.empty.set [] .dir
  root := rfl
  parent := by
    intro d n h
    exact absurd (Dict.get?_set_of_ne _ _ (by simp)) h

/-! ## The walk -/

/-- The walk from the directory at `cur`. What becomes of it at a link is the
argument. -/
def walkWith (fs : Fs ν)
    (follow : List ν → List (Comp ν) → Except Errno (List ν)) :
    List ν → List (Comp ν) → Except Errno (List ν)
  | cur, [] => .ok cur
  | cur, .empty :: rest => fs.walkWith follow cur rest
  | cur, .dot :: rest => fs.walkWith follow cur rest
  | cur, .dotdot :: rest => fs.walkWith follow cur.dropLast rest
  | cur, .name n :: rest =>
      match fs.node? (cur ++ [n]) with
      | none => if rest = [] then .ok (cur ++ [n]) else .error .enoent
      | some .dir => fs.walkWith follow (cur ++ [n]) rest
      | some (.file _) =>
          if rest = [] then .ok (cur ++ [n]) else .error .enotdir
      | some (.link t) =>
          follow (if t.absolute then [] else cur) (t.comps ++ rest)

/-- The walk that may follow so many links. -/
def walk (fs : Fs ν) : ℕ → List ν → List (Comp ν) → Except Errno (List ν)
  | 0 => fs.walkWith fun _ _ => .error .eloop
  | links + 1 => fs.walkWith (fs.walk links)

/-- `MAXSYMLINKS` -/
def maxLinks : ℕ := 40

/-- Where an absolute path leads, its last component existing or not. -/
def locate (fs : Fs ν) (path : List ν) : Except Errno (List ν) :=
  fs.walk maxLinks [] (path.map .name)

def stat (fs : Fs ν) (path : List ν) : Except Errno (Node ν) := do
  let loc ← fs.locate path
  (fs.node? loc).elim (.error .enoent) .ok

def asDir (loc : List ν) : Option (Node ν) → Except Errno (List ν)
  | some .dir => .ok loc
  | some _ => .error .enotdir
  | none => .error .enoent

/-- The directory a path leads to. -/
def dirAt (fs : Fs ν) (path : List ν) : Except Errno (List ν) := do
  let loc ← fs.locate path
  asDir loc (fs.node? loc)

/-- The location a path names, its last component not followed. -/
def entry (fs : Fs ν) (path : List ν) : Except Errno (List ν) :=
  match path.getLast? with
  | none => .ok []
  | some n => do
      let d ← fs.dirAt path.dropLast
      .ok (d ++ [n])

def lstat (fs : Fs ν) (path : List ν) : Except Errno (Node ν) := do
  let loc ← fs.entry path
  (fs.node? loc).elim (.error .enoent) .ok

/-! ## Changing a node -/

/-- A node may be put here: the place is in a directory and is none itself. -/
def Open (fs : Fs ν) (d : List ν) (n : ν) : Prop :=
  fs.node? d = some .dir ∧ fs.node? (d ++ [n]) ≠ some .dir

instance (fs : Fs ν) (d : List ν) (n : ν) : Decidable (fs.Open d n) :=
  inferInstanceAs (Decidable (_ ∧ _))

omit [DecidableEq ν] in
theorem append_singleton_inj {d d' : List ν} {n n' : ν}
    (h : d ++ [n] = d' ++ [n']) : d = d' ∧ n = n' := by
  obtain ⟨hd, hn⟩ := List.append_inj' h rfl
  exact ⟨hd, List.singleton_inj.mp hn⟩

def put (fs : Fs ν) (d : List ν) (n : ν) (node : Node ν)
    (h : fs.Open d n) : Fs ν where
  nodes := fs.nodes.set (d ++ [n]) node
  root := by
    rw [Dict.get?_set_of_ne _ _ (by simp)]
    exact fs.root
  parent := by
    intro d' n' hne
    have hold : fs.nodes.get? (d' ++ [n']) ≠ none ∨ d' = d := by
      by_cases heq : d' ++ [n'] = d ++ [n]
      · exact .inr (append_singleton_inj heq).1
      · rw [Dict.get?_set_of_ne _ _ heq] at hne
        exact .inl hne
    have hdir : fs.nodes.get? d' = some .dir := by
      rcases hold with hold | rfl
      · exact fs.parent d' n' hold
      · exact h.1
    have hne' : d' ≠ d ++ [n] := by
      rintro rfl
      exact h.2 hdir
    rw [Dict.get?_set_of_ne _ _ hne']
    exact hdir

/-- Removes a node that is no directory. -/
def remove (fs : Fs ν) (loc : List ν) (h : fs.node? loc ≠ some .dir) :
    Fs ν where
  nodes := fs.nodes.pop loc
  root := by
    have hne : [] ≠ loc := by
      rintro rfl
      exact h fs.root
    rw [Dict.get?_pop_of_ne _ hne]
    exact fs.root
  parent := by
    intro d n hne
    have hold : fs.nodes.get? (d ++ [n]) ≠ none := by
      rw [Dict.get?_pop] at hne
      split at hne
      · exact absurd rfl hne
      · exact hne
    have hdir := fs.parent d n hold
    have hne' : d ≠ loc := by
      rintro rfl
      exact h hdir
    rw [Dict.get?_pop_of_ne _ hne']
    exact hdir

theorem node?_put (fs : Fs ν) {d : List ν} {n : ν} (node : Node ν)
    (h : fs.Open d n) (loc : List ν) :
    (fs.put d n node h).node? loc =
      if loc = d ++ [n] then some node else fs.node? loc :=
  Dict.get?_set _ _ _ _

theorem node?_remove (fs : Fs ν) {loc : List ν}
    (h : fs.node? loc ≠ some .dir) (loc' : List ν) :
    (fs.remove loc h).node? loc' =
      if loc' = loc then none else fs.node? loc' :=
  Dict.get?_pop _ _ _

theorem node?_bare (loc : List ν) :
    (bare : Fs ν).node? loc = if loc = [] then some .dir else none := by
  rw [node?, bare, Dict.get?_set]
  rfl

/-! ## System calls -/

/-- `mkdir`, and the location made. -/
def mkdir (fs : Fs ν) (path : List ν) : Except Errno (List ν × Fs ν) := do
  match path.getLast? with
  | none => .error .eexist
  | some n =>
      let d ← fs.dirAt path.dropLast
      if fs.node? (d ++ [n]) ≠ none then .error .eexist
      else if h : fs.Open d n then .ok (d ++ [n], fs.put d n .dir h)
      else .error .other

/-- `open` for writing, created or truncated. -/
def openTrunc (fs : Fs ν) (path : List ν) : Except Errno (List ν × Fs ν) := do
  let loc ← fs.locate path
  match loc.getLast? with
  | none => .error .eisdir
  | some n =>
      if fs.node? loc = some .dir then .error .eisdir
      else if h : fs.Open loc.dropLast n then
        .ok (loc, fs.put loc.dropLast n (.file []) h)
      else .error .other

/-- Writes the file that was opened at `loc`, if it is still there. -/
def writeAt (fs : Fs ν) (loc : List ν) (content : Bytes) : Fs ν :=
  match fs.node? loc, loc.getLast? with
  | some (.file _), some n =>
      if h : fs.Open loc.dropLast n then
        fs.put loc.dropLast n (.file content) h
      else fs
  | _, _ => fs

def asFile (loc : List ν) : Option (Node ν) → Except Errno (List ν × Bytes)
  | some (.file content) => .ok (loc, content)
  | some .dir => .error .eisdir
  | _ => .error .enoent

/-- `open` for reading, and the whole content. -/
def read (fs : Fs ν) (path : List ν) : Except Errno (List ν × Bytes) := do
  let loc ← fs.locate path
  asFile loc (fs.node? loc)

def unlink (fs : Fs ν) (path : List ν) : Except Errno (List ν × Fs ν) := do
  let loc ← fs.entry path
  if fs.node? loc = none then .error .enoent
  else if h : fs.node? loc ≠ some .dir then .ok (loc, fs.remove loc h)
  else .error .eisdir

/-- The names in a directory, in no particular order. -/
def readdir (fs : Fs ν) (path : List ν) : Except Errno (List ν) := do
  let d ← fs.dirAt path
  .ok (fs.nodes.keys.filterMap fun loc =>
    if loc.dropLast = d then loc.getLast? else none)

end Fs

end Lib
