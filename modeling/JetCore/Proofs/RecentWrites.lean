import JetCore.Spec.WatchedDir

/-!
# What `RecentWrites` answers

The table forgets what is too old whenever it is asked, about any path. What it
still has of a path is its last mark (`Remembers`), and it has that for as long
as the mark is in time, so that `was_recent` answers for the last mark and the
clock alone (`Remembers.wasRecent`). So whatever is called on other paths in
between, a path is recent until a time to live after its last mark, and a mark
more never shortens that (`wasRecent_after`).

Of the clock this needs that a later reading has a later cutoff, which rounding
leaves as it is. What it does to the answer is that a mark may be taken for in
time that is older than the time to live by less than the cutoff was rounded
down (`wasRecent_exact`).
-/

namespace JetCore

open Lib

variable {R D : Type} {p : PosixPath}

/-! ## The calls -/

/-- A call, with the reading of the clock that it makes. -/
inductive RecentCall (R : Type) where
  | mark (time : R) (path : PosixPath)
  | wasRecent (time : R) (path : PosixPath)
  deriving DecidableEq

namespace RecentCall

def time : RecentCall R → R
  | .mark t _ => t
  | .wasRecent t _ => t

def mark? : RecentCall R → Option (Mark R)
  | .mark t p => some ⟨p, t⟩
  | .wasRecent _ _ => none

def marked (calls : List (RecentCall R)) : List (Mark R) :=
  calls.filterMap mark?

variable {t : R} {marks : List (Mark R)} {calls : List (RecentCall R)}

theorem marked_concat (calls : List (RecentCall R)) (c : RecentCall R) :
    marked (calls ++ [c]) = marked calls ++ c.mark?.toList := by
  rw [marked, List.filterMap_append]
  cases c with
  | mark t p => rfl
  | wasRecent t p => rfl

theorem mem_marked : ⟨p, t⟩ ∈ marked calls ↔ .mark t p ∈ calls := by
  rw [marked, List.mem_filterMap]
  constructor
  · intro h
    obtain ⟨c, hc, hmark⟩ := h
    cases c with
    | mark t' p' =>
        cases hmark
        exact hc
    | wasRecent t' p' => cases hmark
  · exact fun h => ⟨_, h, rfl⟩

theorem lastOn_path {mark : Mark R} (h : lastOn Mark.path p marks = some mark) :
    mark = ⟨p, mark.time⟩ := by
  obtain ⟨-, rfl⟩ := lastOn_mem h
  rfl

end RecentCall

variable [LinearOrder R] [HSub R D R] {r : RecentWrites R D}
  {marks : List (Mark R)} {now now' : R}

/-! ## The table -/

/-- The table has of each path its last mark, or nothing if that is too old. -/
structure Remembers (r : RecentWrites R D) (marks : List (Mark R)) (now : R) :
    Prop where
  sound : ∀ p m, r.markedAt.get? p = some m →
    lastOn Mark.path p marks = some ⟨p, m⟩
  complete : ∀ p m, lastOn Mark.path p marks = some ⟨p, m⟩ →
    now - r.ttl ≤ m → r.markedAt.get? p = some m

theorem remembers_empty (ttl : D) (now : R) : Remembers { ttl := ttl } [] now :=
  ⟨nofun, nofun⟩

theorem get?_prune (r : RecentWrites R D) (now : R) (p : PosixPath) {m : R} :
    (r.prune now).markedAt.get? p = some m ↔
      r.markedAt.get? p = some m ∧ now - r.ttl ≤ m := by
  rw [RecentWrites.prune, Dict.get?_foldl_pop]
  have hexpired : p ∈ (r.markedAt.entries.filter fun e =>
      e.2 < now - r.ttl).map Prod.fst ↔
        ∃ m, r.markedAt.get? p = some m ∧ m < now - r.ttl := by
    simp [Dict.mem_entries]
  split
  · next h =>
      obtain ⟨m', hm', hlt⟩ := hexpired.mp h
      rw [hm']
      constructor
      · exact nofun
      · intro h
        obtain ⟨hm, hle⟩ := h
        cases hm
        exact absurd hlt (not_lt.mpr hle)
  · next h =>
      constructor
      · intro hm
        refine ⟨hm, ?_⟩
        by_contra hlt
        exact h (hexpired.mpr ⟨m, hm, not_le.mp hlt⟩)
      · exact fun hm => hm.1

theorem Remembers.wait [Clock R D] (h : Remembers r marks now)
    (hle : now ≤ now') : Remembers r marks now' where
  sound := h.sound
  complete p m hlast hm :=
    h.complete p m hlast ((Clock.sub_mono r.ttl hle).trans hm)

theorem Remembers.mark (h : Remembers r marks now) (path : PosixPath) :
    Remembers (r.mark now path) (marks ++ [⟨path, now⟩]) now where
  sound p m hm := by
    rw [RecentWrites.mark, Dict.get?_set] at hm
    rw [lastOn_append]
    split at hm
    · next heq =>
        cases hm
        simp [lastOn, heq]
    · next hne =>
        have hne' : path ≠ p := Ne.symm hne
        simp [lastOn, hne', h.sound p m hm]
  complete p m hlast hle := by
    rw [RecentWrites.mark, Dict.get?_set]
    rw [lastOn_append] at hlast
    split
    · next heq =>
        subst heq
        simp [lastOn] at hlast
        rw [hlast]
    · next hne =>
        have hne' : path ≠ p := Ne.symm hne
        simp [lastOn, hne'] at hlast
        exact h.complete p m hlast hle

theorem Remembers.prune (h : Remembers r marks now) :
    Remembers (r.prune now) marks now where
  sound p m hm := h.sound p m ((get?_prune r now p).mp hm).1
  complete p m hlast hle :=
    (get?_prune r now p).mpr ⟨h.complete p m hlast hle, hle⟩

/-- Whether a path was recently marked is whether its last mark is in time. -/
theorem Remembers.wasRecent (h : Remembers r marks now) (p : PosixPath) :
    (r.wasRecent now p).1 = true ↔
      ∃ mark, lastOn Mark.path p marks = some mark ∧
        now - r.ttl ≤ mark.time := by
  rw [RecentWrites.wasRecent, Option.isSome_iff_exists]
  constructor
  · intro hm
    obtain ⟨m, hm⟩ := hm
    obtain ⟨hm, hle⟩ := (get?_prune r now p).mp hm
    exact ⟨⟨p, m⟩, h.sound p m hm, hle⟩
  · intro hmark
    obtain ⟨mark, hlast, hle⟩ := hmark
    rw [RecentCall.lastOn_path hlast] at hlast
    exact ⟨mark.time, (get?_prune r now p).mpr
      ⟨h.complete p mark.time hlast hle, hle⟩⟩

/-! ## Sequences of calls -/

namespace RecentCall

def run (r : RecentWrites R D) : RecentCall R → RecentWrites R D
  | .mark t p => r.mark t p
  | .wasRecent t p => (r.wasRecent t p).2

/-- What the calls leave of an empty table. -/
def after (ttl : D) (calls : List (RecentCall R)) : RecentWrites R D :=
  calls.foldl run { ttl := ttl }

/-- What `was_recent` answers after the calls. -/
def recentAfter (ttl : D) (calls : List (RecentCall R)) (now : R)
    (p : PosixPath) : Bool :=
  ((after ttl calls).wasRecent now p).1

/-- The clock does not go back from call to call, nor to now. -/
structure Clocked (calls : List (RecentCall R)) (now : R) : Prop where
  ordered : calls.Pairwise fun c c' => c.time ≤ c'.time
  past : ∀ c ∈ calls, c.time ≤ now

variable {ttl : D} {t : R} {calls : List (RecentCall R)} {c : RecentCall R}

theorem after_ttl (ttl : D) (calls : List (RecentCall R)) :
    (after ttl calls).ttl = ttl := by
  induction calls using List.reverseRecOn with
  | nil => rfl
  | append_singleton calls c ih =>
      rw [after, List.foldl_concat]
      cases c with
      | mark t p => exact ih
      | wasRecent t p => exact ih

theorem Clocked.init (h : Clocked (calls ++ [c]) now) :
    Clocked calls c.time := by
  obtain ⟨hcalls, -, hle⟩ := List.pairwise_append.mp h.ordered
  exact ⟨hcalls, fun c' hc' => hle c' hc' c (List.mem_singleton.mpr rfl)⟩

/-- One call more. -/
theorem remembers_run (h : Remembers r marks c.time) :
    Remembers (c.run r) (marks ++ c.mark?.toList) c.time := by
  cases c with
  | mark t p => exact h.mark p
  | wasRecent t p =>
      show Remembers (r.prune t) (marks ++ []) t
      rw [List.append_nil]
      exact h.prune

/-- After any calls the table has what it should. -/
theorem remembers_after [Clock R D] (h : Clocked calls now) :
    Remembers (after ttl calls) (marked calls) now := by
  induction calls using List.reverseRecOn generalizing now with
  | nil => exact remembers_empty ttl now
  | append_singleton calls c ih =>
      have hrun := remembers_run (ih h.init)
      have hpast := h.past c
        (List.mem_append_right _ (List.mem_singleton.mpr rfl))
      rw [after, List.foldl_concat, marked_concat]
      exact hrun.wait hpast

/-- The last mark of a path is the latest. -/
theorem latest_mark (h : Clocked calls now) (hmem : .mark t p ∈ calls) :
    ∃ m, lastOn Mark.path p (marked calls) = some m ∧ t ≤ m.time := by
  induction calls using List.reverseRecOn generalizing now with
  | nil => cases hmem
  | append_singleton calls c ih =>
      rw [marked_concat, lastOn_append]
      rcases List.mem_append.mp hmem with hold | hnew
      · obtain ⟨m, hlast, hle⟩ := ih h.init hold
        cases c with
        | mark t' p' =>
            by_cases hp : p' = p
            · subst hp
              refine ⟨⟨p', t'⟩, ?_, h.init.past _ hold⟩
              simp [mark?, lastOn]
            · refine ⟨m, ?_, hle⟩
              simp [mark?, lastOn, hp, hlast]
        | wasRecent t' p' => exact ⟨m, hlast, hle⟩
      · rw [← List.mem_singleton.mp hnew]
        exact ⟨⟨p, t⟩, by simp [mark?, lastOn], le_rfl⟩

theorem Clocked.sublist {fewer : List (RecentCall R)} (h : Clocked calls now)
    (hsub : fewer.Sublist calls) : Clocked fewer now :=
  ⟨h.ordered.sublist hsub, fun c hc => h.past c (hsub.subset hc)⟩

theorem recentAfter_iff [Clock R D] (h : Clocked calls now) :
    recentAfter ttl calls now p = true ↔
      ∃ m, lastOn Mark.path p (marked calls) = some m ∧ now - ttl ≤ m.time := by
  rw [recentAfter, (remembers_after h).wasRecent, after_ttl]

/-- A mark in time is enough, whatever came after it. -/
theorem recentAfter_of_mark [Clock R D] (h : Clocked calls now)
    (hmem : .mark t p ∈ calls) (hintime : now - ttl ≤ t) :
    recentAfter ttl calls now p = true := by
  obtain ⟨m, hlast, hle⟩ := latest_mark h hmem
  exact (recentAfter_iff h).mpr ⟨m, hlast, hintime.trans hle⟩

/-- A mark more takes nothing away. -/
theorem recentAfter_more [Clock R D] {before later : List (RecentCall R)}
    (h : Clocked (before ++ .mark t p :: later) now)
    (hrecent : recentAfter ttl (before ++ later) now p = true) :
    recentAfter ttl (before ++ .mark t p :: later) now p = true := by
  have hsub : (before ++ later).Sublist (before ++ .mark t p :: later) :=
    (List.sublist_cons_self _ _).append_left before
  obtain ⟨m, hlast, hintime⟩ := (recentAfter_iff (h.sublist hsub)).mp hrecent
  rw [lastOn_path hlast] at hlast
  exact recentAfter_of_mark h
    (hsub.subset (mem_marked.mp (lastOn_mem hlast).1)) hintime

end RecentCall

open RecentCall

/-- A path is recent exactly if its last mark is no older than the time to
live, whatever was called in between. And a mark of it, whenever that was made,
makes it recent for a time to live, and never takes from what it is without
it. -/
theorem wasRecent_after (ttl : TimeToLive) {calls : List (RecentCall Reading)}
    {now : Reading} (h : Clocked calls now) (p : PosixPath) :
    (recentAfter ttl calls now p = true ↔
      ∃ m, lastOn Mark.path p (marked calls) = some m ∧
        now - ttl ≤ m.time) ∧
    ∀ before later (t : Reading), calls = before ++ .mark t p :: later →
      (now - ttl ≤ t → recentAfter ttl calls now p = true) ∧
      (recentAfter ttl (before ++ later) now p = true →
        recentAfter ttl calls now p = true) := by
  refine ⟨recentAfter_iff h, fun before later t hcalls => ?_⟩
  subst hcalls
  exact ⟨recentAfter_of_mark h (by simp), recentAfter_more h⟩

/-- Rounding takes no mark for too old that is in time, and none for in time
that is too old where the difference needs no rounding. -/
theorem wasRecent_exact {ttl now m : Binary64}
    {calls : List (RecentCall Reading)} (h : Clocked calls (now : Reading))
    (hlast : lastOn Mark.path p (marked calls) = some ⟨p, m⟩) :
    (now.units - ttl.units ≤ m.units →
      recentAfter (ttl : TimeToLive) calls (now : Reading) p = true) ∧
    (Fits 53 (now.units - ttl.units) →
      recentAfter (ttl : TimeToLive) calls (now : Reading) p = true →
        now.units - ttl.units ≤ m.units) := by
  have hiff : recentAfter (ttl : TimeToLive) calls (now : Reading) p = true ↔
      now - ttl ≤ m := by
    rw [recentAfter_iff h, hlast]
    constructor
    · intro hrecent
      obtain ⟨_, heq, hle⟩ := hrecent
      cases heq
      exact WithBot.coe_le_coe.mp hle
    · exact fun hle => ⟨_, rfl, WithBot.coe_le_coe.mpr hle⟩
  rw [hiff]
  exact ⟨Binary64.sub_le_of_units,
    fun hfits => (Binary64.sub_le_iff_of_fits hfits).mp⟩

namespace Sample

def double (n : ℤ) (exponent : ℕ) : Binary64 := .ofUnits (n * 2 ^ exponent)

/-- The doubles nearest to 0.1, 1.2 and 1.3. -/
def tenth : Binary64 := double 3602879701896397 1019

def oneAndTwo : Binary64 := double 5404319552844595 1022

def oneAndThree : Binary64 := double 5854679515581645 1022

def aPath : PosixPath := ⟨.slash, [Text.ofString "a"]⟩

def bPath : PosixPath := ⟨.slash, [Text.ofString "b"]⟩

/-- Marked at 1.0 and at 1.2, and asked about another path at 1.25. -/
def remarked : List (RecentCall Reading) := [
  .mark (double 1 1074) aPath, .mark oneAndTwo aPath,
  .wasRecent (double 5 1072) bPath]

end Sample

open Sample

/-- The first mark is too old at 1.3. The second one is too, by less than the
difference is rounded. -/
theorem remarked_recent :
    recentAfter (tenth : TimeToLive) remarked (oneAndThree : Reading) aPath =
      true := by
  have hclocked : Clocked remarked (oneAndThree : Reading) :=
    ⟨by decide +kernel, by decide +kernel⟩
  exact (((wasRecent_after tenth hclocked aPath).2 [.mark (double 1 1074) aPath]
    [.wasRecent (double 5 1072) bPath] oneAndTwo rfl).1 (by decide +kernel))

example : ¬ oneAndThree.units - tenth.units ≤ oneAndTwo.units := by
  decide +kernel

end JetCore
