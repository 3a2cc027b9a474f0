import JetCore.Proofs.RecentWrites
import JetCore.Proofs.Redelivery

/-!
# Who reports a new file

What the watch does with a new file is decided when it takes it up, by the last
mark of the file's path and the clock (`taken_step`). So whether a run of the
writers and the watch reports a file that a command made, or leaves one out
that none made, is whether at one of those moments there is no mark in time of
the one, or one of the other (`own_unreported_iff`, `others_reported_iff`).

Both happen. A write is marked when it has ended, and the watch may come to its
file before (`slow_write_reported`) or, kept by another file that will not
settle, long after. And a write marks a file it did not make as well
(`update_hides_creation`).
-/

namespace JetCore

open Lib

namespace WatchedDir

variable {self : FileAdapter} {depth : ℕ} {s s' t : WatchedDir}
  {a : WatchedAct} {acts : List WatchedAct} {p : PosixPath}

/-! ## What a step leaves alone -/

/-- The watch is where it was, and nothing that was published is lost. -/
structure Frame (s s' : WatchedDir) : Prop where
  watch : s'.watch = s.watch
  checked : s'.checked = s.checked
  handled : s'.handled = s.handled
  published : s.world.published <+: s'.world.published
  remembers : Remembers s.recent s.marks s.now →
    Remembers s'.recent s'.marks s'.now

theorem perform_prefix (depth : ℕ) (a : FileAct) (s : FileWorld) :
    s.published <+: (a.perform depth s).2.published := by
  rcases perform_published depth a s with h | ⟨args, -, h⟩
  · rw [h]
  · rw [h]
    exact List.prefix_append _ _

theorem frame_call {i : ℕ} {q : FileProg Unit}
    (h : s.call depth i q = some s') : Frame s s' := by
  cases q with
  | pure a => cases h
  | raise e => cases h
  | call a k =>
      have hpublished := perform_prefix depth a s.world
      cases a with
      | mark p =>
          cases h
          exact ⟨rfl, rfl, rfl, hpublished, fun hr => hr.mark p⟩
      | _ =>
          cases h
          exact ⟨rfl, rfl, rfl, hpublished, fun hr => hr⟩

theorem frame_fail {i : ℕ} {e : Exn} {q : FileProg Unit}
    (h : s.fail i e q = some s') : Frame s s' := by
  cases q with
  | pure a => cases h
  | raise e => cases h
  | call a k =>
      cases h
      exact ⟨rfl, rfl, rfl, List.prefix_rfl, fun hr => hr⟩

/-! ## What a step does -/

/-- A change of the batch is taken up or passed over. -/
structure Takes (s s' : WatchedDir) (c : RawChange) (rest : List RawChange) :
    Prop where
  watch : s.watch = .taking (c :: rest)
  eq : s' = s.take c rest

/-- A poll of the file that is being settled. -/
structure Polls (adapter : FileAdapter) (s s' : WatchedDir)
    (occurredAt : String) (p : PosixPath) (state : Settling)
    (rest : List RawChange) : Prop where
  watch : ∃ wakeAt, s.watch = .settling p state wakeAt rest
  eq : s' = s.poll adapter occurredAt p state rest

/-- All that a step can be. -/
inductive Does (self : FileAdapter) (s s' : WatchedDir) : WatchedAct → Prop
  | frame {a : WatchedAct} : a ≠ .next → a.polls = false → Frame s s' →
      Does self s s' a
  | batch {changes : List RawChange} : s.watch = .waiting →
      (∀ c ∈ changes, c.path.IsRelativeTo self.watchDir) →
      s' = { s with watch := .taking changes } → Does self s s' (.batch changes)
  | batchEnds : s.watch = .taking [] → s' = { s with watch := .waiting } →
      Does self s s' .next
  | takes {c : RawChange} {rest : List RawChange} : Takes s s' c rest →
      Does self s s' .next
  | polls {occurredAt : String} {p : PosixPath} {state : Settling}
      {rest : List RawChange} : Polls self s s' occurredAt p state rest →
      Does self s s' (.poll occurredAt)

theorem does_of_step (h : s.step self depth a = some s') :
    Does self s s' a := by
  cases a with
  | wait d =>
      cases h
      exact .frame nofun rfl
        ⟨rfl, rfl, rfl, List.prefix_rfl, fun hr => hr.wait (Nat.le_add_right _ d)⟩
  | outside fs =>
      cases h
      exact .frame nofun rfl ⟨rfl, rfl, rfl, List.prefix_rfl, fun hr => hr⟩
  | deliver occurredAt event =>
      cases h
      exact .frame nofun rfl ⟨rfl, rfl, rfl, List.prefix_rfl, fun hr => hr⟩
  | call i =>
      obtain ⟨q, -, h⟩ := Option.bind_eq_some_iff.mp h
      exact .frame nofun rfl (frame_call h)
  | fail i e =>
      obtain ⟨q, -, h⟩ := Option.bind_eq_some_iff.mp h
      exact .frame nofun rfl (frame_fail h)
  | batch changes =>
      rw [step] at h
      split at h
      · next hwatch =>
          split at h
          · next hbelow =>
              cases h
              exact .batch hwatch hbelow rfl
          · cases h
      · cases h
  | next =>
      rw [step] at h
      split at h
      · next hwatch =>
          cases h
          exact .batchEnds hwatch rfl
      · next c rest hwatch =>
          cases h
          exact .takes ⟨hwatch, rfl⟩
      · cases h
  | poll occurredAt =>
      rw [step] at h
      split at h
      · next p state wakeAt rest hwatch =>
          split at h
          · cases h
            exact .polls ⟨⟨wakeAt, hwatch⟩, rfl⟩
          · cases h
      · cases h

/-! ## Taking a file up -/

theorem takeChange_cases (fs : Fs FileName) (recent : RecentWrites ℕ ℕ)
    (now : ℕ) (c : RawChange) :
    (¬(c.change = .added ∧ c.path.isFile fs = .ok true) ∧
      (takeChange fs recent now c = (.ignored, recent) ∨
        takeChange fs recent now c = (.raised, recent))) ∨
    (c.change = .added ∧ c.path.isFile fs = .ok true ∧
      takeChange fs recent now c =
        (if (recent.wasRecent now c.path).1 then .recent else .passed,
          (recent.wasRecent now c.path).2)) := by
  rw [takeChange]
  split
  · next hchange => exact .inl ⟨fun h => hchange h.1, .inl rfl⟩
  · next hchange =>
      rw [not_not] at hchange
      split
      · next hfile => exact .inl ⟨fun h => (by simp [hfile] at h), .inr rfl⟩
      · next hfile => exact .inl ⟨fun h => (by simp [hfile] at h), .inl rfl⟩
      · next hfile =>
          refine .inr ⟨hchange, hfile, ?_⟩
          split
          · rfl
          · rfl

/-- What taking a change up leaves. Only the creation of a file counts, and
that file is passed on unless it was recently marked. -/
inductive TookUp (s s' : WatchedDir) (c : RawChange) (rest : List RawChange) :
    Prop
  | other : ¬(c.change = .added ∧ c.path.isFile s.world.fs = .ok true) →
      s'.checked = s.checked → s'.recent = s.recent →
      s'.watch = .taking rest ∨ s'.watch = .raised none → TookUp s s' c rest
  | recent : c.change = .added → c.path.isFile s.world.fs = .ok true →
      (s.recent.wasRecent s.now c.path).1 = true →
      s'.checked = s.checked ++ [⟨c.path, s.byCommand c.path, false⟩] →
      s'.recent = s.recent.prune s.now → s'.watch = .taking rest →
      TookUp s s' c rest
  | passed : c.change = .added → c.path.isFile s.world.fs = .ok true →
      (s.recent.wasRecent s.now c.path).1 = false →
      s'.checked = s.checked ++ [⟨c.path, s.byCommand c.path, true⟩] →
      s'.recent = s.recent.prune s.now →
      s'.watch = .settling c.path {} (s.now + settlePollInterval) rest →
      TookUp s s' c rest

theorem take_tookUp (s : WatchedDir) (c : RawChange) (rest : List RawChange) :
    TookUp s (s.take c rest) c rest ∧ (s.take c rest).world = s.world ∧
      (s.take c rest).handled = s.handled ∧
      (s.take c rest).marks = s.marks ∧ (s.take c rest).now = s.now := by
  rw [take]
  rcases takeChange_cases s.world.fs s.recent s.now c with
    ⟨hno, h | h⟩ | ⟨hadded, hfile, h⟩
  · rw [h]
    exact ⟨.other hno rfl rfl (.inl rfl), rfl, rfl, rfl, rfl⟩
  · rw [h]
    exact ⟨.other hno rfl rfl (.inr rfl), rfl, rfl, rfl, rfl⟩
  · rw [h]
    cases hrecent : (s.recent.wasRecent s.now c.path).1 with
    | true =>
        exact ⟨.recent hadded hfile hrecent rfl rfl rfl, rfl, rfl, rfl, rfl⟩
    | false =>
        exact ⟨.passed hadded hfile hrecent rfl rfl rfl, rfl, rfl, rfl, rfl⟩

/-! ## Settling a file -/

/-- What a poll leaves. -/
inductive PolledTo (self : FileAdapter) (s s' : WatchedDir) (p : PosixPath)
    (state : Settling) (rest : List RawChange) : Prop
  | again {node : Node FileName} : p.stat s.world.fs = .ok node →
      (state.poll (Node.size node)).done settleStableReads = false →
      s'.watch = .settling p (state.poll (Node.size node))
        (s.now + settlePollInterval) rest →
      s'.handled = s.handled → s'.world = s.world →
      PolledTo self s s' p state rest
  | raised : s'.watch = .raised (some p) → s'.handled = s.handled →
      s'.world = s.world → (∀ node, p.stat s.world.fs = .ok node →
        ¬ p.IsRelativeTo self.watchDir) → PolledTo self s s' p state rest
  | disappeared : s'.watch = .taking rest →
      s'.handled = s.handled ++ [⟨p, none⟩] → s'.world = s.world →
      (∀ node, p.stat s.world.fs ≠ .ok node) →
      PolledTo self s s' p state rest
  | settled {node : Node FileName} {relative : Text} {occurredAt : String} :
      p.stat s.world.fs = .ok node →
      (state.poll (Node.size node)).done settleStableReads = true →
      p.relativeTo self.watchDir = .ok relative →
      s'.watch = .taking rest →
      s'.handled = s.handled ++ [⟨p, some (createCompleted relative
        (state.poll (Node.size node)).lastSize occurredAt)⟩] →
      s'.world.published = s.world.published ++ [createCompleted relative
        (state.poll (Node.size node)).lastSize occurredAt] →
      PolledTo self s s' p state rest

theorem relativeTo_below {root : PosixPath} (h : p.IsRelativeTo root) :
    ∃ relative, p.relativeTo root = .ok relative :=
  ⟨_, if_pos h⟩

theorem poll_polledTo (self : FileAdapter) (s : WatchedDir)
    (occurredAt : String) (p : PosixPath) (state : Settling)
    (rest : List RawChange) :
    PolledTo self s (s.poll self occurredAt p state rest) p state rest ∧
      (s.poll self occurredAt p state rest).checked = s.checked ∧
      (s.poll self occurredAt p state rest).recent = s.recent ∧
      (s.poll self occurredAt p state rest).marks = s.marks ∧
      (s.poll self occurredAt p state rest).now = s.now := by
  rw [poll, pollFile]
  cases hstat : p.stat s.world.fs with
  | error e =>
      by_cases he : e = .osError .enoent
      · subst he
        refine ⟨.disappeared rfl rfl rfl fun node => ?_, rfl, rfl, rfl, rfl⟩
        rw [hstat]
        exact nofun
      · have hraised : pollFile s.world.fs p state = .raised := by
          rw [pollFile, hstat]
          split
          · next h => cases h
          · next h => exact absurd (Except.error.inj h) he
          · rfl
        rw [pollFile, hstat] at hraised
        rw [hraised]
        refine ⟨.raised rfl rfl rfl fun node hnode => ?_, rfl, rfl, rfl, rfl⟩
        rw [hstat] at hnode
        cases hnode
  | ok node =>
      simp only []
      cases hdone : (state.poll (Node.size node)).done settleStableReads with
      | false =>
          exact ⟨.again hstat hdone rfl rfl rfl, rfl, rfl, rfl, rfl⟩
      | true =>
          simp only [if_true]
          cases hrel : p.relativeTo self.watchDir with
          | error e =>
              refine ⟨.raised rfl rfl rfl fun _ _ hbelow => ?_,
                rfl, rfl, rfl, rfl⟩
              obtain ⟨relative, hok⟩ := relativeTo_below hbelow
              rw [hrel] at hok
              cases hok
          | ok relative =>
              exact ⟨.settled hstat hdone hrel rfl rfl rfl, rfl, rfl, rfl, rfl⟩

/-! ## What holds throughout -/

/-- The changes that are left of a batch. -/
def left : WatchPhase → List RawChange
  | .taking changes => changes
  | .settling _ _ _ rest => rest
  | _ => []

structure Sound (adapter : FileAdapter) (s : WatchedDir) : Prop where
  remembers : Remembers s.recent s.marks s.now
  below : ∀ c ∈ left s.watch, c.path.IsRelativeTo adapter.watchDir
  settling : ∀ p state wakeAt rest, s.watch = .settling p state wakeAt rest →
    p.IsRelativeTo adapter.watchDir ∧
      state.consecutiveMatches < settleStableReads
  handled : (s.checked.filter Checked.passed).map Checked.path =
    s.handled.map Handled.path ++ s.watch.path?.toList
  reported : ∀ h ∈ s.handled, ∀ args, h.report = some args →
    Reports adapter h.path args ∧ args ∈ s.world.published

theorem sound_start (adapter : FileAdapter) (fs : Fs FileName) :
    Sound adapter (start fs) :=
  ⟨remembers_empty _ 0, nofun, nofun, rfl, nofun⟩

theorem Sound.frame (hs : Sound self s) (h : Frame s s') : Sound self s' where
  remembers := h.remembers hs.remembers
  below := by
    rw [h.watch]
    exact hs.below
  settling := by
    rw [h.watch]
    exact hs.settling
  handled := by
    rw [h.checked, h.handled, h.watch]
    exact hs.handled
  reported k hk args hargs := by
    rw [h.handled] at hk
    obtain ⟨hreports, hmem⟩ := hs.reported k hk args hargs
    exact ⟨hreports, h.published.subset hmem⟩

theorem Sound.takes {c : RawChange} {rest : List RawChange}
    (hs : Sound self s) (h : Takes s s' c rest) : Sound self s' := by
  obtain ⟨htook, hworld, hhandled, hmarks, hnow⟩ := take_tookUp s c rest
  rw [← h.eq] at htook hworld hhandled hmarks hnow
  have hleft : ∀ c' ∈ c :: rest, c'.path.IsRelativeTo self.watchDir := by
    have hbelow := hs.below
    rw [h.watch] at hbelow
    exact hbelow
  have hrest : ∀ c' ∈ rest, c'.path.IsRelativeTo self.watchDir :=
    fun c' hc' => hleft c' (List.mem_cons_of_mem c hc')
  have hsofar : (s.checked.filter Checked.passed).map Checked.path =
      s.handled.map Handled.path := by
    have hsofar := hs.handled
    rw [h.watch] at hsofar
    simpa [WatchPhase.path?] using hsofar
  have hreported : ∀ k ∈ s'.handled, ∀ args, k.report = some args →
      Reports self k.path args ∧ args ∈ s'.world.published := by
    rw [hhandled, hworld]
    exact hs.reported
  have hpruned : Remembers (s.recent.prune s.now) s'.marks s'.now := by
    rw [hmarks, hnow]
    exact hs.remembers.prune
  cases htook with
  | other _ hchecked hrecent hwatch =>
      refine ⟨?_, ?_, ?_, ?_, hreported⟩
      · rw [hrecent, hmarks, hnow]
        exact hs.remembers
      · rcases hwatch with hwatch | hwatch
        · rw [hwatch]
          exact hrest
        · rw [hwatch]
          exact nofun
      · rcases hwatch with hwatch | hwatch
        · rw [hwatch]
          exact nofun
        · rw [hwatch]
          exact nofun
      · rw [hchecked, hhandled, hsofar]
        rcases hwatch with hwatch | hwatch
        · rw [hwatch]
          simp [WatchPhase.path?]
        · rw [hwatch]
          simp [WatchPhase.path?]
  | recent _ _ _ hchecked hrecent hwatch =>
      refine ⟨?_, ?_, ?_, ?_, hreported⟩
      · rw [hrecent]
        exact hpruned
      · rw [hwatch]
        exact hrest
      · rw [hwatch]
        exact nofun
      · rw [hchecked, hhandled, hwatch, ← hsofar]
        simp [WatchPhase.path?]
  | passed _ _ _ hchecked hrecent hwatch =>
      refine ⟨?_, ?_, ?_, ?_, hreported⟩
      · rw [hrecent]
        exact hpruned
      · rw [hwatch]
        exact hrest
      · intro p state wakeAt rest' hsettling
        rw [hwatch] at hsettling
        cases hsettling
        exact ⟨hleft c List.mem_cons_self, by decide⟩
      · rw [hchecked, hhandled, hwatch, ← hsofar]
        simp [WatchPhase.path?]

theorem Sound.polls {occurredAt : String} {state : Settling}
    {rest : List RawChange} (hs : Sound self s)
    (h : Polls self s s' occurredAt p state rest) : Sound self s' := by
  obtain ⟨hpolled, hchecked, hrecent, hmarks, hnow⟩ :=
    poll_polledTo self s occurredAt p state rest
  rw [← h.eq] at hpolled hchecked hrecent hmarks hnow
  obtain ⟨wakeAt, hwatch⟩ := h.watch
  have hremembers : Remembers s'.recent s'.marks s'.now := by
    rw [hrecent, hmarks, hnow]
    exact hs.remembers
  have hrest : ∀ c ∈ rest, c.path.IsRelativeTo self.watchDir := by
    have hbelow := hs.below
    rw [hwatch] at hbelow
    exact hbelow
  obtain ⟨hunder, hmatches⟩ := hs.settling p state wakeAt rest hwatch
  have hsofar : (s'.checked.filter Checked.passed).map Checked.path =
      s.handled.map Handled.path ++ [p] := by
    rw [hchecked, hs.handled, hwatch]
    rfl
  cases hpolled with
  | again _ hdone hwatch' hhandled hworld =>
      refine ⟨hremembers, ?_, ?_, ?_, ?_⟩
      · rw [hwatch']
        exact hrest
      · intro p' state' wakeAt' rest' hsettling
        rw [hwatch'] at hsettling
        cases hsettling
        refine ⟨hunder, ?_⟩
        rw [Settling.done, decide_eq_false_iff_not] at hdone
        omega
      · rw [hsofar, hhandled, hwatch']
        rfl
      · rw [hhandled, hworld]
        exact hs.reported
  | raised hwatch' hhandled hworld _ =>
      refine ⟨hremembers, ?_, ?_, ?_, ?_⟩
      · rw [hwatch']
        exact nofun
      · rw [hwatch']
        exact nofun
      · rw [hsofar, hhandled, hwatch']
        rfl
      · rw [hhandled, hworld]
        exact hs.reported
  | disappeared hwatch' hhandled hworld _ =>
      refine ⟨hremembers, ?_, ?_, ?_, ?_⟩
      · rw [hwatch']
        exact hrest
      · rw [hwatch']
        exact nofun
      · rw [hsofar, hhandled, hwatch']
        simp [WatchPhase.path?]
      · rw [hhandled, hworld]
        intro k hk args hargs
        rcases List.mem_append.mp hk with hk | hk
        · exact hs.reported k hk args hargs
        · rw [List.mem_singleton.mp hk] at hargs
          cases hargs
  | @settled node relative time _ _ hrel hwatch' hhandled hpublished =>
      refine ⟨hremembers, ?_, ?_, ?_, ?_⟩
      · rw [hwatch']
        exact hrest
      · rw [hwatch']
        exact nofun
      · rw [hsofar, hhandled, hwatch']
        simp [WatchPhase.path?]
      · rw [hhandled, hpublished]
        intro k hk args hargs
        rcases List.mem_append.mp hk with hk | hk
        · obtain ⟨hreports, hmem⟩ := hs.reported k hk args hargs
          exact ⟨hreports, List.mem_append_left _ hmem⟩
        · rw [List.mem_singleton.mp hk] at hargs ⊢
          cases hargs
          exact ⟨⟨relative, _, time, hrel, rfl, rfl⟩,
            List.mem_append_right _ List.mem_cons_self⟩

theorem sound_step (hs : Sound self s) (h : s.step self depth a = some s') :
    Sound self s' := by
  cases does_of_step h with
  | frame _ _ hframe => exact hs.frame hframe
  | @batch changes hwatch hbelow heq =>
      subst heq
      refine ⟨hs.remembers, hbelow, nofun, ?_, hs.reported⟩
      have hhandled := hs.handled
      rw [hwatch] at hhandled
      exact hhandled
  | batchEnds hwatch heq =>
      subst heq
      refine ⟨hs.remembers, nofun, nofun, ?_, hs.reported⟩
      have hhandled := hs.handled
      rw [hwatch] at hhandled
      exact hhandled
  | takes htakes => exact hs.takes htakes
  | polls hpolls => exact hs.polls hpolls

/-! ## What a run reports -/

/-- Taking a file up is checking it, and nothing else is. -/
theorem taken_step (h : s.step self depth a = some s') :
    ((∀ p, ¬ s.TakesUp a p) ∧ s'.checked = s.checked) ∨
    ∃ p, (∀ p', s.TakesUp a p' ↔ p' = p) ∧ s'.checked = s.checked ++
      [⟨p, s.byCommand p, !(s.recent.wasRecent s.now p).1⟩] := by
  cases does_of_step h with
  | frame hne _ hframe => exact .inl ⟨fun p hp => hne hp.1, hframe.checked⟩
  | batch _ _ heq =>
      subst heq
      refine .inl ⟨fun p hp => ?_, rfl⟩
      cases hp.1
  | batchEnds hwatch heq =>
      subst heq
      refine .inl ⟨fun p hp => ?_, rfl⟩
      obtain ⟨-, rest, hwatch', -⟩ := hp
      rw [hwatch] at hwatch'
      cases hwatch'
  | @takes c rest htakes =>
      have htook := (take_tookUp s c rest).1
      rw [← htakes.eq] at htook
      have htakesUp : c.change = .added → c.path.isFile s.world.fs = .ok true →
          ∀ p', s.TakesUp .next p' ↔ p' = c.path := by
        intro hadded hfile p'
        constructor
        · intro hp'
          obtain ⟨-, rest', hwatch, -⟩ := hp'
          rw [htakes.watch] at hwatch
          cases hwatch
          rfl
        · intro heq
          subst heq
          refine ⟨rfl, rest, ?_, hfile⟩
          rw [htakes.watch, ← hadded]
      cases htook with
      | other hno hchecked _ _ =>
          refine .inl ⟨fun p hp => hno ?_, hchecked⟩
          obtain ⟨-, rest', hwatch, hfile⟩ := hp
          rw [htakes.watch] at hwatch
          cases hwatch
          exact ⟨rfl, hfile⟩
      | recent hadded hfile hrecent hchecked _ _ =>
          exact .inr ⟨c.path, htakesUp hadded hfile, by rw [hchecked, hrecent]; rfl⟩
      | passed hadded hfile hrecent hchecked _ _ =>
          exact .inr ⟨c.path, htakesUp hadded hfile, by rw [hchecked, hrecent]; rfl⟩
  | @polls occurredAt p state rest hpolls =>
      refine .inl ⟨fun p hp => ?_, ?_⟩
      · cases hp.1
      · rw [hpolls.eq]
        exact (poll_polledTo self s occurredAt p state rest).2.1

/-- A condition on what is checked is one on the moments it is taken up. -/
theorem checked_iff {Q : Checked → Prop} {G : WatchedDir → WatchedAct → Prop}
    (hG : ∀ s a, Sound self s → (G s a ↔ ∀ p, s.TakesUp a p →
      Q ⟨p, s.byCommand p, !(s.recent.wasRecent s.now p).1⟩))
    (hrun : Run (step self depth) always s acts t) (hs : Sound self s)
    (hQ : ∀ k ∈ s.checked, Q k) :
    (∀ k ∈ t.checked, Q k) ↔ Run (step self depth) G s acts t := by
  induction hrun with
  | nil s => exact ⟨fun _ => .nil s, fun _ => hQ⟩
  | @cons s s' t a acts _ hstep hrest ih =>
      have hs' := sound_step hs hstep
      have hnext : G s a ↔ ∀ k ∈ s'.checked, Q k := by
        rw [hG s a hs]
        rcases taken_step hstep with ⟨hno, hchecked⟩ | ⟨p, htakes, hchecked⟩
        · rw [hchecked]
          exact ⟨fun _ => hQ, fun _ p hp => absurd hp (hno p)⟩
        · rw [hchecked, List.forall_mem_append, List.forall_mem_singleton]
          constructor
          · exact fun h => ⟨hQ, h p ((htakes p).mpr rfl)⟩
          · intro h p' hp'
            rw [(htakes p').mp hp']
            exact h.2
      have hkept : ∀ k ∈ s'.checked, k ∈ t.checked := by
        refine hrest.invariant (I := fun u => ∀ k ∈ s'.checked, k ∈ u.checked)
          (fun hu _ hst k hk => ?_) fun k hk => hk
        rcases taken_step hst with ⟨-, hchecked⟩ | ⟨p, -, hchecked⟩
        · rw [hchecked]
          exact hu k hk
        · rw [hchecked]
          exact List.mem_append_left _ (hu k hk)
      constructor
      · intro h
        have hQ' : ∀ k ∈ s'.checked, Q k := fun k hk => h k (hkept k hk)
        exact .cons (hnext.mpr hQ') hstep ((ih hs' hQ').mp h)
      · intro h
        obtain ⟨hg, s'', hstep', hrest'⟩ := h.cons_inv
        rw [hstep] at hstep'
        cases hstep'
        exact (ih hs' (hnext.mp hg)).mpr hrest'

theorem Sound.wasRecent (hs : Sound self s) (p : PosixPath) :
    (s.recent.wasRecent s.now p).1 = true ↔ s.MarkedInTime p := by
  rw [hs.remembers.wasRecent, MarkedInTime]
  exact exists_congr fun mark =>
    and_congr_right fun _ => Nat.sub_le_iff_le_add

/-- In a run no file that a command made is reported if and only if each is
taken up when a write of its path has been marked, in time. -/
theorem own_unreported_iff {fs : Fs FileName}
    (hrun : Run (step self depth) always (start fs) acts t) :
    t.OwnUnreported ↔ Run (step self depth) OwnMarked (start fs) acts t := by
  refine checked_iff (Q := fun k => k.byCommand = true → k.passed = false)
    (fun s a hs => ?_) hrun (sound_start self fs) nofun
  refine forall_congr' fun p => forall_congr' fun _ => forall_congr' fun _ => ?_
  rw [Bool.not_eq_false', hs.wasRecent]

/-- How many more polls that find the size `n` settle the file. -/
def missing (state : Settling) (n : ℕ) : ℕ :=
  if state.lastSize = n then settleStableReads - state.consecutiveMatches
  else settleStableReads + 1

theorem handled_step (h : s.step self depth a = some s') :
    s.handled <+: s'.handled := by
  cases does_of_step h with
  | frame _ _ hframe => rw [hframe.handled]
  | batch _ _ heq => rw [heq]
  | batchEnds _ heq => rw [heq]
  | @takes c rest htakes =>
      rw [htakes.eq, (take_tookUp s c rest).2.2.1]
  | @polls occurredAt p state rest hpolls =>
      have hpolled := (poll_polledTo self s occurredAt p state rest).1
      rw [← hpolls.eq] at hpolled
      cases hpolled with
      | again _ _ _ hhandled _ => rw [hhandled]
      | raised _ hhandled _ _ => rw [hhandled]
      | disappeared _ hhandled _ _ =>
          rw [hhandled]
          exact List.prefix_append _ _
      | settled _ _ _ _ hhandled _ =>
          rw [hhandled]
          exact List.prefix_append _ _

/-- A poll that finds the size `n` settles the file, or brings that nearer. -/
theorem poll_step {n : ℕ} {state : Settling} {rest : List RawChange}
    {occurredAt : String} (hs : Sound self s)
    (hpolls : Polls self s s' occurredAt p state rest)
    (hsize : ∃ node, p.stat s.world.fs = .ok node ∧ Node.size node = n) :
    ReportedWith self p n s' ∨
      ∃ state' wakeAt, s'.watch = .settling p state' wakeAt rest ∧
        missing state' n < missing state n := by
  obtain ⟨node, hnode, rfl⟩ := hsize
  obtain ⟨wakeAt, hwatch⟩ := hpolls.watch
  obtain ⟨hunder, hmatches⟩ := hs.settling p state wakeAt rest hwatch
  have hpolled := (poll_polledTo self s occurredAt p state rest).1
  rw [← hpolls.eq] at hpolled
  cases hpolled with
  | @again node' hnode' hdone hwatch' _ _ =>
      rw [hnode] at hnode'
      cases hnode'
      refine .inr ⟨_, _, hwatch', ?_⟩
      rw [Settling.done, decide_eq_false_iff_not] at hdone
      rw [missing, missing]
      rw [Settling.poll] at hdone ⊢
      split
      · next hsame =>
          rw [if_pos hsame] at hdone
          rw [if_pos hsame.symm, if_pos hsame.symm]
          simp only [] at hdone ⊢
          omega
      · next hsame =>
          rw [if_pos rfl, if_neg (Ne.symm hsame)]
          simp only []
          omega
  | raised _ _ _ hno => exact absurd hunder (hno node hnode)
  | disappeared _ _ _ hno => exact absurd hnode (hno node)
  | @settled node' relative time hnode' hdone hrel _ hhandled _ =>
      rw [hnode] at hnode'
      cases hnode'
      have hlast : (state.poll (Node.size node)).lastSize = Node.size node := by
        rw [Settling.poll]
        split
        · next hsame => exact hsame.symm
        · rfl
      rw [hlast] at hhandled
      refine .inl ⟨⟨p, _⟩, ?_, rfl, relative, time, hrel, rfl⟩
      rw [hhandled]
      exact List.mem_append_right _ List.mem_cons_self

/-- A file that stays as it is while it is polled is reported in the end. -/
theorem settles {n : ℕ} (hrun : Run (step self depth) (FindsSize p n) s acts t) :
    ∀ {state : Settling} {wakeAt : ℕ} {rest : List RawChange}, Sound self s →
      s.watch = .settling p state wakeAt rest →
      missing state n ≤ acts.countP WatchedAct.polls →
      ReportedWith self p n t := by
  induction hrun with
  | nil s =>
      intro state wakeAt rest hs hwatch hcount
      obtain ⟨-, hmatches⟩ := hs.settling p state wakeAt rest hwatch
      rw [missing, List.countP_nil] at hcount
      split at hcount
      · omega
      · omega
  | @cons s s' t a acts hfinds hstep hrest ih =>
      intro state wakeAt rest hs hwatch hcount
      have hs' := sound_step hs hstep
      cases does_of_step hstep with
      | @frame a hne hpolls hframe =>
          rw [List.countP_cons, hpolls] at hcount
          exact ih hs' (hframe.watch.trans hwatch) hcount
      | batch hwatch' _ _ =>
          rw [hwatch] at hwatch'
          cases hwatch'
      | batchEnds hwatch' _ =>
          rw [hwatch] at hwatch'
          cases hwatch'
      | takes htakes =>
          have hwatch' := htakes.watch
          rw [hwatch] at hwatch'
          cases hwatch'
      | @polls occurredAt p' state' rest' hpolls =>
          obtain ⟨wakeAt', hwatch'⟩ := hpolls.watch
          rw [hwatch] at hwatch'
          cases hwatch'
          have hsize := hfinds occurredAt rfl (by rw [hwatch]; rfl)
          rcases poll_step hs hpolls hsize with hdone | ⟨state', wakeAt', h, hlt⟩
          · obtain ⟨k, hk, hreported⟩ := hdone
            refine ⟨k, ?_, hreported⟩
            exact hrest.invariant (I := fun u => k ∈ u.handled)
              (fun hu _ hst => (handled_step hst).subset hu) hk
          · refine ih hs' h ?_
            rw [List.countP_cons] at hcount
            simp only [WatchedAct.polls, if_true] at hcount
            omega

/-- In a run every file that no command made is reported if and only if none is
taken up while a mark of its path is in time; and what is reported is whatever
stays as it is while it is polled. -/
theorem others_reported_iff {fs : Fs FileName}
    (hrun : Run (step self depth) always (start fs) acts t) :
    (t.OthersReported self ↔
      Run (step self depth) OthersUnmarked (start fs) acts t) ∧
    ∀ (p : PosixPath) (state : Settling) (wakeAt : ℕ) (rest : List RawChange)
      (n : ℕ) (more : List WatchedAct) (u : WatchedDir),
      t.watch = .settling p state wakeAt rest →
      Run (step self depth) (FindsSize p n) t more u →
      settleStableReads < more.countP WatchedAct.polls →
      ReportedWith self p n u := by
  have hsound : Sound self t := hrun.invariant (I := Sound self)
    (fun hs _ hstep => sound_step hs hstep) (sound_start self fs)
  have hiff := checked_iff (Q := fun k => k.byCommand = false → k.passed = true)
    (G := OthersUnmarked) (fun s a hs => ?_) hrun (sound_start self fs) nofun
  · refine ⟨?_, fun p state wakeAt rest n more u hwatch hmore hcount => ?_⟩
    · rw [← hiff]
      exact ⟨fun h => h.passed, fun h => ⟨h, hsound.handled, hsound.reported⟩⟩
    · refine settles hmore hsound hwatch (le_trans ?_ hcount)
      rw [missing]
      split
      · omega
      · omega
  · refine forall_congr' fun p => forall_congr' fun _ => forall_congr' fun _ => ?_
    rw [Bool.not_eq_true', Bool.eq_false_iff, ne_eq, hs.wasRecent]

/-! ## Four runs -/

end WatchedDir

namespace Sample

open WatchedDir

def xPath : PosixPath := ⟨.slash, [rootName.text, aliasName.text]⟩

def play (ok : WatchedDir → WatchedAct → Prop) [∀ s a, Decidable (ok s a)]
    (s : WatchedDir) (acts : List WatchedAct) : Option WatchedDir :=
  exec (step fileAdapter 1000) ok s acts

/-- A write of `x` is delivered and comes so many calls far. -/
def writes (calls : ℕ) : List WatchedAct :=
  .deliver "2026-01-01T00:00:00Z" writeX.event :: List.replicate calls (.call 0)

/-- `awatch` yields `x`, and the watch takes it up. -/
def yieldsX : List WatchedAct :=
  [.wait 1600000000, .batch [⟨.added, xPath⟩], .next]

def pollsX : List WatchedAct :=
  (List.replicate 4 [.wait 200000000, .poll "2026-01-01T00:00:03Z"]).flatten

/-- What was published: the types, and whether it answers something. -/
def reports (s : WatchedDir) : List (String × Bool) :=
  s.world.published.map fun args =>
    (args.eventType, args.correlationId.isSome)

end Sample

namespace WatchedDir

open Sample

/-- The watch takes `x` up while the write of it goes on, and reports it too. -/
theorem slow_write_reported : ∃ t,
    Run (step fileAdapter 1000) always (start emptyFs)
      (writes 5 ++ yieldsX ++ List.replicate 4 (.call 0) ++ pollsX) t ∧
    reports t = [("FileCreateCompleted", true), ("FileCreateCompleted", false)] ∧
    ¬ t.OwnUnreported := by
  have hplay : (play always (start emptyFs)
      (writes 5 ++ yieldsX ++ List.replicate 4 (.call 0) ++ pollsX)).map
        (fun t => (t.checked, reports t)) =
      some ([⟨xPath, true, true⟩],
        [("FileCreateCompleted", true), ("FileCreateCompleted", false)]) := by
    decide +kernel
  obtain ⟨t, ht, heq⟩ := Option.map_eq_some_iff.mp hplay
  obtain ⟨hchecked, hreports⟩ := Prod.mk.inj heq
  refine ⟨t, exec_eq_some_iff.mp ht, hreports, fun h => ?_⟩
  have hpassed := h ⟨xPath, true, true⟩
    (by rw [hchecked]; exact List.mem_cons_self) rfl
  cases hpassed

/-- The watch takes `x` up when the write of it has ended. -/
theorem quick_write_unreported : ∃ t, t.checked = [⟨xPath, true, false⟩] ∧
    Run (step fileAdapter 1000) OwnMarked (start emptyFs)
      (writes 9 ++ yieldsX) t := by
  have hplay : (play always (start emptyFs) (writes 9 ++ yieldsX)).map
      WatchedDir.checked = some [⟨xPath, true, false⟩] := by
    decide +kernel
  obtain ⟨t, ht, hchecked⟩ := Option.map_eq_some_iff.mp hplay
  refine ⟨t, hchecked, (own_unreported_iff (exec_eq_some_iff.mp ht)).mp ?_⟩
  intro k hk _
  rw [hchecked] at hk
  rw [List.mem_singleton.mp hk]

/-- Somebody else creates `x`, and it is written before the watch takes it
up. -/
theorem update_hides_creation : ∃ t,
    Run (step fileAdapter 1000) always (start emptyFs)
      (.outside fileFs :: writes 9 ++ yieldsX) t ∧
    reports t = [("FileWriteCompleted", true)] ∧ ¬ t.OthersReported fileAdapter := by
  have hplay : (play always (start emptyFs)
      (.outside fileFs :: writes 9 ++ yieldsX)).map
        (fun t => (t.checked, reports t)) =
      some ([⟨xPath, false, false⟩], [("FileWriteCompleted", true)]) := by
    decide +kernel
  obtain ⟨t, ht, heq⟩ := Option.map_eq_some_iff.mp hplay
  obtain ⟨hchecked, hreports⟩ := Prod.mk.inj heq
  refine ⟨t, exec_eq_some_iff.mp ht, hreports, fun h => ?_⟩
  have hpassed := h.passed ⟨xPath, false, false⟩
    (by rw [hchecked]; exact List.mem_cons_self) rfl
  cases hpassed

/-- Somebody else creates `x` and leaves it as it is. -/
theorem creation_reported : ∃ t u,
    Run (step fileAdapter 1000) OthersUnmarked (start emptyFs)
      (.outside fileFs :: yieldsX) t ∧
    t.OthersReported fileAdapter ∧ ReportedWith fileAdapter xPath 3 u := by
  let found : WatchedDir → WatchedAct → Prop :=
    fun s _ => xPath.stat s.world.fs = .ok (.file [1, 2, 3])
  have hplay : (play always (start emptyFs) (.outside fileFs :: yieldsX)).map
      (fun t => (t.checked, t.handled, t.watch,
        (play found t pollsX).isSome)) =
      some ([⟨xPath, false, true⟩], [], .settling xPath {} 1800000000 [],
        true) := by
    decide +kernel
  obtain ⟨t, ht, heq⟩ := Option.map_eq_some_iff.mp hplay
  obtain ⟨hchecked, heq⟩ := Prod.mk.inj heq
  obtain ⟨hhandled, heq⟩ := Prod.mk.inj heq
  obtain ⟨hwatch, hmore⟩ := Prod.mk.inj heq
  obtain ⟨u, hu⟩ := Option.isSome_iff_exists.mp hmore
  have hothers : t.OthersReported fileAdapter := by
    refine ⟨fun k hk _ => ?_, ?_, ?_⟩
    · rw [hchecked] at hk
      rw [List.mem_singleton.mp hk]
    · rw [hchecked, hhandled, hwatch]
      rfl
    · rw [hhandled]
      exact nofun
  have hfinds : Run (step fileAdapter 1000) (FindsSize xPath 3) t pollsX u :=
    (exec_eq_some_iff.mp hu).mono fun s a h _ _ _ => ⟨_, h, rfl⟩
  obtain ⟨hiff, hsettles⟩ := others_reported_iff (exec_eq_some_iff.mp ht)
  exact ⟨t, u, hiff.mp hothers, hothers,
    hsettles xPath {} 1800000000 [] 3 pollsX u hwatch hfinds (by decide)⟩

end WatchedDir

end JetCore
