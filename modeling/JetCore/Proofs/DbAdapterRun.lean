import JetCore.Ref.DbAdapterRun

/-!
# Does the binlog thread stop with `run`?

Nothing but `_bridge_shutdown` sets the thread's flag, and nothing wakes that
but the shutdown event. As long as no gathered task raises before it has set
the flag, `run` ends after that. A task that raises earlier ends `run` with
the flag not set: `gather` passes the exception on, `finally` disposes of the
engine and of nothing else, and the thread polls on
(`stopsWithRun_orderly`).
-/

namespace JetCore

open Lib

namespace AdapterRun

/-- Once `run` has ended the flag is set, and the thread polls no more. -/
def StopsWithRun (s : AdapterRun) : Prop :=
  s.phase = .ended → s.flag = true ∧ s.step .threadPolls = none

/-- No task raises before the flag is set. -/
def Orderly (s : AdapterRun) : AdapterAct → Prop
  | .raises _ => s.flag = true
  | _ => True

variable {s s' : AdapterRun} {a : AdapterAct}

theorem stepIf_some {enabled : Bool} {t : AdapterRun}
    (h : stepIf enabled t = some s') : enabled = true ∧ s' = t := by
  rw [stepIf] at h
  split at h
  · next henabled => exact ⟨henabled, (Option.some.inj h).symm⟩
  · cases h

theorem stopsWithRun_of_flag (h : s.phase = .ended → s.flag = true) :
    s.StopsWithRun := by
  intro hended
  have hflag := h hended
  refine ⟨hflag, ?_⟩
  rw [step, stepIf, hflag, Bool.not_true, Bool.and_false]
  rfl

theorem setTask_task (s : AdapterRun) (task t : Gathered) (p : Progress) :
    (s.setTask task p).tasks t = if t = task then p else s.tasks t := rfl

/-- While the flag is not set, the bridge waits, no task has raised, and so
`run` still gathers. -/
structure Waits (s : AdapterRun) : Prop where
  bridge : s.tasks .bridge = .running
  raised : ∀ task, s.tasks task ≠ .raised
  phase : s.phase = .gathering

theorem Waits.not_gathered (h : s.Waits) : s.gathered = false := by
  simp [gathered, h.bridge, h.raised]

theorem Waits.finishes (h : s.Waits) {task : Gathered}
    (hne : task ≠ .bridge) : (s.setTask task .finished).Waits := by
  refine ⟨?_, fun t => ?_, h.phase⟩
  · rw [setTask_task, if_neg hne.symm]
    exact h.bridge
  · rw [setTask_task]
    split
    · simp
    · exact h.raised t

/-- What keeps the flag unset keeps the bridge waiting. -/
theorem waits_step (horderly : s.Orderly a)
    (hs : s.flag = false → s.Waits) (h : s.step a = some s') :
    s'.flag = false → s'.Waits := by
  intro hflag
  cases a with
  | requestShutdown =>
      cases h
      have hwaits := hs hflag
      exact ⟨hwaits.bridge, hwaits.raised, hwaits.phase⟩
  | writeLoopFinishes =>
      obtain ⟨-, rfl⟩ := stepIf_some h
      exact (hs hflag).finishes (by simp)
  | threadStarts =>
      obtain ⟨-, rfl⟩ := stepIf_some h
      have hwaits := hs hflag
      exact ⟨hwaits.bridge, hwaits.raised, hwaits.phase⟩
  | threadPolls =>
      obtain ⟨-, rfl⟩ := stepIf_some h
      exact hs hflag
  | threadReturns =>
      obtain ⟨-, rfl⟩ := stepIf_some h
      have hwaits := hs hflag
      exact ⟨hwaits.bridge, hwaits.raised, hwaits.phase⟩
  | threadRaises =>
      obtain ⟨-, rfl⟩ := stepIf_some h
      have hwaits := hs hflag
      exact ⟨hwaits.bridge, hwaits.raised, hwaits.phase⟩
  | watcherFinishes =>
      obtain ⟨-, rfl⟩ := stepIf_some h
      exact (hs hflag).finishes (by simp)
  | bridgeFinishes =>
      obtain ⟨-, rfl⟩ := stepIf_some h
      cases hflag
  | raises task =>
      obtain ⟨-, rfl⟩ := stepIf_some h
      have hset : s.flag = true := horderly
      rw [show (s.setTask task .raised).flag = s.flag from rfl, hset] at hflag
      cases hflag
  | gatherResumes =>
      obtain ⟨henabled, rfl⟩ := stepIf_some h
      rw [(hs hflag).not_gathered, Bool.and_false] at henabled
      cases henabled
  | disposed =>
      obtain ⟨henabled, rfl⟩ := stepIf_some h
      rw [(hs hflag).phase] at henabled
      cases henabled

/-- A task that raises before the flag is set: `run` can end as it is. -/
theorem early_raise {task : Gathered} (h : s.step (.raises task) = some s')
    (hflag : s.flag = false) :
    ∃ more t, Run step always s' more t ∧ ¬ t.StopsWithRun := by
  obtain ⟨-, rfl⟩ := stepIf_some h
  generalize hs' : s.setTask task .raised = s'
  have hflag' : s'.flag = false := by
    rw [← hs']
    exact hflag
  have hraised : s'.gathered = true := by
    have htask : s'.tasks task = .raised := by
      rw [← hs', setTask_task, if_pos rfl]
    rw [gathered, Bool.or_eq_true]
    refine .inl (List.any_eq_true.mpr ⟨_, List.mem_map.mpr ⟨task, ?_, rfl⟩, ?_⟩)
    · cases task <;> simp
    · rw [htask]
      rfl
  have hended : ∀ t : AdapterRun, t.phase = .ended → t.flag = false →
      ¬ t.StopsWithRun := by
    intro t hphase hunset hstops
    have hset := (hstops hphase).1
    rw [hunset] at hset
    cases hset
  cases hphase : s'.phase with
  | gathering =>
      have hresume : s'.step .gatherResumes =
          some { s' with phase := .disposing } := by
        rw [step, stepIf, hphase, hraised]
        rfl
      exact ⟨[.gatherResumes, .disposed], { s' with phase := .ended },
        .cons trivial hresume (.cons trivial rfl (.nil _)),
        hended _ rfl hflag'⟩
  | disposing =>
      have hdispose : s'.step .disposed =
          some { s' with phase := .ended } := by
        rw [step, stepIf, hphase]
        rfl
      exact ⟨[.disposed], { s' with phase := .ended },
        .cons trivial hdispose (.nil _), hended _ rfl hflag'⟩
  | ended => exact ⟨[], s', .nil s', hended s' hphase hflag'⟩

/-- In every run in which no task raises before the flag is set, the thread
stops with `run`; and from any point where one does, `run` can end with the
flag not set. -/
theorem stopsWithRun_orderly (acts : List AdapterAct) (s : AdapterRun) :
    (Run step Orderly {} acts s → s.StopsWithRun) ∧
    (Run step always {} acts s → ∀ task s',
      s.step (.raises task) = some s' → s.flag = false →
      ∃ more t, Run step always s' more t ∧ ¬ t.StopsWithRun) := by
  constructor
  · intro h
    have hwaits : s.flag = false → s.Waits := h.invariant
      (I := fun s => s.flag = false → s.Waits)
      (fun hs horderly hstep => waits_step horderly hs hstep)
      (fun _ => ⟨rfl, by simp, rfl⟩)
    refine stopsWithRun_of_flag fun hended => ?_
    cases hflag : s.flag with
    | true => rfl
    | false =>
        have hphase := (hwaits hflag).phase
        rw [hended] at hphase
        cases hphase
  · intro _ task s' hstep hflag
    exact early_raise hstep hflag

/-- A signal, and all tasks finish: `run` ends, and the thread with it. -/
theorem stopsWithRun_signal :
    ∃ s, Run step Orderly {} [.threadStarts, .threadPolls, .requestShutdown,
        .writeLoopFinishes, .bridgeFinishes, .threadReturns, .watcherFinishes,
        .gatherResumes, .disposed] s ∧
      s.phase = .ended ∧ s.StopsWithRun := by
  have hrun : ∃ s, Run step Orderly {} [.threadStarts, .threadPolls,
      .requestShutdown, .writeLoopFinishes, .bridgeFinishes, .threadReturns,
      .watcherFinishes, .gatherResumes, .disposed] s ∧ s.phase = .ended :=
    ⟨_, .cons trivial rfl (.cons trivial rfl (.cons trivial rfl (.cons trivial
      rfl (.cons trivial rfl (.cons trivial rfl (.cons trivial rfl (.cons
        trivial rfl (.cons trivial rfl (.nil _))))))))), rfl⟩
  obtain ⟨s, hrun, hended⟩ := hrun
  exact ⟨s, hrun, hended, (stopsWithRun_orderly _ s).1 hrun⟩

/-- A fetch of the write loop raises: `run` has ended, and the thread polls
for as long as the process lives. -/
theorem writeLoopRaises_leaks :
    ∃ s, Run step always {}
        [.threadStarts, .raises .writeLoop, .gatherResumes, .disposed] s ∧
      s.phase = .ended ∧ ¬ s.StopsWithRun ∧
      s.step .threadPolls = some s := by
  refine ⟨_, exec_eq_some_iff.mp rfl, rfl, fun h => ?_, rfl⟩
  have hset := (h rfl).1
  cases hset

end AdapterRun

end JetCore
