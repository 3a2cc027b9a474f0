import JetCore.Lib.Prog
import JetCore.Lib.Run

/-!
# Many programs at once

Each task runs the program of what it was started for. A run starts tasks and
answers calls in any order, so between two calls of one task any number of
others may go ahead, and a task may stop for good after any call. The log has
every call with its answer, under the number of the task.

`logged_ok` is what carries a fact about one program, its weakest
precondition in the world that keeps a record, over to every run of any number
of tasks: whatever call is in the log was one that the program's own calls
before it allowed.
-/

namespace Lib

variable {μ A : Type} {R : A → Type} {ε α : Type}

structure Tasks (μ A : Type) (R : A → Type) (ε α : Type) where
  /-- What each task is for, and what is left of it. -/
  started : List (μ × Prog A R ε α) := []
  log : List (ℕ × CallEvent A R ε) := []

inductive TaskAct (μ A : Type) (R : A → Type) (ε : Type) where
  | start (m : μ)
  | answer (task : ℕ) (r : (a : A) → Except ε (R a))

namespace Tasks

/-- What the `i`-th task is for. -/
def subject? (s : Tasks μ A R ε α) (i : ℕ) : Option μ :=
  s.started[i]?.map Prod.fst

/-- The part of a log that is of one task. -/
def own (i : ℕ) (log : List (ℕ × CallEvent A R ε)) : List (CallEvent A R ε) :=
  log.filterMap fun e => if e.1 = i then some e.2 else none

def answer (s : Tasks μ A R ε α) (i : ℕ) (r : (a : A) → Except ε (R a)) :
    μ × Prog A R ε α → Option (Tasks μ A R ε α)
  | (m, .call a k) => some {
      started := s.started.set i (m, k (r a))
      log := s.log ++ [(i, ⟨a, r a⟩)] }
  | _ => none

def step (program : μ → Prog A R ε α) (s : Tasks μ A R ε α) :
    TaskAct μ A R ε → Option (Tasks μ A R ε α)
  | .start m => some { s with started := s.started ++ [(m, program m)] }
  | .answer i r => s.started[i]?.bind (s.answer i r)

/-- The answers are ones that are allowed. -/
def Allows (allowed : (a : A) → Except ε (R a) → Prop)
    (_ : Tasks μ A R ε α) : TaskAct μ A R ε → Prop
  | .start _ => True
  | .answer _ r => ∀ a, allowed a (r a)

@[simp] theorem own_append (i : ℕ) (log log' : List (ℕ × CallEvent A R ε)) :
    own i (log ++ log') = own i log ++ own i log' :=
  List.filterMap_append

@[simp] theorem own_self (i : ℕ) (e : CallEvent A R ε) :
    own i [(i, e)] = [e] := by
  simp [own]

theorem own_of_ne {i j : ℕ} (h : j ≠ i) (e : CallEvent A R ε) :
    own i [(j, e)] = [] := by
  simp [own, h]

/-- Every task is as its own calls left it, and every call in the log was
allowed by those before it. -/
structure Sound (allowed : (a : A) → Except ε (R a) → Prop)
    (ok : μ → List (CallEvent A R ε) → A → Prop)
    (s : Tasks μ A R ε α) : Prop where
  task : ∀ i m (p : Prog A R ε α), s.started[i]? = some (m, p) →
    p.wp (Prog.records allowed) (ok m) (fun _ _ => True) (own i s.log)
  logged : ∀ before i e after, s.log = before ++ (i, e) :: after →
    ∃ m, s.subject? i = some m ∧ ok m (own i before) e.1
  /-- A task that was not started has no calls. -/
  fresh : ∀ e ∈ s.log, e.1 < s.started.length

variable {allowed : (a : A) → Except ε (R a) → Prop}
  {ok : μ → List (CallEvent A R ε) → A → Prop} {program : μ → Prog A R ε α}

theorem own_eq_nil {i : ℕ} {log : List (ℕ × CallEvent A R ε)}
    (h : ∀ e ∈ log, e.1 < i) : own i log = [] := by
  rw [own, List.filterMap_eq_nil_iff]
  intro e he
  have hlt := h e he
  rw [if_neg (by omega)]

theorem subject?_eq {s : Tasks μ A R ε α} {i : ℕ} {m : μ} :
    s.subject? i = some m ↔ ∃ p, s.started[i]? = some (m, p) := by
  rw [subject?, Option.map_eq_some_iff]
  constructor
  · intro h
    obtain ⟨⟨m', p⟩, hget, rfl⟩ := h
    exact ⟨p, hget⟩
  · intro h
    obtain ⟨p, hget⟩ := h
    exact ⟨_, hget, rfl⟩

/-- What an answer does: a call of the task is taken and logged. -/
theorem step_answer {s s' : Tasks μ A R ε α} {i : ℕ}
    {r : (a : A) → Except ε (R a)}
    (h : s.step program (.answer i r) = some s') :
    ∃ m a k, s.started[i]? = some (m, .call a k) ∧
      s'.started = s.started.set i (m, k (r a)) ∧
      s'.log = s.log ++ [(i, ⟨a, r a⟩)] := by
  rw [step, Option.bind_eq_some_iff] at h
  obtain ⟨⟨m, p⟩, hget, h⟩ := h
  cases p with
  | pure a => cases h
  | raise e => cases h
  | call a k =>
      cases h
      exact ⟨m, a, k, hget, rfl, rfl⟩

/-- Starting and answering change no task's subject. -/
theorem subject?_step {s s' : Tasks μ A R ε α} {act : TaskAct μ A R ε}
    (h : s.step program act = some s') {i : ℕ} {m : μ}
    (hm : s.subject? i = some m) : s'.subject? i = some m := by
  obtain ⟨p, hget⟩ := subject?_eq.mp hm
  cases act with
  | start m' =>
      cases h
      obtain ⟨hlt, -⟩ := List.getElem?_eq_some_iff.mp hget
      exact subject?_eq.mpr ⟨p, (List.getElem?_append_left hlt).trans hget⟩
  | answer j r =>
      obtain ⟨m', a, k, hj, hstarted, -⟩ := step_answer h
      by_cases hij : j = i
      · subst hij
        rw [hget, Option.some.injEq, Prod.mk.injEq] at hj
        obtain ⟨hlt, -⟩ := List.getElem?_eq_some_iff.mp hget
        refine subject?_eq.mpr ⟨k (r a), ?_⟩
        rw [hstarted, List.getElem?_set_self hlt, hj.1]
      · refine subject?_eq.mpr ⟨p, ?_⟩
        rw [hstarted, List.getElem?_set_ne hij, hget]

/-- An answer changes no task's subject. -/
theorem subject?_answer {s s' : Tasks μ A R ε α} {i : ℕ}
    {r : (a : A) → Except ε (R a)}
    (h : s.step program (.answer i r) = some s') (j : ℕ) :
    s'.subject? j = s.subject? j := by
  obtain ⟨m, a, k, hget, hstarted, -⟩ := step_answer h
  obtain ⟨hlt, -⟩ := List.getElem?_eq_some_iff.mp hget
  rw [subject?, subject?, hstarted]
  by_cases hij : i = j
  · subst hij
    rw [List.getElem?_set_self hlt, hget]
    rfl
  · rw [List.getElem?_set_ne hij]

theorem sound_init : Sound allowed ok ({} : Tasks μ A R ε α) where
  task := by
    intro i m p hget
    cases hget
  logged := by
    intro before i e after hlog
    cases before <;> cases hlog
  fresh := by
    intro e he
    cases he

theorem sound_step (hprogram : ∀ m, (program m).wp (Prog.records allowed)
      (ok m) (fun _ _ => True) []) {s s' : Tasks μ A R ε α}
    {act : TaskAct μ A R ε} (hallows : Allows allowed s act)
    (h : s.step program act = some s') (hs : Sound allowed ok s) :
    Sound allowed ok s' := by
  have hsubject := fun i m => subject?_step (i := i) (m := m) h
  cases act with
  | start m =>
      cases h
      refine ⟨fun i m' p hget => ?_, fun before i e after hlog => ?_,
        fun e he => ?_⟩
      · by_cases hi : i < s.started.length
        · rw [List.getElem?_append_left hi] at hget
          exact hs.task i m' p hget
        · have hlast : i = s.started.length := by
            obtain ⟨hlt, -⟩ := List.getElem?_eq_some_iff.mp hget
            simp only [List.length_append, List.length_singleton] at hlt
            omega
          subst hlast
          rw [List.getElem?_concat_length, Option.some.injEq,
            Prod.mk.injEq] at hget
          obtain ⟨rfl, rfl⟩ := hget
          show Prog.wp _ _ _ _ (own _ s.log)
          rw [own_eq_nil hs.fresh]
          exact hprogram m
      · obtain ⟨m', hm', hok⟩ := hs.logged before i e after hlog
        exact ⟨m', hsubject i m' hm', hok⟩
      · have hlt := hs.fresh e he
        simp only [List.length_append, List.length_singleton]
        omega
  | answer j r =>
      obtain ⟨m, a, k, hj, hstarted, hlog⟩ := step_answer h
      obtain ⟨hlt, -⟩ := List.getElem?_eq_some_iff.mp hj
      have hcall := hs.task j m _ hj
      refine ⟨fun i m' p hget => ?_, fun before i e after hsplit => ?_,
        fun e he => ?_⟩
      · rw [hstarted] at hget
        rw [hlog, own_append]
        by_cases hij : j = i
        · subst hij
          rw [List.getElem?_set_self hlt, Option.some.injEq,
            Prod.mk.injEq] at hget
          obtain ⟨rfl, rfl⟩ := hget
          rw [own_self]
          exact hcall.2 _ _ ⟨hallows a, rfl⟩
        · rw [List.getElem?_set_ne hij] at hget
          rw [own_of_ne hij, List.append_nil]
          exact hs.task i m' p hget
      · rw [hlog] at hsplit
        rcases List.eq_nil_or_concat after with rfl | ⟨init, last, rfl⟩
        · obtain ⟨rfl, heq⟩ := List.append_inj' hsplit rfl
          rw [List.singleton_inj, Prod.mk.injEq] at heq
          obtain ⟨rfl, rfl⟩ := heq
          exact ⟨m, hsubject j m (subject?_eq.mpr ⟨_, hj⟩), hcall.1⟩
        · rw [List.concat_eq_append, ← List.cons_append,
            ← List.append_assoc] at hsplit
          obtain ⟨hinit, -⟩ := List.append_inj' hsplit rfl
          obtain ⟨m', hm', hok⟩ := hs.logged before i e init hinit
          exact ⟨m', hsubject i m' hm', hok⟩
      · rw [hlog, List.mem_append, List.mem_singleton] at he
        rw [hstarted, List.length_set]
        rcases he with he | rfl
        · exact hs.fresh e he
        · exact hlt

/-- Every call of every run is one that the task's calls before it allow. -/
theorem logged_ok (hprogram : ∀ m, (program m).wp (Prog.records allowed)
      (ok m) (fun _ _ => True) []) {acts : List (TaskAct μ A R ε)}
    {s : Tasks μ A R ε α}
    (h : Run (step program) (Allows allowed) {} acts s)
    {before after : List (ℕ × CallEvent A R ε)} {i : ℕ}
    {e : CallEvent A R ε} (hsplit : s.log = before ++ (i, e) :: after) :
    ∃ m, s.subject? i = some m ∧ ok m (own i before) e.1 := by
  have hsound : Sound allowed ok s := Run.invariant (I := Sound allowed ok)
    (fun hs hallows hstep => sound_step hprogram hallows hstep hs) h sound_init
  exact hsound.logged before i e after hsplit

/-- Every task is what its own calls have left of its program. -/
theorem steps_of_run {acts : List (TaskAct μ A R ε)} {s : Tasks μ A R ε α}
    (h : Run (step program) (Allows allowed) {} acts s) {i : ℕ} {m : μ}
    {p : Prog A R ε α} (hget : s.started[i]? = some (m, p)) :
    Prog.Steps (Prog.records allowed) (program m) [] p (own i s.log) := by
  refine (Run.history (I := fun _ s => (∀ e ∈ s.log, e.1 < s.started.length) ∧
    ∀ i m p, s.started[i]? = some (m, p) →
      Prog.Steps (Prog.records allowed) (program m) [] p (own i s.log))
    ⟨nofun, fun _ _ _ hi => by cases hi⟩ ?_ h).2 i m p hget
  intro acts s act t _ ih hallows hstep
  obtain ⟨hfresh, hsteps⟩ := ih
  cases act with
  | start m' =>
      cases hstep
      refine ⟨fun e he => ?_, fun i m p hi => ?_⟩
      · have hlt := hfresh e he
        rw [List.length_append]
        omega
      · by_cases hlt : i < s.started.length
        · rw [List.getElem?_append_left hlt] at hi
          exact hsteps i m p hi
        · have hlast : i = s.started.length := by
            obtain ⟨hle, -⟩ := List.getElem?_eq_some_iff.mp hi
            simp only [List.length_append, List.length_singleton] at hle
            omega
          subst hlast
          rw [List.getElem?_concat_length] at hi
          cases hi
          rw [own_eq_nil hfresh]
          exact .refl _ _
  | answer j r =>
      obtain ⟨m', a, k, hj, hstarted, hlog⟩ := step_answer hstep
      obtain ⟨hlt, -⟩ := List.getElem?_eq_some_iff.mp hj
      refine ⟨fun e he => ?_, fun i m p hi => ?_⟩
      · rw [hlog, List.mem_append, List.mem_singleton] at he
        rw [hstarted, List.length_set]
        rcases he with he | rfl
        · exact hfresh e he
        · exact hlt
      · rw [hstarted] at hi
        rw [hlog, own_append]
        by_cases hij : j = i
        · subst hij
          rw [List.getElem?_set_self hlt] at hi
          rw [Option.some.injEq, Prod.mk.injEq] at hi
          obtain ⟨rfl, rfl⟩ := hi
          rw [own_self]
          exact (hsteps j m' _ hj).trans (.call ⟨hallows a, rfl⟩ (.refl _ _))
        · rw [List.getElem?_set_ne hij] at hi
          rw [own_of_ne hij, List.append_nil]
          exact hsteps i m p hi

end Tasks

end Lib
