import Mathlib.Logic.Basic
import Mathlib.Data.List.Basic
import Mathlib.Data.List.Induction

/-!
# Runs of a partial step function

A system is a step function `step : σ → α → Option σ`: `none` says the action
is not enabled. `Run` chains enabled actions and carries a guard `ok`, a
condition on each action and the state it is taken from, so "every run whose
steps all satisfy the condition" is one judgment and "every run" is the same
judgment at the trivial guard.

Two forms of the same thing live here. `Run` is the inductive judgment the
invariant rules induct on; `exec` is the function that plays a list of actions
and is what a concrete run is evaluated with. `exec_eq_some_iff` says they
agree.

The rules are the usual ones: an inductive invariant holds at the end of every
run, a property that is stable from some state on survives the rest of the
run, a run over an appended list splits where the lists meet, and a stricter
guard gives a run of the looser one.
-/

namespace Lib

universe u v

variable {σ : Type u} {α : Type v}

/-- `Run step ok s as t`: the actions `as` take `s` to `t`, each of them
enabled and allowed by `ok` in the state it is taken from. -/
inductive Run (step : σ → α → Option σ) (ok : σ → α → Prop) :
    σ → List α → σ → Prop
  | nil (s : σ) : Run step ok s [] s
  | cons {s s' t : σ} {a : α} {as : List α} : ok s a → step s a = some s' →
      Run step ok s' as t → Run step ok s (a :: as) t

/-- The guard that allows everything. -/
def always : σ → α → Prop := fun _ _ => True

variable {step : σ → α → Option σ} {ok ok' : σ → α → Prop}

/-- Plays a list of actions, stopping at the first one that is not enabled or
not allowed. -/
def exec (step : σ → α → Option σ) (ok : σ → α → Prop)
    [∀ s a, Decidable (ok s a)] : σ → List α → Option σ
  | s, [] => some s
  | s, a :: as =>
      if ok s a then (step s a).bind fun s' => exec step ok s' as else none

theorem exec_eq_some_iff [∀ s a, Decidable (ok s a)] {as : List α} :
    ∀ {s t : σ}, exec step ok s as = some t ↔ Run step ok s as t := by
  induction as with
  | nil =>
      intro s t
      constructor
      · intro h
        cases h
        exact .nil s
      · intro h
        cases h
        rfl
  | cons a as ih =>
      intro s t
      simp only [exec]
      constructor
      · intro h
        split at h
        · next hok =>
            obtain ⟨s', hs, hrest⟩ := Option.bind_eq_some_iff.mp h
            exact .cons hok hs (ih.mp hrest)
        · cases h
      · intro h
        cases h with
        | cons hok hs hrest =>
            rw [if_pos hok, hs]
            exact ih.mpr hrest

instance : ∀ (s : σ) (a : α), Decidable (always s a) :=
  fun _ _ => isTrue trivial

namespace Run

theorem mono (himp : ∀ s a, ok s a → ok' s a) {s t : σ} {as : List α}
    (h : Run step ok s as t) : Run step ok' s as t := by
  induction h with
  | nil s => exact .nil s
  | cons hok hs _ ih => exact .cons (himp _ _ hok) hs ih

theorem append {s m t : σ} {as bs : List α} (h₁ : Run step ok s as m)
    (h₂ : Run step ok m bs t) : Run step ok s (as ++ bs) t := by
  induction h₁ with
  | nil _ => exact h₂
  | cons hok hs _ ih => exact .cons hok hs (ih h₂)

theorem split {as bs : List α} : ∀ {s t : σ}, Run step ok s (as ++ bs) t →
    ∃ m, Run step ok s as m ∧ Run step ok m bs t := by
  induction as with
  | nil => intro s t h; exact ⟨s, .nil s, h⟩
  | cons a as ih =>
      intro s t h
      cases h with
      | cons hok hs hrest =>
          obtain ⟨m, h₁, h₂⟩ := ih hrest
          exact ⟨m, .cons hok hs h₁, h₂⟩

theorem cons_inv {s t : σ} {a : α} {as : List α}
    (h : Run step ok s (a :: as) t) :
    ok s a ∧ ∃ s', step s a = some s' ∧ Run step ok s' as t := by
  cases h with
  | cons hok hs hrest => exact ⟨hok, _, hs, hrest⟩

theorem snoc {s m t : σ} {a : α} {as : List α} (h : Run step ok s as m)
    (hok : ok m a) (hs : step m a = some t) :
    Run step ok s (as ++ [a]) t :=
  h.append (.cons hok hs (.nil t))

/-- An inductive invariant holds at the end of every run it holds at the start
of. -/
theorem invariant {I : σ → Prop}
    (hstep : ∀ {s a s'}, I s → ok s a → step s a = some s' → I s')
    {s t : σ} {as : List α} (h : Run step ok s as t) (hs : I s) : I t := by
  induction h with
  | nil _ => exact hs
  | cons hok hst _ ih => exact ih (hstep hs hok hst)

/-- The same for a property of the actions taken so far too. -/
theorem history {I : List α → σ → Prop} {s : σ} (hnil : I [] s)
    (hsnoc : ∀ {as m a t}, Run step ok s as m → I as m → ok m a →
      step m a = some t → I (as ++ [a]) t)
    {as : List α} : ∀ {t : σ}, Run step ok s as t → I as t := by
  induction as using List.reverseRecOn with
  | nil =>
      intro t h
      cases h
      exact hnil
  | append_singleton as a ih =>
      intro t h
      obtain ⟨m, hrun, hlast⟩ := h.split
      obtain ⟨hok, t', hstep, hnil'⟩ := hlast.cons_inv
      cases hnil'
      exact hsnoc hrun (ih hrun) hok hstep

/-- A log that grows by one entry at most: what it held of its first entries
was all of it at some point of the run. -/
theorem log_take {β : Type*} (log : σ → List β) {s : σ} (hs : log s = [])
    (hgrows : ∀ {m a t}, step m a = some t →
      log t = log m ∨ ∃ b, log t = log m ++ [b])
    {t : σ} {as : List α} (h : Run step ok s as t) {n : ℕ}
    (hn : n ≤ (log t).length) :
    ∃ bs cs m, as = bs ++ cs ∧ Run step ok s bs m ∧ Run step ok m cs t ∧
      log m = (log t).take n := by
  refine history (I := fun as t => ∀ n ≤ (log t).length, ∃ bs cs m,
    as = bs ++ cs ∧ Run step ok s bs m ∧ Run step ok m cs t ∧
      log m = (log t).take n) ?_ ?_ h n hn
  · intro n hn
    exact ⟨[], [], s, rfl, .nil s, .nil s, by rw [hs, List.take_nil]⟩
  · intro as m a t hrun ih hok hstep n hn
    by_cases hwhole : n = (log t).length
    · exact ⟨as ++ [a], [], t, (List.append_nil _).symm, hrun.snoc hok hstep,
        .nil t, by rw [hwhole, List.take_length]⟩
    · have hbefore : n ≤ (log m).length ∧ (log t).take n = (log m).take n := by
        rcases hgrows hstep with hsame | ⟨b, hb⟩
        · rw [hsame] at hn ⊢
          exact ⟨hn, rfl⟩
        · rw [hb, List.length_append, List.length_singleton] at hn hwhole
          have hle : n ≤ (log m).length := by omega
          exact ⟨hle, by rw [hb, List.take_append_of_le_length hle]⟩
      obtain ⟨bs, cs, m', rfl, hbs, hcs, hlog⟩ := ih n hbefore.1
      exact ⟨bs, cs ++ [a], m', List.append_assoc _ _ _, hbs,
        hcs.snoc hok hstep, hlog.trans hbefore.2.symm⟩

end Run

end Lib
