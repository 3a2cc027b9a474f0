import Mathlib.Data.List.Basic

/-!
# Programs that call an environment

A program either has ended, with a value or an exception, or makes a call and
goes on with whatever comes back, which may be an exception too. It says what
its code decides and nothing about what the calls do, so one program can be
put into several worlds: a world is a relation `can s a r s'`, that in state
`s` the call `a` may be answered by `r` and leave `s'`. A world may be one
function (`executes`), one with faults, or the bare record of the calls so far
(`records`), in which every answer is possible.

Two things are said about a program in a world. `wp can ok p Q s` is the
weakest precondition: whatever the world answers, every call made is one that
`ok` allows in the state it is made from, and if the program ends, `Q` holds.
It is a recursion on the program, so a proof of it walks through the code.
`Steps` says how far a run got, and `wp_steps` is what connects the two.
-/

namespace Lib

universe u

/-- Programs over the calls `A`, whose answers have the types `R`. -/
inductive Prog (A : Type) (R : A → Type) (ε α : Type) : Type
  | pure (a : α)
  | raise (e : ε)
  | call (a : A) (k : Except ε (R a) → Prog A R ε α)

/-- A call and its answer. -/
abbrev CallEvent (A : Type) (R : A → Type) (ε : Type) : Type :=
  Σ a : A, Except ε (R a)

namespace Prog

variable {A : Type} {R : A → Type} {ε α β : Type} {σ : Type u}

def bind : Prog A R ε α → (α → Prog A R ε β) → Prog A R ε β
  | pure a, f => f a
  | raise e, _ => raise e
  | call a k, f => call a fun r => (k r).bind f

instance : Monad (Prog A R ε) where
  pure := pure
  bind := bind

def ofExcept : Except ε α → Prog A R ε α
  | .ok a => pure a
  | .error e => raise e

/-- A call whose exceptions are let through. -/
def act (a : A) : Prog A R ε (R a) := call a ofExcept

/-- `try`, with the exceptions as values. -/
def attempt : Prog A R ε α → Prog A R ε (Except ε α)
  | pure a => pure (.ok a)
  | raise e => pure (.error e)
  | call a k => call a fun r => (k r).attempt

/-- A program for each element, one after the other. -/
def each (f : α → Prog A R ε β) : List α → Prog A R ε (List β)
  | [] => Pure.pure []
  | a :: rest => do
      let b ← f a
      let bs ← each f rest
      return b :: bs

/-! ## Worlds -/

abbrev World (σ : Type u) (A : Type) (R : A → Type) (ε : Type) :=
  σ → (a : A) → Except ε (R a) → σ → Prop

/-- The world that does what a function says. -/
def executes (f : (a : A) → σ → Except ε (R a) × σ) : World σ A R ε :=
  fun s a r s' => f a s = (r, s')

/-- The world that gives any of the answers allowed and keeps a record. -/
def records (allowed : (a : A) → Except ε (R a) → Prop) :
    World (List (CallEvent A R ε)) A R ε :=
  fun h a r h' => allowed a r ∧ h' = h ++ [⟨a, r⟩]

/-- A run from one program and state to another. -/
inductive Steps (can : World σ A R ε) :
    Prog A R ε α → σ → Prog A R ε α → σ → Prop
  | refl (p : Prog A R ε α) (s : σ) : Steps can p s p s
  | call {a : A} {k : Except ε (R a) → Prog A R ε α} {r : Except ε (R a)}
      {s s' t : σ} {q : Prog A R ε α} : can s a r s' →
      Steps can (k r) s' q t → Steps can (call a k) s q t

/-- Runs a program in the world of a function. -/
def exec (f : (a : A) → σ → Except ε (R a) × σ) :
    Prog A R ε α → σ → Except ε α × σ
  | pure a, s => (.ok a, s)
  | raise e, s => (.error e, s)
  | call a k, s => (k (f a s).1).exec f (f a s).2

/-- The calls of a program that is answered by a function, with the answers. -/
def transcript (r : (a : A) → Except ε (R a)) :
    Prog A R ε α → List (CallEvent A R ε)
  | call a k => ⟨a, r a⟩ :: (k (r a)).transcript r
  | _ => []

theorem Steps.trans {can : World σ A R ε} {p q r : Prog A R ε α} {s t v : σ}
    (h : Steps can p s q t) (h' : Steps can q t r v) : Steps can p s r v := by
  induction h with
  | refl p s => exact h'
  | call hcan _ ih => exact .call hcan (ih h')

theorem Steps.mono {can can' : World σ A R ε}
    (himp : ∀ s a r s', can s a r s' → can' s a r s') {p q : Prog A R ε α}
    {s t : σ} (h : Steps can p s q t) : Steps can' p s q t := by
  induction h with
  | refl p s => exact .refl p s
  | call hcan _ ih => exact .call (himp _ _ _ _ hcan) ih

theorem steps_exec (f : (a : A) → σ → Except ε (R a) × σ)
    (p : Prog A R ε α) : ∀ s : σ,
      Steps (executes f) p s (ofExcept (p.exec f s).1) (p.exec f s).2 := by
  induction p with
  | pure a => exact fun s => .refl _ _
  | raise e => exact fun s => .refl _ _
  | call a k ih => exact fun s => .call rfl (ih _ _)

theorem exec_ofExcept (f : (a : A) → σ → Except ε (R a) × σ)
    (r : Except ε α) (s : σ) :
    (ofExcept r : Prog A R ε α).exec f s = (r, s) := by
  cases r with
  | error e => rfl
  | ok a => rfl

theorem exec_act (f : (a : A) → σ → Except ε (R a) × σ) (a : A) (s : σ) :
    (act a : Prog A R ε (R a)).exec f s = f a s :=
  exec_ofExcept f (f a s).1 (f a s).2

theorem exec_attempt (f : (a : A) → σ → Except ε (R a) × σ)
    (p : Prog A R ε α) : ∀ s : σ,
    p.attempt.exec f s = (.ok (p.exec f s).1, (p.exec f s).2) := by
  induction p with
  | pure a => exact fun s => rfl
  | raise e => exact fun s => rfl
  | call a k ih => exact fun s => ih _ _

/-- What a program goes on with after its first part. -/
def resume (f : (a : A) → σ → Except ε (R a) × σ) (g : α → Prog A R ε β) :
    Except ε α × σ → Except ε β × σ
  | (.ok a, s) => (g a).exec f s
  | (.error e, s) => (.error e, s)

@[simp] theorem resume_ok (f : (a : A) → σ → Except ε (R a) × σ)
    (g : α → Prog A R ε β) (a : α) (s : σ) :
    resume f g (.ok a, s) = (g a).exec f s := rfl

@[simp] theorem resume_error (f : (a : A) → σ → Except ε (R a) × σ)
    (g : α → Prog A R ε β) (e : ε) (s : σ) :
    resume f g (.error e, s) = (.error e, s) := rfl

theorem exec_bind (f : (a : A) → σ → Except ε (R a) × σ)
    (g : α → Prog A R ε β) (p : Prog A R ε α) : ∀ s : σ,
    (p >>= g).exec f s = resume f g (p.exec f s) := by
  induction p with
  | pure a => exact fun s => rfl
  | raise e => exact fun s => rfl
  | call a k ih => exact fun s => ih _ _

@[simp] theorem exec_pure (f : (a : A) → σ → Except ε (R a) × σ) (a : α)
    (s : σ) : (Pure.pure a : Prog A R ε α).exec f s = (.ok a, s) := rfl

@[simp] theorem exec_raise (f : (a : A) → σ → Except ε (R a) × σ) (e : ε)
    (s : σ) : (raise e : Prog A R ε α).exec f s = (.error e, s) := rfl

/-- Programs that leave the state alone, one after the other. -/
theorem exec_each {f : (a : A) → σ → Except ε (R a) × σ} {s : σ}
    {p : α → Prog A R ε β} {g : α → Except ε β} {l : List α}
    (h : ∀ a ∈ l, (p a).exec f s = (g a, s)) :
    (each p l).exec f s = (l.mapM g, s) := by
  induction l with
  | nil => rfl
  | cons a rest ih =>
      have hrest := ih fun b hb => h b (List.mem_cons_of_mem a hb)
      rw [each, exec_bind, h a List.mem_cons_self, List.mapM_cons]
      cases g a with
      | error e => rfl
      | ok b =>
          rw [resume_ok, exec_bind, hrest]
          show _ = (Except.bind (rest.mapM g) _, s)
          cases rest.mapM g with
          | error e => rfl
          | ok bs => rfl

/-! ## Weakest preconditions -/

def wp (can : World σ A R ε) (ok : σ → A → Prop) :
    Prog A R ε α → (Except ε α → σ → Prop) → σ → Prop
  | pure a, Q, s => Q (.ok a) s
  | raise e, Q, s => Q (.error e) s
  | call a k, Q, s => ok s a ∧ ∀ r s', can s a r s' → wp can ok (k r) Q s'

/-- The postcondition of a program's first part: what is left may start, or
the exception is let through. -/
def onOk (P : α → σ → Prop) (Q : Except ε β → σ → Prop) :
    Except ε α → σ → Prop
  | .ok a, s => P a s
  | .error e, s => Q (.error e) s

variable {can : World σ A R ε} {ok : σ → A → Prop}

@[simp] theorem wp_pure (a : α) (Q : Except ε α → σ → Prop) (s : σ) :
    wp can ok (Pure.pure a : Prog A R ε α) Q s ↔ Q (.ok a) s := Iff.rfl

@[simp] theorem wp_raise (e : ε) (Q : Except ε α → σ → Prop) (s : σ) :
    wp can ok (raise e : Prog A R ε α) Q s ↔ Q (.error e) s := Iff.rfl

theorem wp_ofExcept (r : Except ε α) (Q : Except ε α → σ → Prop) (s : σ) :
    wp can ok (ofExcept r : Prog A R ε α) Q s ↔ Q r s := by
  cases r with
  | error e => exact Iff.rfl
  | ok a => exact Iff.rfl

theorem wp_act {a : A} {Q : Except ε (R a) → σ → Prop} {s : σ} :
    wp can ok (act a : Prog A R ε (R a)) Q s ↔
      ok s a ∧ ∀ r s', can s a r s' → Q r s' := by
  simp only [act, wp, wp_ofExcept]

theorem wp_bind {g : α → Prog A R ε β} {Q : Except ε β → σ → Prop}
    {p : Prog A R ε α} : ∀ {s : σ},
    wp can ok (p >>= g) Q s ↔
      wp can ok p (onOk (fun a => wp can ok (g a) Q) Q) s := by
  induction p with
  | pure a => exact Iff.rfl
  | raise e => exact Iff.rfl
  | call a k ih =>
      intro s
      refine and_congr_right fun _ => ?_
      exact forall_congr' fun r => forall_congr' fun s' =>
        forall_congr' fun _ => ih r

theorem wp_attempt {Q : Except ε (Except ε α) → σ → Prop}
    {p : Prog A R ε α} : ∀ {s : σ},
    wp can ok p.attempt Q s ↔ wp can ok p (fun r => Q (.ok r)) s := by
  induction p with
  | pure a => exact Iff.rfl
  | raise e => exact Iff.rfl
  | call a k ih =>
      intro s
      refine and_congr_right fun _ => ?_
      exact forall_congr' fun r => forall_congr' fun s' =>
        forall_congr' fun _ => ih r

theorem wp_mono {Q Q' : Except ε α → σ → Prop}
    (hpost : ∀ r s, Q r s → Q' r s) {p : Prog A R ε α} :
    ∀ {s : σ}, wp can ok p Q s → wp can ok p Q' s := by
  induction p with
  | pure a => exact fun h => hpost _ _ h
  | raise e => exact fun h => hpost _ _ h
  | call a k ih => exact fun h => ⟨h.1, fun r s' hcan => ih r (h.2 r s' hcan)⟩

theorem wp_weaken {ok' : σ → A → Prop} (hok : ∀ s a, ok s a → ok' s a)
    {Q : Except ε α → σ → Prop} {p : Prog A R ε α} :
    ∀ {s : σ}, wp can ok p Q s → wp can ok' p Q s := by
  induction p with
  | pure a => exact fun h => h
  | raise e => exact fun h => h
  | call a k ih =>
      exact fun h => ⟨hok _ a h.1, fun r s' hcan => ih r (h.2 r s' hcan)⟩

/-- A run from a program that is fine ends in one that is fine. -/
theorem wp_steps {Q : Except ε α → σ → Prop} {p q : Prog A R ε α} {s t : σ}
    (h : Steps can p s q t) (hp : wp can ok p Q s) : wp can ok q Q t := by
  induction h with
  | refl p s => exact hp
  | call hcan _ ih => exact ih (hp.2 _ _ hcan)

/-- In the world of a function the postcondition holds at the end. -/
theorem wp_exec {f : (a : A) → σ → Except ε (R a) × σ}
    {Q : Except ε α → σ → Prop} {p : Prog A R ε α} {s : σ}
    (h : wp (executes f) ok p Q s) : Q (p.exec f s).1 (p.exec f s).2 :=
  (wp_ofExcept _ _ _).mp (wp_steps (steps_exec f p s) h)

theorem wp_and {ok' : σ → A → Prop} {Q Q' : Except ε α → σ → Prop}
    {p : Prog A R ε α} : ∀ {s : σ}, wp can ok p Q s → wp can ok' p Q' s →
      wp can ok p (fun r s => Q r s ∧ Q' r s) s := by
  induction p with
  | pure a => exact fun h h' => ⟨h, h'⟩
  | raise e => exact fun h h' => ⟨h, h'⟩
  | call a k ih =>
      exact fun h h' => ⟨h.1, fun r s' hcan =>
        ih r (h.2 r s' hcan) (h'.2 r s' hcan)⟩

/-- What the calls that are made keep holds before each of them, and at the
end. -/
theorem wp_invariant {I : σ → Prop}
    (hstep : ∀ s a r s', I s → ok s a → can s a r s' → I s')
    {Q : Except ε α → σ → Prop} {p : Prog A R ε α} :
    ∀ {s : σ}, I s → wp can ok p Q s → wp can (fun s _ => I s) p
      (fun _ => I) s := by
  induction p with
  | pure a => exact fun hs _ => hs
  | raise e => exact fun hs _ => hs
  | call a k ih =>
      exact fun hs h => ⟨hs, fun r s' hcan =>
        ih r (hstep _ _ r s' hs h.1 hcan) (h.2 r s' hcan)⟩

/-- Whatever is answered, the program makes no calls but these. -/
def Only (P : A → Prop) : Prog A R ε α → Prop
  | pure _ => True
  | raise _ => True
  | call a k => P a ∧ ∀ r, Only P (k r)

variable {P : A → Prop}

theorem Only.mono {P' : A → Prop} (hP : ∀ a, P a → P' a) :
    ∀ {p : Prog A R ε α}, Only P p → Only P' p := by
  intro p
  induction p with
  | pure a => exact fun _ => trivial
  | raise e => exact fun _ => trivial
  | call a k ih => exact fun h => ⟨hP a h.1, fun r => ih r (h.2 r)⟩

theorem Only.act {a : A} (ha : P a) : Only P (act a : Prog A R ε (R a)) := by
  refine ⟨ha, fun r => ?_⟩
  cases r with
  | error e => trivial
  | ok r => trivial

theorem Only.bind {g : α → Prog A R ε β} (hg : ∀ a, Only P (g a)) :
    ∀ {p : Prog A R ε α}, Only P p → Only P (p >>= g) := by
  intro p
  induction p with
  | pure a => exact fun _ => hg a
  | raise e => exact fun _ => trivial
  | call a k ih => exact fun h => ⟨h.1, fun r => ih r (h.2 r)⟩

theorem Only.attempt : ∀ {p : Prog A R ε α}, Only P p → Only P p.attempt := by
  intro p
  induction p with
  | pure a => exact fun _ => trivial
  | raise e => exact fun _ => trivial
  | call a k ih => exact fun h => ⟨h.1, fun r => ih r (h.2 r)⟩

/-- Calls that are always fine. -/
theorem Only.wp_of (hok : ∀ s a, P a → ok s a) : ∀ {p : Prog A R ε α},
    Only P p → ∀ s : σ, Prog.wp can ok p (fun _ _ => True) s := by
  intro p
  induction p with
  | pure a => exact fun _ _ => trivial
  | raise e => exact fun _ _ => trivial
  | call a k ih =>
      exact fun h s => ⟨hok s a h.1, fun r s' _ => ih r (h.2 r) s'⟩

theorem Only.wp {p : Prog A R ε α} (h : Only P p) (s : σ) :
    wp can (fun _ a => P a) p (fun _ _ => True) s :=
  h.wp_of (fun _ _ ha => ha) s

/-- All calls are in `P` but for one at most, which is in `Q`. -/
def Once (P Q : A → Prop) : Prog A R ε α → Prop
  | pure _ => True
  | raise _ => True
  | call a k => P a ∧ (∀ r, Once P Q (k r)) ∨ Q a ∧ ∀ r, Only P (k r)

variable {Q : A → Prop}

theorem Only.once : ∀ {p : Prog A R ε α}, Only P p → Once P Q p := by
  intro p
  induction p with
  | pure a => exact fun _ => trivial
  | raise e => exact fun _ => trivial
  | call a k ih => exact fun h => .inl ⟨h.1, fun r => ih r (h.2 r)⟩

theorem Once.bind {g : α → Prog A R ε β} (hg : ∀ a, Once P Q (g a)) :
    ∀ {p : Prog A R ε α}, Only P p → Once P Q (p >>= g) := by
  intro p
  induction p with
  | pure a => exact fun _ => hg a
  | raise e => exact fun _ => trivial
  | call a k ih => exact fun h => .inl ⟨h.1, fun r => ih r (h.2 r)⟩

theorem Once.act_bind {a : A} (ha : Q a) {g : R a → Prog A R ε β}
    (hg : ∀ r, Only P (g r)) : Once P Q (Prog.act a >>= g) :=
  .inr ⟨ha, fun r => match r with
    | .ok r => hg r
    | .error _ => trivial⟩

theorem Once.mono {P' Q' : A → Prop} (hP : ∀ a, P a → P' a)
    (hQ : ∀ a, Q a → Q' a) :
    ∀ {p : Prog A R ε α}, Once P Q p → Once P' Q' p := by
  intro p
  induction p with
  | pure a => exact fun _ => trivial
  | raise e => exact fun _ => trivial
  | call a k ih =>
      intro h
      rcases h with ⟨ha, hk⟩ | ⟨ha, hk⟩
      · exact .inl ⟨hP a ha, fun r => ih r (hk r)⟩
      · exact .inr ⟨hQ a ha, fun r => (hk r).mono hP⟩

/-! ## A larger environment -/

section Embed

variable {B : Type} {S : B → Type} {f : A → B}
  {back : ∀ a, Except ε (S (f a)) → Except ε (R a)}

/-- The calls are made under other names. -/
def embed (f : A → B) (back : ∀ a, Except ε (S (f a)) → Except ε (R a)) :
    Prog A R ε α → Prog B S ε α
  | pure a => pure a
  | raise e => raise e
  | call a k => call (f a) fun r => (k (back a r)).embed f back

theorem Only.embed {P : B → Prop} : ∀ {p : Prog A R ε α},
    Only (fun a => P (f a)) p → Only P (p.embed f back) := by
  intro p
  induction p with
  | pure a => exact fun _ => trivial
  | raise e => exact fun _ => trivial
  | call a k ih => exact fun h => ⟨h.1, fun r => ih _ (h.2 _)⟩

theorem Once.embed {P Q : B → Prop} : ∀ {p : Prog A R ε α},
    Once (fun a => P (f a)) (fun a => Q (f a)) p →
      Once P Q (p.embed f back) := by
  intro p
  induction p with
  | pure a => exact fun _ => trivial
  | raise e => exact fun _ => trivial
  | call a k ih =>
      intro h
      rcases h with ⟨ha, hk⟩ | ⟨ha, hk⟩
      · exact .inl ⟨ha, fun r => ih _ (hk _)⟩
      · exact .inr ⟨ha, fun r => Only.embed (hk _)⟩

/-- What is known of a program by its record, if the record of the larger
environment is read as one of its own. -/
theorem wp_embed_records (own? : CallEvent B S ε → Option (CallEvent A R ε))
    {allowed : (a : A) → Except ε (R a) → Prop}
    {allowed' : (b : B) → Except ε (S b) → Prop}
    (hown : ∀ a r, own? ⟨f a, r⟩ = some ⟨a, back a r⟩)
    (hallowed : ∀ a r, allowed' (f a) r → allowed a (back a r))
    {ok : List (CallEvent A R ε) → A → Prop}
    {Q : Except ε α → List (CallEvent A R ε) → Prop} :
    ∀ {p : Prog A R ε α} {h : List (CallEvent B S ε)},
      wp (records allowed) ok p Q (h.filterMap own?) →
      wp (records allowed')
        (fun h b => ∃ a, b = f a ∧ ok (h.filterMap own?) a) (p.embed f back)
        (fun r h => Q r (h.filterMap own?)) h := by
  intro p
  induction p with
  | pure a => exact fun hp => hp
  | raise e => exact fun hp => hp
  | call a k ih =>
      intro h hp
      refine ⟨⟨a, rfl, hp.1⟩, fun r h' hr => ?_⟩
      obtain ⟨hr, rfl⟩ := hr
      refine ih _ ?_
      rw [List.filterMap_append, List.filterMap_cons, hown]
      exact hp.2 _ _ ⟨hallowed a r hr, rfl⟩

end Embed

/-- Programs run one after the other, each from where the one before was left,
at its end or before it. -/
inductive Reruns (can : World σ A R ε) (begins : σ → Prop)
    (P : Prog A R ε α → Prop) (s : σ) : σ → Prop
  | refl : Reruns can begins P s s
  | again {t u : σ} {p q : Prog A R ε α} : Reruns can begins P s t →
      begins t → P p → Steps can p t q u → Reruns can begins P s u

/-- What each of them keeps from wherever it may begin. -/
theorem Reruns.invariant {begins : σ → Prop} {P : Prog A R ε α → Prop}
    {I : σ → Prop}
    (hkeep : ∀ p s, P p → begins s → I s →
      wp can (fun s _ => I s) p (fun _ => I) s)
    {s t : σ} (h : Reruns can begins P s t) (hs : I s) : I t := by
  induction h with
  | refl => exact hs
  | @again t u p q _ hbegins hp hsteps ih =>
      have hq := wp_steps hsteps (hkeep p t hp hbegins ih)
      cases q with
      | pure a => exact hq
      | raise e => exact hq
      | call a k => exact hq.1

/-- Whatever the world answers, what holds before holds at the end. -/
def Keeps (can : World σ A R ε) (I : σ → Prop) (p : Prog A R ε α) : Prop :=
  ∀ s, I s → wp can (fun _ _ => True) p (fun _ s' => I s') s

variable {I : σ → Prop}

theorem Keeps.pure (a : α) : Keeps can I (Pure.pure a : Prog A R ε α) :=
  fun _ hs => hs

theorem Keeps.raise (e : ε) : Keeps can I (Prog.raise e : Prog A R ε α) :=
  fun _ hs => hs

theorem Keeps.act {a : A} (ha : ∀ s r s', I s → can s a r s' → I s') :
    Keeps can I (Prog.act a : Prog A R ε (R a)) :=
  fun s hs => wp_act.mpr ⟨trivial, fun r s' hcan => ha s r s' hs hcan⟩

theorem Keeps.bind {p : Prog A R ε α} {g : α → Prog A R ε β}
    (hp : Keeps can I p) (hg : ∀ a, Keeps can I (g a)) :
    Keeps can I (p >>= g) := by
  intro s hs
  refine wp_bind.mpr (wp_mono (fun r s' hs' => ?_) (hp s hs))
  cases r with
  | error e => exact hs'
  | ok a => exact hg a s' hs'

theorem Keeps.attempt {p : Prog A R ε α} (hp : Keeps can I p) :
    Keeps can I p.attempt :=
  fun s hs => wp_attempt.mpr (hp s hs)

theorem Keeps.exec {f : (a : A) → σ → Except ε (R a) × σ}
    {p : Prog A R ε α} (hp : Keeps (executes f) I p) {s : σ} (hs : I s) :
    I (p.exec f s).2 :=
  wp_exec (hp s hs)

theorem Keeps.each {f : α → Prog A R ε β} {l : List α}
    (hf : ∀ a ∈ l, Keeps can I (f a)) : Keeps can I (Prog.each f l) := by
  induction l with
  | nil => exact .pure []
  | cons a rest ih =>
      have hrest := ih fun b hb => hf b (List.mem_cons_of_mem a hb)
      exact .bind (hf a List.mem_cons_self) fun b => .bind hrest fun bs =>
        .pure (b :: bs)

/-- The value is in `V`, or what is raised in `E`. -/
def Ends (V : α → Prop) (E : ε → Prop) : Except ε α → Prop
  | .ok a => V a
  | .error e => E e

/-- Whatever the world answers, the program ends so. -/
def Yields (can : World σ A R ε) (V : α → Prop) (E : ε → Prop)
    (p : Prog A R ε α) : Prop :=
  ∀ s, wp can (fun _ _ => True) p (fun r _ => Ends V E r) s

variable {V : α → Prop} {W : β → Prop} {E : ε → Prop}

theorem Yields.pure {a : α} (ha : V a) :
    Yields can V E (Pure.pure a : Prog A R ε α) := fun _ => ha

theorem Yields.raise {e : ε} (he : E e) :
    Yields can V E (Prog.raise e : Prog A R ε α) := fun _ => he

theorem Yields.mono {V' : α → Prop} {E' : ε → Prop} {p : Prog A R ε α}
    (hp : Yields can V E p) (hV : ∀ a, V a → V' a) (hE : ∀ e, E e → E' e) :
    Yields can V' E' p := by
  refine fun s => wp_mono (fun r _ hr => ?_) (hp s)
  cases r with
  | ok a => exact hV a hr
  | error e => exact hE e hr

theorem Yields.any (p : Prog A R ε α) :
    Yields can (fun _ => True) (fun _ => True) p := by
  induction p with
  | pure a => exact fun _ => trivial
  | raise e => exact fun _ => trivial
  | call a k ih => exact fun s => ⟨trivial, fun r s' _ => ih r s'⟩

theorem Yields.act {a : A} {V : R a → Prop}
    (ha : ∀ s r s', can s a r s' → Ends V E r) :
    Yields can V E (Prog.act a : Prog A R ε (R a)) :=
  fun s => wp_act.mpr ⟨trivial, fun r s' hcan => ha s r s' hcan⟩

theorem Yields.bind {p : Prog A R ε α} {g : α → Prog A R ε β}
    (hp : Yields can V E p) (hg : ∀ a, V a → Yields can W E (g a)) :
    Yields can W E (p >>= g) := by
  intro s
  refine wp_bind.mpr (wp_mono (fun r s' hr => ?_) (hp s))
  cases r with
  | error e => exact hr
  | ok a => exact hg a hr s'

/-- What is tried may raise what it will. -/
theorem Yields.attempt {E' : ε → Prop} {p : Prog A R ε α}
    (hp : Yields can V E p) : Yields can (Ends V E) E' p.attempt :=
  fun s => wp_attempt.mpr (hp s)

theorem Yields.each {f : α → Prog A R ε β} {l : List α}
    (hf : ∀ a ∈ l, Yields can W E (f a)) :
    Yields can (fun bs => ∀ b ∈ bs, W b) E (Prog.each f l) := by
  induction l with
  | nil => exact .pure (by simp)
  | cons a rest ih =>
      have hrest := ih fun b hb => hf b (List.mem_cons_of_mem a hb)
      refine .bind (hf a List.mem_cons_self) fun b hb => ?_
      refine .bind hrest fun bs hbs => .pure ?_
      exact List.forall_mem_cons.mpr ⟨hb, hbs⟩

theorem Yields.exec {f : (a : A) → σ → Except ε (R a) × σ}
    {p : Prog A R ε α} (hp : Yields (executes f) V E p) (s : σ) :
    Ends V E (p.exec f s).1 :=
  wp_exec (hp s)

/-- A second part that keeps `I` on the values the first can have. -/
theorem Keeps.bind_yields {p : Prog A R ε α} {g : α → Prog A R ε β}
    (hp : Keeps can I p) (hV : Yields can V E p)
    (hg : ∀ a, V a → Keeps can I (g a)) : Keeps can I (p >>= g) := by
  intro s hs
  refine wp_bind.mpr (wp_mono (fun r s' hr => ?_) (wp_and (hp s hs) (hV s)))
  cases r with
  | error e => exact hr.1
  | ok a => exact hg a hr.2 s' hr.1

end Prog

end Lib
