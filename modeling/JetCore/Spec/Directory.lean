import JetCore.Lib.Dict
import JetCore.Lib.KeyedLog
import JetCore.Lib.Subject

/-!
# The service directory, as it is meant

Who can read a subject: a map from a subject and a service to the service's
encryption key, changed by registering, deregistering and expiring. No bucket,
no key strings, no JSON. A subject is literal and a service id is one token,
and both say so in their types, because the code's key `<subject>.<serviceId>`
means nothing otherwise.

`recipients` is the question publishers ask. Both answers the code gives to
it, the one-shot scan and the watch-backed cache, are compared with this one.
-/

namespace JetCore.Spec

open Lib

/-- A subject without wildcards. -/
abbrev Subject := {s : String // Literal (tokens s)}

/-- A service id: a single token. -/
abbrev ServiceId := {s : String // '.' ∉ s.toList}

inductive Change where
  | register (subject : Subject) (serviceId : ServiceId)
      (adapterType encryptionPublicKey registeredAt : String)
  | deregister (subject : Subject) (serviceId : ServiceId)
  | expire (subject : Subject) (serviceId : ServiceId)

def Change.slot : Change → Subject × ServiceId
  | .register t i _ _ _ => (t, i)
  | .deregister t i => (t, i)
  | .expire t i => (t, i)

/-- The key that stands in the slot after the change. -/
def Change.key : Change → Option String
  | .register _ _ _ k _ => some k
  | .deregister _ _ => none
  | .expire _ _ => none

abbrev Directory := Dict (Subject × ServiceId) String

def Directory.change (d : Directory) (c : Change) : Directory :=
  match c.key with
  | some k => d.set c.slot k
  | none => d.pop c.slot

def Directory.after (history : List Change) : Directory :=
  history.foldl Directory.change Dict.empty

/-- Who can read `s`. -/
def Directory.recipients (d : Directory) (s : Subject) : List String :=
  (d.entries.filter fun e => e.1.1 = s).map Prod.snd

theorem Directory.get?_after (history : List Change)
    (slot : Subject × ServiceId) :
    (Directory.after history).get? slot =
      (lastOn Change.slot slot history).elim none Change.key := by
  have hstep : ∀ c ∈ history, ∀ d : Directory, True → True ∧
      ∀ k, (d.change c).get? k = if c.slot = k then c.key else d.get? k := by
    intro c _ d _
    refine ⟨trivial, fun k => ?_⟩
    rw [Directory.change]
    cases c.key with
    | some v => simp only [Dict.get?_set, eq_comm]
    | none => simp only [Dict.get?_pop, eq_comm]
  exact (look_replay Dict.get? (fun _ => True) hstep trivial).2 slot

/-- A slot is taken exactly when its last change registered it. -/
theorem Directory.get?_after_iff {history : List Change}
    {slot : Subject × ServiceId} {k : String} :
    (Directory.after history).get? slot = some k ↔
      ∃ c, lastOn Change.slot c.slot history = some c ∧ c.slot = slot ∧
        c.key = some k := by
  rw [Directory.get?_after]
  constructor
  · intro h
    cases hl : lastOn Change.slot slot history with
    | none => rw [hl] at h; cases h
    | some c =>
        rw [hl] at h
        have hslot := (lastOn_mem hl).2
        exact ⟨c, by rw [hslot, hl], hslot, h⟩
  · rintro ⟨c, hl, rfl, hk⟩
    rw [hl]
    exact hk

end JetCore.Spec
