import JetCore.Lib.Subject
import JetCore.Proofs.ClientTasks
import JetCore.Ref.DurableNames

/-!
# Whose cursor a durable name is

A durable name does not tell the pair it was made of. A dot and an underscore
of the subject come out the same, and the word in the middle may as well stand
in a service id or in a subject. Those are all the ways in which two pairs get
one name (`durableName_eq_iff`), so every handler has a cursor of its own, and
finds its own subscription under its name, exactly if no two pairs that are
configured meet in one of them (`unshared_iff`).
-/

namespace JetCore

open Lib

/-- A process of an adapter. -/
structure AdapterProcess where
  serviceId : String
  subjects : List ConfiguredSubject

/-- The service id and the subject of every handler. -/
def handlerPairs (processes : List AdapterProcess) : List (String × String) :=
  processes.flatMap fun p => p.subjects.map fun c => (p.serviceId, c.subject)

namespace SubjectAdapter

/-- No two handlers fetch from one cursor; and in every process each subject
has a loop, and under the name the loop fetches by its own subscription. -/
structure Unshared (a : SubjectAdapter) (processes : List AdapterProcess) :
    Prop where
  cursors : ∀ h ∈ handlerPairs processes, ∀ h' ∈ handlerPairs processes,
    h ≠ h' → a.durableName h.1 h.2 ≠ a.durableName h'.1 h'.2
  own : ∀ p ∈ processes, ∀ client loops client',
    a.run p.serviceId p.subjects client = (.ok loops, client') →
      loops.map HandlerLoop.subject =
        p.subjects.map ConfiguredSubject.subject ∧
      ∀ l ∈ loops, client'.subscriptions.get? l.durableName = some l.subject

/-- The word between the parts, without its dashes. -/
def word : SubjectAdapter → String
  | .webhookSender => "relay"
  | .httpAdapter => "trigger"

/-- The second service id goes on where the first one ends: with the word and
its dashes and more, which the first subject has in front of the second one; or
with the word and one dash, when the first subject is the second one after the
word and a dash. -/
def Overhangs (a : SubjectAdapter) (h h' : String × String) : Prop :=
  (∃ more, h'.1 = h.1 ++ "-" ++ a.word ++ "-" ++ more ∧
    undotted h.2 = more ++ "-" ++ a.word ++ "-" ++ undotted h'.2) ∨
  h'.1 = h.1 ++ "-" ++ a.word ∧
    undotted h.2 = a.word ++ "-" ++ undotted h'.2

/-- Subjects of one service that differ in dots for underscores, or one service
id that goes on into the other's subject. -/
def Confusable (a : SubjectAdapter) (h h' : String × String) : Prop :=
  h.1 = h'.1 ∧ undotted h.2 = undotted h'.2 ∨
    a.Overhangs h h' ∨ a.Overhangs h' h

variable {a : SubjectAdapter} {h h' : String × String}

/-! ## Names -/

theorem between_toList (a : SubjectAdapter) :
    a.between.toList = '-' :: (a.word.toList ++ ['-']) := by
  cases a with
  | webhookSender => decide
  | httpAdapter => decide

theorem dash_not_mem_word (a : SubjectAdapter) : '-' ∉ a.word.toList := by
  cases a with
  | webhookSender => decide
  | httpAdapter => decide

theorem durableName_toList (a : SubjectAdapter) (serviceId subject : String) :
    (a.durableName serviceId subject).toList =
      serviceId.toList ++
        '-' :: (a.word.toList ++ '-' :: (undotted subject).toList) := by
  rw [durableName, String.toList_append, String.toList_append,
    between_toList]
  simp

theorem overhangs_iff : a.Overhangs h h' ↔
    Lib.Overhangs '-' a.word.toList h.1.toList (undotted h.2).toList
      h'.1.toList (undotted h'.2).toList := by
  have hdash : "-".toList = ['-'] := by decide
  rw [Overhangs, Lib.Overhangs]
  refine or_congr ?_ ?_
  · constructor
    · intro hover
      obtain ⟨more, hid, hsubject⟩ := hover
      refine ⟨more.toList, ?_, ?_⟩
      · rw [hid]
        simp [String.toList_append, hdash]
      · rw [hsubject]
        simp [String.toList_append, hdash]
    · intro hover
      obtain ⟨v, hid, hsubject⟩ := hover
      refine ⟨String.ofList v, ?_, ?_⟩
      · rw [← String.toList_inj, hid]
        simp [String.toList_append, hdash]
      · rw [← String.toList_inj, hsubject]
        simp [String.toList_append, hdash]
  · rw [← String.toList_inj, ← String.toList_inj]
    simp [String.toList_append, hdash]

/-- The pairs that get one name. -/
theorem durableName_eq_iff : a.durableName h.1 h.2 = a.durableName h'.1 h'.2 ↔
    a.Confusable h h' := by
  rw [← String.toList_inj, durableName_toList, durableName_toList,
    append_word_eq_iff (dash_not_mem_word a), Confusable, overhangs_iff,
    overhangs_iff, String.toList_inj, String.toList_inj]

/-! ## `run` -/

theorem durable_durableName (a : SubjectAdapter) (serviceId : String)
    (c : ConfiguredSubject) (id : String) :
    (c.start (a.durableName serviceId c.subject)).durable id =
      a.durableName serviceId c.subject := by
  have hne : a.durableName serviceId c.subject ≠ "" := by
    intro hempty
    have hlist := congrArg String.toList hempty
    rw [durableName_toList] at hlist
    simp at hlist
  rw [ConfiguredSubject.start, SubscribeCall.durable]
  exact if_neg hne

/-- A `subscribe` that returns has come through both its awaits. -/
theorem subscribe_ok {client client' : ClientState} {call : SubscribeCall}
    {name : String} (h : client.subscribe call = (.ok name, client')) :
    call.registered = .ok () ∧ call.pulled = .ok () := by
  rw [ClientState.subscribe] at h
  cases hregistered : call.registered with
  | error e =>
      rw [hregistered] at h
      cases h
  | ok _ =>
      rw [hregistered] at h
      cases hpulled : call.pulled with
      | error e =>
          simp only [hpulled] at h
          cases h
      | ok _ => exact ⟨rfl, rfl⟩

/-- What a `run` that comes to its `gather` has done. -/
theorem run_ok {serviceId : String} {subjects : List ConfiguredSubject} :
    ∀ {client client' : ClientState} {loops : List HandlerLoop},
    a.run serviceId subjects client = (.ok loops, client') →
    loops = subjects.map (fun c =>
        ⟨c.subject, a.durableName serviceId c.subject⟩) ∧
      client' = client.subscribeAll (subjects.map fun c =>
        c.start (a.durableName serviceId c.subject)) ∧
      ∀ c ∈ subjects, c.registered = .ok () ∧ c.pulled = .ok () := by
  induction subjects with
  | nil =>
      intro client client' loops h
      cases h
      exact ⟨rfl, rfl, by simp⟩
  | cons c rest ih =>
      intro client client' loops h
      rw [run] at h
      rcases hstart : client.subscribe
        (c.start (a.durableName serviceId c.subject)) with ⟨e | name, client₁⟩
      · simp only [hstart] at h
        cases h
      · simp only [hstart] at h
        rcases hrest : a.run serviceId rest client₁ with ⟨e | loops', client₂⟩
        · rw [hrest] at h
          cases h
        · rw [hrest] at h
          cases h
          obtain ⟨rfl, rfl, hall⟩ := ih hrest
          refine ⟨rfl, ?_, List.forall_mem_cons.mpr
            ⟨subscribe_ok hstart, hall⟩⟩
          have hclient : (client.subscribe (c.start
              (a.durableName serviceId c.subject))).2 = client₁ :=
            congrArg Prod.snd hstart
          rw [← hclient]
          rfl

theorem sets_start (a : SubjectAdapter) (serviceId id : String)
    {c : ConfiguredSubject} (h : c.registered = .ok () ∧ c.pulled = .ok ()) :
    ClientState.sets id (c.start (a.durableName serviceId c.subject)) =
      some (a.durableName serviceId c.subject) := by
  rw [ClientState.sets, durable_durableName]
  exact if_pos h

/-- Under names that are its own each loop finds its own subscription. -/
theorem own_of_names {serviceId : String} {subjects : List ConfiguredSubject}
    {client client' : ClientState} {loops : List HandlerLoop}
    (hnames : ∀ c ∈ subjects, ∀ c' ∈ subjects, c.subject ≠ c'.subject →
      a.durableName serviceId c.subject ≠ a.durableName serviceId c'.subject)
    (h : a.run serviceId subjects client = (.ok loops, client')) :
    ∀ l ∈ loops, client'.subscriptions.get? l.durableName =
      some l.subject := by
  obtain ⟨rfl, rfl, hall⟩ := run_ok h
  intro l hl
  obtain ⟨c, hc, rfl⟩ := List.mem_map.mp hl
  have hstart := List.mem_map_of_mem (f := fun c => ConfiguredSubject.start c
    (a.durableName serviceId c.subject)) hc
  obtain ⟨call, hlast⟩ :=
    lastOn_isSome (ClientState.sets client.serviceId) hstart
  obtain ⟨hcall, hsets⟩ := lastOn_mem hlast
  obtain ⟨c', hc', rfl⟩ := List.mem_map.mp hcall
  rw [sets_start a serviceId _ (hall c hc)] at hlast hsets
  rw [sets_start a serviceId _ (hall c' hc')] at hsets
  rw [ClientState.subscribeAll_subscriptions, hlast, Option.elim_some]
  by_contra hne
  refine hnames c' hc' c hc (fun heq => hne ?_) (Option.some.inj hsets)
  exact congrArg some heq

/-- Every handler has a cursor and a subscription of its own exactly if no two
pairs are confusable. -/
theorem unshared_iff (a : SubjectAdapter) (processes : List AdapterProcess) :
    a.Unshared processes ↔
      ∀ h ∈ handlerPairs processes, ∀ h' ∈ handlerPairs processes,
        h ≠ h' → ¬ a.Confusable h h' := by
  constructor
  · intro hunshared h hh h' hh' hne hconfusable
    exact hunshared.cursors h hh h' hh' hne
      (durableName_eq_iff.mpr hconfusable)
  · intro hapart
    have hcursors : ∀ h ∈ handlerPairs processes,
        ∀ h' ∈ handlerPairs processes, h ≠ h' →
          a.durableName h.1 h.2 ≠ a.durableName h'.1 h'.2 :=
      fun h hh h' hh' hne heq =>
        hapart h hh h' hh' hne (durableName_eq_iff.mp heq)
    refine ⟨hcursors, fun p hp client loops client' hrun => ⟨?_, ?_⟩⟩
    · obtain ⟨rfl, -, -⟩ := run_ok hrun
      rw [List.map_map]
      rfl
    · have hpair : ∀ c ∈ p.subjects,
          (p.serviceId, c.subject) ∈ handlerPairs processes := fun c hc =>
        List.mem_flatMap.mpr ⟨p, hp, List.mem_map_of_mem hc⟩
      refine own_of_names (fun c hc c' hc' hne => ?_) hrun
      refine hcursors _ (hpair c hc) _ (hpair c' hc') fun heq => hne ?_
      exact congrArg Prod.snd heq

end SubjectAdapter

namespace Sample

def dottedSubject : ConfiguredSubject :=
  ⟨"events.orders.OrderCreated", .ok (), .ok ()⟩

def underscoredSubject : ConfiguredSubject :=
  ⟨"events.orders_OrderCreated", .ok (), .ok ()⟩

/-- One service with two subjects. -/
def twinSubjects : AdapterProcess :=
  ⟨"orders-api-01", [dottedSubject, underscoredSubject]⟩

theorem twinSubjects_undotted :
    undotted dottedSubject.subject = undotted underscoredSubject.subject := by
  rw [← String.toList_inj, undotted, undotted, String.toList_map,
    String.toList_map]
  decide

theorem twinSubjects_name (a : SubjectAdapter) :
    a.durableName "orders-api-01" dottedSubject.subject =
      a.durableName "orders-api-01" underscoredSubject.subject := by
  rw [SubjectAdapter.durableName, SubjectAdapter.durableName,
    twinSubjects_undotted]

theorem twinSubjects_shared (a : SubjectAdapter) :
    ¬ a.Unshared [twinSubjects] := fun h =>
  h.cursors ("orders-api-01", dottedSubject.subject)
    List.mem_cons_self
    ("orders-api-01", underscoredSubject.subject)
    (List.mem_cons_of_mem _ List.mem_cons_self) (by decide)
    (twinSubjects_name a)

end Sample

open Sample

/-- Neither adapter keeps them apart, and the loop of the first subject fetches
the second one's events. -/
theorem twinSubjects_collide :
    ¬ SubjectAdapter.webhookSender.Unshared [twinSubjects] ∧
    ¬ SubjectAdapter.httpAdapter.Unshared [twinSubjects] ∧
    (SubjectAdapter.webhookSender.run "orders-api-01" twinSubjects.subjects
        idleClient).2.subscriptions.get?
      (SubjectAdapter.webhookSender.durableName "orders-api-01"
        dottedSubject.subject) = some underscoredSubject.subject := by
  refine ⟨twinSubjects_shared _, twinSubjects_shared _, ?_⟩
  rw [twinSubjects_name]
  exact Dict.get?_set_self _ _ _

end JetCore
