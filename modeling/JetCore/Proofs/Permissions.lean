import JetCore.Proofs.EventTrace
import JetCore.Spec.Permissions

/-!
# Who is obeyed

The identities of the manifest are given what their programs publish
(`results_declared`) and are not given to subscribe to any of it
(`not_mem_results`). So what is handled comes from outside, and from outside
comes what the publisher's entry declares (`mem_publish_of_allows`).
-/

namespace JetCore

open Lib

namespace EventBus

variable {m : Manifest} {d : Deployment} {s s' : EventBus}
  {acts : List EventBusAct} {a : ManifestEntry}

/-! ## What the allow lists let through to the stream -/

theorem allows_publish (ha : a ∈ m.adapters) (hfree : CommaFree a)
    {subject : String} (hsubject : subject ∈ a.publish) :
    allows (allowPub a) subject = true := by
  have hlit := m.literal a ha
  rw [allowPub_of_commaFree hfree hlit]
  refine List.any_eq_true.mpr ⟨subject, List.mem_append_left _ hsubject, ?_⟩
  exact (subjectMatches_literal
    (hlit subject (List.mem_append_left _ hsubject)).literal).mpr rfl

theorem tokens_captured {subject : String} (h : captured subject = true) :
    ∃ rest, tokens subject = "events".toList :: rest := by
  have hevents : tokens "events.>" = ["events".toList, ['>']] := by decide
  rw [captured, hevents] at h
  cases htokens : tokens subject with
  | nil =>
      rw [htokens] at h
      cases h
  | cons t rest =>
      rw [htokens, subjectMatches, Bool.and_eq_true, Bool.or_eq_true,
        decide_eq_true_eq, decide_eq_true_eq] at h
      · have ht := h.1.resolve_left (by decide)
        exact ⟨rest, by rw [ht]⟩
      · intro heq
        exact absurd (List.cons.inj heq).1 (by decide)

/-- Of the subjects of the stream an identity may publish to the declared
ones. -/
theorem mem_publish_of_allows (ha : a ∈ m.adapters) (hfree : CommaFree a)
    {subject : String} (hcaptured : captured subject = true)
    (h : allows (allowPub a) subject = true) : subject ∈ a.publish := by
  have hi := m.token a ha
  have hlit := m.literal a ha
  obtain ⟨rest, htokens⟩ := tokens_captured hcaptured
  rw [allowPub_of_commaFree hfree hlit] at h
  obtain ⟨p, hp, hmatch⟩ := List.any_eq_true.mp h
  have hother : ¬ KeyOf a.serviceId subject := by
    rintro ⟨front, hfront⟩
    rw [htokens] at hfront
    exact absurd (List.cons.inj hfront).1 (by decide)
  have heq : subject = p := by
    rcases mem_declaredPub hi hlit hp with hevent | rfl | ⟨hliteral, hkey⟩
    · exact tokens_injective ((subjectMatches_literal hevent.literal).mp hmatch)
    · rw [Access.tokens_baselinePub, htokens, subjectMatches] at hmatch
      · cases hmatch
      · intro heq
        exact absurd heq (by decide)
    · have heq := tokens_injective ((subjectMatches_literal hliteral).mp hmatch)
      rw [← heq] at hkey
      exact absurd hkey hother
  subst heq
  rw [declaredPub, List.mem_append, List.mem_cons, List.mem_append,
    List.mem_singleton] at hp
  rcases hp with hp | hp | hp | hp
  · exact hp
  · rw [hp, Access.tokens_baselinePub] at htokens
    exact absurd (List.cons.inj htokens).1 (by decide)
  · obtain ⟨t, -, rfl⟩ := List.mem_map.mp hp
    exact absurd (keyOf_directorySubject hi t) hother
  · rw [hp] at hother
    exact absurd (keyOf_identitySubject hi) hother

/-! ## The entries of the handlers -/

/-- What the adapter of the handler subscribes to, under any id. -/
def subscribed : EventConsumer → List String
  | .file _ => (AdapterIdentities.fileStorage "").subscribe
  | .orders => (AdapterIdentities.dbAdapterMysql "").subscribe
  | .trigger _ => (AdapterIdentities.httpAdapter "").subscribe

theorem subscribe_entry (st : Staffing m d) (consumer : EventConsumer) :
    (st.entry consumer).subscribe = subscribed consumer := by
  cases consumer with
  | file handler => rfl
  | orders => rfl
  | trigger i => rfl

theorem entry_mem (st : Staffing m d) (consumer : EventConsumer) :
    st.entry consumer ∈ m.adapters := by
  cases consumer with
  | file handler => exact st.filesListed
  | orders => exact st.ordersListed
  | trigger i => exact st.triggersListed

/-- An identity is given what its handlers publish. -/
theorem results_declared (st : Staffing m d) (consumer : EventConsumer) :
    results consumer ⊆ (st.entry consumer).publish := by
  cases consumer with
  | file handler => exact fileResultsOf_subset handler
  | orders => exact List.subset_cons_self _ _
  | trigger i => exact List.Subset.refl _

/-- And what they subscribe to. -/
theorem subject_subscribed (st : Staffing m d) {consumer : EventConsumer}
    {subject : String} (h : d.subject? consumer = some subject) :
    subject ∈ subscribed consumer := by
  cases consumer with
  | file handler =>
      cases h
      cases handler with
      | write => decide
      | read => decide
      | delete => decide
      | list => decide
  | orders =>
      cases h
      decide
  | trigger i =>
      obtain ⟨self, hself, rfl⟩ := Option.map_eq_some_iff.mp h
      exact st.configured self (List.mem_of_getElem? hself)

/-- Whatever a handler publishes. -/
def allResults : List String :=
  "events.orders.OrderPersisted" :: "events.http.RequestCompleted" ::
    fileResults

theorem results_subset (consumer : EventConsumer) :
    results consumer ⊆ allResults := by
  cases consumer with
  | file handler =>
      exact fun subject hsubject => List.mem_cons_of_mem _
        (List.mem_cons_of_mem _ (fileResultsOf_subset handler hsubject))
  | orders =>
      intro subject hsubject
      rw [List.mem_singleton.mp hsubject]
      exact List.mem_cons_self
  | trigger i =>
      intro subject hsubject
      rw [List.mem_singleton.mp hsubject]
      exact List.mem_cons_of_mem _ List.mem_cons_self

/-- None of what is subscribed to is what a handler publishes. -/
theorem not_mem_results (consumer consumer' : EventConsumer) :
    ∀ subject ∈ subscribed consumer, subject ∉ results consumer' := by
  have hall : ∀ subject ∈ subscribed consumer, subject ∉ allResults := by
    cases consumer with
    | file handler =>
        show ∀ subject ∈ (AdapterIdentities.fileStorage "").subscribe,
          subject ∉ allResults
        decide
    | orders => decide
    | trigger i =>
        show ∀ subject ∈ (AdapterIdentities.httpAdapter "").subscribe,
          subject ∉ allResults
        decide
  exact fun subject hsubject hresult =>
    hall subject hsubject (results_subset consumer' hresult)

theorem calm_of_staffing (st : Staffing m d) : Calm d := by
  intro self hself hsubject
  refine not_mem_results (.trigger 0) (.trigger 0) self.subject
    (st.configured self hself) ?_
  rw [hsubject]
  exact List.mem_singleton_self _

/-! ## Every run -/

/-- What is from outside was published there. -/
theorem publish_mem (h : Reached d acts s) {c : Call}
    (hc : (c, none) ∈ s.stored) : .publish c ∈ acts := by
  refine Run.history (I := fun acts (s : EventBus) => ∀ c, (c, none) ∈ s.stored →
    .publish c ∈ acts) (fun c hc => ?_) ?_ h c hc
  · cases hc
  · intro acts s act s' hrun ih _ hstep c hc
    have hbefore : (c, none) ∈ s.stored → .publish c ∈ acts ++ [act] :=
      fun hc => List.mem_append_left _ (ih c hc)
    cases act with
    | publish call =>
        cases hstep
        rcases List.mem_append.mp hc with hc | hc
        · exact hbefore hc
        · cases List.mem_singleton.mp hc
          exact List.mem_append_right _ (List.mem_singleton_self _)
    | deliver e =>
        obtain ⟨-, -, rfl⟩ := step_deliver hstep
        exact hbefore hc
    | answer i r done call =>
        obtain ⟨-, a, -, hsame | ⟨c', args, -, -, heq⟩⟩ := step_answer hstep
        · rw [hsame] at hc
          exact hbefore hc
        · rw [heq] at hc
          rcases List.mem_append.mp hc with hc | hc
          · exact hbefore hc
          · cases List.mem_singleton.mp hc

/-- A message that is delivered is from outside, and its publisher declares
the subject. -/
theorem delivered_declared (st : Staffing m d)
    (hfree : ∀ a ∈ m.adapters, CommaFree a) (h : Reached d acts s)
    (hissued : Issued m acts) {i : ℕ} {e : EventDelivery}
    (he : s.deliveries.subject? i = some e) :
    ∃ a ∈ m.adapters, ∃ c, s.stored[e.message]? = some (c, none) ∧
      d.subject? e.consumer = some c.args.subject ∧
      c.args.subject ∈ a.publish ∧
      e.event.details.sourceServiceId = a.serviceId := by
  have hs := sound_of_reached h
  obtain ⟨⟨c, origin⟩, hm, hlistens⟩ := hs.delivered i e he
  obtain ⟨m', hm', horiginates⟩ := (traced_of_reached h).originates i e he
  rw [hm] at hm'
  cases hm'
  have hsubject := subject_subscribed st hlistens
  cases origin with
  | some j =>
      obtain ⟨e', -, hresult⟩ := hs.origin c j (List.mem_of_getElem? hm)
      exact absurd hresult (not_mem_results e.consumer e'.consumer _ hsubject)
  | none =>
      obtain ⟨a, ha, hissues⟩ :=
        hissued c (publish_mem h (List.mem_of_getElem? hm))
      refine ⟨a, ha, c, hm, hlistens, ?_, horiginates.1.symm.trans hissues.own⟩
      exact mem_publish_of_allows ha (hfree a ha) hissues.captured
        hissues.allowed

/-- Whatever is issued from outside under the allow lists, no handler is
refused a publish, and none obeys an adapter that does not declare to publish
what it handles. -/
theorem permitted (st : Staffing m d) (hfree : ∀ a ∈ m.adapters, CommaFree a)
    (h : Reached d acts s) (hissued : Issued m acts) :
    s.Permitted st where
  publishes := by
    intro i e a args he hcalling hpublished
    obtain ⟨e', k, hget⟩ := calling_eq.mp hcalling
    obtain ⟨p, hp⟩ := Tasks.subject?_eq.mp he
    rw [hget] at hp
    cases hp
    have hmem := entry_mem st e.consumer
    refine allows_publish hmem (hfree _ hmem) ?_
    rcases ((sound_of_reached h).task i e _ hget).1 with
      ⟨hsilent, -⟩ | ⟨⟨args', hargs, hsubject⟩, -⟩
    · rw [Silent, hpublished] at hsilent
      cases hsilent
    · rw [hpublished] at hargs
      cases hargs
      exact results_declared st e.consumer hsubject
  registers := by
    intro consumer subject hsubject
    refine Access.allows_register (entry_mem st consumer)
      (hfree _ (entry_mem st consumer)) subject ?_
    rw [subscribe_entry]
    exact subject_subscribed st hsubject
  commanded := fun i e he => delivered_declared st hfree h hissued he
  answers := by
    intro p c i hp
    obtain ⟨e, q, -, hanswers⟩ := answers_of_stored h hp
    obtain ⟨c', j, -, he, -⟩ := hanswers.answers
    obtain ⟨a, -, c'', hq, -⟩ := delivered_declared st hfree h hissued he
    rw [hanswers.message] at hq
    exact ⟨q, ⟨e, hanswers⟩, c'', hq⟩
  bounded := (sound_of_reached h).length_stored_le (calm_of_staffing st)

/-! ## An order -/

def orderStaffing : Staffing Access.manifest orderDeployment where
  files := "file-storage-01"
  orders := "db-adapter-mysql-01"
  triggers := "http-adapter-01"
  filesListed := by simp [Access.manifest, AdapterIdentities.adapters]
  ordersListed := by simp [Access.manifest, AdapterIdentities.adapters]
  triggersListed := by simp [Access.manifest, AdapterIdentities.adapters]
  configured := fun _ h => absurd h (List.not_mem_nil)

/-- An order that the REST API service issues is handled, and answered. -/
theorem permitted_tea : ∃ acts, ∃ (s : EventBus) (c : Call) (p : ℕ),
    Reached orderDeployment acts s ∧ s.stored[p]? = some (c, some 0) ∧
    s.Permitted orderStaffing := by
  obtain ⟨acts, s, c, p, hreached, hp, hpublished⟩ := answered_tea
  have hissued : Issued Access.manifest acts := by
    intro call hcall
    obtain rfl := hpublished call hcall
    have hlisted : AdapterIdentities.restApiService "rest-api-service-01" ∈
        Access.manifest.adapters := by
      simp [Access.manifest, AdapterIdentities.adapters]
    refine ⟨_, hlisted, rfl, by decide +kernel, ?_⟩
    exact allows_publish hlisted (Access.manifest_commaFree _ hlisted)
      List.mem_cons_self
  exact ⟨acts, s, c, p, hreached, hp,
    permitted orderStaffing Access.manifest_commaFree hreached hissued⟩

end EventBus

end JetCore
