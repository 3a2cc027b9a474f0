import JetCore.Proofs.RoundTrip
import JetCore.Spec.WriteQueue

/-!
# Which upsert wins

The write handler upserts what it is delivered, so the last delivery that
commits decides a row. A nak takes an event out of the stream's order: while
its delay runs, later events are handled, and when it comes back it overwrites
them. Nothing in the handler or the statement compares the two.

What holds is stated by the order of the acks, which the stream's own order
bounds only when no event of that row is delivered twice. A commit whose answer
could not be published is no ack, but its event stays in the queue, and once
everything is acked it has been committed again. So the invariant says that a
row is what the acked events make of it or an event of the row is still
unacked (`Settled`).
-/

namespace JetCore

open Lib

variable {P : Primitives} {w : Pydantic} {a : WriteAdapter}

/-! ## `publish` acks nothing -/

/-- `x` leaves the acks alone. -/
def KeepsAcks {α : Type} (x : Bus α) : Prop :=
  ∀ world : World, (x world).2.acked = world.acked

theorem KeepsAcks.bind {α β : Type} {x : Bus α} {f : α → Bus β}
    (hx : KeepsAcks x) (hf : ∀ r, KeepsAcks (f r)) : KeepsAcks (x >>= f) := by
  intro world
  have h := hx world
  rw [Bus.bind_apply]
  rcases hxw : x world with ⟨r | r, world'⟩
  · rw [hxw] at h
    exact h
  · rw [hxw] at h
    exact (hf r world').trans h

theorem KeepsAcks.of {α : Type} (r : Except Exn α) : KeepsAcks (Bus.of r) :=
  fun _ => rfl

theorem KeepsAcks.warnIf (b : Bool) (line : LogLine) :
    KeepsAcks (Bus.warnIf b line) :=
  fun _ => rfl

theorem jsPublish_keepsAcks (now : ℕ) (subject : String) (data : Bytes)
    (msgId : Option String) : KeepsAcks (jsPublish now subject data msgId) := by
  intro world
  rw [jsPublish]
  split <;> rfl

theorem jsGetMsg_keepsAcks (seq : ℕ) : KeepsAcks (jsGetMsg seq) := by
  intro world
  rw [jsGetMsg]
  split <;> rfl

theorem publish_keepsAcks (client : BusClient) (recipients : List Json)
    (draws : Draws) (now : ℕ) (args : PublishArgs) :
    KeepsAcks (client.publish P w recipients draws now args) := by
  refine (KeepsAcks.warnIf _ _).bind fun _ => ?_
  refine (KeepsAcks.of _).bind fun event => ?_
  refine (jsPublish_keepsAcks _ _ _ _).bind fun ack => ?_
  split
  · refine (jsGetMsg_keepsAcks _).bind fun data => ?_
    cases data with
    | none => exact KeepsAcks.of _
    | some data => exact (KeepsAcks.of _).bind fun _ => KeepsAcks.of (.ok _)
  · exact KeepsAcks.of (.ok _)

/-! ## One delivery -/

theorem OrderCreated.received_decodes (o : OrderCreated) (i n : ℕ) :
    decodeOrderCreated (o.received i n).payload = .ok o.request := o.decodes

/-- What a delivery of a well-formed event does to the table and the acks:
nothing, an upsert, or an upsert and the ack. -/
theorem handle_cases (client : BusClient) (collate : Text → Text)
    (d : Delivery) {event : ReceivedEvent} {request : OrderCreatedRequest}
    (hrequest : decodeOrderCreated event.payload = .ok request) (s : DbWorld) :
    let s' := (handle P w client collate d event s).2
    (s'.orders = s.orders ∧ s'.world.acked = s.world.acked) ∨
    (s'.orders = s.orders.upsert collate request ∧
      (s'.world.acked = s.world.acked ∨
        s'.world.acked = s.world.acked ++ [event.msg])) := by
  intro s'
  have hs' : s' = (handle P w client collate d event s).2 := rfl
  clear_value s'
  rw [handle.eq_def, hrequest] at hs'
  simp only at hs'
  split at hs'
  · exact .inl ⟨by rw [hs']; rfl, by rw [hs']; rfl⟩
  · exact .inl ⟨by rw [hs'], by rw [hs']⟩
  · have hkeeps := publish_keepsAcks (P := P) (w := w) client d.recipients
      d.draws d.now (orderPersisted request.orderId d.occurredAt
        event.details.eventId) s.world
    refine .inr ⟨by rw [hs']; rfl, ?_⟩
    rw [hs', DbWorld.onBus, Bus.bind_apply]
    rcases hpublish : client.publish P w d.recipients d.draws d.now
      (orderPersisted request.orderId d.occurredAt event.details.eventId)
      s.world with ⟨r | r, world'⟩
    · rw [hpublish] at hkeeps
      exact .inl hkeeps
    · rw [hpublish] at hkeeps
      exact .inr (congrArg (· ++ [event.msg]) hkeeps)

/-! ## The invariant -/

/-- A row is what the acked events make of it, or an event of the row is still
to be acked. -/
structure Settled (a : WriteAdapter) (start : Orders) (q : WriteQueue) :
    Prop where
  seqs : ∀ m ∈ q.db.world.acked, ∃ i o, a.stream[i]? = some o ∧ m.seq = i + 1
  once : (q.db.world.acked.map Msg.seq).Nodup
  rows : ∀ key, q.db.orders.look key =
      (upsertAll a.collate start (q.ackedOrders a)).look key ∨
    ∃ i o, a.stream[i]? = some o ∧ ¬ q.Acked i ∧ a.key o = key

theorem Settled.start (db : DbWorld) (hacked : db.world.acked = []) :
    Settled a db.orders { db := db } where
  seqs m hm := by
    rw [hacked] at hm
    cases hm
  once := by
    rw [hacked]
    exact List.nodup_nil
  rows key := by
    refine .inl ?_
    rw [WriteQueue.ackedOrders, hacked]
    rfl

theorem WriteQueue.acked_congr {q q' : WriteQueue} (i : ℕ)
    (h : q'.db.world.acked = q.db.world.acked) : q'.Acked i ↔ q.Acked i := by
  rw [WriteQueue.Acked, WriteQueue.Acked, h]

/-- The invariant depends on the table and the acks only. -/
theorem Settled.congr {start : Orders} {q q' : WriteQueue}
    (h : Settled a start q) (horders : q'.db.orders = q.db.orders)
    (hacked : q'.db.world.acked = q.db.world.acked) : Settled a start q' where
  seqs := by
    rw [hacked]
    exact h.seqs
  once := by
    rw [hacked]
    exact h.once
  rows := by
    have hsame := fun i => WriteQueue.acked_congr i hacked
    simp only [horders, hsame, WriteQueue.ackedOrders, hacked]
    exact h.rows

theorem upsertAll_append (collate : Text → Text) (orders : Orders)
    (events : List OrderCreated) (o : OrderCreated) (key : Text) :
    (upsertAll collate orders (events ++ [o])).look key =
      if collate o.request.orderId = key then
        some (o.request.item, o.request.quantity)
      else (upsertAll collate orders events).look key := by
  rw [upsertAll, List.foldl_append, List.foldl_cons, List.foldl_nil,
    Orders.look_upsert]
  rfl

/-- A commit that was not acked leaves its event unacked. -/
theorem Settled.upserted {start : Orders} {q q' : WriteQueue}
    (h : Settled a start q) {i : ℕ} {o : OrderCreated}
    (ho : a.stream[i]? = some o) (hi : ¬ q.Acked i)
    (horders : q'.db.orders = q.db.orders.upsert a.collate o.request)
    (hacked : q'.db.world.acked = q.db.world.acked) : Settled a start q' where
  seqs := by
    rw [hacked]
    exact h.seqs
  once := by
    rw [hacked]
    exact h.once
  rows key := by
    have hsame := fun i => WriteQueue.acked_congr i hacked
    simp only [horders, Orders.look_upsert, hsame, WriteQueue.ackedOrders,
      hacked]
    split
    · next hkey => exact .inr ⟨i, o, ho, hi, hkey⟩
    · exact h.rows key

/-- A commit that was acked settles its row. -/
theorem Settled.acked {start : Orders} {q q' : WriteQueue}
    (h : Settled a start q) {i n : ℕ} {o : OrderCreated}
    (ho : a.stream[i]? = some o) (hi : ¬ q.Acked i)
    (horders : q'.db.orders = q.db.orders.upsert a.collate o.request)
    (hacked : q'.db.world.acked = q.db.world.acked ++ [(o.received i n).msg]) :
    Settled a start q' where
  seqs m hm := by
    rw [hacked] at hm
    rcases List.mem_append.mp hm with hm | hm
    · exact h.seqs m hm
    · exact ⟨i, o, ho, by rw [List.mem_singleton.mp hm]; rfl⟩
  once := by
    rw [hacked, List.map_append, List.nodup_append]
    refine ⟨h.once, List.nodup_singleton _, ?_⟩
    rintro s hs _ ht rfl
    obtain ⟨m, hm, rfl⟩ := List.mem_map.mp hs
    exact hi ⟨m, hm, List.mem_singleton.mp ht⟩
  rows key := by
    have hlist : q'.ackedOrders a = q.ackedOrders a ++ [o] := by
      rw [WriteQueue.ackedOrders, hacked, List.filterMap_append]
      refine congrArg _ ?_
      show List.filterMap _ [Msg.mk (i + 1) _ _ _] = _
      rw [List.filterMap_cons]
      simp only [Nat.add_sub_cancel, ho]
      rfl
    have hkept : ∀ j, ¬ q.Acked j → j ≠ i → ¬ q'.Acked j := by
      rintro j hj hne ⟨m, hm, hseq⟩
      rw [hacked] at hm
      rcases List.mem_append.mp hm with hm | hm
      · exact hj ⟨m, hm, hseq⟩
      · rw [List.mem_singleton.mp hm] at hseq
        exact hne (Nat.succ.inj hseq).symm
    rw [hlist, upsertAll_append, horders, Orders.look_upsert]
    split
    · exact .inl rfl
    · next hkey =>
        rcases h.rows key with hrow | ⟨j, o', ho', hj, hkey'⟩
        · exact .inl hrow
        · refine .inr ⟨j, o', ho', hkept j hj ?_, hkey'⟩
          rintro rfl
          obtain rfl := Option.some.inj (ho.symm.trans ho')
          exact hkey hkey'

theorem Settled.step {start : Orders} {q q' : WriteQueue} {act : QueueAct}
    (h : Settled a start q) (hstep : q.step P w a act = some q') :
    Settled a start q' := by
  cases act with
  | wait seconds =>
      cases hstep
      exact h.congr rfl rfl
  | deliver i d =>
      rw [WriteQueue.step] at hstep
      split at hstep
      · cases hstep
      · next o ho =>
          simp only at hstep
          split at hstep
          · next hready =>
              cases hstep
              rcases handle_cases (P := P) (w := w) a.client a.collate d
                (o.received_decodes i (q.deliveries i + 1)) q.db with
                ⟨horders, hacked⟩ | ⟨horders, hacked | hacked⟩
              · exact h.congr horders hacked
              · exact h.upserted ho hready.1 horders hacked
              · exact h.acked ho hready.1 horders hacked
          · cases hstep

/-! ## Once everything is acked -/

theorem filterMap_range_getElem? {α : Type} (l : List α) :
    ((List.range l.length).filterMap fun i => l[i]?) = l := by
  induction l with
  | nil => rfl
  | cons x l ih =>
      rw [List.length_cons, List.range_succ_eq_map, List.filterMap_cons,
        List.filterMap_map]
      exact congrArg (x :: ·) ih

/-- The acks go through the stream once each, in some order. -/
theorem Settled.perm {start : Orders} {q : WriteQueue}
    (h : Settled a start q) (hall : ∀ i < a.stream.length, q.Acked i) :
    (q.ackedOrders a).Perm a.stream := by
  have hpos : ∀ m ∈ q.db.world.acked, ∃ i < a.stream.length,
      m.seq = i + 1 := by
    intro m hm
    obtain ⟨i, o, ho, hseq⟩ := h.seqs m hm
    exact ⟨i, (List.getElem?_eq_some_iff.mp ho).1, hseq⟩
  have hnodup : (q.db.world.acked.map fun m => m.seq - 1).Nodup := by
    refine List.Nodup.map_on ?_ (List.Nodup.of_map _ h.once)
    intro m hm m' hm' heq
    refine List.inj_on_of_nodup_map h.once hm hm' ?_
    obtain ⟨i, -, hi⟩ := hpos m hm
    obtain ⟨j, -, hj⟩ := hpos m' hm'
    rw [hi, hj] at heq ⊢
    simpa using heq
  have hperm : (q.db.world.acked.map fun m => m.seq - 1).Perm
      (List.range a.stream.length) := by
    rw [List.perm_ext_iff_of_nodup hnodup List.nodup_range]
    intro i
    rw [List.mem_map, List.mem_range]
    constructor
    · rintro ⟨m, hm, rfl⟩
      obtain ⟨j, hj, hseq⟩ := hpos m hm
      rw [hseq]
      exact hj
    · intro hi
      obtain ⟨m, hm, hseq⟩ := hall i hi
      exact ⟨m, hm, by rw [hseq]; rfl⟩
  have hfiltered := hperm.filterMap fun i => a.stream[i]?
  rw [filterMap_range_getElem?, List.filterMap_map] at hfiltered
  exact hfiltered

/-- A row is decided by the last of the events that share its key. -/
theorem look_upsertAll (collate : Text → Text) (orders : Orders)
    (events : List OrderCreated) (key : Text) :
    (upsertAll collate orders events).look key =
      (lastOn (fun o => collate o.request.orderId) key events).elim
        (orders.look key) fun o => some (o.request.item, o.request.quantity) :=
  (look_replay Orders.look (fun _ => True) (fun o _ orders _ =>
    ⟨trivial, fun k => Orders.look_upsert collate orders o.request k⟩)
    trivial).2 key

/-- In every run that ends with every event acked, the table is the fold of
the upserts over the events in the order of their acks, which is an order of
the whole stream; and a row is the stream's own fold's when the events of that
row were acked in the stream's order. -/
theorem table_eq_fold_of_acks {start : DbWorld}
    (hstart : start.world.acked = []) {acts : List QueueAct} {q : WriteQueue}
    (hrun : Run (WriteQueue.step P w a) always { db := start } acts q)
    (hall : ∀ i < a.stream.length, q.Acked i) :
    (q.ackedOrders a).Perm a.stream ∧
    (∀ key, q.db.orders.look key =
      (upsertAll a.collate start.orders (q.ackedOrders a)).look key) ∧
    ∀ key, (q.ackedOrders a).filter (fun o => a.key o = key) =
        a.stream.filter (fun o => a.key o = key) →
      q.db.orders.look key =
        (upsertAll a.collate start.orders a.stream).look key := by
  have hsettled : Settled a start.orders q :=
    hrun.invariant (fun hs _ hstep => hs.step hstep)
      (.start start hstart)
  have hrows : ∀ key, q.db.orders.look key =
      (upsertAll a.collate start.orders (q.ackedOrders a)).look key := by
    intro key
    rcases hsettled.rows key with hrow | ⟨i, o, ho, hi, -⟩
    · exact hrow
    · exact absurd (hall i (List.getElem?_eq_some_iff.mp ho).1) hi
  refine ⟨hsettled.perm hall, hrows, fun key hsame => ?_⟩
  have hlast := lastOn_filter a.key (fun k => k = key) key
    (q.ackedOrders a)
  have hlast' := lastOn_filter a.key (fun k => k = key) key a.stream
  rw [hsame, hlast'] at hlast
  simp only [decide_true, if_true] at hlast
  rw [hrows, look_upsertAll, look_upsertAll]
  exact congrArg (fun o => Option.elim o _ _) hlast.symm

/-! ## A retried order -/

theorem handle_nak (client : BusClient) (collate : Text → Text) {d : Delivery}
    (hd : d.attempt = .raises .dbapiError) {event : ReceivedEvent}
    {request : OrderCreatedRequest}
    (hrequest : decodeOrderCreated event.payload = .ok request) (s : DbWorld) :
    (handle P w client collate d event s).2.orders = s.orders ∧
    (handle P w client collate d event s).2.world.acked = s.world.acked := by
  rw [handle.eq_def, hrequest]
  simp only [hd]
  exact ⟨rfl, rfl⟩

/-- A commit whose answer can be built is acked. -/
theorem handle_ack {client : BusClient} (collate : Text → Text) {d : Delivery}
    (hd : d.attempt = .commits) {event : ReceivedEvent}
    {request : OrderCreatedRequest}
    (hrequest : decodeOrderCreated event.payload = .ok request) {e : Event}
    (he : client.buildEvent P d.recipients d.draws.coins d.draws.built
      (orderPersisted request.orderId d.occurredAt event.details.eventId) =
        .ok e) (s : DbWorld) :
    (handle P w client collate d event s).2.orders =
      s.orders.upsert collate request ∧
    (handle P w client collate d event s).2.world.acked =
      s.world.acked ++ [event.msg] := by
  have hcap : captured "events.orders.OrderPersisted" = true := by decide
  obtain ⟨log, hlog⟩ := publish_of_not_duplicate (w := w) he hcap
    (Stream.duplicateOf_none s.world.stream d.now)
  rw [handle.eq_def, hrequest]
  simp only [hd, DbWorld.onBus, Bus.bind_apply, hlog]
  exact ⟨trivial, rfl⟩

theorem step_deliver {q : WriteQueue} {i n : ℕ} {d : Delivery}
    {o : OrderCreated} {db : DbWorld} (ho : a.stream[i]? = some o)
    (hi : ∀ m ∈ q.db.world.acked, m.seq ≠ i + 1)
    (hn : q.deliveries i = n) (hmax : n < maxDeliverAttempts)
    (hready : q.readyAt i ≤ q.now)
    (hdb : (handle P w a.client a.collate d (o.received i (n + 1)) q.db).2 =
      db) :
    q.step P w a (.deliver i d) = some ⟨db, q.now,
      Function.update q.deliveries i (n + 1),
      Function.update q.readyAt i (q.now + nakDelay (n + 1))⟩ := by
  have hnot : ¬ q.Acked i := by
    rintro ⟨m, hm, hseq⟩
    exact hi m hm hseq
  rw [WriteQueue.step, ho, ← hdb, ← hn]
  exact if_pos ⟨hnot, by rw [hn]; exact hmax, hready⟩

theorem decodeOrderCreated_dumps {orderId item : String}
    (hid : Text.ofString orderId ≠ []) (hitem : Text.ofString item ≠ []) :
    decodeOrderCreated (Json.dumps (Json.object [
      ("orderId", Json.string orderId), ("item", Json.string item)])) =
      .ok ⟨Text.ofString orderId, Text.ofString item, 1⟩ := by
  have hplain : Json.Plain (Json.object [
      ("orderId", Json.string orderId), ("item", Json.string item)]) := by
    refine Json.plain_object fun f hf => ?_
    simp only [List.mem_cons, List.not_mem_nil, or_false] at hf
    rcases hf with rfl | rfl <;> exact Json.plain_string _
  obtain ⟨c, cs, hc⟩ := List.exists_cons_of_ne_nil hid
  obtain ⟨c', cs', hc'⟩ := List.exists_cons_of_ne_nil hitem
  have hread : readOrderCreated (Json.dumps (Json.object [
      ("orderId", Json.string orderId), ("item", Json.string item)])) =
      .ok (.str (c :: cs), .str (c' :: cs'), .int 1) := by
    rw [readOrderCreated, jsonLoads_dumps hplain]
    simp only [Json.object, bind, Except.bind, getItem, getOr,
      Json.get?_object, ← hc, ← hc']
    rfl
  rw [decodeOrderCreated, hread, hc, hc']
  rfl

/-- An order of one. -/
def sampleOrder (item : String) (hitem : Text.ofString item ≠ []) :
    OrderCreated where
  event := ⟨⟨{
      eventId := "019b76da-a800-7000-8000-000000000001"
      eventCreated := Sample.newYear
      eventType := "OrderCreated"
      eventSchemaVersion := "1.0.0"
      sourceServiceId := Sample.client.serviceId },
    ⟨encryptionAlgorithm, []⟩, ""⟩⟩
  payload := Json.dumps (Json.object [
    ("orderId", Json.string "o-1"), ("item", Json.string item)])
  data := []
  request := ⟨Text.ofString "o-1", Text.ofString item, 1⟩
  decodes := decodeOrderCreated_dumps (by decide) hitem

def sampleAdapter : WriteAdapter where
  client := Sample.client
  collate := id
  stream := [sampleOrder "tea" (by decide), sampleOrder "ale" (by decide)]

def sampleDelivery (attempt : Attempt) : Delivery :=
  ⟨attempt, Sample.recipients, Sample.draws, 0, "2026-01-01T00:00:00Z"⟩

/-- The order for tea fails, the order for ale commits, and two seconds later
the order for tea is back and commits. -/
def teaRetried : List QueueAct := [
  .deliver 0 (sampleDelivery (.raises .dbapiError)),
  .deliver 1 (sampleDelivery .commits),
  .wait 2,
  .deliver 0 (sampleDelivery .commits)]

theorem sampleOrder_builds (item : String) (hitem : Text.ofString item ≠ [])
    (i n : ℕ) : ∃ e, Sample.client.buildEvent Sample.primitives
      Sample.recipients Sample.draws.coins Sample.draws.built
      (orderPersisted (Text.ofString "o-1") "2026-01-01T00:00:00Z"
        ((sampleOrder item hitem).received i n).details.eventId) = .ok e :=
  sample_builds _ _

theorem teaRetried_run : ∃ q, Run (WriteQueue.step Sample.primitives
      Sample.text sampleAdapter) always { db := { world := Sample.world } }
      teaRetried q ∧
    (∀ i < 2, q.Acked i) ∧
    q.db.orders = upsertAll id Dict.empty
      [sampleOrder "ale" (by decide), sampleOrder "tea" (by decide)] := by
  -- the first delivery of each
  have hfail := handle_nak (P := Sample.primitives) (w := Sample.text)
    Sample.client id (d := sampleDelivery (.raises .dbapiError)) rfl
    ((sampleOrder "tea" (by decide)).received_decodes 0 1)
    { world := Sample.world }
  generalize hs₁ : (handle Sample.primitives Sample.text Sample.client id
    (sampleDelivery (.raises .dbapiError))
    ((sampleOrder "tea" (by decide)).received 0 1)
    { world := Sample.world }).2 = s₁ at hfail
  obtain ⟨e, he⟩ := sampleOrder_builds "ale" (by decide) 1 1
  have hcommit := handle_ack (w := Sample.text) id (d := sampleDelivery .commits)
    rfl ((sampleOrder "ale" (by decide)).received_decodes 1 1) he s₁
  generalize hs₂ : (handle Sample.primitives Sample.text Sample.client id
    (sampleDelivery .commits)
    ((sampleOrder "ale" (by decide)).received 1 1) s₁).2 = s₂ at hcommit
  -- the second delivery of the one that failed
  obtain ⟨e', he'⟩ := sampleOrder_builds "tea" (by decide) 0 2
  have hretry := handle_ack (w := Sample.text) id (d := sampleDelivery .commits)
    rfl ((sampleOrder "tea" (by decide)).received_decodes 0 2) he' s₂
  generalize hs₃ : (handle Sample.primitives Sample.text Sample.client id
    (sampleDelivery .commits)
    ((sampleOrder "tea" (by decide)).received 0 2) s₂).2 = s₃ at hretry
  have hacked₁ : s₁.world.acked = [] := hfail.2
  have hacked₂ : s₂.world.acked =
      [((sampleOrder "ale" (by decide)).received 1 1).msg] := by
    rw [hcommit.2, hacked₁]
    rfl
  have hacked₃ : s₃.world.acked =
      [((sampleOrder "ale" (by decide)).received 1 1).msg,
        ((sampleOrder "tea" (by decide)).received 0 2).msg] := by
    rw [hretry.2, hacked₂]
    rfl
  refine ⟨⟨s₃, _, _, _⟩, .cons trivial (step_deliver (n := 0) rfl ?_ rfl
    (by decide) (Nat.le_refl 0) hs₁) (.cons trivial (step_deliver (n := 0) rfl
    ?_ rfl (by decide) (Nat.le_refl 0) hs₂) (.cons trivial rfl (.cons trivial
    (step_deliver (n := 1) rfl ?_ rfl (by decide) (Nat.le_refl 2) hs₃)
    (.nil _)))), fun i hi => ?_, ?_⟩
  · intro m hm
    cases hm
  · intro m hm
    cases hacked₁ ▸ hm
  · intro m hm
    cases List.mem_singleton.mp (hacked₂ ▸ hm)
    decide
  · rw [WriteQueue.Acked, hacked₃]
    match i, hi with
    | 0, _ => exact ⟨_, List.mem_cons_of_mem _ List.mem_cons_self, rfl⟩
    | 1, _ => exact ⟨_, List.mem_cons_self, rfl⟩
  · rw [hretry.1, hcommit.1, hfail.1]
    rfl

/-- What the theorem says of that run: the table has what the acks made of it,
in their order. -/
theorem table_eq_fold_of_acks_tea : ∃ q, Run (WriteQueue.step
      Sample.primitives Sample.text sampleAdapter) always
      { db := { world := Sample.world } } teaRetried q ∧
    (q.ackedOrders sampleAdapter).Perm sampleAdapter.stream ∧
    ∀ key, q.db.orders.look key =
      (upsertAll id Dict.empty (q.ackedOrders sampleAdapter)).look key := by
  obtain ⟨q, hrun, hall, -⟩ := teaRetried_run
  obtain ⟨hperm, hrows, -⟩ := table_eq_fold_of_acks rfl hrun hall
  exact ⟨q, hrun, hperm, hrows⟩

/-- The order for tea was published first and ends up in the table. -/
theorem teaRetried_overwrites : ∃ q, Run (WriteQueue.step
      Sample.primitives Sample.text sampleAdapter) always
      { db := { world := Sample.world } } teaRetried q ∧
    (∀ i < sampleAdapter.stream.length, q.Acked i) ∧
    q.db.orders.look (Text.ofString "o-1") ≠
      (upsertAll id Dict.empty sampleAdapter.stream).look
        (Text.ofString "o-1") := by
  obtain ⟨q, hrun, hall, horders⟩ := teaRetried_run
  refine ⟨q, hrun, hall, ?_⟩
  rw [horders]
  decide

end JetCore
