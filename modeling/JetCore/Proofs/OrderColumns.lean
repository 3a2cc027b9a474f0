import JetCore.Proofs.OrderKeys
import JetCore.Proofs.OrderSchema

/-!
# Orders that do not fit their columns

`decode_order_created` bounds no length and no number from above, the columns
of `orders` do. MySQL in strict mode rejects a value outside its column every
time, and what the handler sees of that is the `DBAPIError` it takes for a
transient failure. So the order is delivered until its attempts are over, never
stored, never acked and never answered (`overlong_never_acked`,
`overlong_exhausts`). An order within the columns can still be stored from
every state in which it has attempts left (`retriable_of_inColumns`).
-/

namespace JetCore

open Lib

/-- `order_id VARCHAR(64)`, `item VARCHAR(255)`, `quantity INT`. A value that
is too long by trailing spaces only, which MySQL cuts off, counts as one that is
not in its column. -/
structure InColumns (r : OrderCreatedRequest) : Prop where
  orderId : r.orderId.length ≤ 64
  item : r.item.length ≤ 255
  quantity : -2 ^ 31 ≤ r.quantity ∧ r.quantity < 2 ^ 31

/-- In its columns, and the driver has bytes for it. -/
structure Fits (r : OrderCreatedRequest) : Prop extends InColumns r where
  orderId_utf8 : (Utf8.encode r.orderId).isSome
  item_utf8 : (Utf8.encode r.item).isSome

/-- What may become of the transaction in strict mode. Nothing is said of the
values that are in their columns. -/
def Strict (r : OrderCreatedRequest) (attempt : Attempt) : Prop :=
  ¬ InColumns r → attempt = .raises .dbapiError

def inStrictMode (a : WriteAdapter) (_ : WriteQueue) : QueueAct → Prop
  | .wait _ => True
  | .deliver i d => ∀ o, a.stream[i]? = some o → Strict o.request d.attempt

/-- As long as the event has attempts left, it can still be stored. -/
def Retriable (P : Primitives) (w : Pydantic) (a : WriteAdapter)
    (start : WriteQueue) (i : ℕ) (o : OrderCreated) : Prop :=
  ∀ acts q, Run (WriteQueue.step P w a) (inStrictMode a) start acts q →
    ¬ q.Acked i → q.deliveries i < maxDeliverAttempts →
    ∃ acts' q', Run (WriteQueue.step P w a) (inStrictMode a) q acts' q' ∧
      q'.db.orders.look (a.key o) = some (o.request.item, o.request.quantity)

/-- The orders of this payload fit, and no failure of theirs is for ever. -/
def Storable (raw : Bytes) : Prop :=
  ∀ o : OrderCreated, o.payload = raw →
    Fits o.request ∧ ∀ P w a start i, a.stream[i]? = some o →
      Retriable P w a start i o

/-- The bounds, on the properties of an order's value. -/
structure WithinColumns (v : Json) : Prop where
  orderId : ∀ t, property v "orderId" = some (.str t) →
    t.length ≤ 64 ∧ ∀ c ∈ t, Text.isSurrogate c = false
  item : ∀ t, property v "item" = some (.str t) →
    t.length ≤ 255 ∧ ∀ c ∈ t, Text.isSurrogate c = false
  quantity : ∀ n, property v "quantity" = some (.int n) → n ≤ 2147483647

variable {P : Primitives} {w : Pydantic} {a : WriteAdapter} {raw : Bytes}
variable {v : Json}

/-! ## What fits -/

theorem encode_isSome {t : Text} : (Utf8.encode t).isSome ↔
    ∀ c ∈ t, Text.isSurrogate c = false := by
  rw [Utf8.encode]
  split
  · next h =>
      obtain ⟨c, hc, hsurrogate⟩ := List.any_eq_true.mp h
      constructor
      · intro hsome
        cases hsome
      · intro hnone
        rw [hnone c hc] at hsurrogate
        cases hsurrogate
  · next h =>
      refine ⟨fun _ c hc => ?_, fun _ => rfl⟩
      by_contra hsurrogate
      exact h (List.any_eq_true.mpr ⟨c, hc, Bool.eq_true_of_not_eq_false
        hsurrogate⟩)

/-- The bounds are what the columns ask of the request. -/
theorem AcceptsOrder.fits_iff {r : OrderCreatedRequest} (h : AcceptsOrder v r) :
    Fits r ↔ WithinColumns v := by
  have hpos := h.positive
  constructor
  · intro hfits
    refine ⟨fun t ht => ?_, fun t ht => ?_, fun n hn => ?_⟩
    · cases h.orderId.symm.trans ht
      exact ⟨hfits.orderId, encode_isSome.mp hfits.orderId_utf8⟩
    · cases h.item.symm.trans ht
      exact ⟨hfits.item, encode_isSome.mp hfits.item_utf8⟩
    · have hquantity := h.quantity
      rw [hn, Option.getD_some] at hquantity
      cases hquantity
      have := hfits.quantity.2
      omega
  · intro hwithin
    obtain ⟨hid, hid_utf8⟩ := hwithin.orderId _ h.orderId
    obtain ⟨hitem, hitem_utf8⟩ := hwithin.item _ h.item
    have hquantity : r.quantity ≤ 2147483647 := by
      have hq := h.quantity
      cases hproperty : property v "quantity" with
      | none =>
          rw [hproperty, Option.getD_none] at hq
          have hone := Json.int.inj hq
          omega
      | some q =>
          rw [hproperty, Option.getD_some] at hq
          exact hwithin.quantity _ (by rw [hproperty, hq])
    exact ⟨⟨hid, hitem, by omega, by omega⟩, encode_isSome.mpr hid_utf8,
      encode_isSome.mpr hitem_utf8⟩

/-! ## An order that fits -/

/-- Wait for the delay to pass, and commit. -/
theorem retriable_of_inColumns {o : OrderCreated}
    (hfits : InColumns o.request) (start : WriteQueue) {i : ℕ}
    (ho : a.stream[i]? = some o) : Retriable P w a start i o := by
  intro acts q _ hacked hleft
  let waited : WriteQueue := { q with now := q.now + q.readyAt i }
  let d : Delivery := ⟨.commits, [], Sample.draws, 0, ""⟩
  have hnot : ∀ m ∈ waited.db.world.acked, m.seq ≠ i + 1 := by
    intro m hm hseq
    exact hacked ⟨m, hm, hseq⟩
  have hstep := step_deliver (P := P) (w := w) (q := waited) (d := d) ho hnot
    rfl hleft (Nat.le_add_left _ _) rfl
  refine ⟨[.wait (q.readyAt i), .deliver i d], _, .cons trivial rfl
    (.cons (fun o' ho' hout => ?_) hstep (.nil _)), ?_⟩
  · cases ho.symm.trans ho'
    exact absurd hfits hout
  · have horders := handle_commits P w a.client a.collate (d := d)
      rfl (o.received_decodes i (waited.deliveries i + 1)) q.db
    show Orders.look (handle P w a.client a.collate d _ q.db).2.orders _ = _
    rw [horders, Orders.look_upsert]
    exact if_pos rfl

/-! ## An order that does not -/

theorem handle_nak_stream (client : BusClient) (collate : Text → Text)
    {d : Delivery} (hd : d.attempt = .raises .dbapiError)
    {event : ReceivedEvent} {request : OrderCreatedRequest}
    (hrequest : decodeOrderCreated event.payload = .ok request) (s : DbWorld) :
    (handle P w client collate d event s).2.world.stream = s.world.stream := by
  rw [handle.eq_def, hrequest]
  simp only [hd]
  rfl

/-- No delivery of it commits, so none is acked. -/
theorem overlong_step {i : ℕ} {o : OrderCreated} (ho : a.stream[i]? = some o)
    (hout : ¬ InColumns o.request) {q q' : WriteQueue} {act : QueueAct}
    (hok : inStrictMode a q act) (hstep : q.step P w a act = some q')
    (h : ¬ q.Acked i) : ¬ q'.Acked i := by
  cases act with
  | wait seconds =>
      cases hstep
      exact h
  | deliver j d =>
      rw [WriteQueue.step] at hstep
      split at hstep
      · cases hstep
      · next o' ho' =>
          simp only at hstep
          split at hstep
          · next hready =>
              cases hstep
              rintro ⟨m, hm, hseq⟩
              by_cases hij : j = i
              · subst hij
                cases ho.symm.trans ho'
                have hnak := handle_nak (P := P) (w := w) a.client a.collate
                  (hok o ho hout) (o.received_decodes j (q.deliveries j + 1))
                  q.db
                exact h ⟨m, hnak.2 ▸ hm, hseq⟩
              · rcases handle_cases (P := P) (w := w) a.client a.collate d
                  (o'.received_decodes j (q.deliveries j + 1)) q.db with
                  ⟨-, hacked⟩ | ⟨-, hacked | hacked⟩
                · exact h ⟨m, hacked ▸ hm, hseq⟩
                · exact h ⟨m, hacked ▸ hm, hseq⟩
                · rcases List.mem_append.mp (hacked ▸ hm) with hm | hm
                  · exact h ⟨m, hm, hseq⟩
                  · rw [List.mem_singleton.mp hm] at hseq
                    exact hij (Nat.succ.inj hseq)
          · cases hstep

theorem overlong_never_acked {i : ℕ} {o : OrderCreated}
    (ho : a.stream[i]? = some o) (hout : ¬ InColumns o.request)
    {start q : WriteQueue} {acts : List QueueAct}
    (hrun : Run (WriteQueue.step P w a) (inStrictMode a) start acts q)
    (hstart : ¬ start.Acked i) : ¬ q.Acked i :=
  hrun.invariant (fun hs hok hstep => overlong_step ho hout hok hstep hs) hstart

/-- And its deliveries do come to an end, with nothing stored or published. -/
theorem overlong_exhausts {i : ℕ} {o : OrderCreated}
    (ho : a.stream[i]? = some o) (start : WriteQueue)
    (hstart : ¬ start.Acked i) (hfirst : start.deliveries i = 0) (n : ℕ)
    (hn : n ≤ maxDeliverAttempts) :
    ∃ acts q, Run (WriteQueue.step P w a) (inStrictMode a) start acts q ∧
      ¬ q.Acked i ∧ q.deliveries i = n ∧ q.db.orders = start.db.orders ∧
      q.db.world.stream = start.db.world.stream := by
  induction n with
  | zero => exact ⟨[], start, .nil _, hstart, hfirst, rfl, rfl⟩
  | succ n ih =>
      obtain ⟨acts, q, hrun, hacked, hcount, horders, hstream⟩ :=
        ih (by omega)
      let waited : WriteQueue := { q with now := q.now + q.readyAt i }
      let d : Delivery := ⟨.raises .dbapiError, [], Sample.draws, 0, ""⟩
      have hnak := handle_nak (P := P) (w := w) a.client a.collate (d := d) rfl
        (o.received_decodes i (n + 1)) q.db
      have hsame := handle_nak_stream (P := P) (w := w) a.client a.collate
        (d := d) rfl (o.received_decodes i (n + 1)) q.db
      have hstep := step_deliver (P := P) (w := w) (q := waited) (d := d) ho
        (fun m hm hseq => hacked ⟨m, hm, hseq⟩) hcount (by omega)
        (Nat.le_add_left _ _) rfl
      have hwait : inStrictMode a q (.wait (q.readyAt i)) := trivial
      have hdeliver : inStrictMode a waited (.deliver i d) := fun _ _ _ => rfl
      refine ⟨acts ++ [.wait (q.readyAt i), .deliver i d], _, hrun.append
        (.cons hwait rfl (.cons hdeliver hstep (.nil _))), ?_,
        Function.update_self _ _ _, hnak.1.trans horders, hsame.trans hstream⟩
      rintro ⟨m, hm, hseq⟩
      exact hacked ⟨m, hnak.2 ▸ hm, hseq⟩

/-! ## The payloads of which orders can be stored -/

theorem accepts_of_decode {r : OrderCreatedRequest}
    (h : decodeOrderCreated raw = .ok r) :
    ∃ v, jsonLoads raw = .ok v ∧ AcceptsOrder v r := by
  cases hloads : jsonLoads raw with
  | error e =>
      rw [decodeOrderCreated, readOrderCreated, hloads] at h
      cases h
  | ok v => exact ⟨v, rfl, (decodeOrderCreated_ok hloads).mp h⟩

/-- The orders of a payload can be stored exactly when the strings and the
number it holds are within the columns, or it holds no order at all. -/
theorem storable_iff (raw : Bytes) : Storable raw ↔
    ∀ v, jsonLoads raw = .ok v → (∃ r, AcceptsOrder v r) → WithinColumns v := by
  constructor
  · rintro h v hloads ⟨r, haccepts⟩
    have hdecodes := (decodeOrderCreated_ok hloads).mpr haccepts
    let o : OrderCreated :=
      ⟨(sampleOrder "tea" (by decide)).event, raw, [], r, hdecodes⟩
    exact haccepts.fits_iff.mp (h o rfl).1
  · rintro h o rfl
    obtain ⟨v, hloads, haccepts⟩ := accepts_of_decode o.decodes
    have hfits := haccepts.fits_iff.mpr (h v hloads ⟨_, haccepts⟩)
    exact ⟨hfits, fun P w a start i ho =>
      retriable_of_inColumns hfits.toInColumns start ho⟩

/-- `{"orderId": "o-1", "item": "tea", "quantity": 3000000000}` -/
def hugeOrder : Bytes :=
  Json.dumps (Json.object [("orderId", Json.string "o-1"),
    ("item", Json.string "tea"), ("quantity", .int 3000000000)])

/-- Accepted, and delivered five times for nothing: after that there is no row,
no ack, no answer and no attempt left. -/
theorem hugeOrder_dropped : ¬ Storable hugeOrder ∧
    ∃ (o : OrderCreated) (acts : List QueueAct) (q : WriteQueue),
      o.payload = hugeOrder ∧
      Run (WriteQueue.step Sample.primitives Sample.text
        ⟨Sample.client, id, [o]⟩) (inStrictMode ⟨Sample.client, id, [o]⟩)
        { db := { world := Sample.world } } acts q ∧
      q.deliveries 0 = 5 ∧ ¬ q.Acked 0 ∧ q.db.orders = Dict.empty ∧
      q.db.world.stream = Sample.world.stream ∧
      ∀ d, q.step Sample.primitives Sample.text ⟨Sample.client, id, [o]⟩
        (.deliver 0 d) = none := by
  have hdecodes : decodeOrderCreated hugeOrder =
      .ok ⟨Text.ofString "o-1", Text.ofString "tea", 3000000000⟩ := by
    decide +kernel
  let o : OrderCreated := ⟨(sampleOrder "tea" (by decide)).event, hugeOrder, [],
    _, hdecodes⟩
  have hout : ¬ InColumns o.request := by
    intro h
    have hlow : (3000000000 : ℤ) < 2 ^ 31 := h.quantity.2
    omega
  refine ⟨fun h => hout (h o rfl).1.toInColumns, o, ?_⟩
  obtain ⟨acts, q, hrun, hacked, hcount, horders, hstream⟩ :=
    overlong_exhausts (P := Sample.primitives) (w := Sample.text)
      (a := ⟨Sample.client, id, [o]⟩) (i := 0) (o := o) rfl
      { db := { world := Sample.world } }
      (by rintro ⟨m, hm, -⟩; cases hm) rfl 5 (Nat.le_refl 5)
  refine ⟨acts, q, rfl, hrun, hcount, hacked, horders, hstream, fun d => ?_⟩
  rw [WriteQueue.step]
  simp only [List.getElem?_cons_zero]
  exact if_neg fun h => absurd h.2.1 (by rw [hcount]; decide)

end JetCore
