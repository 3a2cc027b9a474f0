import JetCore.Proofs.CdcReplay
import JetCore.Proofs.OrderColumns
import JetCore.Proofs.OrderFlow
import JetCore.Spec.OrderRows

/-!
# What a consumer of `RowChanged` holds is the table of the write path

The two halves of the database adapter never meet: the write handler upserts,
the watcher publishes what the binlog says. Between them is the database, whose
rows and binlog follow the upserts (`Mirrors`). A commit logs at most one row
change, so every prefix of the binlog is all that was logged at some moment of
the run (`Run.log_take`), and a replay of it gives the table of that moment.
-/

namespace JetCore

open Lib

variable {collate : Text → Text}

/-! ## One upsert -/

/-- A request that fits has a row, which says what the request says. -/
theorem row?_of_fits {r : OrderCreatedRequest} (h : Fits r) (now : Timestamp) :
    ∃ row, r.row? now = some row ∧
      row.order = ⟨r.orderId, r.item, r.quantity⟩ := by
  have htext : ∀ {t : Text}, (Utf8.encode t).isSome →
      ∃ s, t.toString? = some s ∧ Text.ofString s = t := by
    intro t ht
    have hall : t.all (fun c => !Text.isSurrogate c) = true :=
      List.all_eq_true.mpr fun c hc => by
        rw [encode_isSome.mp ht c hc]
        rfl
    obtain ⟨s, hs⟩ : ∃ s, t.toString? = some s := by
      rw [Text.toString?, if_pos hall]
      exact ⟨_, rfl⟩
    exact ⟨s, hs, Text.ofString_of_toString? hs⟩
  obtain ⟨orderId, hid, hid'⟩ := htext h.orderId_utf8
  obtain ⟨item, hitem, hitem'⟩ := htext h.item_utf8
  refine ⟨⟨orderId, item, Int32.ofInt r.quantity, now, now⟩, ?_, ?_⟩
  · rw [OrderCreatedRequest.row?, hid, hitem]
    rfl
  · have hquantity : (Int32.ofInt r.quantity).toInt = r.quantity :=
      Int32.toInt_ofInt_of_le h.quantity.1 h.quantity.2
    rw [OrdersRow.order, hid', hitem', hquantity]

variable (collate) in
/-- What an upsert does to the rows and the binlog: it inserts, finds the row
as it is to be, or updates it. -/
theorem OrdersDb.upsert_cases (db : OrdersDb) (now : Timestamp)
    {r : OrderCreatedRequest} {new : OrdersRow}
    (hnew : r.row? now = some new) :
    (db.rows.get? (collate r.orderId) = none ∧
      db.upsert collate now r = ⟨db.rows.set (collate r.orderId) new,
        db.binlog ++ [.write "orders" [new]]⟩) ∨
    ∃ old, db.rows.get? (collate r.orderId) = some old ∧
      ((old.item = new.item ∧ old.quantity = new.quantity ∧
          db.upsert collate now r = db) ∨
        db.upsert collate now r =
          ⟨db.rows.set (collate r.orderId) (old.updated new),
            db.binlog ++ [.update "orders" [(old, old.updated new)]]⟩) := by
  rw [OrdersDb.upsert, hnew]
  cases hold : db.rows.get? (collate r.orderId) with
  | none => exact .inl ⟨rfl, rfl⟩
  | some old =>
      refine .inr ⟨old, rfl, ?_⟩
      by_cases hsame : old.item = new.item ∧ old.quantity = new.quantity
      · exact .inl ⟨hsame.1, hsame.2, if_pos hsame⟩
      · exact .inr (if_neg hsame)

theorem flattened_append (binlog : List BinlogEvent) (event : BinlogEvent) :
    flattened (binlog ++ [event]) = flattened binlog ++ event.changes := by
  rw [flattened, List.flatMap_append, List.flatMap_singleton]
  rfl

theorem after_append {changes : List RowChange} {table : OrdersTable}
    (h : OrdersTable.after changes = some table) (change : RowChange) :
    OrdersTable.after (changes ++ [change]) = table.change change := by
  rw [OrdersTable.after] at h ⊢
  rw [List.foldlM_append, h]
  exact Option.bind_fun_some _

/-! ## The rows, the write path and the binlog -/

/-- A row stands under the key of its own id, the rows are those of the write
path, and the binlog makes them: what it leaves under an id is the row of that
key, if the row was inserted under this very id. -/
structure Mirrors (collate : Text → Text) (orders : Orders) (db : OrdersDb) :
    Prop where
  key : ∀ k row, db.rows.get? k = some row →
    collate (Text.ofString row.orderId) = k
  rows : ∀ k, orders.get? k = (db.rows.get? k).map OrdersRow.order
  table : ∃ table, OrdersTable.after (flattened db.binlog) = some table ∧
    ∀ orderId row, table.get? orderId = some row ↔ row.orderId = orderId ∧
      db.rows.get? (collate (Text.ofString orderId)) = some row

theorem mirrors_nil : Mirrors collate Dict.empty {} where
  key := nofun
  rows _ := rfl
  table := by
    refine ⟨Dict.empty, rfl, fun orderId row => ?_⟩
    constructor
    · intro h
      cases h
    · rintro ⟨-, h⟩
      cases h

variable {orders : Orders} {db : OrdersDb} {r : OrderCreatedRequest}
  {new old : OrdersRow}

/-- The table after a row has been put under its own id, both in the binlog's
table and in the rows. -/
theorem table_set {table table' : OrdersTable} {k : Text} {row : OrdersRow}
    (htable : ∀ orderId row, table.get? orderId = some row ↔
      row.orderId = orderId ∧
        db.rows.get? (collate (Text.ofString orderId)) = some row)
    (hkey : collate (Text.ofString row.orderId) = k)
    (hput : ∀ orderId, table'.get? orderId =
      if orderId = row.orderId then some row else table.get? orderId)
    (halone : ∀ row', db.rows.get? k = some row' →
      row'.orderId = row.orderId) (orderId : String) (row' : OrdersRow) :
    table'.get? orderId = some row' ↔ row'.orderId = orderId ∧
      (db.rows.set k row).get? (collate (Text.ofString orderId)) =
        some row' := by
  subst hkey
  rw [hput, Dict.get?_set]
  by_cases hid : orderId = row.orderId
  · subst hid
    rw [if_pos rfl, if_pos rfl]
    constructor
    · intro h
      cases h
      exact ⟨rfl, rfl⟩
    · intro h
      exact h.2
  · rw [if_neg hid, htable]
    by_cases hk : collate (Text.ofString orderId) =
        collate (Text.ofString row.orderId)
    · rw [if_pos hk, hk]
      -- the key's only row has another id
      constructor
      · rintro ⟨rfl, hrow⟩
        exact absurd (halone row' hrow) hid
      · rintro ⟨rfl, hrow⟩
        cases hrow
        exact absurd rfl hid
    · rw [if_neg hk]

theorem order_orderId (h : new.order = ⟨r.orderId, r.item, r.quantity⟩) :
    Text.ofString new.orderId = r.orderId :=
  congrArg OrderRow.orderId h

/-- What an update says. -/
theorem order_updated (h : new.order = ⟨r.orderId, r.item, r.quantity⟩) :
    (old.updated new).order =
      { old.order with item := r.item, quantity := r.quantity } := by
  have hitem : Text.ofString new.item = r.item := congrArg OrderRow.item h
  have hquantity : new.quantity.toInt = r.quantity :=
    congrArg OrderRow.quantity h
  rw [← hitem, ← hquantity]
  rfl

theorem Mirrors.insert (h : Mirrors collate orders db)
    (hnew : new.order = ⟨r.orderId, r.item, r.quantity⟩)
    (hnone : db.rows.get? (collate r.orderId) = none) :
    Mirrors collate (orders.upsert collate r)
      ⟨db.rows.set (collate r.orderId) new,
        db.binlog ++ [.write "orders" [new]]⟩ where
  key k row hrow := by
    rw [Dict.get?_set] at hrow
    split at hrow
    · next hk =>
        cases hrow
        rw [order_orderId hnew, hk]
    · exact h.key k row hrow
  rows k := by
    have hfree : orders.get? (collate r.orderId) = none := by
      rw [h.rows, hnone]
      rfl
    rw [Orders.upsert, hfree, Dict.get?_set, Dict.get?_set, h.rows]
    split
    · rw [Option.map_some, hnew]
    · rfl
  table := by
    obtain ⟨table, hafter, htable⟩ := h.table
    have hfree : table.get? new.orderId = none := by
      rw [Option.eq_none_iff_forall_ne_some]
      intro row hrow
      have hk := ((htable _ _).mp hrow).2
      rw [order_orderId hnew, hnone] at hk
      cases hk
    refine ⟨table.set new.orderId new, ?_, ?_⟩
    · rw [flattened_append]
      exact (after_append hafter _).trans (if_pos hfree)
    · refine table_set htable (by rw [order_orderId hnew])
        (fun orderId => Dict.get?_set _ _ _ _) fun row' hrow' => ?_
      rw [hnone] at hrow'
      cases hrow'

theorem Mirrors.update (h : Mirrors collate orders db)
    (hnew : new.order = ⟨r.orderId, r.item, r.quantity⟩)
    (hold : db.rows.get? (collate r.orderId) = some old) :
    Mirrors collate (orders.upsert collate r)
      ⟨db.rows.set (collate r.orderId) (old.updated new),
        db.binlog ++ [.update "orders" [(old, old.updated new)]]⟩ where
  key k row hrow := by
    rw [Dict.get?_set] at hrow
    split at hrow
    · next hk =>
        cases hrow
        exact (h.key _ _ hold).trans hk.symm
    · exact h.key k row hrow
  rows k := by
    have hrow : orders.get? (collate r.orderId) = some old.order := by
      rw [h.rows, hold]
      rfl
    rw [Orders.upsert, hrow, Dict.get?_set, Dict.get?_set, h.rows]
    split
    · rw [Option.map_some, order_updated hnew]
    · rfl
  table := by
    obtain ⟨table, hafter, htable⟩ := h.table
    have hkey := h.key _ _ hold
    have hfound : table.get? old.orderId = some old :=
      (htable _ _).mpr ⟨rfl, hkey ▸ hold⟩
    refine ⟨(table.pop old.orderId).set old.orderId (old.updated new), ?_, ?_⟩
    · rw [flattened_append]
      exact (after_append hafter _).trans (if_pos ⟨hfound, .inl rfl⟩)
    · refine table_set htable hkey (fun orderId => ?_) fun row' hrow' => ?_
      · show ((table.pop old.orderId).set old.orderId _).get? orderId =
          if orderId = old.orderId then _ else _
        rw [Dict.get?_set]
        split
        · rfl
        · next hne => exact Dict.get?_pop_of_ne _ hne
      · cases hold.symm.trans hrow'
        rfl

/-- The row is as the request wants it, so the write path's is too. -/
theorem Mirrors.same (h : Mirrors collate orders db)
    (hnew : new.order = ⟨r.orderId, r.item, r.quantity⟩)
    (hold : db.rows.get? (collate r.orderId) = some old)
    (hitem : old.item = new.item) (hquantity : old.quantity = new.quantity) :
    Mirrors collate (orders.upsert collate r) db where
  key := h.key
  rows k := by
    have hrow : orders.get? (collate r.orderId) = some old.order := by
      rw [h.rows, hold]
      rfl
    rw [Orders.upsert, hrow, Dict.get?_set, h.rows]
    split
    · next hk =>
        rw [hk, hold, Option.map_some, ← order_updated hnew,
          OrdersRow.updated, ← hitem, ← hquantity]
        rfl
    · rfl
  table := h.table

theorem Mirrors.upsert (h : Mirrors collate orders db) (hfits : Fits r)
    (now : Timestamp) : Mirrors collate (orders.upsert collate r)
      (db.upsert collate now r) := by
  obtain ⟨new, hrow, hnew⟩ := row?_of_fits hfits now
  rcases db.upsert_cases collate now hrow with
    ⟨hnone, hdb⟩ | ⟨old, hold, ⟨hitem, hquantity, hdb⟩ | hdb⟩
  · rw [hdb]
    exact h.insert hnew hnone
  · rw [hdb]
    exact h.same hnew hold hitem hquantity
  · rw [hdb]
    exact h.update hnew hold

/-! ## What is held of a mirrored table -/

theorem getText_item (row : OrdersRow) :
    getText (jsonSafeRow row.values) "item" = .ok (Text.ofString row.item) := by
  simp only [getText, getItem, jsonSafeRow, Json.object, Json.get?_object]
  rfl

theorem getItem_quantity (row : OrdersRow) :
    getItem (jsonSafeRow row.values) "quantity" =
      .ok (.int row.quantity.toInt) := by
  simp only [getItem, jsonSafeRow, Json.object, Json.get?_object]
  rfl

theorem shows_of_holdsTable (h : Mirrors collate orders db)
    {table : OrdersTable}
    (htable : OrdersTable.after (flattened db.binlog) = some table)
    {held : Dict Text Json} (hheld : HoldsTable held table) :
    Shows held orders := by
  obtain ⟨table', hafter, hrows⟩ := h.table
  cases htable.symm.trans hafter
  -- the rows of the write path, by the binlog's table
  have hrow : ∀ row : OrderRow, (∃ k, orders.get? k = some row) ↔
      ∃ orderId stored, table.get? orderId = some stored ∧
        stored.order = row := by
    intro row
    constructor
    · rintro ⟨k, hk⟩
      rw [h.rows, Option.map_eq_some_iff] at hk
      obtain ⟨stored, hstored, rfl⟩ := hk
      exact ⟨stored.orderId, stored, (hrows _ _).mpr
        ⟨rfl, (h.key _ _ hstored).symm ▸ hstored⟩, rfl⟩
    · rintro ⟨orderId, stored, hstored, rfl⟩
      refine ⟨collate (Text.ofString orderId), ?_⟩
      rw [h.rows, ((hrows _ _).mp hstored).2]
      rfl
  have hid : ∀ {orderId stored}, table.get? orderId = some stored →
      stored.orderId = orderId := fun hstored => ((hrows _ _).mp hstored).1
  refine ⟨fun row => ?_, fun key hkey => ?_⟩
  · rw [hrow]
    constructor
    · rintro ⟨orderId, stored, hstored, rfl⟩
      obtain rfl := hid hstored
      refine ⟨_, (hheld.1 stored.orderId).trans (congrArg _ hstored),
        getText_orderId _, getText_item _, getItem_quantity _⟩
    · rintro ⟨json, hjson, horderId, hitem, hquantity⟩
      obtain ⟨orderId, hkey⟩ := hheld.2 row.orderId
        (Dict.mem_keys.mpr ⟨json, hjson⟩)
      rw [hkey, hheld.1, Option.map_eq_some_iff] at hjson
      obtain ⟨stored, hstored, rfl⟩ := hjson
      refine ⟨orderId, stored, hstored, ?_⟩
      rw [getText_orderId] at horderId
      rw [getText_item] at hitem
      rw [getItem_quantity] at hquantity
      rw [OrdersRow.order, Except.ok.inj horderId, Except.ok.inj hitem,
        Json.int.inj (Except.ok.inj hquantity)]
  · obtain ⟨json, hjson⟩ := Dict.mem_keys.mp hkey
    obtain ⟨orderId, rfl⟩ := hheld.2 key hkey
    rw [hheld.1, Option.map_eq_some_iff] at hjson
    obtain ⟨stored, hstored, -⟩ := hjson
    obtain ⟨k, hk⟩ := (hrow stored.order).mpr ⟨orderId, stored, hstored, rfl⟩
    exact ⟨k, _, hk, congrArg Text.ofString (hid hstored)⟩

/-! ## Over a run -/

namespace OrderRows

/-- In strict mode only what fits its columns is committed. -/
def StrictMode (s : OrderRows) (a : OrderFlowAct × Timestamp) : Prop :=
  ∀ request, s.flow.commits? a.1 = some request → Fits request

/-- What an action does to the table of the write path. -/
theorem orders_step {s s' : OrderFlow} {act : OrderFlowAct}
    (h : s.step collate act = some s') : s'.orders =
      (s.commits? act).elim s.orders (s.orders.upsert collate) := by
  cases act with
  | deliver d =>
      rw [OrderFlow.step_deliver h]
      rfl
  | answer task r done call =>
      rw [OrderFlow.step, Option.bind_eq_some_iff] at h
      obtain ⟨a, hcalling, h⟩ := h
      obtain ⟨adapter, -, rfl⟩ := Option.map_eq_some_iff.mp h
      rw [OrderFlow.commits?, hcalling]
      cases a with
      | upsert request =>
          simp only
          split <;> rfl
      | _ =>
          simp only
          split <;> rfl
  | post body idempotencyKey waits =>
      exact (OrderFlow.step_service rfl h).orders
  | store r call => exact (OrderFlow.step_service rfl h).orders
  | fetch events => exact (OrderFlow.step_service rfl h).orders
  | serve a => exact (OrderFlow.step_service rfl h).orders

variable {s s' : OrderRows} {a : OrderFlowAct × Timestamp}

theorem step_spec (h : s.step collate a = some s') :
    s.flow.step collate a.1 = some s'.flow ∧
      s'.db = (s.flow.commits? a.1).elim s.db (s.db.upsert collate a.2) := by
  obtain ⟨flow, hflow, rfl⟩ := Option.map_eq_some_iff.mp h
  exact ⟨hflow, rfl⟩

theorem mirrors_step (hstrict : s.StrictMode a)
    (h : s.step collate a = some s')
    (hs : Mirrors collate s.flow.orders s.db) :
    Mirrors collate s'.flow.orders s'.db := by
  obtain ⟨hflow, hdb⟩ := step_spec h
  rw [hdb, orders_step hflow]
  cases hcommits : s.flow.commits? a.1 with
  | none => exact hs
  | some request => exact hs.upsert (hstrict request hcommits) a.2

theorem mirrors_of_run {acts : List (OrderFlowAct × Timestamp)}
    (h : Run (step collate) StrictMode {} acts s) :
    Mirrors collate s.flow.orders s.db :=
  h.invariant (fun hs hstrict hstep => mirrors_step hstrict hstep hs)
    mirrors_nil

/-- An action logs nothing, or one row change. -/
theorem logged_step (h : s.step collate a = some s') :
    s'.logged = s.logged ∨ ∃ change, s'.logged = s.logged ++ [change] := by
  obtain ⟨-, hdb⟩ := step_spec h
  rw [logged, logged, hdb]
  cases s.flow.commits? a.1 with
  | none => exact .inl rfl
  | some request =>
      show flattened (s.db.upsert collate a.2 request).binlog = _ ∨
        ∃ change, flattened (s.db.upsert collate a.2 request).binlog = _
      cases hnew : request.row? a.2 with
      | none =>
          rw [OrdersDb.upsert, hnew]
          exact .inl rfl
      | some new =>
          rcases s.db.upsert_cases collate a.2 hnew with
            ⟨-, hdb⟩ | ⟨old, -, ⟨-, -, hdb⟩ | hdb⟩
          · rw [hdb, flattened_append]
            exact .inr ⟨_, rfl⟩
          · rw [hdb]
            exact .inl rfl
          · rw [hdb, flattened_append]
            exact .inr ⟨_, rfl⟩

/-- Writes that end, under each key, as those of all that is logged do. -/
theorem shows_of_lastOn {acts : List (OrderFlowAct × Timestamp)}
    (h : Run (step collate) StrictMode {} acts s) {writes : List RowWrite}
    (hwrites : ∀ k, lastOn (fun w => Text.ofString w.1) k writes =
      lastOn (fun w => Text.ofString w.1) k (writesOf s.logged)) :
    Shows (writes.foldl heldWrite Dict.empty) s.flow.orders := by
  have hmirrors := mirrors_of_run h
  obtain ⟨table, hafter, -⟩ := id hmirrors.table
  refine shows_of_holdsTable hmirrors hafter ?_
  rw [after_writes (fun c hc => hc) hafter]
  exact holdsTable_of_lastOn hwrites

/-- A consumer that has applied all that the runs of the watcher published, the
last of them having got furthest, holds the table of the write path as it was
at some moment of the run; and as it is now if the last run has published all
of the binlog. -/
theorem consumer_shows_orders {acts : List (OrderFlowAct × Timestamp)}
    (h : Run (step collate) StrictMode {} acts s) {earlier : List StreamRun}
    {last : StreamRun} (hruns : ∀ r ∈ earlier ++ [last],
      r.passes.flatten <+: s.db.binlog)
    (hlast : ∀ r ∈ earlier, r.published.length ≤ last.published.length) :
    ∃ held, consumeAll (((earlier ++ [last]).flatMap
        StreamRun.published).map PublishArgs.payload) = .ok held ∧
      (∃ past later m, acts = past ++ later ∧
        Run (step collate) StrictMode {} past m ∧
        Run (step collate) StrictMode m later s ∧
        Shows held m.flow.orders) ∧
      (last.published.length = s.logged.length →
        Shows held s.flow.orders) := by
  have hmem : ∀ c ∈ (earlier ++ [last]).flatMap fun r =>
      s.logged.take r.published.length, c ∈ s.logged := by
    intro c hc
    obtain ⟨r, -, hc⟩ := List.mem_flatMap.mp hc
    exact List.mem_of_mem_take hc
  have hheld := consumeAll_writes hmem
  rw [logged, ← payloads_runs hruns] at hheld
  refine ⟨_, hheld, ?_⟩
  constructor
  · have hle : last.published.length ≤ s.logged.length := by
      have hpublished := published_take
        (hruns last (List.mem_append_right _ List.mem_cons_self))
      have hlength := congrArg List.length hpublished
      rw [List.length_map, List.length_take] at hlength
      exact hlength ▸ Nat.min_le_right _ _
    -- the moment at which the last run's share was all that was logged
    obtain ⟨past, later, m, hacts, hpast, hlater, hlogged⟩ :=
      h.log_take logged rfl logged_step hle
    refine ⟨past, later, m, hacts, hpast, hlater, shows_of_lastOn hpast ?_⟩
    rw [hlogged]
    exact lastOn_runs hlast _
  · intro hall
    have hwhole : s.logged = s.logged.take last.published.length := by
      rw [hall, List.take_length]
    refine shows_of_lastOn h ?_
    rw [hwhole]
    exact lastOn_runs hlast _

/-! ## An order that is changed -/

def stampedAt (second : ℕ) : Timestamp := ⟨2026, 1, 1, 0, 0, second, 0⟩

/-- The order `o-1` of an item, as it is inserted. -/
def itemRow (item : String) (second : ℕ) : OrdersRow :=
  ⟨"o-1", item, Int32.ofInt 1, stampedAt second, stampedAt second⟩

theorem row?_sampleOrder (item : String) (hitem : Text.ofString item ≠ [])
    (second : ℕ) : (sampleOrder item hitem).request.row? (stampedAt second) =
      some (itemRow item second) := by
  show (do
    let orderId ← (Text.ofString "o-1").toString?
    let item ← (Text.ofString item).toString?
    return (⟨orderId, item, Int32.ofInt 1, _, _⟩ : OrdersRow)) = _
  rw [Text.toString?_ofString, Text.toString?_ofString]
  rfl

/-- The order for tea is inserted, the one for ale changes its row. -/
def changedDb : OrdersDb where
  rows := (Dict.empty.set (Text.ofString "o-1") (itemRow "tea" 0)).set
    (Text.ofString "o-1") ((itemRow "tea" 0).updated (itemRow "ale" 1))
  binlog := [.write "orders" [itemRow "tea" 0],
    .update "orders" [(itemRow "tea" 0,
      (itemRow "tea" 0).updated (itemRow "ale" 1))]]

def sampleDelivered (item : String) (hitem : Text.ofString item ≠ []) :
    Delivered :=
  ⟨Sample.newYearText, (sampleOrder item hitem).received 0 1⟩

theorem tea_ne : Text.ofString "tea" ≠ [] := List.cons_ne_nil _ _

theorem ale_ne : Text.ofString "ale" ≠ [] := List.cons_ne_nil _ _

def changingActs : List (OrderFlowAct × Timestamp) := [
  (.deliver (sampleDelivered "tea" tea_ne), stampedAt 0),
  (.answer 0 OrderFlow.returns false OrderFlow.teaCall, stampedAt 0),
  (.deliver (sampleDelivered "ale" ale_ne), stampedAt 1),
  (.answer 1 OrderFlow.returns false OrderFlow.teaCall, stampedAt 1)]

theorem sampleDelivered_program (item : String)
    (hitem : Text.ofString item ≠ []) :
    ∃ k, handleDelivered (sampleDelivered item hitem) =
      .call (.upsert (sampleOrder item hitem).request) k := by
  rw [handleDelivered, handleOrderCreated.eq_def,
    show decodeOrderCreated (sampleDelivered item hitem).event.payload =
      .ok (sampleOrder item hitem).request from
        (sampleOrder item hitem).decodes]
  exact ⟨_, rfl⟩

variable (collate s) in
/-- A delivery's upsert is answered, and has committed. -/
theorem step_upserts (task : ℕ) (now : Timestamp) {d : Delivered}
    {request : OrderCreatedRequest} {k : Except Exn Unit → DbProg Unit}
    {db : OrdersDb} (hcall : s.flow.adapter.started[task]? =
      some (d, .call (.upsert request) k))
    (hfits : Fits request) (hdb : s.db.upsert collate now request = db) :
    let a : OrderFlowAct × Timestamp :=
      (.answer task OrderFlow.returns false OrderFlow.teaCall, now)
    s.StrictMode a ∧ ∃ flow, s.step collate a = some ⟨flow, db⟩ ∧
      flow.adapter.started =
        s.flow.adapter.started.set task (d, k (.ok ())) := by
  intro a
  have hcommits : s.flow.commits? a.1 = some request := by
    rw [OrderFlow.commits?, OrderFlow.calling, hcall]
    rfl
  obtain ⟨flow, hflow, hstarted⟩ : ∃ flow,
      s.flow.step collate a.1 = some flow ∧ flow.adapter.started =
        s.flow.adapter.started.set task (d, k (.ok ())) :=
    ⟨_, OrderFlow.answer_of_call hcall, rfl⟩
  refine ⟨fun request' h => ?_, flow, ?_, hstarted⟩
  · cases hcommits.symm.trans h
    exact hfits
  · rw [step, hflow, hcommits, Option.map_some, Option.elim_some, hdb]

theorem fits_sampleOrder (item : String) (hitem : Text.ofString item ≠ [])
    (hlength : (Text.ofString item).length ≤ 255)
    (hutf8 : (Utf8.encode (Text.ofString item)).isSome) :
    Fits (sampleOrder item hitem).request where
  orderId := by show (Text.ofString "o-1").length ≤ 64; decide
  item := hlength
  quantity := by show -2 ^ 31 ≤ (1 : ℤ) ∧ (1 : ℤ) < 2 ^ 31; omega
  orderId_utf8 := by show (Utf8.encode (Text.ofString "o-1")).isSome; decide
  item_utf8 := hutf8

theorem changedDb_eq :
    ((({} : OrdersDb).upsert id (stampedAt 0)
      (sampleOrder "tea" tea_ne).request).upsert id (stampedAt 1)
      (sampleOrder "ale" ale_ne).request) = changedDb := by
  have hdiffer : ¬ ((itemRow "tea" 0).item = (itemRow "ale" 1).item ∧
      (itemRow "tea" 0).quantity = (itemRow "ale" 1).quantity) := by
    decide
  have htea : ({} : OrdersDb).upsert id (stampedAt 0)
      (sampleOrder "tea" tea_ne).request =
      ⟨Dict.empty.set (Text.ofString "o-1") (itemRow "tea" 0),
        [.write "orders" [itemRow "tea" 0]]⟩ := by
    rw [OrdersDb.upsert, row?_sampleOrder]
    rfl
  have hfound : (Dict.empty.set (Text.ofString "o-1") (itemRow "tea" 0)).get?
      (id (sampleOrder "ale" ale_ne).request.orderId) =
      some (itemRow "tea" 0) := Dict.get?_set_self _ _ _
  rw [htea, OrdersDb.upsert, row?_sampleOrder]
  simp only [hfound]
  exact if_neg hdiffer

theorem changed_run : ∃ s, Run (step id) StrictMode {} changingActs s ∧
    s.db = changedDb := by
  obtain ⟨k, htea⟩ := sampleDelivered_program "tea" tea_ne
  obtain ⟨k', hale⟩ := sampleDelivered_program "ale" ale_ne
  obtain ⟨hstrict, flow, hstep, hstarted⟩ := step_upserts id
    ⟨{ adapter := ⟨[(sampleDelivered "tea" tea_ne,
      handleDelivered (sampleDelivered "tea" tea_ne))], []⟩ }, {}⟩
    0 (stampedAt 0) (congrArg some (congrArg _ htea))
    (fits_sampleOrder "tea" tea_ne (by decide) (by decide)) rfl
  obtain ⟨hstrict', flow', hstep', -⟩ := step_upserts id
    ⟨{ flow with adapter := { flow.adapter with
      started := flow.adapter.started ++
        [(sampleDelivered "ale" ale_ne,
          handleDelivered (sampleDelivered "ale" ale_ne))] } }, _⟩
    1 (stampedAt 1)
    (by rw [hstarted]; exact congrArg some (congrArg _ hale))
    (fits_sampleOrder "ale" ale_ne (by decide) (by decide)) changedDb_eq
  exact ⟨_, .cons nofun rfl (.cons hstrict hstep (.cons nofun rfl
    (.cons hstrict' hstep' (.nil _)))), rfl⟩

/-- Fails at the first publish, which the stream has stored. -/
def failingRun : StreamRun :=
  ⟨⟨none, fun _ => .raises .timeoutError true⟩, [changedDb.binlog]⟩

def wholeRun : StreamRun := ⟨⟨none, fun _ => .returns⟩, [changedDb.binlog]⟩

/-- A run of the watcher fails after the first row change, another one
publishes both. The consumer holds the order for ale. -/
theorem consumer_shows_orders_ale : ∃ s held,
    Run (step id) StrictMode {} changingActs s ∧ s.db = changedDb ∧
    consumeAll (([failingRun, wholeRun].flatMap StreamRun.published).map
      PublishArgs.payload) = .ok held ∧
    Shows held s.flow.orders := by
  obtain ⟨s, hrun, hdb⟩ := changed_run
  have hruns : ∀ r ∈ [failingRun] ++ [wholeRun],
      r.passes.flatten <+: s.db.binlog := by
    rw [hdb]
    intro r hr
    rcases List.mem_append.mp hr with hr | hr
    · rw [List.mem_singleton.mp hr]
      exact ⟨[], rfl⟩
    · rw [List.mem_singleton.mp hr]
      exact ⟨[], rfl⟩
  have hlast : ∀ r ∈ [failingRun],
      r.published.length ≤ wholeRun.published.length := by
    intro r hr
    rw [List.mem_singleton.mp hr]
    show 1 ≤ 2
    omega
  obtain ⟨held, hheld, -, hshows⟩ := consumer_shows_orders hrun hruns hlast
  refine ⟨s, held, hrun, hdb, hheld, hshows ?_⟩
  rw [logged, hdb]
  rfl

end OrderRows

end JetCore
