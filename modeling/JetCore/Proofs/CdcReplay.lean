import JetCore.Spec.Binlog
import JetCore.Lib.KeyedLog
import Mathlib.Data.List.Infix

/-!
# Replaying the binlog

Every `_run_stream` publishes the row changes in binlog order from the first
one on, and stops somewhere, so a consumer sees prefixes of one list, one after
the other. A change decides the keys it names whatever the consumer held
(`writes`): so what it holds under a key after all of it is what the last write
to that key says, and if the last run went furthest, that write is among its
own. What an earlier run left behind is either written again or was never
there.
-/

namespace JetCore

open Lib

/-! ## One run -/

variable {c : CdcControl}

/-- `changes` are what is published between two moments. -/
def Publishes (s s' : CdcRun) (changes : List RowChange) : Prop :=
  s'.published = s.published ++ changes.map rowChanged

theorem Publishes.nil (s : CdcRun) : Publishes s s [] :=
  (List.append_nil _).symm

theorem Publishes.trans {s s' s'' : CdcRun} {changes changes' : List RowChange}
    (h : Publishes s s' changes) (h' : Publishes s' s'' changes') :
    Publishes s s'' (changes ++ changes') := by
  rw [Publishes] at h h' ⊢
  rw [h', h, List.map_append, List.append_assoc]

/-- Reading the flag publishes nothing. -/
theorem Publishes.checked {s s' : CdcRun} {changes : List RowChange}
    (h : Publishes s.checked s' changes) : Publishes s s' changes := h

theorem isSet_checked {s : CdcRun} (h : s.isSet c = true) :
    s.checked.isSet c = true := by
  rw [CdcRun.isSet] at h ⊢
  cases hset : c.setAfter with
  | none =>
      rw [hset] at h
      cases h
  | some n =>
      rw [hset] at h
      simp only [decide_eq_true_eq] at h ⊢
      exact Nat.le_succ_of_le h

theorem publishRowChanged_prefix (change : RowChange) (s : CdcRun) :
    ∃ done, done <+: [change] ∧
      Publishes s (publishRowChanged c change s).2 done ∧
      ((publishRowChanged c change s).1 = .ok () → done = [change]) := by
  simp only [publishRowChanged]
  split
  · exact ⟨[change], List.prefix_rfl, rfl, fun _ => rfl⟩
  · exact ⟨[change], List.prefix_rfl, rfl, nofun⟩
  · exact ⟨[], List.nil_prefix, Publishes.nil _, nofun⟩

/-- The rows of one event, up to the first publish that raises. -/
theorem publishRows_prefix (changes : List RowChange) : ∀ s : CdcRun,
    ∃ done, done <+: changes ∧ Publishes s (publishRows c changes s).2 done ∧
      ((publishRows c changes s).1 = .ok () → done = changes) := by
  induction changes with
  | nil => exact fun s => ⟨[], List.prefix_rfl, Publishes.nil s, fun _ => rfl⟩
  | cons change rest ih =>
      intro s
      obtain ⟨done, hprefix, hdone, hall⟩ :=
        publishRowChanged_prefix (c := c) change s
      rw [publishRows]
      split
      · next s' hpublish =>
          rw [hpublish] at hdone hall
          obtain rfl := hall rfl
          obtain ⟨done', hprefix', hdone', hall'⟩ := ih s'
          exact ⟨change :: done', List.cons_prefix_cons.mpr ⟨rfl, hprefix'⟩,
            hdone.trans hdone', fun hok => congrArg _ (hall' hok)⟩
      · next e s' hpublish =>
          rw [hpublish] at hdone
          exact ⟨done, hprefix.trans (List.prefix_append [change] rest), hdone,
            nofun⟩

/-- One pass, up to the first publish that raises or the first event after
which the flag is set. -/
theorem forStream_prefix (events : List BinlogEvent) : ∀ s : CdcRun,
    ∃ done, done <+: flattened events ∧
      Publishes s (forStream c events s).2 done ∧
      ((forStream c events s).1 = .ok () →
        (forStream c events s).2.isSet c = false →
        done = flattened events) := by
  induction events with
  | nil =>
      exact fun s => ⟨[], List.prefix_rfl, Publishes.nil s, fun _ _ => rfl⟩
  | cons event rest ih =>
      intro s
      obtain ⟨done, hprefix, hdone, hall⟩ :=
        publishRows_prefix (c := c) event.changes s
      have hpart : done <+: flattened (event :: rest) :=
        hprefix.trans (List.prefix_append _ _)
      rw [forStream]
      split
      · next s' hpublish =>
          rw [hpublish] at hdone hall
          obtain rfl := hall rfl
          split
          · next hset =>
              refine ⟨_, hpart, hdone, fun _ hclear => ?_⟩
              rw [isSet_checked hset] at hclear
              cases hclear
          · obtain ⟨done', hprefix', hdone', hall'⟩ := ih s'.checked
            refine ⟨event.changes ++ done',
              (List.prefix_append_right_inj _).mpr hprefix',
              hdone.trans hdone'.checked, fun hok hclear => ?_⟩
            exact congrArg _ (hall' hok hclear)
      · next e s' hpublish =>
          rw [hpublish] at hdone
          exact ⟨done, hpart, hdone, nofun⟩

theorem runStream_prefix (passes : List (List BinlogEvent)) : ∀ s : CdcRun,
    ∃ done, done <+: flattened passes.flatten ∧
      Publishes s (runStream c passes s).2 done := by
  induction passes with
  | nil => exact fun s => ⟨[], List.prefix_rfl, Publishes.nil s⟩
  | cons pass rest ih =>
      intro s
      have hflat : flattened (pass :: rest).flatten =
          flattened pass ++ flattened rest.flatten := by
        rw [List.flatten_cons, flattened, List.flatMap_append]
        rfl
      rw [runStream, hflat]
      split
      · exact ⟨[], List.nil_prefix, Publishes.nil s⟩
      · obtain ⟨done, hprefix, hdone, hall⟩ :=
          forStream_prefix (c := c) pass s.checked
        have hpart : done <+: flattened pass ++ flattened rest.flatten :=
          hprefix.trans (List.prefix_append _ _)
        split
        · next s' hpass =>
            rw [hpass] at hdone hall
            cases hset : s'.isSet c with
            | true =>
                -- the next read of the flag ends the run
                have hstop : (runStream c rest s'.checked).2.published =
                    s'.published := by
                  cases rest with
                  | nil => rfl
                  | cons pass' rest' =>
                      rw [runStream, if_pos (isSet_checked hset)]
                      rfl
                exact ⟨done, hpart, hstop.trans hdone.checked⟩
            | false =>
                obtain rfl := hall rfl hset
                obtain ⟨done', hprefix', hdone'⟩ := ih s'.checked
                exact ⟨_ ++ done', (List.prefix_append_right_inj _).mpr hprefix',
                  hdone.checked.trans hdone'.checked⟩
        · next e s' hpass =>
            rw [hpass] at hdone
            exact ⟨done, hpart, hdone.checked⟩

/-- A run publishes the first so many changes of the binlog. -/
theorem published_take {binlog : List BinlogEvent} {r : StreamRun}
    (hpasses : r.passes.flatten <+: binlog) :
    r.published = ((flattened binlog).take r.published.length).map
      rowChanged := by
  obtain ⟨done, hprefix, hdone⟩ := runStream_prefix (c := r.control) r.passes {}
  have hpublished : r.published = done.map rowChanged := hdone
  obtain ⟨later, rfl⟩ := hpasses
  have hwhole : done <+: flattened (r.passes.flatten ++ later) := by
    refine hprefix.trans ?_
    rw [flattened, flattened, List.flatMap_append]
    exact List.prefix_append _ _
  rw [hpublished, List.length_map, ← List.prefix_iff_eq_take.mp hwhole]

/-! ## What a change writes -/

theorem change_cases {event : BinlogEvent} {change : RowChange}
    (h : change ∈ event.changes) :
    (∃ table row, change = ⟨"insert", table, row, none⟩) ∨
      (∃ table row previous,
        change = ⟨"update", table, row, some previous⟩) ∨
      ∃ table row, change = ⟨"delete", table, row, none⟩ := by
  cases event with
  | write table rows =>
      obtain ⟨row, -, rfl⟩ := List.mem_map.mp h
      exact .inl ⟨table, row, rfl⟩
  | update table rows =>
      obtain ⟨row, -, rfl⟩ := List.mem_map.mp h
      exact .inr (.inl ⟨table, row.2, row.1, rfl⟩)
  | delete table rows =>
      obtain ⟨row, -, rfl⟩ := List.mem_map.mp h
      exact .inr (.inr ⟨table, row, rfl⟩)

/-- A key and the row it then has, if any. -/
abbrev RowWrite := String × Option OrdersRow

def RowChange.writes (change : RowChange) : List RowWrite :=
  (change.previousRow.toList.map fun previous => (previous.orderId, none)) ++
    [(change.row.orderId,
      if change.operation = "delete" then none else some change.row)]

def tableWrite (t : OrdersTable) (write : RowWrite) : OrdersTable :=
  match write.2 with
  | some row => t.set write.1 row
  | none => t.pop write.1

def heldWrite (held : Dict Text Json) (write : RowWrite) : Dict Text Json :=
  match write.2 with
  | some row => held.set (Text.ofString write.1) (jsonSafeRow row.values)
  | none => held.pop (Text.ofString write.1)

theorem get?_tableWrite (t : OrdersTable) (write : RowWrite) (k : String) :
    (tableWrite t write).get? k = if write.1 = k then write.2 else t.get? k := by
  rw [tableWrite]
  split
  · next row hrow =>
      rw [Dict.get?_set, hrow]
      simp only [eq_comm (a := k)]
  · next hrow =>
      rw [Dict.get?_pop, hrow]
      simp only [eq_comm (a := k)]

theorem get?_heldWrite (held : Dict Text Json) (write : RowWrite) (k : Text) :
    (heldWrite held write).get? k =
      if Text.ofString write.1 = k then
        write.2.map fun row => jsonSafeRow row.values
      else held.get? k := by
  rw [heldWrite]
  split
  · next row hrow =>
      rw [Dict.get?_set, hrow]
      simp only [eq_comm (a := k)]
      rfl
  · next hrow =>
      rw [Dict.get?_pop, hrow]
      simp only [eq_comm (a := k)]
      rfl

/-- A change that fits the table does to it what it writes. -/
theorem change_writes {event : BinlogEvent} {change : RowChange}
    (hmem : change ∈ event.changes) {t t' : OrdersTable}
    (h : t.change change = some t') :
    t' = change.writes.foldl tableWrite t := by
  obtain ⟨table, row, rfl⟩ | ⟨table, row, previous, rfl⟩ | ⟨table, row, rfl⟩ :=
    change_cases hmem
  · simp only [OrdersTable.change] at h
    split at h
    · cases h
      rfl
    · cases h
  · simp only [OrdersTable.change] at h
    split at h
    · cases h
      rfl
    · cases h
  · simp only [OrdersTable.change] at h
    split at h
    · cases h
      rfl
    · cases h

/-! ## What the consumer reads -/

theorem plain_jsonSafe (v : ColumnValue) (hint : ∀ n, v = .int n →
    ∃ i : Int32, n = i.toInt) : Json.Plain v.jsonSafe := by
  cases v with
  | text s => exact Json.plain_string s
  | datetime t => exact Json.plain_string _
  | int n =>
      obtain ⟨i, rfl⟩ := hint n rfl
      have hlow := i.le_toInt
      have hhigh := i.toInt_lt
      have hdigits : (Nat.toDigits 10 i.toInt.natAbs).length ≤ 10 :=
        (Nat.length_toDigits_le_iff (by decide) (by decide)).mpr (by omega)
      exact hdigits.trans (by decide)

theorem plain_jsonSafeRow (row : OrdersRow) :
    Json.Plain (jsonSafeRow row.values) := by
  refine Json.plain_object fun f hf => ?_
  obtain ⟨column, hcolumn, rfl⟩ := List.mem_map.mp hf
  refine plain_jsonSafe _ fun n hn => ⟨row.quantity, ?_⟩
  simp only [OrdersRow.values, List.mem_cons, List.not_mem_nil,
    or_false] at hcolumn
  rcases hcolumn with rfl | rfl | rfl | rfl | rfl
  · cases hn
  · cases hn
  · exact (ColumnValue.int.inj hn).symm
  · cases hn
  · cases hn

theorem plain_toJson (change : RowChange) : Json.Plain change.toJson := by
  refine Json.plain_object fun f hf => ?_
  rw [List.mem_append] at hf
  rcases hf with hf | hf
  · simp only [List.mem_cons, List.not_mem_nil, or_false] at hf
    rcases hf with rfl | rfl | rfl
    · exact Json.plain_string _
    · exact Json.plain_string _
    · exact plain_jsonSafeRow _
  · cases hprevious : change.previousRow with
    | none =>
        rw [hprevious] at hf
        cases hf
    | some previous =>
        rw [hprevious, List.mem_singleton] at hf
        rw [hf]
        exact plain_jsonSafeRow _

/-- What the consumer finds in a payload. -/
theorem loads_encodeRowChanged (change : RowChange) :
    jsonLoads (encodeRowChanged change) = .ok change.toJson :=
  jsonLoads_dumps (plain_toJson change)

theorem getText_orderId (row : OrdersRow) :
    getText (jsonSafeRow row.values) "order_id" =
      .ok (Text.ofString row.orderId) := by
  simp only [getText, getItem, jsonSafeRow, Json.object, Json.get?_object]
  rfl

theorem getText_operation (change : RowChange) :
    getText change.toJson "operation" =
      .ok (Text.ofString change.operation) := by
  cases h : change.previousRow with
  | none =>
      simp only [getText, getItem, RowChange.toJson, h, Json.object,
        Json.get?_object]
      rfl
  | some previous =>
      simp only [getText, getItem, RowChange.toJson, h, Json.object,
        Json.get?_object]
      rfl

theorem getItem_row (change : RowChange) :
    getItem change.toJson "row" = .ok (jsonSafeRow change.row.values) := by
  cases h : change.previousRow with
  | none =>
      simp only [getItem, RowChange.toJson, h, Json.object, Json.get?_object]
      rfl
  | some previous =>
      simp only [getItem, RowChange.toJson, h, Json.object, Json.get?_object]
      rfl

theorem getItem_previousRow (change : RowChange) :
    getItem change.toJson "previousRow" =
      change.previousRow.elim (.error .keyError)
        fun previous => .ok (jsonSafeRow previous.values) := by
  cases h : change.previousRow with
  | none =>
      simp only [getItem, RowChange.toJson, h, Json.object, Json.get?_object]
      rfl
  | some previous =>
      simp only [getItem, RowChange.toJson, h, Json.object, Json.get?_object]
      rfl

theorem ofString_ne {s s' : String} (h : s ≠ s') :
    Text.ofString s ≠ Text.ofString s' := fun heq =>
  h (Text.ofString_injective heq)

/-- What the consumer does with a payload is what the change writes. -/
theorem consume_writes {event : BinlogEvent} {change : RowChange}
    (hmem : change ∈ event.changes) (held : Dict Text Json) :
    consume held (encodeRowChanged change) =
      .ok (change.writes.foldl heldWrite held) := by
  rw [consume, loads_encodeRowChanged]
  show (getText change.toJson "operation" >>= _) = _
  rw [getText_operation]
  show (getItem change.toJson "row" >>= _) = _
  rw [getItem_row]
  show (getText (jsonSafeRow change.row.values) "order_id" >>= _) = _
  rw [getText_orderId]
  obtain ⟨table, row, rfl⟩ | ⟨table, row, previous, rfl⟩ | ⟨table, row, rfl⟩ :=
    change_cases hmem
  · simp only [bind, Except.bind, if_pos]
    rfl
  · simp only [bind, Except.bind, getItem_previousRow, Option.elim_some,
      getText_orderId, if_pos,
      if_neg (ofString_ne (show "update" ≠ "insert" by decide))]
    rfl
  · simp only [bind, Except.bind,
      if_neg (ofString_ne (show "delete" ≠ "insert" by decide)),
      if_neg (ofString_ne (show "delete" ≠ "update" by decide))]
    rfl

/-! ## The whole -/

/-- The writes of some changes, in order. -/
def writesOf (changes : List RowChange) : List RowWrite :=
  changes.flatMap RowChange.writes

theorem consumeAll_writes {binlog : List BinlogEvent}
    {changes : List RowChange} (h : ∀ c ∈ changes, c ∈ flattened binlog) :
    consumeAll (changes.map encodeRowChanged) =
      .ok ((writesOf changes).foldl heldWrite Dict.empty) := by
  rw [consumeAll]
  generalize (Dict.empty : Dict Text Json) = held
  induction changes generalizing held with
  | nil => rfl
  | cons change rest ih =>
      obtain ⟨event, -, hmem⟩ := List.mem_flatMap.mp (h change List.mem_cons_self)
      rw [List.map_cons, List.foldlM_cons, consume_writes hmem, writesOf,
        List.flatMap_cons, List.foldl_append]
      exact ih (fun c hc => h c (List.mem_cons_of_mem _ hc)) _

theorem after_writes {binlog : List BinlogEvent} {changes : List RowChange}
    (h : ∀ c ∈ changes, c ∈ flattened binlog) {table : OrdersTable}
    (hafter : OrdersTable.after changes = some table) :
    table = (writesOf changes).foldl tableWrite Dict.empty := by
  rw [OrdersTable.after] at hafter
  revert hafter
  generalize (Dict.empty : OrdersTable) = t
  intro hafter
  induction changes generalizing t with
  | nil => exact (Option.some.inj hafter).symm
  | cons change rest ih =>
      obtain ⟨event, -, hmem⟩ := List.mem_flatMap.mp (h change List.mem_cons_self)
      rw [List.foldlM_cons, Option.bind_eq_bind,
        Option.bind_eq_some_iff] at hafter
      obtain ⟨t', hchange, hrest⟩ := hafter
      rw [writesOf, List.flatMap_cons, List.foldl_append,
        ← change_writes hmem hchange]
      exact ih (fun c hc => h c (List.mem_cons_of_mem _ hc)) t' hrest

theorem get?_tableWrites (writes : List RowWrite) (k : String) :
    (writes.foldl tableWrite Dict.empty).get? k =
      (lastOn Prod.fst k writes).elim none Prod.snd := by
  have hstep : ∀ w ∈ writes, ∀ t : OrdersTable, True → True ∧
      ∀ k, (tableWrite t w).get? k = if w.1 = k then w.2 else t.get? k :=
    fun w _ t _ => ⟨trivial, get?_tableWrite t w⟩
  exact (look_replay Dict.get? (fun _ => True) hstep trivial).2 k

theorem get?_heldWrites (writes : List RowWrite) (k : Text) :
    (writes.foldl heldWrite Dict.empty).get? k =
      (lastOn (fun w => Text.ofString w.1) k writes).elim none
        fun w => w.2.map fun row => jsonSafeRow row.values := by
  have hstep : ∀ w ∈ writes, ∀ held : Dict Text Json, True → True ∧
      ∀ k, (heldWrite held w).get? k =
        if Text.ofString w.1 = k then
          w.2.map fun row => jsonSafeRow row.values
        else held.get? k :=
    fun w _ held _ => ⟨trivial, get?_heldWrite held w⟩
  exact (look_replay Dict.get? (fun _ => True) hstep trivial).2 k

theorem mem_writesOf_take {changes : List RowChange} {m n : ℕ} (h : m ≤ n)
    {write : RowWrite} (hmem : write ∈ writesOf (changes.take m)) :
    write ∈ writesOf (changes.take n) := by
  obtain ⟨change, hchange, hwrite⟩ := List.mem_flatMap.mp hmem
  exact List.mem_flatMap.mpr
    ⟨change, (List.take_prefix_take_left h).subset hchange, hwrite⟩

/-- Every publication of the runs, cut to what each run got to. -/
theorem payloads_runs {binlog : List BinlogEvent} {runs : List StreamRun}
    (hruns : ∀ r ∈ runs, r.passes.flatten <+: binlog) :
    (runs.flatMap StreamRun.published).map PublishArgs.payload =
      (runs.flatMap fun r =>
        (flattened binlog).take r.published.length).map encodeRowChanged := by
  rw [List.map_flatMap, List.map_flatMap]
  refine List.flatMap_congr fun r hr => ?_
  conv_lhs => rw [published_take (hruns r hr)]
  rw [List.map_map]
  rfl

/-- What earlier runs wrote, the run that went furthest writes again. -/
theorem lastOn_runs {binlog : List BinlogEvent} {earlier : List StreamRun}
    {last : StreamRun}
    (hlast : ∀ r ∈ earlier, r.published.length ≤ last.published.length)
    {κ : Type} [DecidableEq κ] (key : RowWrite → κ) (k : κ) :
    lastOn key k (writesOf ((earlier ++ [last]).flatMap fun r =>
        (flattened binlog).take r.published.length)) =
      lastOn key k
        (writesOf ((flattened binlog).take last.published.length)) := by
  rw [List.flatMap_append, List.flatMap_singleton, writesOf,
    List.flatMap_append]
  refine lastOn_absorb fun write hwrite => ?_
  obtain ⟨change, hchange, hmem⟩ := List.mem_flatMap.mp hwrite
  obtain ⟨r, hr, htake⟩ := List.mem_flatMap.mp hchange
  exact mem_writesOf_take (hlast r hr)
    (List.mem_flatMap.mpr ⟨change, htake, hmem⟩)

/-- The consumer holds the rows of the table, each under its order id, and
nothing else. -/
def HoldsTable (held : Dict Text Json) (table : OrdersTable) : Prop :=
  (∀ orderId, held.get? (Text.ofString orderId) =
      (table.get? orderId).map fun row => jsonSafeRow row.values) ∧
    ∀ key ∈ held.keys, ∃ orderId, key = Text.ofString orderId

theorem holdsTable_of_lastOn {writes writes' : List RowWrite}
    (h : ∀ k, lastOn (fun w => Text.ofString w.1) k writes' =
      lastOn (fun w => Text.ofString w.1) k writes) :
    HoldsTable (writes'.foldl heldWrite Dict.empty)
      (writes.foldl tableWrite Dict.empty) := by
  constructor
  · intro orderId
    have hkeys : lastOn (fun w => Text.ofString w.1) (Text.ofString orderId)
        writes = lastOn Prod.fst orderId writes :=
      lastOn_congr fun w _ => ⟨Text.ofString_injective, congrArg _⟩
    rw [get?_heldWrites, get?_tableWrites, h, hkeys]
    cases lastOn Prod.fst orderId writes with
    | none => rfl
    | some w => rfl
  · intro key hkey
    obtain ⟨v, hv⟩ := Dict.mem_keys.mp hkey
    rw [get?_heldWrites] at hv
    cases hlast : lastOn (fun w : RowWrite => Text.ofString w.1) key writes' with
    | none =>
        rw [hlast] at hv
        cases hv
    | some w => exact ⟨w.1, (lastOn_mem hlast).2.symm⟩

end JetCore
