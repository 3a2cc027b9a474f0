import JetCore.Ref.Registry

/-!
# What the watch's values do to the recipient cache

`_consume` skips a value that is no JSON and an object without the key, and no
others. A value that is JSON and no object ends the task with a `TypeError`,
one that is no text or holds an integer too long to convert with a
`ValueError`, one nested too deeply with a `RecursionError`; and whatever
stands under `encryptionPublicKey` is stored, a string or not. So the cache
follows its watch exactly as long as no `PUT` brings such a value
(`follows_iff`). After one that ends the task the list stays as it is for good,
and if that was before the caught-up marker, `start` does not return.
-/

namespace JetCore

open Lib

variable {py : Interpreter}

/-- The string under `encryptionPublicKey`, if the value is an object with
one. -/
def stringKey (value : Bytes) : Option Text :=
  match Json.loads value with
  | .ok (.obj fields) =>
      match Json.get? fields (Text.ofString "encryptionPublicKey") with
      | some (.str t) => some t
      | _ => none
  | _ => none

/-- The well-formed keys that are live, in the order they came. -/
abbrev LiveKeys := Dict String Text

def LiveKeys.take (d : LiveKeys) : WatchItem → LiveKeys
  | .entry (.put k value) => (stringKey value).elim d fun t => d.set k t
  | .entry (.delete k) => d.pop k
  | .entry (.purge k) => d.pop k
  | .timeout => d
  | .caughtUp => d

def LiveKeys.after (items : List WatchItem) : LiveKeys :=
  items.foldl LiveKeys.take Dict.empty

def RecipientCache.after (py : Interpreter) (items : List WatchItem) :
    RecipientCache :=
  items.foldl (RecipientCache.consume py) {}

/-- The task has come this far, and the cache says what it should. -/
structure RecipientCache.UpTo (items : List WatchItem)
    (c : RecipientCache) : Prop where
  alive : c.failed = none
  ready : c.ready = true ↔ .caughtUp ∈ items
  entries : c.entries = (LiveKeys.after items).mapValues .str
  current : c.current = (LiveKeys.after items).values.map .str

/-- At every point of the sequence. -/
def Follows (py : Interpreter) (items : List WatchItem) : Prop :=
  ∀ front, front <+: items → (RecipientCache.after py front).UpTo front

/-- No JSON, or an object whose key, if it has one, is a string, and in neither
case nested deeper than the interpreter bears. -/
def Benign (py : Interpreter) (value : Bytes) : Prop :=
  Json.loads value py.limit = .error .jsonDecodeError ∨
    ∃ fields, Json.loads value py.limit = .ok (.obj fields) ∧
      ∀ r, Json.get? fields (Text.ofString "encryptionPublicKey") = some r →
        ∃ t, r = .str t

/-! ## The `try` block -/

theorem recipientOf_benign {value : Bytes} (h : Benign py value) :
    recipientOf py value = .ok ((stringKey value).map .str) := by
  rcases h with h | ⟨fields, h, hkey⟩
  · rw [recipientOf, stringKey, jsonLoads, h,
      Json.loads_of_limit h fun e => by cases e]
    rfl
  · rw [recipientOf, stringKey, jsonLoads, h,
      Json.loads_of_limit h fun e => by cases e]
    simp only [Except.mapError, bind, Except.bind, getItem]
    cases hget : Json.get? fields (Text.ofString "encryptionPublicKey") with
    | none => rfl
    | some r =>
        obtain ⟨t, rfl⟩ := hkey r hget
        rfl

/-- What else there is ends the task, or is stored and no string. -/
theorem recipientOf_not_benign {value : Bytes} (h : ¬ Benign py value) :
    (∃ e, recipientOf py value = .error e) ∨
      ∃ r, recipientOf py value = .ok (some r) ∧ ∀ t, r ≠ .str t := by
  rw [recipientOf, jsonLoads]
  cases hloads : Json.loads value py.limit with
  | error e =>
      cases e with
      | jsonDecodeError => exact absurd (.inl hloads) h
      | _ => exact .inl ⟨_, rfl⟩
  | ok v =>
      cases v with
      | obj fields =>
          simp only [Except.mapError, bind, Except.bind, getItem]
          cases hget : Json.get? fields
              (Text.ofString "encryptionPublicKey") with
          | none =>
              refine absurd (.inr ⟨fields, hloads, fun r hr => ?_⟩) h
              rw [hget] at hr
              cases hr
          | some r =>
              refine .inr ⟨r, rfl, fun t ht => h (.inr ⟨fields, hloads,
                fun r' hr' => ⟨t, ?_⟩⟩)⟩
              rw [← ht]
              exact (Option.some.inj (hget.symm.trans hr')).symm
      | _ => exact .inl ⟨_, rfl⟩

/-! ## One item -/

theorem LiveKeys.after_concat (items : List WatchItem) (item : WatchItem) :
    LiveKeys.after (items ++ [item]) = (LiveKeys.after items).take item :=
  List.foldl_concat ..

theorem RecipientCache.after_concat (items : List WatchItem)
    (item : WatchItem) :
    RecipientCache.after py (items ++ [item]) =
      (RecipientCache.after py items).consume py item :=
  List.foldl_concat ..

theorem RecipientCache.upTo_of_entries {items : List WatchItem}
    {c : RecipientCache} (halive : c.failed = none)
    (hready : c.ready = true ↔ .caughtUp ∈ items)
    (hentries : c.entries = (LiveKeys.after items).mapValues .str) :
    c.UpTo items :=
  ⟨halive, hready, hentries, by
    rw [current, hentries, Dict.values_mapValues]⟩

theorem RecipientCache.consume_put {c : RecipientCache}
    (hc : c.failed = none) {value : Bytes} (h : Benign py value) (k : String) :
    c.consume py (.entry (.put k value)) =
      (stringKey value).elim c
        fun t => { c with entries := c.entries.set k (.str t) } := by
  have halive : ¬ c.failed.isSome = true := by simp [hc]
  rw [RecipientCache.consume.eq_def, if_neg halive]
  simp only [recipientOf_benign h]
  cases stringKey value with
  | none => rfl
  | some t => rfl

/-- An item that sets no event, and changes the entries as it should. -/
theorem RecipientCache.UpTo.entry {items : List WatchItem}
    {c c' : RecipientCache} (h : c.UpTo items) {item : WatchItem}
    (hitem : item ≠ .caughtUp) (halive : c'.failed = c.failed)
    (hready : c'.ready = c.ready)
    (hentries : c'.entries =
      ((LiveKeys.after items).take item).mapValues .str) :
    c'.UpTo (items ++ [item]) := by
  refine upTo_of_entries (halive.trans h.alive) ?_ ?_
  · rw [hready, h.ready, List.mem_append, List.mem_singleton]
    exact ⟨.inl, fun hor => hor.resolve_right fun heq => hitem heq.symm⟩
  · rw [hentries, LiveKeys.after_concat]

theorem RecipientCache.UpTo.consume {items : List WatchItem}
    {c : RecipientCache} (h : c.UpTo items) {item : WatchItem}
    (hitem : ∀ k value, item = .entry (.put k value) → Benign py value) :
    (c.consume py item).UpTo (items ++ [item]) := by
  have halive : ¬ c.failed.isSome = true := by simp [h.alive]
  have hpop : ∀ k, c.entries.pop k =
      ((LiveKeys.after items).pop k).mapValues .str := by
    intro k
    rw [Dict.mapValues_pop, ← h.entries]
  cases item with
  | timeout =>
      rw [RecipientCache.consume.eq_def, if_neg halive]
      exact h.entry (by simp) rfl rfl h.entries
  | caughtUp =>
      rw [RecipientCache.consume.eq_def, if_neg halive]
      refine upTo_of_entries h.alive (iff_of_true rfl (by simp)) ?_
      rw [LiveKeys.after_concat]
      exact h.entries
  | entry op =>
      cases op with
      | put k value =>
          rw [consume_put h.alive (hitem k value rfl)]
          cases hkey : stringKey value with
          | none =>
              refine h.entry (by simp) rfl rfl ?_
              rw [LiveKeys.take, hkey]
              exact h.entries
          | some t =>
              refine h.entry (by simp) rfl rfl ?_
              have hset := Dict.mapValues_set Json.str (LiveKeys.after items) k t
              rw [← h.entries] at hset
              rw [LiveKeys.take, hkey]
              exact hset.symm
      | delete k =>
          rw [RecipientCache.consume.eq_def, if_neg halive]
          exact h.entry (by simp) rfl rfl (hpop k)
      | purge k =>
          rw [RecipientCache.consume.eq_def, if_neg halive]
          exact h.entry (by simp) rfl rfl (hpop k)

/-- A value that is not benign leaves a cache that is dead, or holds what is no
string. -/
theorem RecipientCache.UpTo.not_consume {items : List WatchItem}
    {c : RecipientCache} (h : c.UpTo items) {k : String} {value : Bytes}
    (hvalue : ¬ Benign py value) (items' : List WatchItem) :
    ¬ (c.consume py (.entry (.put k value))).UpTo items' := by
  have halive : ¬ c.failed.isSome = true := by simp [h.alive]
  rw [RecipientCache.consume.eq_def, if_neg halive]
  rcases recipientOf_not_benign hvalue with ⟨e, he⟩ | ⟨r, hr, hstr⟩
  · intro hup
    have hdead := hup.alive
    simp only [he] at hdead
    cases hdead
  · intro hup
    have hstored := hup.entries
    simp only [hr] at hstored
    have hget : (c.entries.set k r).get? k = some r := Dict.get?_set_self ..
    rw [hstored, ← Dict.mem_entries] at hget
    obtain ⟨e, -, heq⟩ := List.mem_map.mp hget
    exact hstr e.2 (Prod.mk.inj heq).2.symm

/-! ## The whole sequence -/

/-- The cache follows its watch, from the start to the end of the sequence,
exactly when no write in it brings a value that is not benign. -/
theorem follows_iff (py : Interpreter) (items : List WatchItem) :
    Follows py items ↔
      ∀ k value, .entry (.put k value) ∈ items → Benign py value := by
  constructor
  · intro h k value hmem
    obtain ⟨front, rest, rfl⟩ := List.append_of_mem hmem
    have hbefore := h front (List.prefix_append _ _)
    have hafter := h (front ++ [.entry (.put k value)]) ⟨rest, by simp⟩
    rw [RecipientCache.after_concat] at hafter
    by_contra hvalue
    exact hbefore.not_consume hvalue _ hafter
  · intro h front
    induction front using List.reverseRecOn with
    | nil =>
        intro _
        exact RecipientCache.upTo_of_entries rfl (by simp [RecipientCache.after])
          rfl
    | append_singleton front item ih =>
        intro hfront
        rw [RecipientCache.after_concat]
        refine (ih ((List.prefix_append _ _).trans hfront)).consume ?_
        rintro k value rfl
        exact h k value (hfront.subset (by simp))

/-- One value that is a JSON array, before the caught-up marker: nothing that
is registered later is seen, and `start` waits for ever. -/
theorem array_value_freezes :
    let items : List WatchItem := [
      .entry (.put "events.orders.OrderCreated.db-01" (Json.dumps (.arr []))),
      .caughtUp,
      .entry (register "events.orders.OrderCreated" "db-02" "db"
        "age1example" "2026-01-01T00:00:00+00:00")]
    ¬ Follows .thousand items ∧
      (RecipientCache.after .thousand items).failed = some .typeError ∧
      (RecipientCache.after .thousand items).ready = false ∧
      (RecipientCache.after .thousand items).current = [] := by
  intro items
  have hdead : (RecipientCache.after .thousand items).failed = some .typeError := by
    decide +kernel
  refine ⟨fun h => ?_, hdead, by decide +kernel, by decide +kernel⟩
  have halive := (h items (List.prefix_refl _)).alive
  rw [hdead] at halive
  cases halive

end JetCore
