import JetCore.Ref.Registry
import JetCore.Spec.Directory
import Mathlib.Data.List.Nodup

/-!
# The two readers of the service directory

Both readers are compared with `Spec.Directory`, over every history of typed
changes. The cache refines it: after it has consumed what its watch delivers,
whenever the watch was started, `current` lists exactly the subject's
recipients (`current_perm_recipients`). The scan answers with the recipients of
every live key that contains `<subject>.` anywhere (`lookupRecipients_perm`).

So they agree exactly when no live key of another subject contains
`<subject>.`, which a subject that ends in this one, or that this one is a
token-wise prefix of, makes false.

Everything rests on the last operation on a key. `look_replay` reads the
bucket, the cache and the specification off their logs, the watch's own log is
the history compacted and filtered, and neither changes a key's last operation.
-/

namespace JetCore

open Lib Spec

variable {py : Interpreter}

/-- The KV operation behind a change. -/
def changeOp : Change → KvOp
  | .register t i adapterType key registeredAt =>
      register t.val i.val adapterType key registeredAt
  | .deregister t i => deregister t.val i.val
  | .expire t i => .purge (kvKey t.val i.val)

def slotKey (slot : Subject × ServiceId) : String :=
  kvKey slot.1.val slot.2.val

theorem changeOp_key (c : Change) : (changeOp c).key = slotKey c.slot := by
  cases c <;> rfl

theorem tokens_slotKey (slot : Subject × ServiceId) :
    tokens (slotKey slot) = tokens slot.1.val ++ [slot.2.val.toList] := by
  rw [slotKey, kvKey, tokens_dot, tokens_of_single slot.2.property]

theorem slotKey_injective : Function.Injective slotKey := by
  rintro ⟨t, i⟩ ⟨t', i'⟩ h
  have htok := congrArg tokens h
  rw [tokens_slotKey, tokens_slotKey] at htok
  obtain ⟨ht, hi⟩ := List.append_inj' htok rfl
  have hi' : i.val = i'.val := String.toList_inj.mp (List.cons.inj hi).1
  exact Prod.ext (Subtype.ext (tokens_injective ht)) (Subtype.ext hi')

/-- `s.*` watches the slots of `s` and no others. -/
theorem watched_iff (s : Subject) (c : Change) :
    watched s.val (changeOp c) = true ↔ c.slot.1 = s := by
  have hpat : tokens (watchPattern s.val) = tokens s.val ++ [['*']] := by
    have h := tokens_dot s.val "*"
    rwa [tokens_of_single (t := "*") (by decide), String.append_assoc] at h
  rw [watched, changeOp_key, hpat, tokens_slotKey, subjectMatches_star s.property]
  constructor
  · rintro ⟨t, ht⟩
    exact Subtype.ext (tokens_injective (List.append_inj' ht rfl).1)
  · rintro rfl
    exact ⟨_, rfl⟩

/-! ## What an entry decodes to -/

theorem recipientOf_registrationValue (i adapterType key at' : String) :
    recipientOf py (registrationValue i adapterType key at') =
      .ok (some (Json.string key)) := by
  have hplain : Json.Plain (Json.object [
      ("serviceId", Json.string i), ("adapterType", Json.string adapterType),
      ("encryptionPublicKey", Json.string key),
      ("registeredAt", Json.string at')]) := by
    refine Json.plain_object fun f hf => ?_
    simp only [List.mem_cons, List.not_mem_nil, or_false] at hf
    rcases hf with rfl | rfl | rfl | rfl <;> exact Json.plain_string _
  rw [recipientOf, registrationValue,
    py.jsonLoads_eq (jsonLoads_dumps hplain) le_rfl]
  simp only [Json.object, bind, Except.bind, getItem, Json.get?_object]
  rfl

theorem recipientOf_nil : recipientOf py [] = .ok none := rfl

/-- The recipient key a directory entry holds. -/
def decoded (py : Interpreter) (value : Bytes) : Json :=
  match recipientOf py value with
  | .ok (some r) => r
  | _ => .null

/-- The value a change leaves decodes to the key it registers. -/
theorem changeOp_value {c : Change} {v : Bytes}
    (h : (changeOp c).value? = some v) :
    ∃ k, c.key = some k ∧ recipientOf py v = .ok (some (Json.string k)) := by
  cases c with
  | register t i adapterType key registeredAt =>
      cases h
      exact ⟨key, rfl, recipientOf_registrationValue _ _ _ _⟩
  | deregister t i => cases h
  | expire t i => cases h

theorem changeOp_value_of_key {c : Change} {k : String}
    (h : c.key = some k) : ∃ v, (changeOp c).value? = some v ∧
      recipientOf py v = .ok (some (Json.string k)) := by
  cases c with
  | register t i adapterType key registeredAt =>
      cases h
      exact ⟨_, rfl, recipientOf_registrationValue _ _ _ _⟩
  | deregister t i => cases h
  | expire t i => cases h

/-! ## The bucket -/

theorem Bucket.get?_after (ops : List KvOp) (k : String) :
    (Bucket.after ops).get? k = (lastOn KvOp.key k ops).elim none KvOp.value? := by
  have hstep : ∀ op ∈ ops, ∀ b : Bucket, True → True ∧ ∀ k,
      (b.apply op).get? k = if op.key = k then op.value? else b.get? k :=
    fun op _ b _ => ⟨trivial, b.get?_apply op⟩
  exact (look_replay Dict.get? (fun _ => True) hstep trivial).2 k

/-- The bucket's entries are the directory's, under their string keys. -/
theorem Bucket.get?_changes (py : Interpreter) {history : List Change}
    {k : String} {v : Bytes}
    (h : (Bucket.after (history.map changeOp)).get? k = some v) :
    ∃ slot key, (Directory.after history).get? slot = some key ∧
      slotKey slot = k ∧ recipientOf py v = .ok (some (Json.string key)) := by
  rw [Bucket.get?_after] at h
  cases hl : lastOn KvOp.key k (history.map changeOp) with
  | none => rw [hl] at h; cases h
  | some op =>
      rw [hl] at h
      obtain ⟨c, hc, rfl, hk⟩ := (lastOn_map slotKey_injective changeOp_key).mp hl
      obtain ⟨key, hkey, hrec⟩ := changeOp_value h
      exact ⟨c.slot, key, Directory.get?_after_iff.mpr ⟨c, hc, rfl, hkey⟩, hk,
        hrec⟩

theorem Bucket.get?_slotKey (py : Interpreter) {history : List Change}
    {slot : Subject × ServiceId} {key : String}
    (h : (Directory.after history).get? slot = some key) :
    ∃ v, (Bucket.after (history.map changeOp)).get? (slotKey slot) = some v ∧
      recipientOf py v = .ok (some (Json.string key)) := by
  obtain ⟨c, hc, rfl, hkey⟩ := Directory.get?_after_iff.mp h
  obtain ⟨v, hv, hrec⟩ := changeOp_value_of_key hkey
  refine ⟨v, ?_, hrec⟩
  rw [Bucket.get?_after,
    (lastOn_map slotKey_injective changeOp_key).mpr ⟨c, hc, rfl, rfl⟩]
  exact hv

/-- An entry of the directory as a reader sees it. -/
def seen (e : (Subject × ServiceId) × String) : String × Json :=
  (slotKey e.1, Json.string e.2)

theorem seen_injective : Function.Injective seen := by
  rintro ⟨slot, k⟩ ⟨slot', k'⟩ h
  obtain ⟨hslot, hk⟩ := Prod.mk.inj h
  exact Prod.ext (slotKey_injective hslot)
    (Text.ofString_injective (Json.str.inj hk))

/-- A reader's dictionary that answers like a part of the directory lists
that part. -/
theorem entries_perm_seen {d : Directory} {p : Subject × ServiceId → Bool}
    (entries : List (String × Json)) (hnodup : entries.Nodup)
    (hmem : ∀ k j, (k, j) ∈ entries ↔
      ∃ slot key, d.get? slot = some key ∧ p slot = true ∧
        slotKey slot = k ∧ Json.string key = j) :
    entries.Perm ((d.entries.filter fun e => p e.1).map seen) := by
  rw [List.perm_ext_iff_of_nodup hnodup
    ((d.entries_nodup.filter _).map seen_injective)]
  rintro ⟨k, j⟩
  rw [hmem, List.mem_map]
  constructor
  · rintro ⟨slot, key, hget, hp, rfl, rfl⟩
    exact ⟨(slot, key),
      List.mem_filter.mpr ⟨Dict.mem_entries.mpr hget, hp⟩, rfl⟩
  · rintro ⟨⟨slot, key⟩, he, hseen⟩
    obtain ⟨hget, hp⟩ := List.mem_filter.mp he
    obtain ⟨rfl, rfl⟩ := Prod.mk.inj hseen
    exact ⟨slot, key, Dict.mem_entries.mp hget, hp, rfl, rfl⟩

/-! ## The cache -/

/-- An operation whose value, if it writes one, is a well-formed entry. -/
def KvOp.WellFormed (py : Interpreter) (op : KvOp) : Prop :=
  ∀ v, op.value? = some v → ∃ r, recipientOf py v = .ok (some r)

theorem changeOp_wellFormed (c : Change) : (changeOp c).WellFormed py := by
  intro v hv
  obtain ⟨k, -, hrec⟩ := changeOp_value hv
  exact ⟨_, hrec⟩

/-- One turn of `_consume` on a well-formed entry: the task lives on and only
the entry's own key changes. -/
theorem RecipientCache.consume_entry {op : KvOp} (hop : op.WellFormed py)
    {c : RecipientCache} (hc : c.failed = none) :
    (c.consume py (.entry op)).failed = none ∧
      ∀ k, (c.consume py (.entry op)).entries.get? k =
        if op.key = k then op.value?.map (decoded py) else c.entries.get? k := by
  have halive : ¬ c.failed.isSome = true := by simp [hc]
  rw [RecipientCache.consume.eq_def, if_neg halive]
  cases op with
  | put k' v =>
      obtain ⟨r, hr⟩ := hop v rfl
      simp only [hr]
      refine ⟨hc, fun k => ?_⟩
      rw [Dict.get?_set]
      simp only [KvOp.key, KvOp.value?, Option.map_some, decoded, hr,
        eq_comm (a := k')]
  | delete k' =>
      refine ⟨hc, fun k => ?_⟩
      simp only [Dict.get?_pop, KvOp.key, KvOp.value?, Option.map_none,
        eq_comm (a := k')]
  | purge k' =>
      refine ⟨hc, fun k => ?_⟩
      simp only [Dict.get?_pop, KvOp.key, KvOp.value?, Option.map_none,
        eq_comm (a := k')]

theorem RecipientCache.consume_entries (ops : List KvOp)
    (hops : ∀ op ∈ ops, op.WellFormed py) {c : RecipientCache}
    (hc : c.failed = none) :
    ((ops.map .entry).foldl (consume py) c).failed = none ∧
      ∀ k, ((ops.map .entry).foldl (consume py) c).entries.get? k =
        (lastOn KvOp.key k ops).elim (c.entries.get? k)
          fun op => op.value?.map (decoded py) := by
  rw [List.foldl_map]
  exact look_replay (fun (c : RecipientCache) k => c.entries.get? k)
    (fun c => c.failed = none)
    (fun op hop c hc => consume_entry (hops op hop) hc) hc

/-- A cache that has consumed everything a watch for `s` delivers. -/
def caughtUpCache (py : Interpreter) (s : String) (before later : List KvOp) :
    RecipientCache :=
  (watchItems s before later).foldl (RecipientCache.consume py) {}

theorem mem_compact {ops : List KvOp} {op : KvOp}
    (h : op ∈ compact KvOp.key ops) : op ∈ ops := by
  induction ops with
  | nil => exact h
  | cons a rest ih =>
      rw [compact] at h
      split at h
      · exact List.mem_cons_of_mem _ (ih h)
      · rcases List.mem_cons.mp h with rfl | h
        · exact List.mem_cons_self
        · exact List.mem_cons_of_mem _ (ih h)

/-- The cache's answer for a key: what the key's last operation left, if the
watch matches the key, and nothing otherwise. -/
theorem caughtUpCache_get? {s : String} {before later : List KvOp}
    (hops : ∀ op ∈ before ++ later, op.WellFormed py) (k : String) :
    (caughtUpCache py s before later).entries.get? k =
      if subjectMatches (tokens (watchPattern s)) (tokens k) then
        (lastOn KvOp.key k (before ++ later)).elim none
          fun op => op.value?.map (decoded py)
      else none := by
  obtain ⟨hfail₁, hget₁⟩ := RecipientCache.consume_entries
    ((compact KvOp.key before).filter (watched s)) (c := {})
    (fun op hop => hops op (List.mem_append_left _
      (mem_compact (List.mem_filter.mp hop).1))) rfl
  generalize hc₁ : ((((compact KvOp.key before).filter (watched s)).map
    WatchItem.entry).foldl (RecipientCache.consume py) {}) = c₁ at hfail₁ hget₁
  have hmark : c₁.consume py .caughtUp = { c₁ with ready := true } := by
    rw [RecipientCache.consume.eq_def, if_neg (by simp [hfail₁])]
  obtain ⟨-, hget₂⟩ := RecipientCache.consume_entries
    (later.filter (watched s)) (c := { c₁ with ready := true })
    (fun op hop => hops op (List.mem_append_right _ (List.mem_filter.mp hop).1))
    hfail₁
  rw [caughtUpCache, watchItems, List.foldl_append, hc₁, List.foldl_cons,
    hmark, hget₂, hget₁]
  have hlast := fun log => lastOn_filter KvOp.key
    (fun k => subjectMatches (tokens (watchPattern s)) (tokens k)) k log
  rw [show watched s = fun op => subjectMatches (tokens (watchPattern s))
    (tokens op.key) from rfl, hlast, hlast, lastOn_compact]
  split
  · rw [lastOn_append]
    cases lastOn KvOp.key k later <;> rfl
  · rfl

/-- The cache refines the directory: whenever its watch was started, once it
has caught up it lists the subject's recipients. -/
theorem current_perm_recipients (py : Interpreter) (s : Subject)
    (before later : List Change) :
    (caughtUpCache py s.val (before.map changeOp)
      (later.map changeOp)).current.Perm
      (((Directory.after (before ++ later)).recipients s).map Json.string) := by
  generalize hc : caughtUpCache py s.val (before.map changeOp)
    (later.map changeOp) = c
  have hget : ∀ k, c.entries.get? k =
      if subjectMatches (tokens (watchPattern s.val)) (tokens k) then
        (lastOn KvOp.key k ((before ++ later).map changeOp)).elim none
          fun op => op.value?.map (decoded py)
      else none := by
    intro k
    rw [← hc, caughtUpCache_get?, List.map_append]
    intro op hop
    rw [← List.map_append] at hop
    obtain ⟨ch, -, rfl⟩ := List.mem_map.mp hop
    exact changeOp_wellFormed ch
  have hperm : c.entries.entries.Perm
      (((Directory.after (before ++ later)).entries.filter
        fun e => decide (e.1.1 = s)).map seen) := by
    refine entries_perm_seen (p := fun slot => decide (slot.1 = s))
      _ c.entries.entries_nodup fun k j => ?_
    rw [Dict.mem_entries, hget]
    constructor
    · intro h
      split at h
      · next hmatch =>
          cases hl : lastOn KvOp.key k ((before ++ later).map changeOp) with
          | none => rw [hl] at h; cases h
          | some op =>
              rw [hl, Option.elim_some, Option.map_eq_some_iff] at h
              obtain ⟨v, hv, rfl⟩ := h
              obtain ⟨ch, hch, rfl, rfl⟩ :=
                (lastOn_map slotKey_injective changeOp_key).mp hl
              obtain ⟨key, hkey, hrec⟩ := changeOp_value hv
              have hsub : ch.slot.1 = s := (watched_iff s ch).mp (by
                rw [watched, changeOp_key]
                exact hmatch)
              refine ⟨ch.slot, key,
                Directory.get?_after_iff.mpr ⟨ch, hch, rfl, hkey⟩,
                decide_eq_true hsub, rfl, ?_⟩
              rw [decoded, hrec]
      · cases h
    · rintro ⟨slot, key, hslot, hsub, rfl, rfl⟩
      obtain ⟨ch, hch, rfl, hkey⟩ := Directory.get?_after_iff.mp hslot
      obtain ⟨v, hv, hrec⟩ := changeOp_value_of_key hkey
      have hmatch := (watched_iff s ch).mpr (of_decide_eq_true hsub)
      rw [watched, changeOp_key] at hmatch
      rw [if_pos hmatch,
        (lastOn_map slotKey_injective changeOp_key).mpr ⟨ch, hch, rfl, rfl⟩,
        Option.elim_some, hv, Option.map_some, decoded, hrec]
  rw [RecipientCache.current, Dict.values, Directory.recipients, List.map_map]
  have hfst := hperm.map Prod.snd
  rw [List.map_map] at hfst
  exact hfst

/-! ## The scan -/

/-- On a quiet bucket the retries change nothing: the scan works on every live
key that contains the filter. -/
theorem lookupKeys_const (b : Bucket) (f : String) : ∀ (attempts call : ℕ),
    (lookupKeys (fun _ => b) f (attempts + 1) call).1 =
      b.keys.filter fun k => contains f k := by
  intro attempts
  induction attempts with
  | zero =>
      intro call
      simp only [lookupKeys, Bucket.keysMatching, List.any_cons, List.any_nil,
        Bool.or_false]
      split
      · next h =>
          split at h
          · cases h
          · cases h
            rfl
      · next h =>
          split at h
          · next hnil => rw [hnil]
          · cases h
  | succ attempts ih =>
      intro call
      rw [lookupKeys]
      split
      · next keys h =>
          simp only [Bucket.keysMatching, List.any_cons, List.any_nil,
            Bool.or_false] at h
          split at h
          · cases h
          · cases h
            rfl
      · exact ih (call + 1)

theorem collectRecipients_const {b : Bucket} : ∀ (keys : List String)
    (call : ℕ), (∀ k ∈ keys, ∃ v r, b.get? k = some v ∧
      recipientOf py v = .ok (some r)) →
    collectRecipients py (fun _ => b) keys call =
      .ok (keys.map fun k => (b.get? k).elim .null (decoded py)) := by
  intro keys
  induction keys with
  | nil => exact fun _ _ => rfl
  | cons k ks ih =>
      intro call hkeys
      obtain ⟨v, r, hv, hr⟩ := hkeys k (by simp)
      have hne : v ≠ [] := by
        rintro rfl
        rw [recipientOf_nil] at hr
        cases hr
      have hrest := ih (call + 1) fun k' hk' => hkeys k' (by simp [hk'])
      simp only [collectRecipients, Bucket.get, hv, entryValue, if_neg hne,
        bind, Except.bind, hr, hrest, List.map_cons, Option.elim_some, decoded]
      rfl

/-- The scan on a quiet bucket: the recipients of every live key that contains
`<subject>.`, its own subject's or not. -/
theorem lookupRecipients_perm (py : Interpreter) (s : Subject)
    (history : List Change) :
    ∃ found, lookupRecipients py
        (fun _ => Bucket.after (history.map changeOp)) s.val = .ok found ∧
      found.Perm (((Directory.after history).entries.filter
        fun e => contains (s.val ++ ".") (slotKey e.1)).map
          (Json.string ∘ Prod.snd)) := by
  generalize hb : Bucket.after (history.map changeOp) = b
  have hgood : ∀ {k v}, b.get? k = some v →
      ∃ slot key, (Directory.after history).get? slot = some key ∧
        slotKey slot = k ∧ recipientOf py v = .ok (some (Json.string key)) := by
    intro k v h
    rw [← hb] at h
    exact Bucket.get?_changes py h
  have hcollect := collectRecipients_const (b := b)
    (b.keys.filter fun k => contains (s.val ++ ".") k)
    (lookupKeys (fun _ => b) (s.val ++ ".") lookupRetryAttempts 0).2
    (by
      intro k hk
      obtain ⟨v, hv⟩ := Dict.mem_keys.mp (List.mem_filter.mp hk).1
      obtain ⟨-, key, -, -, hrec⟩ := hgood hv
      exact ⟨v, _, hv, hrec⟩)
  refine ⟨_, by rw [lookupRecipients, lookupRetryAttempts, lookupKeys_const,
    ← lookupRetryAttempts, hcollect], ?_⟩
  have hentries : (b.keys.filter fun k => contains (s.val ++ ".") k).map
      (fun k => (b.get? k).elim .null (decoded py)) =
      ((b.entries.filter fun e => contains (s.val ++ ".") e.1).map
        fun e => (e.1, decoded py e.2)).map Prod.snd := by
    rw [Dict.keys, List.filter_map, List.map_map, List.map_map]
    refine List.map_congr_left fun e he => ?_
    have hget := Dict.mem_entries.mp (List.mem_filter.mp he).1
    simp only [Function.comp_apply, hget, Option.elim_some]
  rw [hentries, ← List.map_map (g := Json.string) (f := Prod.snd)]
  have hperm := entries_perm_seen (d := Directory.after history)
    (p := fun slot => contains (s.val ++ ".") (slotKey slot))
    ((b.entries.filter fun e => contains (s.val ++ ".") e.1).map
      fun e => (e.1, decoded py e.2)) ?_ ?_
  · have hsnd := hperm.map Prod.snd
    rw [List.map_map (f := seen)] at hsnd
    rw [List.map_map (f := Prod.snd)]
    exact hsnd
  · refine List.Nodup.of_map Prod.fst ?_
    rw [List.map_map]
    exact b.nodup.sublist (List.filter_sublist.map _)
  · intro k j
    rw [List.mem_map]
    constructor
    · rintro ⟨⟨k', v⟩, he, heq⟩
      obtain ⟨rfl, rfl⟩ := Prod.mk.inj heq
      obtain ⟨hmem, hcon⟩ := List.mem_filter.mp he
      obtain ⟨slot, key, hslot, rfl, hrec⟩ := hgood (Dict.mem_entries.mp hmem)
      exact ⟨slot, key, hslot, hcon, rfl, by simp only [decoded, hrec]⟩
    · rintro ⟨slot, key, hslot, hcon, rfl, rfl⟩
      obtain ⟨v, hv, hrec⟩ := Bucket.get?_slotKey py hslot
      rw [hb] at hv
      exact ⟨(slotKey slot, v),
        List.mem_filter.mpr ⟨Dict.mem_entries.mpr hv, hcon⟩,
        by simp only [decoded, hrec]⟩

/-! ## When they agree -/

/-- Two selections from a list, the first inside the second, list the same
values only when they are the same selection. -/
theorem filter_map_perm_iff {α β : Type} {l : List α} {p q : α → Bool}
    (himp : ∀ a, p a = true → q a = true) (f : α → β) :
    ((l.filter p).map f).Perm ((l.filter q).map f) ↔
      ∀ a ∈ l, q a = true → p a = true := by
  constructor
  · intro h a ha hq
    have hlen := h.length_eq
    rw [List.length_map, List.length_map] at hlen
    have heq := (List.monotone_filter_right l himp).eq_of_length hlen
    have hmem : a ∈ l.filter p := by
      rw [heq]
      exact List.mem_filter.mpr ⟨ha, hq⟩
    exact (List.mem_filter.mp hmem).2
  · intro h
    have heq : l.filter p = l.filter q :=
      List.filter_congr fun a ha => by
        rw [Bool.eq_iff_iff]
        exact ⟨himp a, h a ha⟩
    rw [heq]

/-- The scan and the caught-up cache, over the directory: no taken slot of
another subject may have a key that contains `<subject>.`. -/
theorem readers_agree_iff (py : Interpreter) (s : Subject)
    (before later : List Change) :
    (∃ found, lookupRecipients py
        (fun _ => Bucket.after ((before ++ later).map changeOp)) s.val =
          .ok found ∧
      (caughtUpCache py s.val (before.map changeOp)
        (later.map changeOp)).current.Perm found) ↔
      ∀ slot ∈ (Directory.after (before ++ later)).keys,
        contains (s.val ++ ".") (slotKey slot) = true → slot.1 = s := by
  obtain ⟨found, hfound, hscan⟩ := lookupRecipients_perm py s (before ++ later)
  have hcache := current_perm_recipients py s before later
  rw [Directory.recipients, List.map_map] at hcache
  have hown : ∀ e : (Subject × ServiceId) × String,
      decide (e.1.1 = s) = true →
        contains (s.val ++ ".") (slotKey e.1) = true := by
    rintro ⟨⟨t, i⟩, k⟩ ht
    obtain rfl : t = s := of_decide_eq_true ht
    exact contains_dot t.val i.val
  have hsel := filter_map_perm_iff
    (l := (Directory.after (before ++ later)).entries) hown
    (Json.string ∘ Prod.snd)
  constructor
  · rintro ⟨found', hfound', hperm⟩
    obtain rfl : found = found' := Except.ok.inj (hfound.symm.trans hfound')
    intro slot hslot hcon
    obtain ⟨k, hk⟩ := Dict.mem_keys.mp hslot
    exact of_decide_eq_true (hsel.mp (hcache.symm.trans (hperm.trans hscan))
      (slot, k) (Dict.mem_entries.mpr hk) hcon)
  · intro h
    refine ⟨found, hfound, hcache.trans ((hsel.mpr ?_).trans hscan.symm)⟩
    rintro ⟨slot, k⟩ he hcon
    exact decide_eq_true
      (h slot (Dict.mem_keys.mpr ⟨k, Dict.mem_entries.mp he⟩) hcon)

/-- A key is live in the bucket exactly when its slot is taken. -/
theorem kvKey_mem_keys (history : List Change) (t : Subject) (i : ServiceId) :
    kvKey t.val i.val ∈ (Bucket.after (history.map changeOp)).keys ↔
      (t, i) ∈ (Directory.after history).keys := by
  rw [Dict.mem_keys, Dict.mem_keys]
  constructor
  · rintro ⟨v, hv⟩
    obtain ⟨slot, key, hslot, hkey, -⟩ := Bucket.get?_changes .thousand hv
    obtain rfl : slot = (t, i) := slotKey_injective hkey
    exact ⟨key, hslot⟩
  · rintro ⟨key, hkey⟩
    obtain ⟨v, hv, -⟩ := Bucket.get?_slotKey .thousand hkey
    exact ⟨v, hv⟩

/-- After any history of registrations, deregistrations and expiries, a cache
for `s` whose watch was started anywhere in it and has delivered everything
lists the same recipients as the scan if and only if no live key of another
subject contains `s` followed by a dot. -/
theorem current_perm_lookupRecipients_iff (py : Interpreter) (s : Subject)
    (before later : List Change) :
    (∃ found, lookupRecipients py
        (fun _ => Bucket.after ((before ++ later).map changeOp)) s.val =
          .ok found ∧
      ((watchItems s.val (before.map changeOp) (later.map changeOp)).foldl
        (RecipientCache.consume py) {}).current.Perm found) ↔
      ∀ (t : Subject) (i : ServiceId),
        kvKey t.val i.val ∈
          (Bucket.after ((before ++ later).map changeOp)).keys →
        t ≠ s → contains (s.val ++ ".") (kvKey t.val i.val) = false := by
  refine (readers_agree_iff py s before later).trans ?_
  constructor
  · intro h t i hlive hne
    rw [kvKey_mem_keys] at hlive
    by_contra hcon
    rw [Bool.not_eq_false] at hcon
    exact hne (h (t, i) hlive hcon)
  · rintro h ⟨t, i⟩ hslot hcon
    by_contra hne
    have hno := h t i ((kvKey_mem_keys _ t i).mpr hslot) hne
    exact Bool.noConfusion (hcon.symm.trans hno)

/-- `events.files.Foo` and its extension `events.files.Foo.Bar`, one
registration under the second: the scan for the first reports it, the cache
does not. -/
theorem current_not_perm_lookupRecipients :
    ¬ ∃ found, lookupRecipients .thousand
        (fun _ => Bucket.after [register "events.files.Foo.Bar" "svc-01"
          "test" "age1example" "2026-01-01T00:00:00+00:00"])
        "events.files.Foo" = .ok found ∧
      ((watchItems "events.files.Foo" [register "events.files.Foo.Bar" "svc-01"
          "test" "age1example" "2026-01-01T00:00:00+00:00"] []).foldl
        (RecipientCache.consume .thousand) {}).current.Perm found := by
  have h := (readers_agree_iff .thousand ⟨"events.files.Foo", by decide⟩
    [.register ⟨"events.files.Foo.Bar", by decide⟩ ⟨"svc-01", by decide⟩ "test"
      "age1example" "2026-01-01T00:00:00+00:00"] []).not
  refine h.mpr fun hall => ?_
  have heq := hall (⟨"events.files.Foo.Bar", by decide⟩, ⟨"svc-01", by decide⟩)
    (by decide) (by decide)
  exact absurd (congrArg Subtype.val heq) (by decide)

end JetCore
