import JetCore.Proofs.CacheFold
import JetCore.Lib.Subject

/-!
# One `lookup_recipients` among other services

The scan and the read of each key it found are calls of their own, and other
services register, deregister and expire in between. An entry of the subject
that stays as it is all the while is found and read. A key that goes between
the scan and its own read raises `KeyNotFoundError`, which nothing catches, and
of a value that is there the `try` block catches half of what can be wrong
with it. So the lookup answers as it should exactly if every key that is
scanned is live when it is read, with a value that is no JSON or an object
whose key, if it has one, is a string (`lookup_answers_iff`), nested no deeper
than the interpreter bears.
-/

namespace JetCore

open Lib

/-- The directory moment by moment, and the moments of the lookup's network
calls. Moment zero is the call of `lookup_recipients`. -/
structure Interleaving where
  moment : ℕ → Bucket
  changes : ∀ m, moment (m + 1) = moment m ∨
    ∃ op, moment (m + 1) = (moment m).apply op
  call : ℕ → ℕ
  ordered : Monotone call

/-- The keys a scan for the subject finds. -/
def scanned (b : Bucket) (subject : String) : List String :=
  b.keys.filter fun k => contains (subject ++ ".") k

/-- The `c`-th call is the scan that finds something. -/
structure ScanAt (view : ℕ → Bucket) (subject : String) (c : ℕ) : Prop where
  attempt : c < lookupRetryAttempts
  found : scanned (view c) subject ≠ []
  empty : ∀ c' < c, scanned (view c') subject = []

/-- The last network call of the lookup. -/
def lastCall (view : ℕ → Bucket) (subject : String) : ℕ :=
  let found := lookupKeys view (subject ++ ".") lookupRetryAttempts 0
  found.2 + found.1.length - 1

namespace Interleaving

variable (py : Interpreter) (i : Interleaving) (subject : String)

/-- What each call meets. -/
def view (n : ℕ) : Bucket := i.moment (i.call n)

def During (m : ℕ) : Prop := m ≤ i.call (lastCall i.view subject)

/-- At some moment of the lookup a well-formed entry among these holds the
key. -/
def Held (counts : String → Prop) (t : Text) : Prop :=
  ∃ m k value, i.During subject m ∧ counts k ∧
    (i.moment m).get? k = some value ∧ stringKey value = some t

/-- The lookup returns, with the key of every well-formed entry of the subject
that is live and unchanged throughout, and with no others than well-formed
entries hold at some moment of it. -/
structure Answers (counts : String → Prop) (found : List Json) : Prop where
  returned : lookupRecipients py i.view subject = .ok found
  whole : ∀ serviceId value t, stringKey value = some t →
    (∀ m, i.During subject m →
      (i.moment m).get? (kvKey subject serviceId) = some value) →
    .str t ∈ found
  only : ∀ r ∈ found, ∃ t, r = .str t ∧ i.Held subject counts t

/-- Every key the scan found is live when it is read, and its value benign. -/
def ReadsBenign : Prop :=
  ∀ c, ScanAt i.view subject c →
    ∀ (n : ℕ) (k : String), (scanned (i.view c) subject)[n]? = some k →
      ∃ value, (i.view (c + 1 + n)).get? k = some value ∧ Benign py value

/-- A key that is read under a scanned key is held by an entry that counts at
some moment. -/
def ReadsHeld (counts : String → Prop) : Prop :=
  ∀ c, ScanAt i.view subject c →
    ∀ (n : ℕ) (k : String), (scanned (i.view c) subject)[n]? = some k →
      ∀ value t, (i.view (c + 1 + n)).get? k = some value →
        stringKey value = some t → i.Held subject counts t

end Interleaving

/-! ## The scan -/

variable {py : Interpreter} {view : ℕ → Bucket} {subject : String}

theorem keysMatching_eq (b : Bucket) (subject : String) :
    b.keysMatching [subject ++ "."] =
      if scanned b subject = [] then .error .noKeysError
      else .ok (scanned b subject) := by
  simp only [Bucket.keysMatching, List.any_cons, List.any_nil, Bool.or_false]
  rw [← scanned]
  split
  · next h => rw [if_pos h]
  · next h => rw [if_neg h]

theorem lookupKeys_empty (attempts : ℕ) : ∀ call : ℕ,
    (∀ c, call ≤ c → c < call + attempts → scanned (view c) subject = []) →
    lookupKeys view (subject ++ ".") attempts call = ([], call + attempts) := by
  induction attempts with
  | zero => exact fun call _ => rfl
  | succ attempts ih =>
      intro call h
      rw [lookupKeys, keysMatching_eq, if_pos (h call le_rfl (by omega))]
      simp only []
      rw [ih (call + 1) fun c hc hlt => h c (by omega) (by omega)]
      congr 1
      omega

theorem lookupKeys_found {c : ℕ} (hfound : scanned (view c) subject ≠ [])
    (attempts : ℕ) : ∀ call : ℕ, call ≤ c → c < call + attempts →
    (∀ c', call ≤ c' → c' < c → scanned (view c') subject = []) →
    lookupKeys view (subject ++ ".") attempts call =
      (scanned (view c) subject, c + 1) := by
  induction attempts with
  | zero =>
      intro call hle hlt
      omega
  | succ attempts ih =>
      intro call hle hlt hempty
      rw [lookupKeys, keysMatching_eq]
      rcases Nat.eq_or_lt_of_le hle with rfl | hlater
      · rw [if_neg hfound]
      · rw [if_pos (hempty call le_rfl hlater)]
        exact ih (call + 1) hlater (by omega)
          fun c' hc' => hempty c' (by omega)

theorem ScanAt.lookupKeys {c : ℕ} (h : ScanAt view subject c) :
    JetCore.lookupKeys view (subject ++ ".") lookupRetryAttempts 0 =
      (scanned (view c) subject, c + 1) :=
  lookupKeys_found h.found _ 0 (Nat.zero_le c)
    (by rw [Nat.zero_add]; exact h.attempt) fun c' _ hc' => h.empty c' hc'

/-- One of the attempts finds something, or none does. -/
theorem scan_cases (view : ℕ → Bucket) (subject : String) :
    (∃ c, ScanAt view subject c) ∨
      ∀ c < lookupRetryAttempts, scanned (view c) subject = [] := by
  by_cases h : ∃ c, c < lookupRetryAttempts ∧ scanned (view c) subject ≠ []
  · refine .inl ⟨Nat.find h, (Nat.find_spec h).1, (Nat.find_spec h).2,
      fun c' hc' => ?_⟩
    by_contra hne
    exact Nat.find_min h hc' ⟨hc'.trans (Nat.find_spec h).1, hne⟩
  · refine .inr fun c hc => ?_
    by_contra hne
    exact h ⟨c, hc, hne⟩

/-! ## One read -/

/-- One turn of the loop over the keys: what it appends, if anything. -/
def readKey (py : Interpreter) (b : Bucket) (k : String) : Except Exn (Option Json) := do
  match ← b.get k with
  | none => return none
  | some value => recipientOf py value

theorem collectRecipients_cons (view : ℕ → Bucket) (k : String)
    (ks : List String) (call : ℕ) :
    collectRecipients py view (k :: ks) call = do
      match ← readKey py (view call) k with
      | none => collectRecipients py view ks (call + 1)
      | some r => return r :: (← collectRecipients py view ks (call + 1)) := by
  rw [collectRecipients, readKey]
  cases (view call).get k with
  | error e => rfl
  | ok value =>
      cases value with
      | none => rfl
      | some value => rfl

/-- A turn of the loop that does not raise. -/
theorem collectRecipients_cons_ok {k : String} {ks : List String} {call : ℕ}
    {found : List Json}
    (h : collectRecipients py view (k :: ks) call = .ok found) :
    ∃ read rest, readKey py (view call) k = .ok read ∧
      collectRecipients py view ks (call + 1) = .ok rest ∧
      found = read.toList ++ rest := by
  rw [collectRecipients_cons] at h
  cases hread : readKey py (view call) k with
  | error e =>
      rw [hread] at h
      cases h
  | ok read =>
      rw [hread] at h
      cases read with
      | none => exact ⟨none, found, rfl, h, rfl⟩
      | some r =>
          cases hrest : collectRecipients py view ks (call + 1) with
          | error e =>
              rw [hrest] at h
              cases h
          | ok rest =>
              rw [hrest] at h
              cases h
              exact ⟨some r, rest, rfl, rfl, rfl⟩

theorem readKey_live {b : Bucket} {k : String} {value : Bytes}
    (h : b.get? k = some value) : readKey py b k = recipientOf py value := by
  simp only [readKey, Bucket.get, h, entryValue]
  by_cases hnil : value = []
  · rw [if_pos hnil, hnil]
    rfl
  · rw [if_neg hnil]
    rfl

theorem readKey_gone {b : Bucket} {k : String} (h : b.get? k = none) :
    readKey py b k = .error .keyNotFoundError := by
  rw [readKey, Bucket.get, h]
  rfl

/-- A key that is gone, or a value that is not benign, raises or appends what
is no string. -/
theorem readKey_not_benign {b : Bucket} {k : String}
    (h : ¬ ∃ value, b.get? k = some value ∧ Benign py value) :
    (∃ e, readKey py b k = .error e) ∨
      ∃ r, readKey py b k = .ok (some r) ∧ ∀ t, r ≠ .str t := by
  cases hget : b.get? k with
  | none => exact .inl ⟨_, readKey_gone hget⟩
  | some value =>
      rw [readKey_live hget]
      exact recipientOf_not_benign fun hbenign => h ⟨value, hget, hbenign⟩

/-! ## The reads -/

/-- The strings the reads of the keys meet. -/
def readStrings (view : ℕ → Bucket) : List String → (call : ℕ) → List Text
  | [], _ => []
  | k :: ks, call =>
      (((view call).get? k).bind stringKey).toList ++
        readStrings view ks (call + 1)

theorem mem_readStrings {t : Text} {ks : List String} : ∀ {call : ℕ},
    t ∈ readStrings view ks call ↔
      ∃ (n : ℕ) (k : String), ks[n]? = some k ∧
        ∃ value, (view (call + n)).get? k = some value ∧
          stringKey value = some t := by
  induction ks with
  | nil => simp [readStrings]
  | cons k ks ih =>
      intro call
      rw [readStrings, List.mem_append, ih, Option.mem_toList,
        Option.bind_eq_some_iff]
      constructor
      · rintro (h | ⟨n, k', hk', h⟩)
        · exact ⟨0, k, rfl, h⟩
        · rw [Nat.add_right_comm] at h
          exact ⟨n + 1, k', hk', h⟩
      · rintro ⟨n, k', hk', h⟩
        cases n with
        | zero =>
            cases hk'
            exact .inl h
        | succ n =>
            refine .inr ⟨n, k', hk', ?_⟩
            rw [Nat.add_right_comm]
            exact h

/-- Reads of benign values return the strings they hold. -/
theorem collectRecipients_benign {ks : List String} : ∀ {call : ℕ},
    (∀ (n : ℕ) (k : String), ks[n]? = some k →
      ∃ value, (view (call + n)).get? k = some value ∧ Benign py value) →
    collectRecipients py view ks call =
      .ok ((readStrings view ks call).map .str) := by
  induction ks with
  | nil => exact fun _ => rfl
  | cons k ks ih =>
      intro call h
      obtain ⟨value, hget, hbenign⟩ := h 0 k rfl
      have hrest : collectRecipients py view ks (call + 1) =
          .ok ((readStrings view ks (call + 1)).map .str) := by
        refine ih fun n k' hk' => ?_
        rw [Nat.add_right_comm]
        exact h (n + 1) k' hk'
      rw [Nat.add_zero] at hget
      rw [collectRecipients_cons, readKey_live hget,
        recipientOf_benign hbenign, hrest, readStrings, hget,
        Option.bind_some]
      cases stringKey value with
      | none => rfl
      | some t => rfl

/-- Reads that return with nothing but strings met benign values. -/
theorem benign_of_collectRecipients {ks : List String} : ∀ {call : ℕ}
    {found : List Json}, collectRecipients py view ks call = .ok found →
    (∀ r ∈ found, ∃ t, r = .str t) → ∀ (n : ℕ) (k : String),
    ks[n]? = some k →
      ∃ value, (view (call + n)).get? k = some value ∧ Benign py value := by
  induction ks with
  | nil =>
      intro call found _ _ n k hk
      cases hk
  | cons k ks ih =>
      intro call found h hstr n k' hk'
      obtain ⟨read, rest, hread, hrest, rfl⟩ := collectRecipients_cons_ok h
      cases n with
      | zero =>
          cases hk'
          by_contra hbad
          rcases readKey_not_benign hbad with ⟨e, he⟩ | ⟨r, hr, hnot⟩
          · cases he.symm.trans hread
          · cases hr.symm.trans hread
            obtain ⟨t, ht⟩ := hstr r (List.mem_cons_self ..)
            exact hnot t ht
      | succ n =>
          obtain ⟨value, hvalue⟩ := ih hrest
            (fun r hr => hstr r (List.mem_append_right _ hr)) n k' hk'
          rw [Nat.add_right_comm] at hvalue
          exact ⟨value, hvalue⟩

/-! ## The lookup -/

/-- The scan finds the keys of the subject's entries, and others. -/
theorem mem_scanned {b : Bucket} {subject serviceId : String} {value : Bytes}
    (h : b.get? (kvKey subject serviceId) = some value) :
    kvKey subject serviceId ∈ scanned b subject := by
  exact List.mem_filter.mpr
    ⟨Dict.mem_keys.mpr ⟨value, h⟩, contains_dot subject serviceId⟩

namespace Interleaving

variable {i : Interleaving} {subject : String} {counts : String → Prop}

/-- The read of the `n`-th key is a call of the lookup. -/
theorem during_read {c n : ℕ} {k : String} (h : ScanAt i.view subject c)
    (hk : (scanned (i.view c) subject)[n]? = some k) :
    i.During subject (i.call (c + 1 + n)) := by
  obtain ⟨hn, -⟩ := List.getElem?_eq_some_iff.mp hk
  refine i.ordered ?_
  rw [lastCall, h.lookupKeys]
  dsimp only
  omega

theorem during_scan {c : ℕ} (h : ScanAt i.view subject c) :
    i.During subject (i.call c) := by
  refine i.ordered ?_
  rw [lastCall, h.lookupKeys]
  dsimp only
  omega

/-- The lookup whose scans all come back empty. -/
theorem answers_empty
    (h : ∀ c < lookupRetryAttempts, scanned (i.view c) subject = []) :
    i.Answers py subject counts [] := by
  have hkeys := lookupKeys_empty lookupRetryAttempts 0 fun c _ hc =>
    h c (by omega)
  refine ⟨?_, fun serviceId value t _ hlive => ?_, fun r hr => by cases hr⟩
  · rw [lookupRecipients, hkeys]
    rfl
  · have hfirst := hlive (i.call 0) (i.ordered (Nat.zero_le _))
    have hmem := mem_scanned hfirst
    rw [← Interleaving.view, h 0 (by decide)] at hmem
    cases hmem

/-- The lookup whose `c`-th call finds something. -/
theorem answers_found {c : ℕ} (h : ScanAt i.view subject c)
    (hbenign : i.ReadsBenign py subject) (hheld : i.ReadsHeld subject counts) :
    i.Answers py subject counts ((readStrings i.view
      (scanned (i.view c) subject) (c + 1)).map .str) := by
  refine ⟨?_, fun serviceId value t hvalue hlive => ?_, fun r hr => ?_⟩
  · rw [lookupRecipients, h.lookupKeys]
    exact collectRecipients_benign (hbenign c h)
  · have hmem := mem_scanned (hlive _ (during_scan h))
    obtain ⟨n, hn⟩ := List.getElem?_of_mem hmem
    refine List.mem_map.mpr ⟨t, mem_readStrings.mpr ⟨n, _, hn, value, ?_,
      hvalue⟩, rfl⟩
    exact hlive _ (during_read h hn)
  · obtain ⟨t, ht, rfl⟩ := List.mem_map.mp hr
    obtain ⟨n, k, hk, value, hget, hvalue⟩ := mem_readStrings.mp ht
    exact ⟨t, rfl, hheld c h n k hk value t hget hvalue⟩

/-- Under any reading of which well-formed entries count. -/
theorem answers_iff (py : Interpreter) (i : Interleaving) (subject : String)
    (counts : String → Prop) :
    (∃ found, i.Answers py subject counts found) ↔
      i.ReadsBenign py subject ∧ i.ReadsHeld subject counts := by
  constructor
  · rintro ⟨found, hanswers⟩
    have hreturned := hanswers.returned
    have hbenign : i.ReadsBenign py subject := by
      intro c h
      rw [lookupRecipients, h.lookupKeys] at hreturned
      refine benign_of_collectRecipients hreturned fun r hr => ?_
      obtain ⟨t, ht, -⟩ := hanswers.only r hr
      exact ⟨t, ht⟩
    refine ⟨hbenign, fun c h n k hk value t hget hvalue => ?_⟩
    rw [lookupRecipients, h.lookupKeys] at hreturned
    have hfound := Except.ok.inj
      (hreturned.symm.trans (collectRecipients_benign (hbenign c h)))
    have hmem : .str t ∈ found := by
      rw [hfound]
      exact List.mem_map_of_mem
        (mem_readStrings.mpr ⟨n, k, hk, value, hget, hvalue⟩)
    obtain ⟨t', ht', hheld⟩ := hanswers.only _ hmem
    cases ht'
    exact hheld
  · rintro ⟨hbenign, hheld⟩
    rcases scan_cases i.view subject with ⟨c, h⟩ | h
    · exact ⟨_, answers_found h hbenign hheld⟩
    · exact ⟨_, answers_empty h⟩

/-- What is read is held at the moment it is read, by an entry of some
subject. -/
theorem readsHeld_any (i : Interleaving) (subject : String) :
    i.ReadsHeld subject fun _ => True :=
  fun c h n k hk value _ hget hvalue => ⟨i.call (c + 1 + n), k, value,
    during_read h hk, trivial, hget, hvalue⟩

end Interleaving

/-- The lookup answers as it should exactly if what it reads is live and
benign. That the keys come from the subject's own entries asks for more: a
scanned key may belong to another subject. -/
theorem lookup_answers_iff (py : Interpreter) (i : Interleaving)
    (subject : String) :
    ((∃ found, i.Answers py subject (fun _ => True) found) ↔
        i.ReadsBenign py subject) ∧
      ((∃ found, i.Answers py subject
          (fun k => ∃ serviceId, k = kvKey subject serviceId) found) ↔
        i.ReadsBenign py subject ∧ i.ReadsHeld subject
          fun k => ∃ serviceId, k = kvKey subject serviceId) := by
  refine ⟨?_, i.answers_iff py subject _⟩
  rw [i.answers_iff py subject]
  exact and_iff_left (i.readsHeld_any subject)

/-- A service that is registered at the scan and has expired at the read. -/
def expiringMoment : ℕ → Bucket
  | 0 => Bucket.after [register "orders" "shop" "smtp" "key" "t"]
  | _ + 1 => (Bucket.after [register "orders" "shop" "smtp" "key" "t"]).apply
      (.purge (kvKey "orders" "shop"))

def expiring : Interleaving where
  moment := expiringMoment
  changes
    | 0 => .inr ⟨.purge (kvKey "orders" "shop"), rfl⟩
    | _ + 1 => .inl rfl
  call := id
  ordered := monotone_id

theorem expiring_scanned :
    scanned (expiring.view 0) "orders" = [kvKey "orders" "shop"] := by
  have hkeys : (expiring.view 0).keys = [kvKey "orders" "shop"] := rfl
  rw [scanned, hkeys]
  refine List.filter_eq_self.mpr fun k hk => ?_
  rw [List.mem_singleton.mp hk]
  exact contains_dot "orders" "shop"

theorem expiring_raises :
    lookupRecipients .thousand expiring.view "orders" =
        .error .keyNotFoundError ∧
      ∀ counts found, ¬ expiring.Answers .thousand "orders" counts found := by
  have hscan : ScanAt expiring.view "orders" 0 := by
    refine ⟨by decide, ?_, fun c hc => absurd hc (Nat.not_lt_zero c)⟩
    rw [expiring_scanned]
    exact List.cons_ne_nil _ _
  have hgone : (expiring.view 1).get? (kvKey "orders" "shop") = none :=
    Dict.get?_pop_self (expiringMoment 0) _
  have hraises :
      lookupRecipients .thousand expiring.view "orders" =
        .error .keyNotFoundError := by
    rw [lookupRecipients, hscan.lookupKeys, expiring_scanned,
      collectRecipients_cons, readKey_gone hgone]
    rfl
  refine ⟨hraises, fun counts found h => ?_⟩
  cases hraises.symm.trans h.returned

end JetCore
