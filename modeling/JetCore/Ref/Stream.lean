import JetCore.Lib.Subject
import JetCore.Lib.Text

/-!
# The EVENTS stream

JetStream as its documentation states it. The stream captures `events.>`; a
stored message gets the next sequence number; a publish whose message id is
that of a message stored less than the duplicate window ago, on whatever
subject, is discarded and acknowledged with that message's sequence number.
Time is in nanoseconds.
-/

namespace JetCore

open Lib

structure StoredMsg where
  subject : String
  data : Bytes
  /-- The `Nats-Msg-Id` header. -/
  msgId : Option String
  storedAt : ℕ
  deriving DecidableEq

structure Stream where
  /-- Message number `i` has sequence number `i + 1`. -/
  messages : List StoredMsg := []
  duplicateWindow : ℕ
  deriving DecidableEq

structure PubAck where
  seq : ℕ
  duplicate : Bool
  deriving DecidableEq

/-- The subjects of the stream: `events.>`. -/
def captured (subject : String) : Bool :=
  subjectMatches (tokens "events.>") (tokens subject)

/-- The stored message that makes a publish a duplicate. -/
def Stream.duplicateOf (s : Stream) (now : ℕ) (msgId : Option String) :
    Option (StoredMsg × ℕ) :=
  s.messages.zipIdx.reverse.find? fun m =>
    msgId.isSome && m.1.msgId = msgId && now < m.1.storedAt + s.duplicateWindow

/-- `js.publish`, once the subject is known to be captured. -/
def Stream.publish (s : Stream) (now : ℕ) (subject : String) (data : Bytes)
    (msgId : Option String) : PubAck × Stream :=
  match s.duplicateOf now msgId with
  | some (_, i) => (⟨i + 1, true⟩, s)
  | none =>
      (⟨s.messages.length + 1, false⟩,
        { s with messages := s.messages ++ [⟨subject, data, msgId, now⟩] })

/-- `js.get_msg(stream, seq)` -/
def Stream.getMsg (s : Stream) (seq : ℕ) : Option StoredMsg :=
  s.messages[seq - 1]?

theorem Stream.duplicateOf_mem {s : Stream} {now : ℕ} {msgId : Option String}
    {m : StoredMsg} {i : ℕ} (h : s.duplicateOf now msgId = some (m, i)) :
    s.messages[i]? = some m ∧ msgId.isSome ∧ m.msgId = msgId ∧
      now < m.storedAt + s.duplicateWindow := by
  have hmem := List.mem_reverse.mp (List.mem_of_find?_eq_some h)
  have hcond := List.find?_some h
  simp only [Bool.and_eq_true, decide_eq_true_eq] at hcond
  exact ⟨List.mk_mem_zipIdx_iff_getElem?.mp hmem, hcond.1.1, hcond.1.2,
    hcond.2⟩

theorem Stream.duplicateOf_eq_none {s : Stream} {now : ℕ}
    {msgId : Option String} : s.duplicateOf now msgId = none ↔
      ∀ m ∈ s.messages, msgId.isSome → m.msgId = msgId →
        m.storedAt + s.duplicateWindow ≤ now := by
  rw [duplicateOf, List.find?_eq_none]
  constructor
  · intro h m hm hsome hid
    obtain ⟨i, hi⟩ := List.getElem?_of_mem hm
    have := h (m, i) (List.mem_reverse.mpr
      (List.mk_mem_zipIdx_iff_getElem?.mpr hi))
    simpa [hsome, hid] using this
  · rintro h ⟨m, i⟩ hm
    have hmem := List.mem_of_getElem?
      (List.mk_mem_zipIdx_iff_getElem?.mp (List.mem_reverse.mp hm))
    simp only [Bool.and_eq_true, decide_eq_true_eq, not_and, not_lt]
    exact fun hcond => h m hmem hcond.1 hcond.2

@[simp] theorem Stream.duplicateOf_none (s : Stream) (now : ℕ) :
    s.duplicateOf now none = none := by
  rw [duplicateOf_eq_none]
  intro m _ h
  cases h

end JetCore
