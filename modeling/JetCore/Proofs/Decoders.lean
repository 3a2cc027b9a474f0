import JetCore.Ref.DbAdapter
import JetCore.Ref.FileHandlers

/-!
# What a payload that is not the expected one makes a decoder raise

The recursion limit left out, `json.loads` raises three classes:
`JSONDecodeError`, the `UnicodeDecodeError` of bytes that are no text, and the
plain `ValueError` of an integer literal the runtime refuses to convert.
`decode_write_requested` names `ValueError`, which all three are. The other two
decoders name `JSONDecodeError` only, so what they raise is
`MalformedPayloadError` exactly on the payloads that are text and keep the
limit on digits (`errorDiscipline_iff`), and any other payload ends the handler
with an exception no clause of it names.
-/

namespace JetCore

open Lib

/-- The bytes are text in the encoding their first bytes announce, and the
scanner comes to no integer literal that is too long to convert. -/
def Loadable (raw : Bytes) : Prop :=
  ∃ t, Json.decodeBytes raw = some t ∧ Json.parse t ≠ .error .tooManyDigits

/-- A request within its constraints, or `MalformedPayloadError`. -/
def Disciplined {α : Type} (valid : α → Prop) : Except Exn α → Prop
  | .ok request => valid request
  | .error e => e.isMalformedPayload = true

/-- What `_handle` does about a malformed payload. -/
def malformedAcked (eventType : String) (event : ReceivedEvent) :
    FileProg Unit := do
  FileAct.call (.log (.malformed eventType event.details.eventId))
  FileAct.call .ack

def malformedOrderAcked (event : ReceivedEvent) : DbProg Unit := do
  DbAct.call (.log (.malformedOrderCreated event.details.eventId))
  DbAct.call .ack

/-- The handler catches every payload its decoder finds no request in. -/
def Catches {α β : Type} (decode : Bytes → Except Exn α)
    (handler acked : ReceivedEvent → β) (raw : Bytes) : Prop :=
  ∀ event : ReceivedEvent, event.payload = raw →
    (∀ request, decode raw ≠ .ok request) → handler event = acked event

def OrderCreatedRequest.Valid (r : OrderCreatedRequest) : Prop :=
  r.orderId ≠ [] ∧ r.item ≠ [] ∧ 1 ≤ r.quantity

def ValidPath (allowEmptyPath : Bool) (path : Text) : Prop :=
  path ≠ [] ∨ allowEmptyPath = true

/-- One payload, given to every decoder and every handler. -/
structure ErrorDiscipline (raw : Bytes) : Prop where
  order : Disciplined OrderCreatedRequest.Valid (decodeOrderCreated raw)
  pathOnly : ∀ allowEmptyPath, Disciplined (ValidPath allowEmptyPath)
    (decodePathOnlyRequest allowEmptyPath raw)
  write : Disciplined (fun r => r.path ≠ []) (decodeWriteRequested raw)
  orderHandler : ∀ occurredAt, Catches decodeOrderCreated
    (handleOrderCreated occurredAt) malformedOrderAcked raw
  writeHandler : ∀ adapter occurredAt, Catches decodeWriteRequested
    (handleWrite adapter occurredAt) (malformedAcked "FileWriteRequested") raw
  readHandler : ∀ adapter occurredAt, Catches (decodePathOnlyRequest false)
    (handleRead adapter occurredAt) (malformedAcked "FileReadRequested") raw
  listHandler : ∀ adapter occurredAt, Catches (decodePathOnlyRequest true)
    (handleList adapter occurredAt) (malformedAcked "FileListRequested") raw
  deleteHandler : ∀ adapter occurredAt, Catches (decodePathOnlyRequest false)
    (handleDelete adapter occurredAt) (malformedAcked "FileDeleteRequested") raw

variable {raw : Bytes}

/-! ## `json.loads` -/

theorem loadable_iff : Loadable raw ↔
    Json.loads raw ≠ .error .unicodeDecodeError ∧
      Json.loads raw ≠ .error .valueError := by
  rw [Loadable, Json.loads]
  cases hdecode : Json.decodeBytes raw with
  | none => simp
  | some t =>
      cases hparse : Json.parse t with
      | ok v => simp [hparse]
      | error e =>
          cases e with
          | badSyntax => simp [hparse]
          | tooManyDigits => simp [hparse]
          | tooDeep => simp [hparse]

theorem jsonLoads_not_loadable (h : ¬ Loadable raw) :
    ∃ e, jsonLoads raw = .error e ∧ unreadable e = e ∧
      e.isMalformedPayload = false := by
  rw [loadable_iff, not_and_or, not_not, not_not] at h
  rw [jsonLoads]
  rcases h with h | h
  · rw [h]
    exact ⟨.unicodeDecodeError, rfl, rfl, rfl⟩
  · rw [h]
    exact ⟨.valueError, rfl, rfl, rfl⟩

/-! ## The `try` blocks -/

/-- The clause makes a malformed payload of everything that is raised. -/
def Caught {α : Type} (clause : Exn → Exn) (x : Except Exn α) : Prop :=
  ∀ e, x = .error e → (clause e).isMalformedPayload = true

variable {α β : Type} {clause : Exn → Exn} {x : Except Exn α}
  {f : α → Except Exn β}

theorem caught_bind (hx : Caught clause x) (hf : ∀ a, Caught clause (f a)) :
    Caught clause (x >>= f) := by
  cases x with
  | ok a => exact hf a
  | error e =>
      intro e' h
      cases h
      exact hx e rfl

theorem disciplined_of_caught (hx : Caught clause x) :
    Disciplined (fun _ => True) (x.mapError clause) := by
  cases x with
  | ok a => trivial
  | error e => exact hx e rfl

/-- A step, and what the steps before it have made sure of. -/
theorem disciplined_bind {valid : α → Prop} {valid' : β → Prop}
    (hx : Disciplined valid x)
    (hf : ∀ a, valid a → Disciplined valid' (f a)) :
    Disciplined valid' (x >>= f) := by
  cases x with
  | ok a => exact hf a hx
  | error e => exact hx

theorem caught_getItem (hkey : (clause .keyError).isMalformedPayload = true)
    (htype : (clause .typeError).isMalformedPayload = true) (v : Json)
    (name : String) : Caught clause (getItem v name) := by
  intro e h
  cases v with
  | obj fields =>
      rw [getItem] at h
      cases hget : Json.get? fields (Text.ofString name) with
      | none =>
          rw [hget] at h
          cases h
          exact hkey
      | some x =>
          rw [hget] at h
          cases h
  | _ =>
      cases h
      exact htype

theorem caught_jsonLoads_of (h : ∀ raised, Json.loads raw = .error raised →
    (clause (Exn.ofLoads raised)).isMalformedPayload = true) :
    Caught clause (jsonLoads raw) := by
  intro e he
  rw [jsonLoads] at he
  cases hloads : Json.loads raw with
  | ok v =>
      rw [hloads] at he
      cases he
  | error raised =>
      rw [hloads] at he
      cases he
      exact h raised hloads

/-- Under the narrow `except`. -/
theorem caught_jsonLoads (h : Loadable raw) :
    Caught unreadable (jsonLoads raw) := by
  obtain ⟨hunicode, hvalue⟩ := loadable_iff.mp h
  refine caught_jsonLoads_of fun raised hraised => ?_
  cases raised with
  | unicodeDecodeError => exact absurd hraised hunicode
  | jsonDecodeError => rfl
  | valueError => exact absurd hraised hvalue
  | recursionError => exact absurd hraised (Json.loads_ne_recursionError raw)

/-- Under the one that names `ValueError`. -/
theorem caught_jsonLoads_write (raw : Bytes) :
    Caught unreadableWrite (jsonLoads raw) := by
  refine caught_jsonLoads_of fun raised hraised => ?_
  cases raised with
  | unicodeDecodeError => rfl
  | jsonDecodeError => rfl
  | valueError => rfl
  | recursionError => exact absurd hraised (Json.loads_ne_recursionError raw)

theorem caught_b64decodeValidated (v : Json) :
    Caught unreadableWrite (b64decodeValidated v) := by
  intro e h
  cases v with
  | str t =>
      rw [b64decodeValidated] at h
      cases ht : Text.toString? t with
      | none =>
          rw [ht] at h
          cases h
          rfl
      | some s =>
          rw [ht] at h
          simp only [] at h
          split at h
          · cases h
          · cases h
            rfl
          · cases h
            rfl
  | _ =>
      cases h
      rfl

theorem caught_readOrderCreated (h : Loadable raw) :
    Caught unreadable (readOrderCreated raw) := by
  refine caught_bind (caught_jsonLoads h) fun data => ?_
  refine caught_bind (caught_getItem rfl rfl data _) fun orderId => ?_
  exact caught_bind (caught_getItem rfl rfl data _) fun item => nofun

theorem caught_readWriteRequested (raw : Bytes) :
    Caught unreadableWrite (readWriteRequested raw) := by
  refine caught_bind (caught_jsonLoads_write raw) fun data => ?_
  refine caught_bind (caught_getItem rfl rfl data _) fun path => ?_
  refine caught_bind (caught_getItem rfl rfl data _) fun content => ?_
  exact caught_bind (caught_b64decodeValidated content) fun b => nofun

/-! ## The checks behind the `try` -/

theorem nonEmptyStr_disciplined (fault : PayloadFault) (v : Json) :
    Disciplined (· ≠ []) (nonEmptyStr fault v) := by
  cases v with
  | str t =>
      cases t with
      | nil => rfl
      | cons c t => exact List.cons_ne_nil c t
  | _ => rfl

theorem positiveInt_disciplined (v : Json) :
    Disciplined (1 ≤ ·) (positiveInt v) := by
  cases v with
  | int n =>
      rw [positiveInt]
      split
      · rfl
      · next h => exact not_lt.mp h
  | _ => rfl

theorem checkedPath_disciplined (allowEmptyPath : Bool)
    (notString empty : PayloadFault) (v : Json) :
    Disciplined (ValidPath allowEmptyPath)
      (checkedPath allowEmptyPath notString empty v) := by
  cases v with
  | str t =>
      cases t with
      | nil =>
          rw [checkedPath]
          split
          · next h => exact .inr h
          · rfl
      | cons c t => exact .inl (List.cons_ne_nil c t)
  | _ => rfl

/-! ## The decoders -/

theorem decodeOrderCreated_disciplined (h : Loadable raw) :
    Disciplined OrderCreatedRequest.Valid (decodeOrderCreated raw) := by
  refine disciplined_bind (disciplined_of_caught (caught_readOrderCreated h))
    fun (orderId, item, quantity) _ => ?_
  refine disciplined_bind (nonEmptyStr_disciplined .orderId orderId)
    fun orderId hid => ?_
  refine disciplined_bind (nonEmptyStr_disciplined .item item)
    fun item hitem => ?_
  exact disciplined_bind (positiveInt_disciplined quantity)
    fun quantity hquantity => ⟨hid, hitem, hquantity⟩

theorem decodePathOnlyRequest_disciplined (allowEmptyPath : Bool)
    (h : Loadable raw) :
    Disciplined (ValidPath allowEmptyPath)
      (decodePathOnlyRequest allowEmptyPath raw) := by
  have hread : Caught unreadable
      (do getItem (← jsonLoads raw) "path" : Except Exn Json) :=
    caught_bind (caught_jsonLoads h) fun data =>
      caught_getItem rfl rfl data _
  exact disciplined_bind (disciplined_of_caught hread)
    fun path _ => checkedPath_disciplined _ _ _ path

/-- The one decoder that names `ValueError` needs nothing of its payload. -/
theorem decodeWriteRequested_disciplined (raw : Bytes) :
    Disciplined (fun r => r.path ≠ []) (decodeWriteRequested raw) := by
  refine disciplined_bind
    (disciplined_of_caught (caught_readWriteRequested raw))
    fun (path, content) _ => ?_
  refine disciplined_bind (checkedPath_disciplined false .path .path path)
    fun path hpath => ?_
  exact hpath.resolve_right Bool.false_ne_true

theorem decodeOrderCreated_not_loadable (h : ¬ Loadable raw) :
    ¬ Disciplined OrderCreatedRequest.Valid (decodeOrderCreated raw) := by
  obtain ⟨e, he, hsame, hmalformed⟩ := jsonLoads_not_loadable h
  have hdecode : decodeOrderCreated raw = .error e := by
    rw [decodeOrderCreated, readOrderCreated, he]
    exact congrArg Except.error hsame
  rw [hdecode]
  show ¬ e.isMalformedPayload = true
  rw [hmalformed]
  exact Bool.false_ne_true

/-! ## The handlers -/

theorem withTarget_catches {watchDir : PosixPath}
    {eventType : String} {valid : α → Prop} {decode : Bytes → Except Exn α}
    {path : α → Text} {body : ReceivedEvent → α → PosixPath → FileProg Unit}
    (h : Disciplined valid (decode raw)) :
    Catches decode
      (fun event => withTarget watchDir eventType event
        (decode event.payload) path (body event))
      (malformedAcked eventType) raw := by
  intro event hpayload hnone
  show withTarget _ _ _ _ _ _ = _
  rw [hpayload]
  cases hdecode : decode raw with
  | ok request => exact absurd hdecode (hnone request)
  | error e =>
      rw [hdecode] at h
      exact if_pos h

theorem handleOrderCreated_catches
    (h : Disciplined OrderCreatedRequest.Valid (decodeOrderCreated raw))
    (occurredAt : String) :
    Catches decodeOrderCreated (handleOrderCreated occurredAt)
      malformedOrderAcked raw := by
  intro event hpayload hnone
  rw [handleOrderCreated, hpayload]
  cases hdecode : decodeOrderCreated raw with
  | ok request => exact absurd hdecode (hnone request)
  | error e =>
      rw [hdecode] at h
      cases e with
      | malformedPayloadError why => rfl
      | _ => cases h

/-- Every decoder and every handler keeps to the discipline exactly on the
payloads that are text with no integer literal too long. -/
theorem errorDiscipline_iff (raw : Bytes) :
    ErrorDiscipline raw ↔ Loadable raw := by
  constructor
  · intro h
    by_contra hnot
    exact decodeOrderCreated_not_loadable hnot h.order
  · intro h
    have horder := decodeOrderCreated_disciplined h
    have hwrite := decodeWriteRequested_disciplined raw
    have hpath := fun allow => decodePathOnlyRequest_disciplined allow h
    exact {
      order := horder
      pathOnly := hpath
      write := hwrite
      orderHandler := handleOrderCreated_catches horder
      writeHandler := fun _ _ => withTarget_catches hwrite
      readHandler := fun _ _ => withTarget_catches (hpath false)
      listHandler := fun _ _ => withTarget_catches (hpath true)
      deleteHandler := fun _ _ => withTarget_catches (hpath false) }

/-- One byte that begins no character. -/
theorem undecodable_byte_escapes : ¬ ErrorDiscipline [0xFF] ∧
    decodeOrderCreated [0xFF] = .error .unicodeDecodeError := by
  have hraises : decodeOrderCreated [0xFF] = .error .unicodeDecodeError := by
    decide
  refine ⟨fun h => ?_, hraises⟩
  have horder := h.order
  rw [hraises] at horder
  cases horder

end JetCore
