import JetCore.Ref.Envelope

/-!
# The envelope survives the wire

`fromWire` undoes `toWire` for every event. The field mapping is proved here,
aliases, nulls and nesting included; the text layer below it is assumed to do
what its documentation says (`Pydantic.Faithful`): the JSON text of an event
reads back as the value it was made from, and so does a timestamp's.

`compactPydantic` is a text layer built from the compact renderer and the
scanner, so the assumption holds of something. Only its timestamps are left to
the caller, as a pair of functions that undo each other.
-/

namespace JetCore

open Lib

/-- What is relied on in pydantic's text layer. -/
structure Pydantic.Faithful (w : Pydantic) : Prop where
  json : ∀ e : Event, w.parseJson (e.toWire w) = .ok (e.toJson w)
  nonempty : ∀ e : Event, e.toWire w ≠ []
  datetime : ∀ d, w.parseDatetime (w.dumpDatetime d) = .ok d

/-! ## Members -/

theorem member_object (fields : List (String × Json)) (byAlias byName : String) :
    member (fields.map fun f => (Text.ofString f.1, f.2)) byAlias byName =
      ((fields.reverse.find? fun f => f.1 = byAlias).map Prod.snd).or
        ((fields.reverse.find? fun f => f.1 = byName).map Prod.snd) := by
  rw [member, Json.get?_object, Json.get?_object]

theorem asString_string (s : String) : asString (Json.string s) = .ok s := by
  rw [Json.string, asString, Text.toString?_ofString]
  rfl

theorem asOptionalString_optionalString (s : Option String) :
    asOptionalString (optionalString s) = .ok s := by
  cases s with
  | none => rfl
  | some s =>
      show (asString (Json.string s)).map some = .ok (some s)
      rw [asString_string]
      rfl

theorem asStringList_strings (l : List String) :
    asStringList (.arr (l.map Json.string)) = .ok l := by
  show (l.map Json.string).mapM asString = .ok l
  induction l with
  | nil => rfl
  | cons s l ih =>
      rw [List.map_cons, List.mapM_cons, asString_string, ih]
      rfl

/-! ## The four models -/

theorem EventDetails.ofJson_toJson {w : Pydantic} (hw : w.Faithful)
    (drawn : Drawn) (d : EventDetails) :
    EventDetails.ofJson w drawn (d.toJson w) = .ok d := by
  simp only [EventDetails.ofJson, EventDetails.toJson, Json.object, asObject,
    field, fieldOr, member_object, List.reverse_cons, List.reverse_nil,
    List.nil_append, List.cons_append, bind, Except.bind]
  simp [asString_string, hw.datetime, asOptionalString_optionalString]
  rfl

theorem EncryptionMetadata.ofJson_toJson (m : EncryptionMetadata) :
    EncryptionMetadata.ofJson m.toJson = .ok m := by
  simp only [EncryptionMetadata.ofJson, EncryptionMetadata.toJson, Json.object,
    asObject, field, member_object, List.reverse_cons, List.reverse_nil,
    List.nil_append, List.cons_append, bind, Except.bind]
  simp [asString_string, asStringList_strings]
  rfl

theorem EventEnvelope.ofJson_toJson {w : Pydantic} (hw : w.Faithful)
    (drawn : Drawn) (e : EventEnvelope) :
    EventEnvelope.ofJson w drawn (e.toJson w) = .ok e := by
  simp only [EventEnvelope.ofJson, EventEnvelope.toJson, Json.object,
    asObject, field, member_object, List.reverse_cons, List.reverse_nil,
    List.nil_append, List.cons_append, bind, Except.bind]
  simp [asString_string, EventDetails.ofJson_toJson hw,
    EncryptionMetadata.ofJson_toJson]
  rfl

theorem Event.ofJson_toJson {w : Pydantic} (hw : w.Faithful) (drawn : Drawn)
    (e : Event) : Event.ofJson w drawn (e.toJson w) = .ok e := by
  simp only [Event.ofJson, Event.toJson, Json.object, asObject, field,
    member_object, List.reverse_cons, List.reverse_nil, List.nil_append, bind,
    Except.bind]
  simp [EventEnvelope.ofJson_toJson hw]
  rfl

/-! ## The text -/

theorem plain_optionalString (s : Option String) :
    Json.Plain (optionalString s) := by
  cases s with
  | none => trivial
  | some s => exact Json.plain_string s

theorem Event.plain_toJson {w : Pydantic}
    (hplain : ∀ d, Json.Plain (w.dumpDatetime d)) (e : Event) :
    Json.Plain (e.toJson w) := by
  have hdetails : Json.Plain (e.event.eventDetails.toJson w) := by
    refine Json.plain_object fun f hf => ?_
    simp only [List.mem_cons, List.not_mem_nil, or_false] at hf
    rcases hf with rfl | rfl | rfl | rfl | rfl | rfl | rfl | rfl
    case inr.inl => exact hplain _
    case inr.inr.inr.inr.inr.inl => exact plain_optionalString _
    case inr.inr.inr.inr.inr.inr.inl => exact plain_optionalString _
    case inr.inr.inr.inr.inr.inr.inr => exact plain_optionalString _
    all_goals exact Json.plain_string _
  have hencryption : Json.Plain e.event.encryption.toJson := by
    refine Json.plain_object fun f hf => ?_
    simp only [List.mem_cons, List.not_mem_nil, or_false] at hf
    rcases hf with rfl | rfl
    · exact Json.plain_string _
    · refine Json.plain_arr fun j hj => ?_
      obtain ⟨s, -, rfl⟩ := List.mem_map.mp hj
      exact Json.plain_string s
  refine Json.plain_object fun f hf => ?_
  rw [List.mem_singleton] at hf
  subst hf
  refine Json.plain_object fun f hf => ?_
  simp only [List.mem_cons, List.not_mem_nil, or_false] at hf
  rcases hf with rfl | rfl | rfl
  · exact hdetails
  · exact hencryption
  · exact Json.plain_string _

theorem Event.fromWire_toWire {w : Pydantic} (hw : w.Faithful) (drawn : Drawn)
    (e : Event) : Event.fromWire w drawn (e.toWire w) = .ok e := by
  rw [Event.fromWire, hw.json e]
  exact e.ofJson_toJson hw drawn

theorem Event.toWire_injective {w : Pydantic} (hw : w.Faithful) {e e' : Event}
    (h : e.toWire w = e'.toWire w) : e = e' := by
  have hread := Event.fromWire_toWire hw ⟨"", 0⟩ e
  rw [h, Event.fromWire_toWire hw] at hread
  exact (Except.ok.inj hread).symm

/-! ## A text layer -/

/-- The compact renderer and the scanner as pydantic's text layer. -/
def compactPydantic (dumpDatetime : DateTime → Json)
    (parseDatetime : Json → Except Exn DateTime) : Pydantic where
  dumpJson j := (Json.render Json.compactStyle j).flatMap Utf8.encodePoint
  parseJson b :=
    match Utf8.decode b with
    | none => .error .validationError
    | some t => (Json.parse t).mapError fun _ => .validationError
  dumpDatetime := dumpDatetime
  parseDatetime := parseDatetime

variable {dumpDatetime : DateTime → Json}
  {parseDatetime : Json → Except Exn DateTime}

theorem compactPydantic_dumped {j : Json} (hj : Json.Plain j) :
    (compactPydantic dumpDatetime parseDatetime).parseJson
        ((compactPydantic dumpDatetime parseDatetime).dumpJson j) = .ok j := by
  simp only [compactPydantic, Utf8.decode_flatMap,
    Json.parse_render Json.compactStyle hj]
  rfl

theorem compactPydantic_ne_nil {j : Json} (hj : Json.Plain j) :
    (compactPydantic dumpDatetime parseDatetime).dumpJson j ≠ [] := by
  intro hnil
  have hparse : (compactPydantic dumpDatetime parseDatetime).parseJson
      ((compactPydantic dumpDatetime parseDatetime).dumpJson j) = .ok j :=
    compactPydantic_dumped hj
  rw [hnil] at hparse
  cases hparse

theorem compactPydantic_faithful
    (hplain : ∀ d, Json.Plain (dumpDatetime d))
    (hround : ∀ d, parseDatetime (dumpDatetime d) = .ok d) :
    (compactPydantic dumpDatetime parseDatetime).Faithful where
  json e := compactPydantic_dumped (Event.plain_toJson hplain e)
  nonempty e := compactPydantic_ne_nil (Event.plain_toJson hplain e)
  datetime := hround

end JetCore
