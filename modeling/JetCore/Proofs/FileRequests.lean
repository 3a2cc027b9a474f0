import JetCore.Proofs.Decoders
import JetCore.Proofs.OrderSchema
import JetCore.Proofs.FilePayloads
import JetCore.Spec.Settling

/-!
# The decoders of the file requests against their schemas

The decoders ask nothing of properties that a schema does not declare, so they
are compared on the declared part of a value. There a text of it is read or
refused as the schema accepts or refuses it, with two exceptions (`accords_iff`).
An integer literal of more than 4300 digits is not converted, wherever in the
value it stands. And `contentEncoding` is an annotation: a valid content may be
no base64.
-/

namespace JetCore

open Lib

structure FileRequest where
  path : Text
  content : Option Bytes

namespace FileHandler

def requestSchema : FileHandler → Schema
  | .write => fileWriteRequestedSchema
  | .read | .delete => filePathRequestedSchema
  | .list => fileListRequestedSchema

def declared : FileHandler → List String
  | .write => ["path", "content"]
  | _ => ["path"]

def decode (handler : FileHandler) (raw : Bytes) : Except Exn FileRequest :=
  match handler with
  | .write => (decodeWriteRequested raw).map fun r => ⟨r.path, some r.content⟩
  | .read | .delete =>
      (decodePathOnlyRequest false raw).map fun path => ⟨path, none⟩
  | .list => (decodePathOnlyRequest true raw).map fun path => ⟨path, none⟩

def eventType : FileHandler → String
  | .write => "FileWriteRequested"
  | .read => "FileReadRequested"
  | .delete => "FileDeleteRequested"
  | .list => "FileListRequested"

end FileHandler

/-- Without the members of other names. -/
def declaredPart (names : List String) : Json → Json
  | .obj fields =>
      .obj (fields.filter fun f => (names.map Text.ofString).contains f.1)
  | v => v

/-- The string is base64, as far as the strict decoder cares. -/
def Base64Text (t : Text) : Prop :=
  ∃ s, t = Text.ofString s ∧ Base64.Completes 0 s.toList ∧
    s.toList.head? ≠ some '='

namespace FileHandler

/-- The request is what `v` says. -/
structure ReadAs (handler : FileHandler) (v : Json) (r : FileRequest) : Prop where
  path : property v "path" = some (.str r.path)
  content : handler = .write → ∃ s b,
    property v "content" = some (.str (Text.ofString s)) ∧
      Base64.decodeValidated s = .ok b ∧ r.content = some b
  noContent : handler ≠ .write → r.content = none

/-- The schema accepts the declared part of the value. -/
def Valid (handler : FileHandler) (v : Json) : Prop :=
  Schema.Validates handler.requestSchema (declaredPart handler.declared v)

/-- The bytes are decided as the schema decides the declared part: read as the
value says, or acked with a line in the log. -/
structure Accords (handler : FileHandler) (raw : Bytes) (v : Json) :
    Prop where
  accepts : (∃ r, handler.decode raw = .ok r) ↔ handler.Valid v
  reads : ∀ r, handler.decode raw = .ok r → handler.ReadAs v r
  refuses : ¬ handler.Valid v → ∀ adapter occurredAt event,
    event.payload = raw → handler.handle adapter occurredAt event =
      malformedAcked handler.eventType event

end FileHandler

variable {raw : Bytes} {v : Json} {handler : FileHandler}

/-! ## The declared part -/

theorem property_declaredPart {names : List String} {name : String}
    (hname : name ∈ names) :
    property (declaredPart names v) name = property v name := by
  cases v with
  | obj fields =>
      rw [declaredPart, property, property, Json.get?, Json.get?,
        ← List.filter_reverse, List.find?_filter]
      refine congrArg (Option.map Prod.snd) (congrArg (List.find? · _) ?_)
      funext f
      by_cases hf : f.1 = Text.ofString name
      · have hin : Text.ofString name ∈ names.map Text.ofString :=
          List.mem_map_of_mem hname
        simp [hf, hin]
      · simp [hf]
  | _ => rfl

/-- There are no other members, and all are required. -/
theorem validates_declaredPart (schemas : List (String × Schema)) :
    Schema.Validates (Schema.record (schemas.map Prod.fst) schemas)
        (declaredPart (schemas.map Prod.fst) v) ↔
      (∃ fields, v = .obj fields) ∧ ∀ p ∈ schemas,
        ∃ x, property v p.1 = some x ∧ Schema.Validates p.2 x := by
  rw [Schema.validates_record]
  cases v with
  | obj fields =>
      have hmember : ∀ p ∈ schemas, property (.obj fields) p.1 =
          property (declaredPart (schemas.map Prod.fst) (.obj fields)) p.1 :=
        fun p hp => (property_declaredPart (List.mem_map_of_mem hp)).symm
      constructor
      · rintro ⟨declared, hdeclared, -, hrequired, hvalid⟩
        refine ⟨⟨fields, rfl⟩, fun p hp => ?_⟩
        rw [hmember p hp, hdeclared]
        obtain ⟨x, hx⟩ := Option.isSome_iff_exists.mp
          (hrequired p.1 (List.mem_map_of_mem hp))
        exact ⟨x, hx, hvalid p hp x hx⟩
      · rintro ⟨-, hvalid⟩
        refine ⟨_, rfl, fun f hf => ?_, fun name hname => ?_,
          fun p hp x hx => ?_⟩
        · have hin := (List.mem_filter.mp hf).2
          rw [List.map_map, List.contains_iff_mem] at hin
          exact hin
        · obtain ⟨p, hp, rfl⟩ := List.mem_map.mp hname
          obtain ⟨x, hx, -⟩ := hvalid p hp
          rw [hmember p hp] at hx
          exact Option.isSome_iff_exists.mpr ⟨x, hx⟩
        · obtain ⟨y, hy, hvalidates⟩ := hvalid p hp
          rw [hmember p hp] at hy
          cases hy.symm.trans hx
          exact hvalidates
  | _ =>
      constructor
      · rintro ⟨fields, hfields, -⟩
        cases hfields
      · rintro ⟨⟨fields, hfields⟩, -⟩
        cases hfields

theorem exists_obj {name : String} {x : Json} (h : property v name = some x) :
    ∃ fields, v = .obj fields := by
  cases v with
  | obj fields => exact ⟨fields, rfl⟩
  | _ => cases h

/-- What the schema asks of the path. -/
def PathIn (handler : FileHandler) (v : Json) (path : Text) : Prop :=
  property v "path" = some (.str path) ∧ (path ≠ [] ∨ handler = .list)

/-- What the schema says of the path, as one of its properties. -/
def pathSchema (handler : FileHandler) : Schema :=
  if handler = .list then stringSchema else nonEmptyString

theorem validates_path : (∃ x, property v "path" = some x ∧
    Schema.Validates (pathSchema handler) x) ↔
      ∃ path, PathIn handler v path := by
  have hschema : ∀ x, Schema.Validates (pathSchema handler) x ↔
      ∃ path, x = .str path ∧ (path ≠ [] ∨ handler = .list) := by
    intro x
    rw [pathSchema]
    split
    · next hlist => simp [validates_string, hlist]
    · next hlist => simp [validates_nonEmptyString, hlist]
  constructor
  · rintro ⟨x, hx, hvalid⟩
    obtain ⟨path, rfl, hpath⟩ := (hschema x).mp hvalid
    exact ⟨path, hx, hpath⟩
  · rintro ⟨path, hx, hpath⟩
    exact ⟨_, hx, (hschema _).mpr ⟨path, rfl, hpath⟩⟩

theorem validates_pathOnly : Schema.Validates
    (Schema.record ["path"] [("path", pathSchema handler)])
      (declaredPart ["path"] v) ↔ ∃ path, PathIn handler v path := by
  refine (validates_declaredPart [("path", pathSchema handler)]).trans ?_
  rw [List.forall_mem_singleton, validates_path]
  exact and_iff_right_of_imp fun ⟨_, hpath, _⟩ => exists_obj hpath

theorem requestSchema_eq (hwrite : handler ≠ .write) : handler.requestSchema =
    Schema.record ["path"] [("path", pathSchema handler)] := by
  cases handler with
  | write => exact absurd rfl hwrite
  | _ => rfl

theorem declared_eq (hwrite : handler ≠ .write) :
    handler.declared = ["path"] := by
  cases handler with
  | write => exact absurd rfl hwrite
  | _ => rfl

/-- A request that validates has a path, and one to write has a content. -/
theorem validates_request (handler : FileHandler) (v : Json) :
    handler.Valid v ↔ (∃ path, PathIn handler v path) ∧
      (handler = .write → ∃ t, property v "content" = some (.str t)) := by
  rw [FileHandler.Valid]
  by_cases hwrite : handler = .write
  · subst hwrite
    have hcontent : (∃ x, property v "content" = some x ∧
        Schema.Validates stringSchema x) ↔
        ∃ t, property v "content" = some (.str t) := by
      simp [validates_string]
    refine (validates_declaredPart [("path", pathSchema .write),
      ("content", stringSchema)]).trans ?_
    rw [List.forall_mem_cons, List.forall_mem_singleton, validates_path,
      hcontent, forall_prop_of_true rfl]
    exact and_iff_right_of_imp fun ⟨⟨_, hpath, _⟩, _⟩ => exists_obj hpath
  · rw [requestSchema_eq hwrite, declared_eq hwrite, validates_pathOnly]
    exact (and_iff_left fun h => absurd h hwrite).symm

/-! ## The decoders -/

theorem checkedPath_ok {allowEmptyPath : Bool} {notString empty : PayloadFault}
    {path : Text} :
    checkedPath allowEmptyPath notString empty v = .ok path ↔
      v = .str path ∧ (path ≠ [] ∨ allowEmptyPath = true) := by
  cases v with
  | str t =>
      cases t with
      | nil => cases allowEmptyPath <;> simp [checkedPath, eq_comm]
      | cons c t =>
          constructor
          · intro h
            cases h
            exact ⟨rfl, .inl (List.cons_ne_nil c t)⟩
          · rintro ⟨h, -⟩
            cases h
            rfl
  | _ => simp [checkedPath]

theorem b64decodeValidated_ok {b : Bytes} :
    b64decodeValidated v = .ok b ↔ ∃ s, v = .str (Text.ofString s) ∧
      Base64.decodeValidated s = .ok b := by
  cases v with
  | str t =>
      rw [b64decodeValidated]
      cases ht : Text.toString? t with
      | none =>
          refine iff_of_false (fun h => by cases h) ?_
          rintro ⟨s, hs, -⟩
          cases hs
          rw [Text.toString?_ofString] at ht
          cases ht
      | some s =>
          rw [← Text.ofString_of_toString? ht]
          have hstring : (∃ s', Json.str (Text.ofString s) =
              .str (Text.ofString s') ∧ Base64.decodeValidated s' = .ok b) ↔
              Base64.decodeValidated s = .ok b := by
            constructor
            · rintro ⟨s', hs, hb⟩
              rw [Text.ofString_injective (Json.str.inj hs)]
              exact hb
            · exact fun hb => ⟨s, rfl, hb⟩
          rw [hstring]
          dsimp only
          cases Base64.decodeValidated s with
          | ok b' => simp
          | error e => cases e <;> simp
  | _ => simp [b64decodeValidated]

theorem getItem_ok {name : String} {x : Json} :
    getItem v name = .ok x ↔ property v name = some x := by
  rcases getItem_eq v name with ⟨y, hy, hget⟩ | ⟨hnone, hget⟩
  · simp [hy, hget]
  · rcases hget with hget | hget <;> simp [hnone, hget]

theorem mapError_ok {α : Type} {clause : Exn → Exn} {x : Except Exn α}
    {a : α} : x.mapError clause = .ok a ↔ x = .ok a := by
  cases x with
  | ok b => rfl
  | error e => exact iff_of_false nofun nofun

theorem decodePathOnlyRequest_ok (hloads : jsonLoads raw = .ok v)
    {allowEmptyPath : Bool} {path : Text} :
    decodePathOnlyRequest allowEmptyPath raw = .ok path ↔
      property v "path" = some (.str path) ∧
        (path ≠ [] ∨ allowEmptyPath = true) := by
  simp only [decodePathOnlyRequest, bind_eq_ok, mapError_ok, hloads,
    Except.ok.injEq, exists_eq_left', getItem_ok, checkedPath_ok]
  constructor
  · rintro ⟨x, hx, rfl, hpath⟩
    exact ⟨hx, hpath⟩
  · rintro ⟨hx, hpath⟩
    exact ⟨_, hx, rfl, hpath⟩

theorem decodeWriteRequested_ok (hloads : jsonLoads raw = .ok v)
    {r : WriteRequest} :
    decodeWriteRequested raw = .ok r ↔
      property v "path" = some (.str r.path) ∧ r.path ≠ [] ∧
        ∃ s, property v "content" = some (.str (Text.ofString s)) ∧
          Base64.decodeValidated s = .ok r.content := by
  have hread : ∀ path content, readWriteRequested raw = .ok (path, content) ↔
      property v "path" = some path ∧
        ∃ s, property v "content" = some (.str (Text.ofString s)) ∧
          Base64.decodeValidated s = .ok content := by
    intro path content
    simp only [readWriteRequested, bind_eq_ok, hloads, Except.ok.injEq,
      exists_eq_left', getItem_ok, b64decodeValidated_ok]
    constructor
    · rintro ⟨x, hx, y, hy, b, ⟨s, rfl, hb⟩, heq⟩
      cases heq
      exact ⟨hx, s, hy, hb⟩
    · rintro ⟨hx, s, hy, hb⟩
      exact ⟨path, hx, _, hy, content, ⟨s, rfl, hb⟩, rfl⟩
  simp only [decodeWriteRequested, bind_eq_ok, mapError_ok, Prod.exists,
    hread, checkedPath_ok, Bool.false_eq_true, or_false]
  constructor
  · rintro ⟨x, b, ⟨hx, s, hy, hb⟩, path, ⟨rfl, hpath⟩, heq⟩
    cases heq
    exact ⟨hx, hpath, s, hy, hb⟩
  · rintro ⟨hx, hpath, s, hy, hb⟩
    exact ⟨_, _, ⟨hx, s, hy, hb⟩, _, ⟨rfl, hpath⟩, rfl⟩

theorem map_ok {α β : Type} {f : α → β} {x : Except Exn α} {b : β} :
    x.map f = .ok b ↔ ∃ a, x = .ok a ∧ f a = b := by
  cases x with
  | ok a => simp [Except.map]
  | error e => simp [Except.map]

/-- What the decoder accepts: a path as the schema has it, a content that it
can decode, and then it reads them. -/
theorem decode_ok (hloads : jsonLoads raw = .ok v) {r : FileRequest} :
    handler.decode raw = .ok r ↔
      PathIn handler v r.path ∧ handler.ReadAs v r := by
  obtain ⟨path, content⟩ := r
  have hpathOnly : ∀ {allow : Bool}, handler ≠ .write →
      (allow = true ↔ handler = .list) →
      ((decodePathOnlyRequest allow raw).map
          (fun path => (⟨path, none⟩ : FileRequest)) = .ok ⟨path, content⟩ ↔
        PathIn handler v path ∧ handler.ReadAs v ⟨path, content⟩) := by
    intro allow hwrite hallow
    simp only [map_ok, decodePathOnlyRequest_ok hloads, hallow,
      FileRequest.mk.injEq]
    constructor
    · rintro ⟨_, hpath, rfl, rfl⟩
      exact ⟨hpath, hpath.1, fun h => absurd h hwrite, fun _ => rfl⟩
    · rintro ⟨hpath, hread⟩
      exact ⟨path, hpath, rfl, (hread.noContent hwrite).symm⟩
  cases handler with
  | write =>
      simp only [FileHandler.decode, map_ok, decodeWriteRequested_ok hloads,
        FileRequest.mk.injEq]
      constructor
      · rintro ⟨r, ⟨hpath, hne, s, hs, hb⟩, rfl, rfl⟩
        exact ⟨⟨hpath, .inl hne⟩, hpath, fun _ => ⟨s, _, hs, hb, rfl⟩,
          fun h => absurd rfl h⟩
      · rintro ⟨hpath, hread⟩
        obtain ⟨s, b, hs, hb, rfl⟩ := hread.content rfl
        exact ⟨⟨path, b⟩, ⟨hpath.1, hpath.2.resolve_right nofun, s, hs, hb⟩,
          rfl, rfl⟩
  | read => exact hpathOnly nofun (iff_of_false nofun nofun)
  | delete => exact hpathOnly nofun (iff_of_false nofun nofun)
  | list => exact hpathOnly nofun (iff_of_true rfl rfl)

theorem decode_of_jsonLoads {e : Exn} (hloads : jsonLoads raw = .error e)
    (r : FileRequest) : handler.decode raw ≠ .ok r := by
  have hpath : ∀ allow path, decodePathOnlyRequest allow raw ≠ .ok path := by
    intro allow path h
    rw [decodePathOnlyRequest, hloads] at h
    cases h
  have hwrite : ∀ r, decodeWriteRequested raw ≠ .ok r := by
    intro r h
    rw [decodeWriteRequested, readWriteRequested, hloads] at h
    cases h
  intro h
  cases handler with
  | write =>
      obtain ⟨_, h, -⟩ := map_ok.mp h
      exact hwrite _ h
  | _ =>
      obtain ⟨_, h, -⟩ := map_ok.mp h
      exact hpath _ _ h

/-! ## The handlers -/

/-- A request that is not read is acked, if the decoder catches what
`json.loads` raises. -/
theorem handle_refused (hload : handler = .write ∨ Loadable raw)
    (hnone : ∀ r, handler.decode raw ≠ .ok r) (adapter : FileAdapter)
    (occurredAt : String) {event : ReceivedEvent}
    (hpayload : event.payload = raw) :
    handler.handle adapter occurredAt event =
      malformedAcked handler.eventType event := by
  have hpath : ∀ {allow : Bool}, Loadable raw →
      (∀ r, (decodePathOnlyRequest allow raw).map
        (fun path => (⟨path, none⟩ : FileRequest)) ≠ .ok r) →
      ∀ body, withTarget adapter.watchDir handler.eventType event
        (decodePathOnlyRequest allow event.payload) id body =
          malformedAcked handler.eventType event := by
    intro allow hload hnone body
    have hcatches : Catches (decodePathOnlyRequest allow)
        (fun event => withTarget adapter.watchDir handler.eventType event
          (decodePathOnlyRequest allow event.payload) id body)
        (malformedAcked handler.eventType) raw :=
      withTarget_catches (decodePathOnlyRequest_disciplined allow hload)
    exact hcatches event hpayload
      fun path h => hnone ⟨path, none⟩ (map_ok.mpr ⟨path, h, rfl⟩)
  cases handler with
  | write =>
      have hcatches : Catches decodeWriteRequested
          (handleWrite adapter occurredAt)
          (malformedAcked "FileWriteRequested") raw :=
        withTarget_catches (decodeWriteRequested_disciplined raw)
      exact hcatches event hpayload
        fun r h => hnone ⟨r.path, some r.content⟩ (map_ok.mpr ⟨r, h, rfl⟩)
  | read => exact hpath (hload.resolve_left nofun) hnone _
  | delete => exact hpath (hload.resolve_left nofun) hnone _
  | list => exact hpath (hload.resolve_left nofun) hnone _

/-- The decoder of the others lets the `ValueError` of an integer that is too
long through. -/
theorem handle_valueError (hwrite : handler ≠ .write)
    (hloads : jsonLoads raw = .error .valueError) (adapter : FileAdapter)
    (occurredAt : String) {event : ReceivedEvent}
    (hpayload : event.payload = raw) :
    handler.handle adapter occurredAt event = Prog.raise .valueError := by
  have hpath : ∀ allow, decodePathOnlyRequest allow event.payload =
      .error .valueError := by
    intro allow
    rw [decodePathOnlyRequest, hpayload, hloads]
    rfl
  cases handler with
  | write => exact absurd rfl hwrite
  | read =>
      rw [FileHandler.handle, handleRead, hpath]
      rfl
  | delete =>
      rw [FileHandler.handle, handleDelete, hpath]
      rfl
  | list =>
      rw [FileHandler.handle, handleList, hpath]
      rfl

/-! ## The two compared -/

/-- The content is base64. -/
def ContentDecodes (v : Json) : Prop :=
  ∀ t, property v "content" = some (.str t) → Base64Text t

theorem base64Text_iff {t : Text} : Base64Text t ↔
    ∃ s b, t = Text.ofString s ∧ Base64.decodeValidated s = .ok b := by
  simp only [Base64Text, ← Base64.decodeValidated_ok, exists_and_left]

/-- On what can be loaded, it is the content alone that makes a difference. -/
theorem exists_decode (hloads : jsonLoads raw = .ok v) :
    (∃ r, handler.decode raw = .ok r) ↔
      handler.Valid v ∧ (handler = .write → ContentDecodes v) := by
  simp only [validates_request, decode_ok hloads]
  constructor
  · rintro ⟨r, hpath, hread⟩
    refine ⟨⟨⟨_, hpath⟩, fun h => ?_⟩, fun h t ht => ?_⟩
    · obtain ⟨s, b, hs, -⟩ := hread.content h
      exact ⟨_, hs⟩
    · obtain ⟨s, b, hs, hb, -⟩ := hread.content h
      cases hs.symm.trans ht
      exact base64Text_iff.mpr ⟨s, b, rfl, hb⟩
  · rintro ⟨⟨⟨path, hpath⟩, hcontent⟩, hdecodes⟩
    by_cases hwrite : handler = .write
    · obtain ⟨t, ht⟩ := hcontent hwrite
      obtain ⟨s, b, rfl, hb⟩ := base64Text_iff.mp (hdecodes hwrite t ht)
      exact ⟨⟨path, some b⟩, hpath, hpath.1, fun _ => ⟨s, b, ht, hb, rfl⟩,
        fun h => absurd hwrite h⟩
    · exact ⟨⟨path, none⟩, hpath, hpath.1, fun h => absurd h hwrite,
        fun _ => rfl⟩

theorem loadable_of_ok (hloads : jsonLoads raw = .ok v) : Loadable raw := by
  by_contra h
  obtain ⟨e, he, -⟩ := jsonLoads_not_loadable h
  rw [hloads] at he
  cases he

/-- What can be loaded is decided as the schema has it, up to the content. -/
theorem accords_of_ok (hloads : jsonLoads raw = .ok v) :
    handler.Accords raw v ↔
      (handler = .write → handler.Valid v → ContentDecodes v) := by
  constructor
  · intro h hwrite hvalid
    exact ((exists_decode hloads).mp (h.accepts.mpr hvalid)).2 hwrite
  · intro h
    have haccepts : (∃ r, handler.decode raw = .ok r) ↔ handler.Valid v :=
      (exists_decode hloads).trans
        (and_iff_left_of_imp fun hvalid hwrite => h hwrite hvalid)
    refine ⟨haccepts, fun r hr => ((decode_ok hloads).mp hr).2,
      fun hinvalid adapter occurredAt event hpayload => ?_⟩
    exact handle_refused (.inr (loadable_of_ok hloads))
      (fun r hr => hinvalid (haccepts.mp ⟨r, hr⟩)) adapter occurredAt hpayload

/-- What cannot, is refused, and the handlers that catch it are the ones of
requests to write. -/
theorem accords_of_valueError (hloads : jsonLoads raw = .error .valueError) :
    handler.Accords raw v ↔ handler = .write ∧ ¬ handler.Valid v := by
  have hrefused : ∀ r, handler.decode raw ≠ .ok r :=
    decode_of_jsonLoads hloads
  constructor
  · intro h
    have hinvalid : ¬ handler.Valid v := by
      intro hvalid
      obtain ⟨r, hr⟩ := h.accepts.mpr hvalid
      exact hrefused r hr
    refine ⟨?_, hinvalid⟩
    by_contra hwrite
    have hacked := h.refuses hinvalid Sample.fileAdapter ""
      (Sample.fileMessage "" raw) rfl
    rw [handle_valueError hwrite hloads _ _ rfl] at hacked
    cases hacked
  · rintro ⟨hwrite, hinvalid⟩
    refine ⟨iff_of_false ?_ hinvalid, fun r hr => absurd hr (hrefused r),
      fun _ adapter occurredAt event hpayload => ?_⟩
    · rintro ⟨r, hr⟩
      exact hrefused r hr
    · exact handle_refused (.inl hwrite) hrefused adapter occurredAt hpayload

/-- On every text of a value, whatever else it holds, a handler decides as its
schema does exactly when no integer is too long and a content is base64; of a
request to write, only if it is valid. -/
theorem accords_iff (handler : FileHandler) {t : Text}
    (hwrites : Json.Writes t v) (hraw : Utf8.encode t = some raw) :
    handler.Accords raw v ↔
      (handler ≠ .write → Json.convertible v = true) ∧
        (handler = .write → handler.Valid v →
          Json.convertible v = true ∧ ContentDecodes v) := by
  have hbytes : raw = t.flatMap Utf8.encodePoint := by
    rw [Utf8.encode] at hraw
    split at hraw
    · cases hraw
    · exact (Option.some.inj hraw).symm
  have hloads := Json.loads_writes hwrites
  rw [← hbytes] at hloads
  cases hconv : Json.convertible v with
  | false =>
      rw [accords_of_valueError (by rw [jsonLoads, hloads, hconv]; rfl)]
      simp only [Bool.false_eq_true, false_and, imp_false, not_not]
      constructor
      · rintro ⟨hwrite, hinvalid⟩
        exact ⟨hwrite, fun _ => hinvalid⟩
      · rintro ⟨hwrite, hinvalid⟩
        exact ⟨hwrite, hinvalid hwrite⟩
  | true =>
      rw [accords_of_ok (by rw [jsonLoads, hloads, hconv]; rfl)]
      simp only [true_and, implies_true]

/-- A request with a property that its schema does not know, and a content that
lacks its padding. -/
def unpaddedRequest : Json :=
  Json.object [("path", Json.string "a"), ("content", Json.string "aGk"),
    ("note", Json.string "n")]

theorem writes_unpaddedRequest :
    Json.Writes (Json.render Json.pythonStyle unpaddedRequest)
      unpaddedRequest :=
  Json.render_writes Json.pythonStyle (v := unpaddedRequest)
    ⟨trivial, trivial, trivial, trivial⟩

/-- It is valid apart from the note, and refused. -/
theorem unpaddedRequest_refused :
    ¬ FileHandler.write.Accords (Json.dumps unpaddedRequest)
      unpaddedRequest := by
  refine (accords_iff .write writes_unpaddedRequest
    (by decide +kernel)).not.mpr ?_
  rintro ⟨-, h⟩
  have hvalid : FileHandler.write.Valid unpaddedRequest :=
    (validates_request .write _).mpr ⟨⟨Text.ofString "a", rfl, .inl
      (List.cons_ne_nil _ _)⟩, fun _ => ⟨Text.ofString "aGk", rfl⟩⟩
  obtain ⟨s, b, hs, hb⟩ := base64Text_iff.mp ((h rfl hvalid).2 _ rfl)
  have hraises : Base64.decodeValidated "aGk" = .error .malformed := by
    decide +kernel
  rw [← Text.ofString_injective hs, hraises] at hb
  cases hb

end JetCore
