import JetCore.Proofs.Sample
import JetCore.Ref.FileHandlers

/-!
# Payloads of the file handlers, there and back

What is asked for is read from a payload that says it, and a read's answer
says what was read: its content decodes to the bytes and its size is theirs.
-/

namespace JetCore

open Lib

/-- A `FileReadRequested`, `FileDeleteRequested` or `FileListRequested`. -/
def pathRequest (path : String) : Bytes :=
  Json.dumps (Json.object [("path", Json.string path)])

/-- A `FileWriteRequested`. -/
def writeRequest (path : String) (content : Bytes) : Bytes :=
  Json.dumps (Json.object [
    ("path", Json.string path),
    ("content", Json.string (Base64.encode content))])

theorem ofString_ne_nil {path : String} (hne : path ≠ "") :
    Text.ofString path ≠ [] := by
  intro h
  rw [Text.ofString, List.map_eq_nil_iff] at h
  exact hne (String.toList_eq_nil_iff.mp h)

theorem checkedPath_str {allowEmptyPath : Bool} {t : Text} (ht : t ≠ [])
    (notString empty : PayloadFault) :
    checkedPath allowEmptyPath notString empty (.str t) = .ok t := by
  cases t with
  | nil => exact absurd rfl ht
  | cons c t => rfl

theorem getItem_object (fields : List (String × Json)) (name : String) :
    getItem (Json.object fields) name =
      ((fields.reverse.find? fun f => f.1 = name).map Prod.snd).elim
        (.error .keyError) .ok := by
  rw [Json.object, getItem, Json.get?_object]

theorem decodePathOnlyRequest_pathRequest {path : String} (hne : path ≠ "")
    (allowEmptyPath : Bool) :
    decodePathOnlyRequest allowEmptyPath (pathRequest path) =
      .ok (Text.ofString path) := by
  have hplain : Json.Plain (Json.object [("path", Json.string path)]) :=
    Json.plain_object fun f hf => by
      rw [List.mem_singleton.mp hf]
      exact Json.plain_string path
  rw [decodePathOnlyRequest, pathRequest, jsonLoads_dumps hplain]
  show Except.bind ((getItem (Json.object _) "path").mapError unreadable) _ = _
  rw [getItem_object]
  exact checkedPath_str (ofString_ne_nil hne) _ _

theorem b64decodeValidated_encode (content : Bytes) :
    b64decodeValidated (Json.string (Base64.encode content)) =
      .ok content := by
  rw [Json.string, b64decodeValidated, Text.toString?_ofString]
  simp only []
  rw [Base64.decodeValidated_encode]

theorem decodeWriteRequested_writeRequest {path : String} (hne : path ≠ "")
    (content : Bytes) :
    decodeWriteRequested (writeRequest path content) =
      .ok ⟨Text.ofString path, content⟩ := by
  have hplain : Json.Plain (Json.object [
      ("path", Json.string path),
      ("content", Json.string (Base64.encode content))]) :=
    Json.plain_object fun f hf => by
      rcases List.mem_cons.mp hf with rfl | hf
      · exact Json.plain_string path
      · rw [List.mem_singleton.mp hf]
        exact Json.plain_string _
  have hread : readWriteRequested (writeRequest path content) =
      .ok (Json.string path, content) := by
    rw [readWriteRequested, writeRequest, jsonLoads_dumps hplain]
    refine bind_eq_ok.mpr ⟨_, rfl, bind_eq_ok.mpr ⟨Json.string path, ?_, ?_⟩⟩
    · rw [getItem_object]
      rfl
    · rw [getItem_object]
      exact bind_eq_ok.mpr ⟨_, rfl, bind_eq_ok.mpr
        ⟨content, b64decodeValidated_encode content, rfl⟩⟩
  rw [decodeWriteRequested, hread]
  exact bind_eq_ok.mpr ⟨_, rfl, bind_eq_ok.mpr
    ⟨_, checkedPath_str (ofString_ne_nil hne) _ _, rfl⟩⟩

/-! ## Messages -/

namespace Sample

def fileMessage (eventType : String) (payload : Bytes) : ReceivedEvent where
  event := ⟨⟨{
      eventId := "019b76da-a800-7000-8000-000000000003"
      eventCreated := newYear
      eventType := eventType
      eventSchemaVersion := "1.0.0"
      sourceServiceId := client.serviceId },
    ⟨encryptionAlgorithm, []⟩, ""⟩⟩
  payload := payload
  msg := ⟨1, "events.files." ++ eventType, [], 1⟩

/-- The directory that is watched, `/w`. -/
def rootName : FileName := ⟨ascii "w", by decide⟩

def fileAdapter : FileAdapter where
  watchDir := ⟨.slash, [rootName.text]⟩

def aliasName : FileName := ⟨ascii "x", by decide⟩

/-- `/w`, and nothing in it. -/
def emptyFs : Fs FileName := Fs.bare.put [] rootName .dir (by decide)

/-- `/w`, with `x` in it. -/
def watchFs (x : Node FileName) : Fs FileName :=
  emptyFs.put [rootName] aliasName x (by decide)

end Sample

end JetCore
