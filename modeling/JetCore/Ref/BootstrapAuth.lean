import JetCore.Ref.Registry

/-!
# `bootstrap_auth.sh`: what an identity may publish

The loop over the manifest, up to the list that goes to `nsc edit user
--allow-pub`. The script works on text: the lists of the manifest come joined
with commas, are taken apart again at the commas, and what it builds is one
comma-separated line that `nsc` takes apart. No name or subject holds a line
break, so every text here is one line.
-/

namespace JetCore

open Lib

/-- An entry of the manifest, as far as the loop reads it for the list. -/
structure ManifestEntry where
  serviceId : String
  publish : List String
  subscribe : List String
  deriving DecidableEq

/-- `BASELINE_PUB` -/
def baselinePub : String := "$JS.API.>"

/-- yq's `join(",")` -/
def joinCommas (words : List (List Char)) : List Char :=
  [','].intercalate words

/-- `IFS=',' read -ra`: a comma at the end ends the last field and begins no
other. -/
def readFields (line : List Char) : List (List Char) :=
  let fields := line.splitOn ','
  if fields.getLast? = some [] then fields.dropLast else fields

/-- `"${acc:+$acc,}word"` -/
def addWord (acc word : List Char) : List Char :=
  if acc = [] then word else acc ++ ',' :: word

/-- `kv_write` -/
def kvWrite (subSubjects serviceId : List Char) : List Char :=
  let directory :=
    if subSubjects = [] then []
    else (readFields subSubjects).foldl (fun acc s =>
      addWord acc ("$KV.service-directory.".toList ++ s ++ '.' :: serviceId)) []
  addWord directory ("$KV.service-identity.".toList ++ serviceId)

/-- `s/,,*/,/g` -/
def squeezeCommas : List Char → List Char
  | [] => []
  | c :: rest =>
      if c = ',' ∧ rest.head? = some ',' then squeezeCommas rest
      else c :: squeezeCommas rest

/-- `s/^,//` -/
def dropFrontComma (line : List Char) : List Char :=
  if line.head? = some ',' then line.tail else line

/-- `s/,$//` -/
def dropEndComma (line : List Char) : List Char :=
  if line.getLast? = some ',' then line.dropLast else line

/-- `all_pub` -/
def allPub (a : ManifestEntry) : List Char :=
  let pubSubjects := joinCommas (a.publish.map String.toList)
  let subSubjects := joinCommas (a.subscribe.map String.toList)
  dropEndComma (dropFrontComma (squeezeCommas
    (pubSubjects ++ ',' :: baselinePub.toList ++
      ',' :: kvWrite subSubjects a.serviceId.toList)))

/-- The subjects `nsc` reads in the list. -/
def allowPub (a : ManifestEntry) : List String :=
  ((allPub a).splitOn ',').map String.ofList

/-- A publish is permitted when one of the subjects matches. -/
def allows (allow : List String) (subject : String) : Bool :=
  allow.any fun p => subjectMatches (tokens p) (tokens subject)

/-- `$KV.<bucket>.<key>` -/
def kvSubject (bucket key : String) : String := "$KV." ++ bucket ++ "." ++ key

/-- What `register(subject, serviceId)` publishes to. -/
def directorySubject (subject serviceId : String) : String :=
  kvSubject "service-directory" (kvKey subject serviceId)

/-- What `register_identity(serviceId)` publishes to. -/
def identitySubject (serviceId : String) : String :=
  kvSubject "service-identity" serviceId

end JetCore
