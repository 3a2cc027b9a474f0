import JetCore.Proofs.RoundTrip
import JetCore.Spec.Subscribers

/-!
# Who can read a message

A message is for the keys its publisher's cache listed. So of all the processes
that ever connected it can be read by those whose own registration was the last
that had happened to their entry when the cache was read
(`readable_iff_registeredLast`), and by no other, whatever happens later. A
process that takes another's place reads nothing from before its registration,
and the other one nothing from after it.
-/

namespace JetCore

open Lib Spec

namespace Subscribers

variable {P : Primitives} {py : Interpreter} {acts : List SubscriberAct}
  {s s' : Subscribers} {a : SubscriberAct}

/-! ## The directory, by the actions -/

theorem step_spec (h : s.step P a = some s') :
    s'.history = s.history ++ (a.change? P).toList ∧
      s'.connected = s.connected ++
        (match a with | .connect p => [p] | _ => []) ∧
      ∀ p subject registeredAt, a = .register p subject registeredAt →
        p ∈ s.connected := by
  cases a with
  | connect p =>
      cases h
      exact ⟨rfl, rfl, nofun⟩
  | register p subject registeredAt =>
      simp only [step] at h
      split at h
      · next hmem =>
          cases h
          refine ⟨rfl, (List.append_nil _).symm, fun _ _ _ heq => ?_⟩
          cases heq
          exact hmem
      · cases h
  | deregister subject serviceId =>
      cases h
      exact ⟨rfl, (List.append_nil _).symm, nofun⟩
  | expire subject serviceId =>
      cases h
      exact ⟨rfl, (List.append_nil _).symm, nofun⟩

/-- The directory's history is what the actions did, by processes that had
connected, each with a key of its own. -/
structure Sound (P : Primitives) (acts : List SubscriberAct) (s : Subscribers) :
    Prop where
  history : s.history = acts.filterMap (SubscriberAct.change? P)
  registered : ∀ p subject registeredAt,
    .register p subject registeredAt ∈ acts → p ∈ s.connected
  keys : (s.connected.map fun p => P.toPublic p.identity).Nodup

theorem sound_of_run (h : Run (step P) (Fresh P) {} acts s) :
    Sound P acts s := by
  refine h.history ⟨rfl, nofun, List.nodup_nil⟩ ?_
  intro acts m a t _ hs hfresh hstep
  obtain ⟨hhistory, hconnected, hregister⟩ := step_spec hstep
  refine ⟨?_, fun p subject registeredAt hmem => ?_, ?_⟩
  · rw [hhistory, hs.history, List.filterMap_append]
    cases hchange : a.change? P with
    | none => simp [hchange]
    | some c => simp [hchange]
  · rw [hconnected]
    refine List.mem_append_left _ ?_
    rcases List.mem_append.mp hmem with hmem | hmem
    · exact hs.registered p subject registeredAt hmem
    · exact hregister _ _ _ (List.mem_singleton.mp hmem).symm
  · rw [hconnected]
    cases a with
    | connect p =>
        rw [List.map_append]
        refine hs.keys.append (List.nodup_singleton _) ?_
        intro key hkey hnew
        obtain ⟨q, hq, rfl⟩ := List.mem_map.mp hkey
        exact hfresh q hq (List.mem_singleton.mp hnew)
    | _ =>
        rw [List.append_nil]
        exact hs.keys

theorem mem_recipients {d : Directory} {subject : Subject} {key : String} :
    key ∈ d.recipients subject ↔
      ∃ serviceId, d.get? (subject, serviceId) = some key := by
  rw [Directory.recipients, List.mem_map]
  constructor
  · rintro ⟨⟨⟨subject', serviceId⟩, key'⟩, he, rfl⟩
    obtain ⟨hentry, hsubject⟩ := List.mem_filter.mp he
    have hsame : subject' = subject := of_decide_eq_true hsubject
    subst hsame
    exact ⟨serviceId, Dict.mem_entries.mp hentry⟩
  · rintro ⟨serviceId, hget⟩
    exact ⟨((subject, serviceId), key), List.mem_filter.mpr
      ⟨Dict.mem_entries.mpr hget, decide_eq_true rfl⟩, rfl⟩

theorem change?_slot (a : SubscriberAct) :
    (a.change? P).map Change.slot = a.slot? := by
  cases a <;> rfl

/-- What stands in an entry, by the last action on it. -/
theorem Sound.get? (hs : Sound P acts s) (slot : Subject × ServiceId) :
    (Directory.after s.history).get? slot =
      (lastOn SubscriberAct.slot? (some slot) acts).bind
        fun a => (a.change? P).bind Change.key := by
  rw [Directory.get?_after, hs.history, lastOn_filterMap change?_slot]
  cases lastOn SubscriberAct.slot? (some slot) acts with
  | none => rfl
  | some a =>
      rw [Option.bind_some, Option.bind_some]
      cases a.change? P <;> rfl

theorem publicKey_inj (hP : P.Genuine) {p q : Process}
    (h : p.publicKey P = q.publicKey P) :
    P.toPublic p.identity = P.toPublic q.identity := by
  have hparse := congrArg P.recipientFromStr h
  rw [Process.publicKey, Process.publicKey, generateEncryptionKeypair,
    generateEncryptionKeypair, hP.recipient_parse _ p.drawn,
    hP.recipient_parse _ q.drawn] at hparse
  exact Except.ok.inj hparse

/-- Whose key a subject lists. -/
theorem Sound.listed_iff (hP : P.Genuine) (hs : Sound P acts s) {p : Process}
    (hp : p ∈ s.connected) (subject : Subject) :
    p.publicKey P ∈ (Directory.after s.history).recipients subject ↔
      RegisteredLast acts subject p := by
  rw [mem_recipients]
  constructor
  · rintro ⟨serviceId, hget⟩
    rw [hs.get?, Option.bind_eq_some_iff] at hget
    obtain ⟨a, hlast, hkey⟩ := hget
    obtain ⟨hmem, hslot⟩ := lastOn_mem hlast
    cases a with
    | register q subject' registeredAt =>
        have hsame : q = p := by
          have hconnected := hs.registered q subject' registeredAt hmem
          refine List.inj_on_of_nodup_map hs.keys hconnected hp ?_
          exact publicKey_inj hP (Option.some.inj hkey)
        subst hsame
        cases hslot
        exact ⟨registeredAt, hlast⟩
    | connect q => cases hkey
    | deregister subject' serviceId' => cases hkey
    | expire subject' serviceId' => cases hkey
  · rintro ⟨registeredAt, hlast⟩
    refine ⟨p.serviceId, ?_⟩
    rw [hs.get?, hlast]
    rfl

/-- Every key that is listed is that of a process. -/
theorem Sound.listed_process (hs : Sound P acts s) {subject : Subject}
    {key : String}
    (h : key ∈ (Directory.after s.history).recipients subject) :
    ∃ p : Process, key = p.publicKey P := by
  obtain ⟨serviceId, hget⟩ := mem_recipients.mp h
  rw [hs.get?, Option.bind_eq_some_iff] at hget
  obtain ⟨a, -, hkey⟩ := hget
  cases a with
  | register q subject' registeredAt =>
      exact ⟨q, (Option.some.inj hkey).symm⟩
  | connect q => cases hkey
  | deregister subject' serviceId' => cases hkey
  | expire subject' serviceId' => cases hkey

/-! ## The message -/

/-- Who is not listed cannot decrypt. -/
theorem decrypt_not_listed (hP : P.Genuine) (hsealed : P.Sealed)
    {recipients : List Json}
    (hkeys : ∀ j ∈ recipients, ∃ p : Process, j = Json.string (p.publicKey P))
    {p : Process} (hp : Json.string (p.publicKey P) ∉ recipients)
    {coins plaintext c : Bytes}
    (h : encryptPayload P coins plaintext recipients = .ok c) :
    ∃ e, decrypt P c (generateEncryptionKeypair P p.identity).privateKey =
      .error e := by
  have hidentity : decrypt P c
      (generateEncryptionKeypair P p.identity).privateKey =
      P.ageDecrypt c p.identity := by
    rw [decrypt, generateEncryptionKeypair, hP.identity_parse _ p.drawn]
    rfl
  rw [hidentity]
  rw [encryptPayload] at h
  split at h
  · cases h
    exact hsealed.empty p.identity
  · obtain ⟨parsed, hparsed, hencrypt⟩ := bind_eq_ok.mp h
    refine hsealed.others _ _ parsed c _ hencrypt fun hmem => hp ?_
    obtain ⟨j, hj, hown⟩ := mapM_mem hparsed _ hmem
    obtain ⟨q, rfl⟩ := hkeys j hj
    obtain ⟨key, hkey, hparse⟩ := bind_eq_ok.mp hown
    rw [asStr_string] at hkey
    cases hkey
    rw [Process.publicKey, generateEncryptionKeypair,
      hP.recipient_parse _ q.drawn] at hparse
    have hsame := Except.ok.inj hparse
    rw [Process.publicKey, generateEncryptionKeypair, hsame] at hj
    exact hj

/-- What a cache lists that has seen all of the history. -/
theorem mem_current {before later : List Change} {subject : Subject}
    {j : Json} : j ∈ (caughtUpCache py subject.val (before.map changeOp)
        (later.map changeOp)).current ↔
      ∃ key ∈ (Directory.after (before ++ later)).recipients subject,
        Json.string key = j := by
  rw [(current_perm_recipients _ subject before later).mem_iff, List.mem_map]

variable {call : Call} {event : Event} {w : Pydantic} {key : Bytes}
  {identities : String → Except Exn (Option Bytes)} {p : Process}
  {consumer : BusClient} {msg : Msg}

/-- A listed recipient gets what was published. -/
theorem process_listed (hP : P.Genuine) (hw : w.Faithful)
    (hbuilt : call.event P = .ok event)
    (hseed : P.nkeysRawPublic call.client.signingSeed = .ok key)
    (hidentity : lookupSigningKey P identities call.client.serviceId =
      .ok (some (Text.ofString (nkeyPublic P key))))
    (hvalid : ∀ j ∈ call.recipients, ValidRecipient P j)
    (hconsumer : consumer.encryptionKeypair =
      generateEncryptionKeypair P p.identity)
    (hmem : Json.string (p.publicKey P) ∈ call.recipients)
    (hdata : msg.data = event.toWire w) (drawn : Drawn) (world : World) :
    (consumer.process P w identities drawn msg world).1 =
      .ok ⟨event, call.args.payload, msg⟩ := by
  obtain ⟨c, signature, _, hc, hsign, -, rfl⟩ := buildEvent_eq_ok.mp hbuilt
  have hne : call.recipients ≠ [] := List.ne_nil_of_mem hmem
  rw [encryptPayload, if_neg (by simpa using hne)] at hc
  obtain ⟨signature', hsign', hverify⟩ :=
    verify_nkeyPublic hP hseed call.args.payload
  obtain rfl := Except.ok.inj (hsign.symm.trans hsign')
  obtain ⟨log, hprocess⟩ :=
    process_quiet P w consumer identities drawn msg world
  rw [hprocess]
  refine outcome_eq_ok.mpr ⟨rfl, ?_, c, _, _, signature, b64decode_encode c,
    ?_, rfl, hidentity, b64decode_encode signature, hverify⟩
  · rw [hdata]
    exact Event.fromWire_toWire hw drawn _
  · rw [hconsumer]
    exact decrypt_encryptForRecipients hP hvalid p.drawn hmem hc

/-- Anybody else gets an exception. -/
theorem process_not_listed (hP : P.Genuine) (hsealed : P.Sealed)
    (hw : w.Faithful) (hbuilt : call.event P = .ok event)
    (hkeys : ∀ j ∈ call.recipients,
      ∃ p : Process, j = Json.string (p.publicKey P))
    (hconsumer : consumer.encryptionKeypair =
      generateEncryptionKeypair P p.identity)
    (hnot : Json.string (p.publicKey P) ∉ call.recipients)
    (hdata : msg.data = event.toWire w) (drawn : Drawn) (world : World) :
    ∃ e, (consumer.process P w identities drawn msg world).1 = .error e := by
  obtain ⟨c, signature, _, hc, -, -, rfl⟩ := buildEvent_eq_ok.mp hbuilt
  obtain ⟨e, he⟩ := decrypt_not_listed hP hsealed hkeys hnot hc
  obtain ⟨log, hprocess⟩ :=
    process_quiet P w consumer identities drawn msg world
  refine ⟨e, ?_⟩
  rw [hprocess, BusClient.outcome, hdata, Event.fromWire_toWire hw]
  simp only [bind, Except.bind, b64decode_encode, hconsumer, he]

/-- Of two processes with one service id, one at most has registered last. -/
theorem registeredLast_unique {subject : Subject} {q : Process}
    (hid : p.serviceId = q.serviceId) (h : RegisteredLast acts subject p)
    (h' : RegisteredLast acts subject q) : p = q := by
  obtain ⟨registeredAt, hlast⟩ := h
  obtain ⟨registeredAt', hlast'⟩ := h'
  rw [hid] at hlast
  cases hlast.symm.trans hlast'
  rfl

/-- For every message that is encrypted for what the cache of its subject
lists, the cache having seen all of the history, and every process that has
connected: if the last that happened to its entry was its own registration it
receives what was published, and otherwise an exception. So of all processes
under one service id one at most receives it. -/
theorem readable_iff_registeredLast (hP : P.Genuine) (hsealed : P.Sealed)
    (hw : w.Faithful) (hrun : Run (step P) (Fresh P) {} acts s)
    {before later : List Change} (hhistory : s.history = before ++ later)
    {subject : Subject} (hrecipients : call.recipients =
      (caughtUpCache py subject.val (before.map changeOp)
        (later.map changeOp)).current)
    (hbuilt : call.event P = .ok event)
    (hseed : P.nkeysRawPublic call.client.signingSeed = .ok key)
    (hidentity : lookupSigningKey P identities call.client.serviceId =
      .ok (some (Text.ofString (nkeyPublic P key)))) (hp : p ∈ s.connected)
    (hconsumer : consumer.encryptionKeypair =
      generateEncryptionKeypair P p.identity)
    (hdata : msg.data = event.toWire w) (drawn : Drawn) (world : World) :
    (RegisteredLast acts subject p →
      (consumer.process P w identities drawn msg world).1 =
        .ok ⟨event, call.args.payload, msg⟩) ∧
    (¬ RegisteredLast acts subject p →
      ∃ e, (consumer.process P w identities drawn msg world).1 =
        .error e) ∧
    ∀ q, q.serviceId = p.serviceId → RegisteredLast acts subject p →
      RegisteredLast acts subject q → q = p := by
  have hs := sound_of_run hrun
  have hlisted : ∀ j, j ∈ call.recipients ↔
      ∃ key ∈ (Directory.after s.history).recipients subject,
        Json.string key = j := by
    intro j
    rw [hrecipients, mem_current, hhistory]
  have hkeys : ∀ j ∈ call.recipients,
      ∃ p : Process, j = Json.string (p.publicKey P) := by
    intro j hj
    obtain ⟨key, hkey, rfl⟩ := (hlisted j).mp hj
    obtain ⟨q, rfl⟩ := hs.listed_process hkey
    exact ⟨q, rfl⟩
  refine ⟨?_, ?_, fun q hid h h' => registeredLast_unique hid h' h⟩
  · intro hlast
    have hmem := (hlisted _).mpr
      ⟨_, (hs.listed_iff hP hp subject).mpr hlast, rfl⟩
    refine process_listed hP hw hbuilt hseed hidentity (fun j hj => ?_)
      hconsumer hmem hdata drawn world
    obtain ⟨q, rfl⟩ := hkeys j hj
    exact ⟨_, P.toPublic q.identity, rfl, hP.recipient_parse _ q.drawn⟩
  · intro hlast
    refine process_not_listed hP hsealed hw hbuilt hkeys hconsumer
      (fun hmem => hlast ?_) hdata drawn world
    obtain ⟨key, hkey, heq⟩ := (hlisted _).mp hmem
    rw [Text.ofString_injective (Json.str.inj heq)] at hkey
    exact (hs.listed_iff hP hp subject).mp hkey

/-! ## A process and its successor -/

theorem sample_sealed : Sample.sealedPrimitives.Sealed where
  others := by
    intro coins plaintext recipients c identity henc hnot
    cases henc
    exact ⟨_, (Sample.sealedDecrypt_sealedEncrypt ..).trans (if_neg hnot)⟩
  empty identity := by
    refine ⟨.decryptError, ?_⟩
    show (if identity = Sample.identity then _ else _) = _
    split
    · rfl
    · rfl

def orders : Subject := ⟨"events.orders.OrderCreated", by decide⟩

def adapter : ServiceId := ⟨"db-adapter-mysql-01", by decide⟩

def earlierProcess : Process :=
  ⟨adapter, "database-adapter-mysql", Sample.identity, Sample.isIdentity⟩

/-- In its place, with another identity. -/
def laterProcess : Process :=
  ⟨adapter, "database-adapter-mysql", List.replicate 32 9, rfl⟩

def succession : List SubscriberAct := [.connect earlierProcess,
  .register earlierProcess orders "2026-01-01T00:00:00+00:00",
  .connect laterProcess]

def succeeded : Subscribers where
  connected := [earlierProcess, laterProcess]
  history := [.register orders adapter "database-adapter-mysql"
    (earlierProcess.publicKey Sample.sealedPrimitives)
    "2026-01-01T00:00:00+00:00"]

theorem step_register {p : Process} (hp : p ∈ s.connected) (subject : Subject)
    (registeredAt : String) :
    s.step P (.register p subject registeredAt) = some { s with
      history := s.history ++ [.register subject p.serviceId p.adapterType
        (p.publicKey P) registeredAt] } :=
  if_pos hp

theorem succession_run : Run (step Sample.sealedPrimitives)
    (Fresh Sample.sealedPrimitives) {} succession succeeded := by
  have hregister : step Sample.sealedPrimitives ⟨[earlierProcess], []⟩
      (.register earlierProcess orders "2026-01-01T00:00:00+00:00") =
      some ⟨[earlierProcess], succeeded.history⟩ :=
    step_register List.mem_cons_self _ _
  refine .cons nofun rfl (.cons trivial hregister (.cons (fun q hq => ?_) rfl
    (.nil _)))
  rw [List.mem_singleton.mp hq]
  decide

theorem earlier_registeredLast :
    RegisteredLast succession orders earlierProcess := ⟨_, rfl⟩

theorem later_not_registeredLast :
    ¬ RegisteredLast succession orders laterProcess := by
  rintro ⟨registeredAt, hlast⟩
  have hsame := hlast.symm.trans
    (show lastOn SubscriberAct.slot? (some (orders, adapter)) succession = _
      from rfl)
  cases hsame

/-- Published when the second process has connected and not yet registered. -/
def teaInBetween : Call where
  client := Sample.client
  recipients := (caughtUpCache .thousand orders.val
    (([] : List Change).map changeOp) (succeeded.history.map changeOp)).current
  draws := Sample.draws
  now := 0
  args := Sample.order Sample.tea

/-- The client of one of the two. -/
def clientOf (p : Process) : BusClient := { Sample.client with
  serviceId := p.serviceId.val
  encryptionKeypair :=
    generateEncryptionKeypair Sample.sealedPrimitives p.identity }

theorem sample_seed : Sample.sealedPrimitives.nkeysRawPublic
    Sample.client.signingSeed = .ok Sample.key :=
  Sample.rawPublic

theorem teaInBetween_recipients : teaInBetween.recipients =
    (caughtUpCache .thousand orders.val (([] : List Change).map changeOp)
      (succeeded.history.map changeOp)).current := by
  rw [teaInBetween]

theorem mem_teaInBetween {j : Json} : j ∈ teaInBetween.recipients ↔
    ∃ key ∈ (Directory.after ([] ++ succeeded.history)).recipients orders,
      Json.string key = j := by
  rw [teaInBetween_recipients]
  exact mem_current

theorem sample_signingPublicKey : Sample.client.signingPublicKey =
    nkeyPublic Sample.sealedPrimitives Sample.key := by
  have hcrc : Sample.sealedPrimitives.crc16 = Sample.primitives.crc16 := rfl
  rw [nkeyPublic, hcrc]
  rfl

theorem sample_identity : lookupSigningKey Sample.sealedPrimitives
    Sample.identities Sample.client.serviceId = .ok (some (Text.ofString
      (nkeyPublic Sample.sealedPrimitives Sample.key))) := by
  rw [← sample_signingPublicKey]
  exact lookupSigningKey_identityValue Sample.sealedPrimitives (if_pos rfl)

theorem teaInBetween_builds :
    ∃ event, teaInBetween.event Sample.sealedPrimitives = .ok event := by
  have hs := sound_of_run succession_run
  have hlisted := (hs.listed_iff Sample.sealed_genuine
    (p := earlierProcess) List.mem_cons_self orders).mpr earlier_registeredLast
  refine buildEvent_succeeds Sample.sealed_genuine sample_seed
    (fun j hj => ?_) ?_ _ _ _
  · obtain ⟨key, hkey, rfl⟩ := mem_teaInBetween.mp hj
    obtain ⟨q, rfl⟩ := hs.listed_process hkey
    exact ⟨_, _, rfl, Sample.sealed_genuine.recipient_parse _ q.drawn⟩
  · exact List.ne_nil_of_mem (mem_teaInBetween.mpr ⟨_, hlisted, rfl⟩)

/-- The first process reads it, the second never does. -/
theorem readable_iff_registeredLast_tea : ∃ event,
    teaInBetween.event Sample.sealedPrimitives = .ok event ∧
    ∀ (msg : Msg) (drawn : Drawn) (world : World),
      msg.data = event.toWire Sample.text →
      ((clientOf earlierProcess).process Sample.sealedPrimitives Sample.text
        Sample.identities drawn msg world).1 =
        .ok ⟨event, Sample.tea.payload, msg⟩ ∧
      ∃ e, ((clientOf laterProcess).process Sample.sealedPrimitives Sample.text
        Sample.identities drawn msg world).1 = .error e := by
  obtain ⟨event, hevent⟩ := teaInBetween_builds
  have hhistory : succeeded.history = [] ++ succeeded.history := rfl
  have hlater : laterProcess ∈ succeeded.connected :=
    List.mem_cons_of_mem _ List.mem_cons_self
  refine ⟨event, hevent, fun msg drawn world hmsg => ⟨?_, ?_⟩⟩
  · exact (readable_iff_registeredLast Sample.sealed_genuine sample_sealed
      Sample.faithful succession_run hhistory teaInBetween_recipients hevent
      sample_seed sample_identity List.mem_cons_self rfl hmsg drawn world).1
      earlier_registeredLast
  · exact (readable_iff_registeredLast Sample.sealed_genuine sample_sealed
      Sample.faithful succession_run hhistory teaInBetween_recipients hevent
      sample_seed sample_identity hlater rfl hmsg drawn world).2.1
      later_not_registeredLast

end Subscribers

end JetCore
