import JetCore.Proofs.Conforms
import JetCore.Proofs.Decoders
import JetCore.Proofs.Settling

/-!
# What is published conforms

Each handler publishes in one place for each way it can end, and by then what
would not do has been turned away: a path or an order id is not empty, and the
names of a listing come out of a directory. So every result is valid but one,
and that one exactly if the schema knows the status code it reports.
-/

namespace JetCore

open Lib

variable {now : UtcTime} {path : Text}

/-! ## What has been turned away -/

theorem of_disciplined {α : Type} {valid : α → Prop} {x : Except Exn α}
    (h : Disciplined valid x) {a : α} (hx : x = .ok a) : valid a := by
  rw [hx] at h
  exact h

theorem decodedPath_ne {raw : Bytes}
    (h : decodePathOnlyRequest false raw = .ok path) : path ≠ [] := by
  obtain ⟨v, -, hpath⟩ := bind_eq_ok.mp h
  rcases of_disciplined (checkedPath_disciplined _ _ _ v) hpath with hne | hno
  · exact hne
  · cases hno

theorem writtenPath_ne {raw : Bytes} {request : WriteRequest}
    (h : decodeWriteRequested raw = .ok request) : request.path ≠ [] :=
  of_disciplined (decodeWriteRequested_disciplined raw) h

theorem orderId_ne {raw : Bytes} {request : OrderCreatedRequest}
    (h : decodeOrderCreated raw = .ok request) : request.orderId ≠ [] := by
  obtain ⟨⟨orderId, item, quantity⟩, -, h⟩ := bind_eq_ok.mp h
  obtain ⟨orderId', horder, h⟩ := bind_eq_ok.mp h
  obtain ⟨item', -, h⟩ := bind_eq_ok.mp h
  obtain ⟨quantity', -, h⟩ := bind_eq_ok.mp h
  cases h
  exact of_disciplined (nonEmptyStr_disciplined .orderId orderId) horder

/-! ## The file handlers -/

variable {faults : Faults} {depth : ℕ} {event : ReceivedEvent}

/-- All that is published conforms. -/
def AllConform (s : FaultyWorld) : Prop :=
  ∀ args ∈ s.world.published, Conforms args

theorem conforming_call {a : FileAct}
    (ha : ∀ args, a = .publish args → Conforms args) :
    Prog.Keeps (Faulty faults depth) AllConform a.call := by
  refine .act fun s r s' hs hcan => ?_
  have hs' : (a.performFaulty faults depth s).2 = s' :=
    congrArg Prod.snd hcan
  have hbeside := performFaulty_beside depth faults a s
  rw [hs'] at hbeside
  intro args hargs
  rcases records_published hbeside with heq | ⟨args', rfl, heq⟩
  · rw [show s'.world.published = _ from heq] at hargs
    exact hs args hargs
  · rw [show s'.world.published = _ from heq, List.mem_append,
      List.mem_singleton] at hargs
    rcases hargs with hargs | rfl
    · exact hs args hargs
    · exact ha args rfl

theorem quiet_call {a : FileAct} (ha : ∀ args, a ≠ .publish args) :
    Prog.Keeps (Faulty faults depth) AllConform a.call :=
  conforming_call fun args h => absurd h (ha args)

theorem publishAndAck_conforms {subject eventType : String} {payload : Bytes}
    (h : Conforms {
      subject := subject
      payload := payload
      eventType := eventType
      correlationId := some event.details.eventId }) :
    Prog.Keeps (Faulty faults depth) AllConform
      (publishAndAck event subject eventType payload) :=
  .bind (conforming_call fun args hargs => by cases hargs; exact h)
    fun _ => quiet_call (by simp)

theorem orNak_conforms {α : Type} {V : α → Prop} {E : Exn → Prop}
    {doing : String} {target : PosixPath} {x : FileProg α}
    {rest : α → FileProg Unit}
    (hx : Prog.Keeps (Faulty faults depth) AllConform x)
    (hV : Prog.Yields (Faulty faults depth) V E x)
    (hrest : ∀ a, V a → Prog.Keeps (Faulty faults depth) AllConform (rest a)) :
    Prog.Keeps (Faulty faults depth) AllConform
      (orNak doing target event x rest) := by
  refine .bind_yields (E := fun _ => True) hx.attempt hV.attempt fun r hr => ?_
  cases r with
  | ok a => exact hrest a hr
  | error e =>
      simp only []
      split
      · exact .bind (quiet_call (by simp)) fun _ => quiet_call (by simp)
      · exact .raise e

theorem resolveWithin_conforms (watchDir : PosixPath) (relative : Text) :
    Prog.Keeps (Faulty faults depth) AllConform
      (resolveWithin watchDir relative) := by
  rw [resolveWithin]
  split
  · exact .raise _
  · refine .bind (quiet_call (by simp)) fun root => ?_
    refine .bind (quiet_call (by simp)) fun candidate => ?_
    split
    · exact .raise _
    · exact .pure _

theorem withTarget_conforms {α : Type} {watchDir : PosixPath}
    {eventType : String} {decoded : Except Exn α} {path : α → Text}
    {body : α → PosixPath → FileProg Unit}
    (hbody : ∀ request target, decoded = .ok request →
      Prog.Keeps (Faulty faults depth) AllConform (body request target)) :
    Prog.Keeps (Faulty faults depth) AllConform
      (withTarget watchDir eventType event decoded path body) := by
  rw [withTarget.eq_def]
  cases decoded with
  | error e =>
      simp only []
      split
      · exact .bind (quiet_call (by simp)) fun _ => quiet_call (by simp)
      · exact .raise e
  | ok request =>
      refine .bind (resolveWithin_conforms _ _).attempt fun r => ?_
      cases r with
      | ok target => exact hbody request target rfl
      | error e =>
          simp only []
          split
          · exact .bind (quiet_call (by simp)) fun _ => quiet_call (by simp)
          · exact .raise e

theorem operationFailed_keeps {operation reason : String}
    (hoperation : operation ∈ ["read", "list", "delete"])
    (hreason : reason ∈ ["not_found", "not_a_directory"]) :
    Prog.Keeps (Faulty faults depth) AllConform
      (operationFailed event path operation reason now.iso) :=
  publishAndAck_conforms (operationFailed_conforms hoperation hreason rfl rfl)

variable {target : PosixPath}

theorem writeFile_conforms (content : Bytes) :
    Prog.Keeps (Faulty faults depth) AllConform
      (writeFile target content) := by
  refine .bind (quiet_call (by simp)) fun _ => ?_
  exact .bind (quiet_call (by simp)) fun file => quiet_call (by simp)

theorem markRecent_conforms (adapter : FileAdapter) :
    Prog.Keeps (Faulty faults depth) AllConform
      (markRecent adapter target) := by
  rw [markRecent]
  split
  · exact quiet_call (by simp)
  · exact .pure ()

theorem writeTarget_conforms (adapter : FileAdapter) {request : WriteRequest}
    (hpath : request.path ≠ []) :
    Prog.Keeps (Faulty faults depth) AllConform
      (writeTarget adapter now.iso event request target) := by
  refine .bind (quiet_call (by simp)) fun existedBefore => ?_
  refine orNak_conforms (writeFile_conforms _) (.any _) fun _ _ => ?_
  refine .bind (markRecent_conforms adapter) fun _ => ?_
  split
  · exact publishAndAck_conforms (completed_conforms hpath _ rfl rfl)
  · exact publishAndAck_conforms (completed_conforms hpath _ rfl rfl)

theorem readTarget_conforms (hpath : path ≠ []) :
    Prog.Keeps (Faulty faults depth) AllConform
      (readTarget now.iso event path target) := by
  refine .bind (quiet_call (by simp)) fun isFile => ?_
  split
  · exact operationFailed_keeps (by simp) (by simp)
  · exact orNak_conforms (quiet_call (by simp)) (.any _) fun content _ =>
      publishAndAck_conforms (readCompleted_conforms hpath _ rfl rfl)

theorem deleteTarget_conforms (hpath : path ≠ []) :
    Prog.Keeps (Faulty faults depth) AllConform
      (deleteTarget now.iso event path target) := by
  refine .bind (quiet_call (by simp)) fun isFile => ?_
  split
  · exact operationFailed_keeps (by simp) (by simp)
  · exact orNak_conforms (quiet_call (by simp)) (.any _) fun _ _ =>
      publishAndAck_conforms (deleteCompleted_conforms hpath rfl rfl)

theorem child_name_ne (p : PosixPath) (n : FileName) :
    (p.child n).name ≠ [] := by
  rw [PosixPath.name_child]
  exact (encodeName_ne (encodeName_text n)).1

theorem perform_iterdir_names {w : FileWorld} {children : List PosixPath}
    (h : ((FileAct.iterdir target).perform depth w).1 = .ok children) :
    ∀ c ∈ children, c.name ≠ [] := by
  rw [FileAct.perform, FileWorld.onPath] at h
  split at h
  · next path hpath =>
      simp only [FileWorld.look] at h
      split at h
      · cases h
        exact List.forall_mem_map.mpr fun n _ => child_name_ne target n
      · cases h
  · cases h

/-- A child of a directory has a name. -/
theorem iterdir_names : Prog.Yields (Faulty faults depth)
    (fun children => ∀ c ∈ children, PosixPath.name c ≠ []) (fun _ => True)
    (FileAct.call (.iterdir target)) := by
  refine .act fun s r s' hcan => ?_
  have hr : ((FileAct.iterdir target).performUnless (faults.errno s.calls 0)
      depth (faults.gets s.calls) s.world).1 = r := congrArg Prod.fst hcan
  cases r with
  | error e => trivial
  | ok children =>
      rw [FileAct.performUnless.eq_def] at hr
      split at hr
      · split at hr
        · cases hr
        · exact perform_iterdir_names hr
      · exact perform_iterdir_names hr

theorem listEntry_name (child : PosixPath) :
    Prog.Yields (Faulty faults depth) (fun e => e.name = child.name)
      (fun _ => True) (listEntry child) :=
  .bind (.any _) fun _ _ => .bind (.any _) fun _ _ => .pure rfl

theorem listEntries_names : Prog.Yields (Faulty faults depth)
    (fun entries => ∀ e ∈ entries, e.name ≠ []) (fun _ => True)
    (listEntries target) := by
  refine iterdir_names.bind fun children hchildren => .each fun c hc => ?_
  refine (listEntry_name c).mono (fun e he => ?_) fun _ _ => trivial
  rw [he]
  exact hchildren c ((List.mem_insertionSort _).mp hc)

theorem listEntry_conforms (child : PosixPath) :
    Prog.Keeps (Faulty faults depth) AllConform (listEntry child) := by
  have hsize : Prog.Keeps (Faulty faults depth) AllConform
      (entrySize child) := by
    refine .bind (quiet_call (by simp)) fun isDirectory => ?_
    split
    · exact .pure 0
    · exact quiet_call (by simp)
  exact .bind (quiet_call (by simp)) fun _ => hsize.bind fun _ => .pure _

theorem listTarget_conforms : Prog.Keeps (Faulty faults depth) AllConform
    (listTarget now.iso event path target) := by
  refine .bind (quiet_call (by simp)) fun existing => ?_
  split
  · exact operationFailed_keeps (by simp) (by simp)
  · refine .bind (quiet_call (by simp)) fun isDir => ?_
    split
    · exact operationFailed_keeps (by simp) (by simp)
    · have hentries : Prog.Keeps (Faulty faults depth) AllConform
          (listEntries target) :=
        .bind (quiet_call (by simp)) fun children =>
          .each fun c _ => listEntry_conforms c
      exact orNak_conforms hentries listEntries_names fun entries hnames =>
        publishAndAck_conforms (listCompleted_conforms hnames rfl rfl)

theorem file_conforms (handler : FileHandler) (adapter : FileAdapter) :
    Prog.Keeps (Faulty faults depth) AllConform
      (handler.handle adapter now.iso event) := by
  cases handler with
  | write =>
      exact withTarget_conforms fun request target hdecode =>
        writeTarget_conforms adapter (writtenPath_ne hdecode)
  | read =>
      exact withTarget_conforms fun request target hdecode =>
        readTarget_conforms (decodedPath_ne hdecode)
  | delete =>
      exact withTarget_conforms fun request target hdecode =>
        deleteTarget_conforms (decodedPath_ne hdecode)
  | list =>
      exact withTarget_conforms fun request target hdecode =>
        listTarget_conforms

/-! ## The creation watch -/

theorem spells_parts_ne {parts : List Text} : ∀ {names : Location},
    Spells parts names → ∀ t ∈ parts, t ≠ [] := by
  induction parts with
  | nil => simp
  | cons t parts ih =>
      intro names h
      obtain ⟨n, rest, hn, hrest, -⟩ := spells_cons.mp h
      exact List.forall_mem_cons.mpr ⟨(encodeName_ne hn).1, ih hrest⟩

theorem relativeText_ne {parts : List Text} (h : ∀ t ∈ parts, t ≠ []) :
    relativeText parts ≠ [] := by
  rw [relativeText]
  split
  · exact List.cons_ne_nil _ _
  · next hne =>
      obtain ⟨t, rest, rfl⟩ := List.exists_cons_of_ne_nil hne
      have ht : t ≠ [] := h t List.mem_cons_self
      cases rest with
      | nil => rwa [List.intercalate_singleton]
      | cons t' rest =>
          rw [List.intercalate_cons_cons]
          exact List.append_ne_nil_of_left_ne_nil
            (List.append_ne_nil_of_left_ne_nil ht _) _

/-- A file that has settled was found, so its path has been encoded. -/
theorem relative_ne {fs : Fs FileName} {p root : PosixPath} {state : Settling}
    {size : ℤ} {relative : Text} (hpoll : pollFile fs p state = .settled size)
    (hrelative : p.relativeTo root = .ok relative) : relative ≠ [] := by
  rw [pollFile] at hpoll
  split at hpoll
  · next node hstat =>
      rw [PosixPath.stat] at hstat
      obtain ⟨names, hnames, -⟩ := bind_eq_ok.mp hstat
      rw [PosixPath.relativeTo] at hrelative
      split at hrelative
      · cases hrelative
        refine relativeText_ne fun t ht => ?_
        exact spells_parts_ne hnames t (List.mem_of_mem_drop ht)
      · cases hrelative
  · cases hpoll
  · cases hpoll

theorem poll_conforms (s : WatchedDir) (adapter : FileAdapter)
    (p : PosixPath) (state : Settling) (rest : List RawChange)
    (hs : ∀ args ∈ s.world.published, Conforms args) :
    ∀ args ∈ (s.poll adapter now.iso p state rest).world.published,
      Conforms args := by
  rw [WatchedDir.poll]
  split
  · exact hs
  · exact hs
  · exact hs
  · next size hpoll =>
      split
      · exact hs
      · next relative hrelative =>
          intro args hargs
          rcases List.mem_append.mp hargs with hargs | hargs
          · exact hs args hargs
          · obtain rfl := List.mem_singleton.mp hargs
            exact completed_conforms (relative_ne hpoll hrelative) _ rfl rfl

/-! ## The other adapters -/

/-- Nothing, or the answer to the order that was decoded. -/
theorem order_published (event : ReceivedEvent) (upsert : Except Exn Unit) :
    ((handleOrderCreated now.iso event).exec (DbAct.answering upsert) []).2 =
        [] ∨
      ∃ request, decodeOrderCreated event.payload = .ok request ∧
        ((handleOrderCreated now.iso event).exec (DbAct.answering upsert)
          []).2 = [orderPersisted request.orderId now.iso
            event.details.eventId] := by
  rw [handleOrderCreated.eq_def]
  split
  · exact .inl rfl
  · exact .inl rfl
  · next request hdecode =>
      simp only [DbAct.call, Prog.exec_bind, Prog.exec_attempt, Prog.exec_act,
        Prog.resume_ok, DbAct.answering]
      cases upsert with
      | ok u => exact .inr ⟨request, hdecode, rfl⟩
      | error e =>
          cases e with
          | dbapiError => exact .inl rfl
          | _ => exact .inl rfl

theorem order_conforms (event : ReceivedEvent) (upsert : Except Exn Unit) :
    ∀ args ∈ ((handleOrderCreated now.iso event).exec
      (DbAct.answering upsert) []).2, Conforms args := by
  rcases order_published event upsert with hnone |
    ⟨request, hdecode, hpublished⟩
  · rw [hnone]
    exact List.forall_mem_nil _
  · rw [hpublished]
    exact List.forall_mem_singleton.mpr
      (orderPersisted_conforms (orderId_ne hdecode) _)

theorem binlog_conforms (control : CdcControl)
    (passes : List (List BinlogEvent)) :
    ∀ args ∈ (runStream control passes {}).2.published, Conforms args := by
  obtain ⟨done, hdone, hpublishes⟩ := runStream_prefix (c := control) passes {}
  rw [hpublishes]
  intro args hargs
  obtain ⟨change, hchange, rfl⟩ := List.mem_map.mp hargs
  obtain ⟨event, -, hevent⟩ := List.mem_flatMap.mp (hdone.subset hchange)
  exact rowChanged_conforms hevent

/-- A response is reported, whatever its status. -/
theorem http_published (trigger : TriggerHandler) (event : ReceivedEvent)
    (answer : Except Exn HttpResponse) :
    ((handleTrigger trigger now.iso event).exec (HttpAct.answering answer)
      []).2 = (answer.toOption.map fun response =>
        requestCompleted response now.iso event.details.eventId).toList := by
  simp only [handleTrigger, HttpAct.call, Prog.exec_bind, Prog.exec_attempt,
    Prog.exec_act, Prog.resume_ok, HttpAct.answering]
  cases answer with
  | ok response => rfl
  | error e =>
      cases e with
      | requestError => rfl
      | _ => rfl

/-! ## Every producer -/

/-- Every result conforms, unless it reports a status code that the schema does
not know. -/
theorem published_conforms_iff (now : UtcTime) (source : Source) :
    (∀ args ∈ source.published now, Conforms args) ↔ source.InRange := by
  cases source with
  | file handler adapter event faults depth fs =>
      refine iff_of_true ?_ trivial
      exact (file_conforms handler adapter).exec (I := AllConform) nofun
  | watch adapter path state fs =>
      exact iff_of_true (poll_conforms _ adapter path state [] nofun) trivial
  | order event upsert =>
      exact iff_of_true (order_conforms event upsert) trivial
  | binlog control passes =>
      exact iff_of_true (binlog_conforms control passes) trivial
  | http trigger event answer =>
      rw [Source.published, http_published]
      cases answer with
      | error e => exact iff_of_true nofun trivial
      | ok delivered =>
          have hcode : Conforms (requestCompleted delivered.response now.iso
              event.details.eventId) ↔ delivered.response.statusCode ≤ 599 :=
            requestCompleted_conforms_iff delivered _
          exact List.forall_mem_singleton.trans hcode

namespace Sample

def newYearUtc : UtcTime where
  time := ⟨2026, 1, 1, 0, 0, 0, 0⟩
  valid := by
    constructor
    all_goals decide

def triggered : TriggerHandler :=
  ⟨"events.files.FileReadCompleted", "https://api.example", none⟩

/-- The external API answers with the status code 999. -/
def oddStatus : Source :=
  .http triggered (fileMessage "FileReadCompleted" [])
    (.ok ⟨⟨999, []⟩, by decide⟩)

end Sample

open Sample

/-- The code 999 is reported, and is over the schema's maximum. -/
theorem oddStatus_reported :
    (oddStatus.published newYearUtc).length = 1 ∧
      ∀ args ∈ oddStatus.published newYearUtc, ¬ Conforms args := by
  rw [oddStatus, Source.published, http_published]
  refine ⟨rfl, List.forall_mem_singleton.mpr fun h => ?_⟩
  have hcode := (requestCompleted_conforms_iff
    (⟨⟨999, []⟩, by decide⟩ : DeliveredResponse) _).mp h
  exact absurd hcode (by decide)

end JetCore
