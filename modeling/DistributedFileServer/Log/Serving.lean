import DistributedFileServer.DeferredUpdate.Grouping
import DistributedFileServer.Log.TableHistory
import DistributedFileServer.Model.Run

/-!
# What the server answers, in terms of the history

The answers of the server and what it appends to its log are functions of the
initial shared directory, of the history the log records and, for a `prepare`,
of the vote.  The shared directory is always the replay of the history over the
initial directory.  Everything said about runs goes through `handleRequest_spec`
and `run_spec`.
-/

namespace DistributedFileServer

open DeferredUpdate Dao Controller

/-! ## The vote -/

theorem interceptedCount_pos_iff (own : OperationName) (theirs : List OperationName)
    (table : OperationTable) (transactionId : Str) :
    0 < interceptedCount own theirs table transactionId ↔
      ∃ o ∈ table.rows,
        (table.rows.find? fun r =>
          r.transactionId = cString transactionId ∧ r.name = own).map Operation.filename =
            some o.filename ∧
        o.transactionId ≠ cString transactionId ∧ o.name ∈ theirs ∧
        (∃ first, table.rows.find? (fun r => r.transactionId = cString transactionId) =
          some first ∧ first.id < o.id) ∧
        Act.commit o.transactionId ∈ table.history := by
  unfold interceptedCount
  simp only [List.countP_pos_iff, bindTextParam, commit_mem_history_iff, decide_eq_true_eq,
    List.any_eq_true, Option.any_eq_true, Option.map_eq_some_iff, exists_exists_and_eq_and,
    gt_iff_lt]
  constructor
  · rintro ⟨o, ho, ⟨r, hfind, hname⟩, hother, htheirs, hlater, hcommit⟩
    exact ⟨o, ho, ⟨r, hfind, hname.symm⟩, hother, htheirs, hlater, hcommit⟩
  · rintro ⟨o, ho, ⟨r, hfind, hname⟩, hother, htheirs, hlater, hcommit⟩
    exact ⟨o, ho, ⟨r, hfind, hname.symm⟩, hother, htheirs, hlater, hcommit⟩

/-- A committed transaction touched the file of the first write since the
transaction's first row. -/
theorem writeIntercepted_iff (table : OperationTable) (transactionId : Str) :
    writeIntercepted table transactionId = true ↔
      ∃ act ∈ since table.history (cString transactionId),
        act.owner ≠ cString transactionId ∧ Act.commit act.owner ∈ table.history ∧
        ∃ filename, firstWritten table.history (cString transactionId) = some filename ∧
          act.key? = some filename := by
  unfold writeIntercepted
  rw [decide_eq_true_eq, interceptedCount_pos_iff, ← firstWritten_history]
  simp only [mem_since_history_iff]
  constructor
  · rintro ⟨o, ho, hfile, hother, htheirs, hlater, hcommit⟩
    have hname : o.name = .write ∨ o.name = .read := by simpa using htheirs
    exact ⟨o.entry, ⟨o, ho, rfl, hlater⟩, by simpa using hother, by simpa using hcommit,
      o.filename, hfile, by rw [Operation.key?_entry, if_pos hname]⟩
  · rintro ⟨_, ⟨o, ho, rfl, hlater⟩, hother, hcommit, filename, hfile, hkey⟩
    rw [Operation.key?_entry] at hkey
    split_ifs at hkey with hname
    obtain rfl : o.filename = filename := by simpa using hkey
    exact ⟨o, ho, hfile, by simpa using hother, by simpa using hname, hlater,
      by simpa using hcommit⟩

/-- A committed transaction wrote the file of the first read since the
transaction's first row. -/
theorem readIntercepted_iff (table : OperationTable) (transactionId : Str) :
    readIntercepted table transactionId = true ↔
      ∃ act ∈ since table.history (cString transactionId),
        act.owner ≠ cString transactionId ∧ Act.commit act.owner ∈ table.history ∧
        ∃ filename content,
          firstRead table.history (cString transactionId) = some filename ∧
          act.write? = some (filename, content) := by
  unfold readIntercepted
  rw [decide_eq_true_eq, interceptedCount_pos_iff, ← firstRead_history]
  simp only [mem_since_history_iff]
  constructor
  · rintro ⟨o, ho, hfile, hother, htheirs, hlater, hcommit⟩
    have hname : o.name = .write := by simpa using htheirs
    exact ⟨o.entry, ⟨o, ho, rfl, hlater⟩, by simpa using hother, by simpa using hcommit,
      o.filename, o.data, hfile, by rw [Operation.write?_entry, if_pos hname]⟩
  · rintro ⟨_, ⟨o, ho, rfl, hlater⟩, hother, hcommit, filename, content, hfile, hwrite⟩
    rw [Operation.write?_entry] at hwrite
    split_ifs at hwrite with hname
    obtain ⟨rfl, -⟩ : o.filename = filename ∧ o.data = content := by simpa using hwrite
    exact ⟨o, ho, hfile, by simpa using hother, by simpa using hname, hlater,
      by simpa using hcommit⟩

/-- **The automatic vote.**  The server lets a transaction commit exactly if no
other transaction intercepts it. -/
theorem canAutoCommitTransaction_iff (log : OperationTable) (transactionId : Str) :
    canAutoCommitTransaction log transactionId = true ↔
      ¬ Intercepted log.history (cString transactionId) := by
  have hintercepted : Intercepted log.history (cString transactionId) ↔
      writeIntercepted log transactionId = true ∨ readIntercepted log transactionId = true := by
    rw [writeIntercepted_iff, readIntercepted_iff]
    constructor
    · rintro ⟨other, hother, hcommit, act, hact, rfl, hkey | hwrite⟩
      · exact Or.inl ⟨act, hact, hother, hcommit, hkey⟩
      · exact Or.inr ⟨act, hact, hother, hcommit, hwrite⟩
    · rintro (⟨act, hact, hother, hcommit, hkey⟩ | ⟨act, hact, hother, hcommit, hwrite⟩)
      · exact ⟨act.owner, hother, hcommit, act, hact, rfl, Or.inl hkey⟩
      · exact ⟨act.owner, hother, hcommit, act, hact, rfl, Or.inr hwrite⟩
  rw [hintercepted, canAutoCommitTransaction]
  cases writeIntercepted log transactionId <;> cases readIntercepted log transactionId <;> simp

/-! ## One request -/

/-- What the server answers after a history, given the vote for a `prepare`. -/
def answer (initial : SharedDirectory) (history : History Str Str Str) (granted : Bool) :
    Request → Reply
  | .read transactionId filename =>
      .ok (makeReadResponseMessage transactionId filename
        ((readValue initial history (cString transactionId) (cString filename)).getD []))
  | .write transactionId _ _ => .ok (makeWriteResponseMessage transactionId)
  | .prepare transactionId =>
      .ok (if granted then makeVoteCommitMessage transactionId
        else makeVoteAbortMessage transactionId)
  | .globalCommit transactionId => .ok (makeVoteCommitMessage transactionId)
  | .globalAbort transactionId => .ok (makeVoteAbortMessage transactionId)
  | .unsupported transactionId => .ok (makeUnsupportedMessage transactionId)

/-- Answers agree where the read values and the votes do. -/
theorem answer_congr {initial initial' : SharedDirectory} {history history' : History Str Str Str}
    {granted granted' : Bool} {request : Request}
    (hread : ∀ filename, request.filename? = some filename →
      readValue initial history (cString request.transactionId) (cString filename) =
        readValue initial' history' (cString request.transactionId) (cString filename))
    (hgranted : granted = granted') :
    answer initial history granted request = answer initial' history' granted' request := by
  subst hgranted
  cases request with
  | read transactionId filename =>
      have hvalue := hread filename rfl
      simp only [Request.transactionId] at hvalue
      simp only [answer, hvalue]
  | _ => rfl

/-- What the server logs for a request, given the vote for a `prepare`. -/
def record (granted : Bool) : Request → History Str Str Str
  | .read transactionId filename => [.read (cString transactionId) (cString filename)]
  | .write transactionId filename data =>
      [.write (cString transactionId) (cString filename) (cString data)]
  | .prepare transactionId => [.vote (cString transactionId) granted]
  | .globalCommit transactionId => [.commit (cString transactionId)]
  | .globalAbort transactionId => [.abort (cString transactionId)]
  | .unsupported _ => []

theorem owner_of_mem_record {granted : Bool} {request : Request} {act : Entry}
    (hact : act ∈ record granted request) : act.owner = cString request.transactionId := by
  cases request <;> simp [record] at hact <;> subst hact <;> rfl

/-- A read finds the transaction's own last write, or the file, or nothing; the
exception of a missing row is never reached. -/
theorem getFileContent_eq {initial : SharedDirectory} {s : ServerState}
    (hdirectory : s.sharedDirectory = replay initial s.log.history)
    (transactionId filename : Str) :
    getFileContent s transactionId filename =
      .ok ((readValue initial s.log.history (cString transactionId)
        (cString filename)).getD []) := by
  unfold getFileContent readValue
  rw [lastFileContentFromThisTransaction_eq]
  -- the count and the last row agree on whether there is an own write
  cases hlast : lastValue (writesOf s.log.history (cString transactionId)) (cString filename) with
  | some content =>
      have hwritten : fileWasWrittenInThisTransaction s.log transactionId filename = true := by
        rw [fileWasWrittenInThisTransaction_iff, hlast]
        simp
      simp [hwritten]
  | none =>
      have hwritten : ¬ fileWasWrittenInThisTransaction s.log transactionId filename = true := by
        rw [fileWasWrittenInThisTransaction_iff, hlast]
        simp
      rw [if_neg hwritten, getFileContentFromHardDrive, hdirectory]
      cases replay initial s.log.history (cString filename) <;> rfl

/-- Committing lays the pending writes over the shared directory. -/
theorem sharedDirectory_commitPendingWrites (s : ServerState) (transactionId : Str) :
    (commitPendingWrites s transactionId).sharedDirectory =
      applyWrites (writesOf s.log.history (cString transactionId)) s.sharedDirectory := by
  have hnames : ∀ write ∈ getPendingWrites s.log transactionId, cString write.1 = write.1 := by
    intro write hwrite
    obtain ⟨o, -, rfl⟩ := List.mem_map.mp hwrite
    exact cString_cString o.filename
  rw [← getPendingWrites_eq]
  unfold commitPendingWrites applyWrites
  apply List.foldl_ext
  intro directory write hwrite
  rw [hnames write hwrite]

/-- A global commit always succeeds: it applies the pending writes, whatever
the log holds. -/
theorem sharedDirectory_globalCommit {cfg : Config} {s next : ServerState} {transactionId : Str}
    {reply : Reply}
    (hhandle : handleRequest cfg s (.globalCommit transactionId) = some (reply, next)) :
    next.sharedDirectory =
      applyWrites (getPendingWrites s.log transactionId) s.sharedDirectory := by
  simp only [handleRequest, handleGlobalCommitMessage, Option.some.injEq,
    Prod.mk.injEq] at hhandle
  rw [← hhandle.2, getPendingWrites_eq]
  exact sharedDirectory_commitPendingWrites s transactionId

/-- A `prepare` logs and answers its vote, which in auto mode is the automatic
one. -/
theorem handlePrepareMessage_spec {cfg : Config} {s next : ServerState} {transactionId : Str}
    {reply : Reply} (hhandle : handlePrepareMessage cfg s transactionId = some (reply, next)) :
    ∃ granted, reply = .ok (if granted then makeVoteCommitMessage transactionId
        else makeVoteAbortMessage transactionId) ∧
      next.log.history = s.log.history ++ [.vote (cString transactionId) granted] ∧
      next.sharedDirectory = s.sharedDirectory ∧
      (cfg.autoMode = true → granted = canAutoCommitTransaction s.log transactionId) := by
  unfold handlePrepareMessage at hhandle
  cases hvote : canCommitTransaction cfg s transactionId with
  | none => simp [hvote] at hhandle
  | some result =>
      obtain ⟨granted, console⟩ := result
      have hauto : cfg.autoMode = true →
          granted = canAutoCommitTransaction s.log transactionId := by
        intro hauto
        simp only [canCommitTransaction, hauto, if_true, Option.some.injEq,
          Prod.mk.injEq] at hvote
        exact hvote.1.symm
      cases granted with
      | true =>
          simp only [hvote, Option.some.injEq, Prod.mk.injEq] at hhandle
          obtain ⟨rfl, rfl⟩ := hhandle
          exact ⟨true, rfl, history_insertOperation _ _ _ _ _, rfl, hauto⟩
      | false =>
          simp only [hvote, Option.some.injEq, Prod.mk.injEq] at hhandle
          obtain ⟨rfl, rfl⟩ := hhandle
          exact ⟨false, rfl, history_insertOperation _ _ _ _ _, rfl, hauto⟩

/-- **One request.**  The reply, the logged entry and the shared directory after
a request, for every handler and both modes. -/
theorem handleRequest_spec {cfg : Config} {initial : SharedDirectory} {s next : ServerState}
    {request : Request} {reply : Reply}
    (hdirectory : s.sharedDirectory = replay initial s.log.history)
    (hhandle : handleRequest cfg s request = some (reply, next)) :
    ∃ granted, reply = answer initial s.log.history granted request ∧
      next.log.history = s.log.history ++ record granted request ∧
      next.sharedDirectory = replay initial next.log.history ∧
      (cfg.autoMode = true →
        (granted = true ↔ ¬ Intercepted s.log.history (cString request.transactionId))) := by
  have hgranted := canAutoCommitTransaction_iff s.log request.transactionId
  -- only `prepare` looks at the vote; elsewhere it is the one it would give
  cases request with
  | read transactionId filename =>
      simp only [handleRequest, handleReadMessage, getFileContent_eq hdirectory,
        Option.some.injEq, Prod.mk.injEq] at hhandle
      obtain ⟨rfl, rfl⟩ := hhandle
      refine ⟨_, rfl, history_insertOperation _ _ _ _ _, ?_, fun _ => hgranted⟩
      rw [history_insertOperation, replay_concat]
      exact hdirectory
  | write transactionId filename data =>
      simp only [handleRequest, handleWriteMessage, Option.some.injEq, Prod.mk.injEq] at hhandle
      obtain ⟨rfl, rfl⟩ := hhandle
      refine ⟨_, rfl, history_insertOperation _ _ _ _ _, ?_, fun _ => hgranted⟩
      rw [history_insertOperation, replay_concat]
      exact hdirectory
  | prepare transactionId =>
      obtain ⟨granted, rfl, hhistory, hsame, hauto⟩ := handlePrepareMessage_spec hhandle
      refine ⟨granted, rfl, hhistory, ?_, fun h => by rw [hauto h]; exact hgranted⟩
      rw [hhistory, replay_concat, hsame]
      exact hdirectory
  | globalCommit transactionId =>
      simp only [handleRequest, handleGlobalCommitMessage, Option.some.injEq,
        Prod.mk.injEq] at hhandle
      obtain ⟨rfl, rfl⟩ := hhandle
      have hhistory : (commitTransaction s transactionId).log.history =
          s.log.history ++ [.commit (cString transactionId)] :=
        history_insertOperation _ _ _ _ _
      refine ⟨_, rfl, hhistory, ?_, fun _ => hgranted⟩
      rw [hhistory, replay_concat, ← hdirectory]
      exact sharedDirectory_commitPendingWrites s transactionId
  | globalAbort transactionId =>
      simp only [handleRequest, handleGlobalAbortMessage, Option.some.injEq,
        Prod.mk.injEq] at hhandle
      obtain ⟨rfl, rfl⟩ := hhandle
      refine ⟨_, rfl, history_insertOperation _ _ _ _ _, ?_, fun _ => hgranted⟩
      show s.sharedDirectory = _
      rw [insertTransactionOperation, history_insertOperation, replay_concat]
      exact hdirectory
  | unsupported transactionId =>
      simp only [handleRequest, Option.some.injEq, Prod.mk.injEq] at hhandle
      obtain ⟨rfl, rfl⟩ := hhandle
      exact ⟨_, rfl, (List.append_nil _).symm, hdirectory, fun _ => hgranted⟩

/-- In auto mode every request is answered, by the automatic vote. -/
theorem handleRequest_auto {cfg : Config} (hauto : cfg.autoMode = true)
    {initial : SharedDirectory} {s : ServerState}
    (hdirectory : s.sharedDirectory = replay initial s.log.history) (request : Request) :
    ∃ granted next,
      handleRequest cfg s request =
        some (answer initial s.log.history granted request, next) ∧
      next.log.history = s.log.history ++ record granted request ∧
      next.sharedDirectory = replay initial next.log.history ∧
      (granted = true ↔ ¬ Intercepted s.log.history (cString request.transactionId)) := by
  obtain ⟨reply, next, hhandle⟩ := handleRequest_isSome cfg hauto s request
  obtain ⟨granted, rfl, hhistory, hnext, hgranted⟩ := handleRequest_spec hdirectory hhandle
  exact ⟨granted, next, hhandle, hhistory, hnext, hgranted hauto⟩

/-! ## Runs -/

/-- Whether the reply of an exchange is a positive vote. -/
def Exchange.granted (exchange : Exchange) : Bool :=
  exchange.2 = .ok (makeVoteCommitMessage exchange.1.transactionId)

/-- The history a list of exchanges leaves in the log. -/
def recorded (exchanges : List Exchange) : History Str Str Str :=
  exchanges.flatMap fun exchange => record exchange.granted exchange.1

@[simp] theorem recorded_nil : recorded [] = [] := rfl

@[simp] theorem recorded_append (first second : List Exchange) :
    recorded (first ++ second) = recorded first ++ recorded second :=
  List.flatMap_append

theorem recorded_cons (exchange : Exchange) (exchanges : List Exchange) :
    recorded (exchange :: exchanges) =
      record exchange.granted exchange.1 ++ recorded exchanges :=
  List.flatMap_cons

/-- Selecting the exchanges of some transactions selects their entries. -/
theorem recorded_filter (select : Str → Bool) (exchanges : List Exchange) :
    recorded (exchanges.filter fun exchange => select (cString exchange.1.transactionId)) =
      (recorded exchanges).filter fun act => select act.owner := by
  have howner : ∀ exchange : Exchange, ∀ act ∈ record exchange.granted exchange.1,
      act.owner = cString exchange.1.transactionId := fun _ _ hact => owner_of_mem_record hact
  exact flatMap_filter_label howner select exchanges

/-- A commit in the log comes from a global commit request. -/
theorem commit_mem_recorded_iff {exchanges : List Exchange} {transaction : Str} :
    Act.commit transaction ∈ recorded exchanges ↔
      ∃ transactionId, .globalCommit transactionId ∈ exchanges.map Prod.fst ∧
        cString transactionId = transaction := by
  unfold recorded
  rw [List.mem_flatMap]
  constructor
  · rintro ⟨⟨request, reply⟩, hexchange, hrecord⟩
    cases request with
    | globalCommit transactionId =>
        obtain rfl : transaction = cString transactionId := by simpa [record] using hrecord
        exact ⟨transactionId, List.mem_map_of_mem hexchange, rfl⟩
    | _ => simp [record] at hrecord
  · rintro ⟨transactionId, hmem, rfl⟩
    obtain ⟨⟨_, reply⟩, hexchange, rfl⟩ := List.mem_map.mp hmem
    exact ⟨_, hexchange, List.mem_singleton_self _⟩

/-- The recorded vote is the answered one. -/
theorem record_granted_answer (initial : SharedDirectory) (history : History Str Str Str)
    (granted : Bool) (request : Request) :
    record (Exchange.granted (request, answer initial history granted request)) request =
      record granted request := by
  cases request with
  | prepare transactionId =>
      have hne := makeVoteCommitMessage_ne_makeVoteAbortMessage transactionId transactionId
      cases granted with
      | true => simp [record, answer, Exchange.granted, Request.transactionId]
      | false => simp [record, answer, Exchange.granted, Request.transactionId, hne.symm]
  | _ => rfl

/-- **Runs.**  After a run on a fresh log, the log records the exchanges of the
run, and the shared directory is the replay of that history. -/
theorem run_spec {cfg : Config} {initial : SharedDirectory} {console : List Str}
    {requests : List Request} {exchanges : List Exchange} {s : ServerState}
    (hrun : run cfg (.initial initial console) requests = some (exchanges, s)) :
    s.log.history = recorded exchanges ∧ s.sharedDirectory = replay initial s.log.history := by
  refine run_induction (P := fun exchanges s => s.log.history = recorded exchanges ∧
    s.sharedDirectory = replay initial s.log.history) ⟨rfl, rfl⟩ ?_ hrun
  intro exchanges s request reply next ⟨hhistory, hdirectory⟩ hhandle
  obtain ⟨granted, rfl, hnext, hnextDirectory, -⟩ := handleRequest_spec hdirectory hhandle
  refine ⟨?_, hnextDirectory⟩
  rw [hnext, recorded_append, recorded_cons, record_granted_answer, recorded_nil,
    List.append_nil, hhistory]

/-- Every exchange of a run has the answer that the history before it calls for. -/
theorem run_answer {cfg : Config} {initial : SharedDirectory} {console : List Str}
    {requests : List Request} {before after : List Exchange} {request : Request} {reply : Reply}
    {s : ServerState}
    (hrun : run cfg (.initial initial console) requests =
      some (before ++ (request, reply) :: after, s)) :
    ∃ granted, reply = answer initial (recorded before) granted request ∧
      (cfg.autoMode = true →
        (granted = true ↔ ¬ Intercepted (recorded before) (cString request.transactionId))) := by
  obtain ⟨middle, next, hbefore, hhandle, -⟩ := run_split hrun
  obtain ⟨hhistory, hdirectory⟩ := run_spec hbefore
  obtain ⟨granted, hreply, -, -, hauto⟩ := handleRequest_spec hdirectory hhandle
  rw [hhistory] at hreply hauto
  exact ⟨granted, hreply, hauto⟩

/-- Exchanges with the answers that the history before them calls for are those
of a run. -/
theorem run_of_answers {cfg : Config} (hauto : cfg.autoMode = true) (initial : SharedDirectory)
    (console : List Str) {exchanges : List Exchange}
    (h : ∀ before request reply after granted,
      exchanges = before ++ (request, reply) :: after →
      (granted = true ↔ ¬ Intercepted (recorded before) (cString request.transactionId)) →
      reply = answer initial (recorded before) granted request) :
    ∃ final, run cfg (.initial initial console) (exchanges.map Prod.fst) =
      some (exchanges, final) := by
  induction exchanges using List.reverseRecOn with
  | nil => exact ⟨_, rfl⟩
  | append_singleton exchanges exchange ih =>
      obtain ⟨request, reply⟩ := exchange
      obtain ⟨s, hbefore⟩ := ih fun before request' reply' after granted hsplit hgranted =>
        h before request' reply' (after ++ [(request, reply)]) granted
          (by rw [hsplit, List.append_assoc, List.cons_append]) hgranted
      obtain ⟨hhistory, hdirectory⟩ := run_spec hbefore
      obtain ⟨granted, next, hhandle, -, -, hgranted⟩ :=
        handleRequest_auto hauto hdirectory request
      rw [hhistory] at hhandle hgranted
      refine ⟨next, ?_⟩
      rw [List.map_append, List.map_singleton]
      apply run_concat_eq_some_iff.mpr
      refine ⟨s, exchanges, reply, hbefore, ?_, rfl⟩
      rw [h exchanges request reply [] granted rfl hgranted]
      exact hhandle

/-! ## Requested writes -/

/-- The writes that the requests of a transaction carry, as they are logged. -/
def requestedWrites (requests : List Request) (transactionId : Str) : List (Str × Str) :=
  requests.filterMap fun
    | .write owner filename data =>
        if cString owner = cString transactionId then
          some (cString filename, cString data)
        else
          none
    | _ => none

theorem requestedWrites_append (first second : List Request) (transactionId : Str) :
    requestedWrites (first ++ second) transactionId =
      requestedWrites first transactionId ++ requestedWrites second transactionId :=
  List.filterMap_append

theorem requestedWrites_eq_nil_iff (requests : List Request) (transactionId : Str) :
    requestedWrites requests transactionId = [] ↔
      ∀ owner filename data, .write owner filename data ∈ requests →
        cString owner ≠ cString transactionId := by
  unfold requestedWrites
  rw [List.filterMap_eq_nil_iff]
  constructor
  · intro hnone owner filename data hmem howner
    have := hnone _ hmem
    simp [howner] at this
  · intro hother request hmem
    cases request with
    | write owner filename data => simp [hother owner filename data hmem]
    | _ => rfl

/-- The log of a run holds the writes that were requested. -/
theorem writesOf_recorded (exchanges : List Exchange) (transactionId : Str) :
    writesOf (recorded exchanges) (cString transactionId) =
      requestedWrites (exchanges.map Prod.fst) transactionId := by
  induction exchanges with
  | nil => rfl
  | cons exchange exchanges ih =>
      obtain ⟨request, reply⟩ := exchange
      have hhead : writesOf (record (Exchange.granted (request, reply)) request)
          (cString transactionId) = requestedWrites [request] transactionId := by
        cases request with
        | write owner filename data =>
            by_cases howner : cString owner = cString transactionId
            · simp [record, writesOf, requestedWrites, howner]
            · simp [record, writesOf, requestedWrites, howner]
        | _ => simp [record, writesOf, requestedWrites, Act.write?]
      rw [recorded_cons, writesOf_append, ih, List.map_cons, ← List.singleton_append,
        requestedWrites_append, hhead]

/-- **Pending writes.**  After a run, the pending writes of a transaction are
all writes it has requested so far, in order. -/
theorem getPendingWrites_run {cfg : Config} {initial : SharedDirectory} {console : List Str}
    {requests : List Request} {exchanges : List Exchange} {s : ServerState}
    (hrun : run cfg (.initial initial console) requests = some (exchanges, s))
    (transactionId : Str) :
    getPendingWrites s.log transactionId = requestedWrites requests transactionId := by
  rw [getPendingWrites_eq, (run_spec hrun).1, writesOf_recorded, run_requests hrun]

end DistributedFileServer
