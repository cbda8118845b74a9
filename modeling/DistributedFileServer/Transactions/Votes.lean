import DistributedFileServer.DeferredUpdate.Discipline
import DistributedFileServer.Log.Serving

/-!
# What a vote detects

In auto mode the vote on a transaction compares the rows of committed
transactions with one file the transaction wrote and one file it read.  This
file says, on the rows of the table, which conflicts are found and which are
not: conflicts on other files, writes that were logged before the transaction
began, and transactions that are voted for but not yet decided.
-/

namespace DistributedFileServer

open DeferredUpdate Dao Controller

/-- In auto mode a `prepare` is answered by the automatic vote. -/
theorem reply_prepare {cfg : Config} (hauto : cfg.autoMode = true) {s next : ServerState}
    {transactionId : Str} {reply : Reply}
    (hhandle : handleRequest cfg s (.prepare transactionId) = some (reply, next)) :
    reply = .ok (if canAutoCommitTransaction s.log transactionId
      then makeVoteCommitMessage transactionId else makeVoteAbortMessage transactionId) := by
  obtain ⟨granted, rfl, -, -, hgranted⟩ := handlePrepareMessage_spec hhandle
  rw [hgranted hauto]

theorem reply_prepare_eq_voteAbort_iff {cfg : Config} (hauto : cfg.autoMode = true)
    {s next : ServerState} {transactionId : Str} {reply : Reply}
    (hhandle : handleRequest cfg s (.prepare transactionId) = some (reply, next)) :
    reply = .ok (makeVoteAbortMessage transactionId) ↔
      canAutoCommitTransaction s.log transactionId = false := by
  have hne := makeVoteCommitMessage_ne_makeVoteAbortMessage transactionId transactionId
  rw [reply_prepare hauto hhandle]
  cases canAutoCommitTransaction s.log transactionId with
  | true => simp [hne]
  | false => simp

/-! ## Conflicting rows -/

/-- The first row of a transaction. -/
def OperationTable.firstRow (table : OperationTable) (transactionId : Str) :
    Option Operation :=
  table.rows.find? fun r => r.transactionId = cString transactionId

/-- The first row of a transaction with a given name. -/
def OperationTable.firstRowNamed (table : OperationTable) (transactionId : Str)
    (name : OperationName) : Option Operation :=
  table.rows.find? fun r => r.transactionId = cString transactionId ∧ r.name = name

/-- A row of another transaction that has a `global_commit` row, with a larger
id than the transaction's first row. -/
structure CommittedSince (table : OperationTable) (transactionId : Str) (o : Operation) :
    Prop where
  row : o ∈ table.rows
  other : o.transactionId ≠ cString transactionId
  committed : ∃ r ∈ table.rows, r.transactionId = o.transactionId ∧ r.name = .globalCommit
  later : ∃ first, table.firstRow transactionId = some first ∧ first.id < o.id

/-- One of two accesses to a file is a write. -/
def ClashingNames (own theirs : OperationName) : Prop :=
  own = .write ∧ (theirs = .read ∨ theirs = .write) ∨ own = .read ∧ theirs = .write

/-- The row conflicts with some row of the transaction. -/
def ConflictingRow (table : OperationTable) (transactionId : Str) (o : Operation) : Prop :=
  CommittedSince table transactionId o ∧
    ∃ own ∈ table.rows, own.transactionId = cString transactionId ∧
      own.filename = o.filename ∧ ClashingNames own.name o.name

/-- The row touches the file of the transaction's first write row, or writes the
file of its first read row. -/
def OnFirstFile (table : OperationTable) (transactionId : Str) (o : Operation) : Prop :=
  ∃ name own, table.firstRowNamed transactionId name = some own ∧
    own.filename = o.filename ∧ ClashingNames name o.name

/-- The file of a first row is a file of the transaction. -/
theorem ConflictingRow.of_onFirstFile {table : OperationTable} {transactionId : Str}
    {o : Operation} (hsince : CommittedSince table transactionId o)
    (hfile : OnFirstFile table transactionId o) : ConflictingRow table transactionId o := by
  obtain ⟨name, own, hfirst, hsame, hclash⟩ := hfile
  have hown := List.find?_some hfirst
  simp only [decide_eq_true_eq] at hown
  refine ⟨hsince, own, List.mem_of_find?_eq_some hfirst, hown.1, hsame, ?_⟩
  rw [hown.2]
  exact hclash

/-- One of the two queries counts exactly the rows that clash with the first row
of one name. -/
theorem interceptedCount_pos_iff_onFirstFile (own : OperationName) (theirs : List OperationName)
    (table : OperationTable) (transactionId : Str) :
    0 < interceptedCount own theirs table transactionId ↔
      ∃ o, CommittedSince table transactionId o ∧
        (∃ row, table.firstRowNamed transactionId own = some row ∧
          row.filename = o.filename) ∧ o.name ∈ theirs := by
  rw [interceptedCount_pos_iff]
  simp only [commit_mem_history_iff, Option.map_eq_some_iff]
  constructor
  · rintro ⟨o, ho, hfile, hother, htheirs, hlater, hcommit⟩
    exact ⟨o, ⟨ho, hother, hcommit, hlater⟩, hfile, htheirs⟩
  · rintro ⟨o, ⟨ho, hother, hcommit, hlater⟩, hfile, htheirs⟩
    exact ⟨o, ho, hfile, hother, htheirs, hlater, hcommit⟩

/-- **The vote on rows.**  The automatic vote is negative exactly if some row of
a committed transaction clashes with a first file. -/
theorem canAutoCommitTransaction_eq_false_iff (table : OperationTable) (transactionId : Str) :
    canAutoCommitTransaction table transactionId = false ↔
      ∃ o, CommittedSince table transactionId o ∧ OnFirstFile table transactionId o := by
  have hqueries : canAutoCommitTransaction table transactionId = false ↔
      writeIntercepted table transactionId = true ∨
        readIntercepted table transactionId = true := by
    unfold canAutoCommitTransaction
    cases writeIntercepted table transactionId <;>
      cases readIntercepted table transactionId <;> simp
  rw [hqueries, writeIntercepted, readIntercepted, decide_eq_true_eq, decide_eq_true_eq,
    interceptedCount_pos_iff_onFirstFile, interceptedCount_pos_iff_onFirstFile]
  constructor
  · rintro (⟨o, hsince, ⟨row, hfirst, hfile⟩, hname⟩ | ⟨o, hsince, ⟨row, hfirst, hfile⟩, hname⟩)
    · have hclash : o.name = .read ∨ o.name = .write := by
        simpa [or_comm] using hname
      exact ⟨o, hsince, .write, row, hfirst, hfile, Or.inl ⟨rfl, hclash⟩⟩
    · exact ⟨o, hsince, .read, row, hfirst, hfile, Or.inr ⟨rfl, by simpa using hname⟩⟩
  · rintro ⟨o, hsince, name, row, hfirst, hfile, ⟨rfl, hname⟩ | ⟨rfl, hname⟩⟩
    · exact Or.inl ⟨o, hsince, ⟨row, hfirst, hfile⟩, by simpa [or_comm] using hname⟩
    · exact Or.inr ⟨o, hsince, ⟨row, hfirst, hfile⟩, by simpa using hname⟩

/-- **Detected conflicts.**  At every `prepare` of every run, a conflicting row
leads to a `vote_abort` exactly if some conflicting row is on a first file. -/
theorem run_prepare_conflict_iff {cfg : Config} (hauto : cfg.autoMode = true)
    {initial : SharedDirectory} {console : List Str} {requests : List Request}
    {before after : List Exchange} {transactionId : Str} {reply : Reply} {final : ServerState}
    (hrun : run cfg (.initial initial console) requests =
      some (before ++ (.prepare transactionId, reply) :: after, final)) :
    ∃ s, run cfg (.initial initial console) (before.map Prod.fst) = some (before, s) ∧
      (((∃ o, ConflictingRow s.log transactionId o) →
          reply = .ok (makeVoteAbortMessage transactionId)) ↔
        ((∃ o, ConflictingRow s.log transactionId o) →
          ∃ o, ConflictingRow s.log transactionId o ∧ OnFirstFile s.log transactionId o)) := by
  obtain ⟨s, next, hbefore, hhandle, -⟩ := run_split hrun
  refine ⟨s, hbefore, ?_⟩
  rw [reply_prepare_eq_voteAbort_iff hauto hhandle, canAutoCommitTransaction_eq_false_iff]
  constructor
  · intro hdetected hconflict
    obtain ⟨o, hsince, hfile⟩ := hdetected hconflict
    exact ⟨o, .of_onFirstFile hsince hfile, hfile⟩
  · intro hfirst hconflict
    obtain ⟨o, ⟨hsince, -⟩, hfile⟩ := hfirst hconflict
    exact ⟨o, hsince, hfile⟩

/-- A transaction that first writes another file is let through, although a
committed transaction has written its second file in the meantime. -/
theorem run_prepare_misses_second_file :
    ∃ exchanges s next o,
      run ⟨true⟩ (.initial (fun _ => none) [])
          [.write (text "T") (text "g") (text "1"), .write (text "T") (text "f") (text "2"),
            .write (text "U") (text "f") (text "3"), .prepare (text "U"),
            .globalCommit (text "U")] = some (exchanges, s) ∧
      ConflictingRow s.log (text "T") o ∧
      handleRequest ⟨true⟩ s (.prepare (text "T")) =
        some (.ok (makeVoteCommitMessage (text "T")), next) ∧
      makeVoteCommitMessage (text "T") ≠ makeVoteAbortMessage (text "T") := by
  refine ⟨_, _, _, ⟨3, .write, text "U", text "f", text "3"⟩, rfl, ?_, rfl, by decide⟩
  exact ⟨⟨by decide, by decide, by decide, _, rfl, by decide⟩,
    ⟨2, .write, text "T", text "f", text "2"⟩, by decide, by decide, by decide,
    Or.inl ⟨rfl, Or.inr rfl⟩⟩

theorem run_prepare_conflict_iff_first_file :
    ∃ before reply final s,
      run ⟨true⟩ (.initial (fun _ => none) [])
          [.read (text "T") (text "f"), .write (text "U") (text "f") (text "1"),
            .globalCommit (text "U"), .prepare (text "T")] =
        some (before ++ (.prepare (text "T"), reply) :: [], final) ∧
      run ⟨true⟩ (.initial (fun _ => none) []) (before.map Prod.fst) = some (before, s) ∧
      (((∃ o, ConflictingRow s.log (text "T") o) →
          reply = .ok (makeVoteAbortMessage (text "T"))) ↔
        ((∃ o, ConflictingRow s.log (text "T") o) →
          ∃ o, ConflictingRow s.log (text "T") o ∧ OnFirstFile s.log (text "T") o)) := by
  have hsplit : ∃ before reply final,
      run ⟨true⟩ (.initial (fun _ => none) [])
          [.read (text "T") (text "f"), .write (text "U") (text "f") (text "1"),
            .globalCommit (text "U"), .prepare (text "T")] =
        some (before ++ (.prepare (text "T"), reply) :: [], final) :=
    ⟨[_, _, _], _, _, rfl⟩
  obtain ⟨before, reply, final, hrun⟩ := hsplit
  obtain ⟨s, hbefore, hiff⟩ := run_prepare_conflict_iff rfl hrun
  exact ⟨before, reply, final, s, hrun, hbefore, hiff⟩

/-! ## Transactions on one file -/

/-- The first read of a transaction that reads one file only. -/
theorem firstRead_of_single {history : History Str Str Str} {transaction file : Str}
    (hsingle : ∀ act ∈ history, act.owner = transaction →
      ∀ key ∈ act.key?, key = file)
    (hread : Act.read transaction file ∈ history) :
    firstRead history transaction = some file := by
  have hmem : file ∈ readsOf history transaction := mem_readsOf_iff.mpr hread
  obtain ⟨key, hkey⟩ : ∃ key, firstRead history transaction = some key := by
    unfold firstRead
    cases hreads : readsOf history transaction with
    | nil => simp [hreads] at hmem
    | cons key rest => exact ⟨key, rfl⟩
  obtain ⟨act, hact, howner, hnames⟩ := key?_of_firstRead hkey
  rw [hkey, hsingle act hact howner key hnames]

/-- The first write of a transaction that writes one file only. -/
theorem firstWritten_of_single {history : History Str Str Str} {transaction file : Str}
    (hsingle : ∀ act ∈ history, act.owner = transaction →
      ∀ key ∈ act.key?, key = file)
    (hwrites : writesOf history transaction ≠ []) :
    firstWritten history transaction = some file := by
  obtain ⟨key, hkey⟩ : ∃ key, firstWritten history transaction = some key := by
    unfold firstWritten
    cases hlist : writesOf history transaction with
    | nil => exact absurd hlist hwrites
    | cons write rest => exact ⟨write.1, rfl⟩
  obtain ⟨act, hact, howner, hnames⟩ := key?_of_firstWritten hkey
  rw [hkey, hsingle act hact howner key hnames]

/-- For a transaction on one file that it has read, the vote looks for writes of
the file and, if the transaction has written too, for reads of it. -/
theorem intercepted_single_iff {history : History Str Str Str} {transaction file : Str}
    (hsingle : ∀ act ∈ history, act.owner = transaction →
      ∀ key ∈ act.key?, key = file)
    (hread : Act.read transaction file ∈ history) :
    Intercepted history transaction ↔
      ∃ other, other ≠ transaction ∧ Act.commit other ∈ history ∧
        ((∃ content, Act.write other file content ∈ since history transaction) ∨
          (writesOf history transaction ≠ [] ∧
            Act.read other file ∈ since history transaction)) := by
  have hfirstRead := firstRead_of_single hsingle hread
  constructor
  · rintro ⟨other, hother, hcommit, act, hact, rfl, hclash⟩
    refine ⟨act.owner, hother, hcommit, ?_⟩
    -- both files the vote looks at are the one file
    rcases hclash with ⟨key, hfirst, hkey⟩ | ⟨key, content, hfirst, hwrite⟩
    · have hwrites : writesOf history transaction ≠ [] := by
        intro hnil
        simp [firstWritten, hnil] at hfirst
      obtain rfl : file = key := by
        rw [firstWritten_of_single hsingle hwrites] at hfirst
        exact Option.some.inj hfirst
      rcases Act.read_or_write_of_key? hkey with hact' | ⟨content, hact'⟩
      · rw [hact'] at hact
        exact Or.inr ⟨hwrites, hact⟩
      · rw [hact'] at hact
        exact Or.inl ⟨content, hact⟩
    · obtain rfl : file = key := by
        rw [hfirstRead] at hfirst
        exact Option.some.inj hfirst
      rw [Act.eq_write_of_write? hwrite] at hact
      exact Or.inl ⟨content, hact⟩
  · rintro ⟨other, hother, hcommit, ⟨content, hwrite⟩ | ⟨hwrites, hreadOther⟩⟩
    · exact ⟨other, hother, hcommit, _, hwrite, rfl, Or.inr ⟨file, content, hfirstRead, rfl⟩⟩
    · exact ⟨other, hother, hcommit, _, hreadOther, rfl,
        Or.inl ⟨file, firstWritten_of_single hsingle hwrites, rfl⟩⟩

/-- At every `prepare` of a run, the reply is negative exactly if another
transaction intercepts the transaction in the log written so far. -/
theorem run_prepare_eq_voteAbort_iff {cfg : Config} (hauto : cfg.autoMode = true)
    {initial : SharedDirectory} {console : List Str} {requests : List Request}
    {before after : List Exchange} {transactionId : Str} {reply : Reply} {final : ServerState}
    (hrun : run cfg (.initial initial console) requests =
      some (before ++ (.prepare transactionId, reply) :: after, final)) :
    reply = .ok (makeVoteAbortMessage transactionId) ↔
      Intercepted (recorded before) (cString transactionId) := by
  obtain ⟨s, next, hbefore, hhandle, -⟩ := run_split hrun
  have hvote := canAutoCommitTransaction_iff s.log transactionId
  rw [(run_spec hbefore).1] at hvote
  rw [reply_prepare_eq_voteAbort_iff hauto hhandle, ← Bool.not_eq_true, hvote, not_not]

/-- **Votes on one file.**  A transaction that has read one file and touched no
other is turned down exactly if a committed transaction has logged, after the
transaction's first row, a write of the file or, for a transaction that has also
written it, a read of the file. -/
theorem run_prepare_single_file_iff {cfg : Config} (hauto : cfg.autoMode = true)
    {initial : SharedDirectory} {console : List Str} {requests : List Request}
    {before after : List Exchange} {transactionId : Str} {reply : Reply} {final : ServerState}
    (file : Str)
    (hrun : run cfg (.initial initial console) requests =
      some (before ++ (.prepare transactionId, reply) :: after, final))
    (hsingle : ∀ act ∈ recorded before, act.owner = cString transactionId →
      ∀ key ∈ act.key?, key = file)
    (hread : Act.read (cString transactionId) file ∈ recorded before) :
    reply = .ok (makeVoteAbortMessage transactionId) ↔
      ∃ other, other ≠ cString transactionId ∧ Act.commit other ∈ recorded before ∧
        ((∃ content, Act.write other file content ∈
            since (recorded before) (cString transactionId)) ∨
          (writesOf (recorded before) (cString transactionId) ≠ [] ∧
            Act.read other file ∈ since (recorded before) (cString transactionId))) := by
  rw [run_prepare_eq_voteAbort_iff hauto hrun, intercepted_single_iff hsingle hread]

/-- A write that was logged before the transaction began is not noticed, even if
it is committed after the transaction has read the file. -/
theorem run_prepare_misses_earlier_write :
    ∃ final,
      run ⟨true⟩ (.initial (fun _ => none) [])
          [.write (text "U") (text "f") (text "new"), .read (text "T") (text "f"),
            .prepare (text "U"), .globalCommit (text "U"),
            .write (text "T") (text "f") (text "own"), .prepare (text "T"),
            .globalCommit (text "T")] =
        some ([(.write (text "U") (text "f") (text "new"),
              .ok (makeWriteResponseMessage (text "U"))),
            (.read (text "T") (text "f"),
              .ok (makeReadResponseMessage (text "T") (text "f") (text ""))),
            (.prepare (text "U"), .ok (makeVoteCommitMessage (text "U"))),
            (.globalCommit (text "U"), .ok (makeVoteCommitMessage (text "U"))),
            (.write (text "T") (text "f") (text "own"),
              .ok (makeWriteResponseMessage (text "T"))),
            (.prepare (text "T"), .ok (makeVoteCommitMessage (text "T"))),
            (.globalCommit (text "T"), .ok (makeVoteCommitMessage (text "T")))], final) ∧
      makeVoteCommitMessage (text "T") ≠ makeVoteAbortMessage (text "T") :=
  ⟨_, rfl, by decide⟩

theorem run_prepare_single_file_iff_later_write :
    ∃ reply final,
      run ⟨true⟩ (.initial (fun _ => none) [])
          [.read (text "T") (text "f"), .write (text "U") (text "f") (text "new"),
            .prepare (text "U"), .globalCommit (text "U"), .prepare (text "T")] =
        some ([(.read (text "T") (text "f"),
              .ok (makeReadResponseMessage (text "T") (text "f") (text ""))),
            (.write (text "U") (text "f") (text "new"),
              .ok (makeWriteResponseMessage (text "U"))),
            (.prepare (text "U"), .ok (makeVoteCommitMessage (text "U"))),
            (.globalCommit (text "U"), .ok (makeVoteCommitMessage (text "U")))] ++
          (.prepare (text "T"), reply) :: [], final) ∧
      reply = .ok (makeVoteAbortMessage (text "T")) := by
  have hvote : ∀ {reply final},
      run ⟨true⟩ (.initial (fun _ => none) [])
          [.read (text "T") (text "f"), .write (text "U") (text "f") (text "new"),
            .prepare (text "U"), .globalCommit (text "U"), .prepare (text "T")] =
        some ([(.read (text "T") (text "f"),
              .ok (makeReadResponseMessage (text "T") (text "f") (text ""))),
            (.write (text "U") (text "f") (text "new"),
              .ok (makeWriteResponseMessage (text "U"))),
            (.prepare (text "U"), .ok (makeVoteCommitMessage (text "U"))),
            (.globalCommit (text "U"), .ok (makeVoteCommitMessage (text "U")))] ++
          (.prepare (text "T"), reply) :: [], final) →
      reply = .ok (makeVoteAbortMessage (text "T")) := by
    intro reply final hrun
    rw [run_prepare_single_file_iff rfl (text "f") hrun (by decide) (by decide)]
    exact ⟨text "U", by decide, by decide, Or.inl ⟨text "new", by decide⟩⟩
  exact ⟨_, _, rfl, hvote rfl⟩

/-! ## Undecided transactions -/

/-- The entries of a transaction and of the committed transactions. -/
def committedView (history : History Str Str Str) (transaction : Str) : History Str Str Str :=
  history.filter fun act => act.owner = transaction ∨ Act.commit act.owner ∈ history

/-- Two transactions conflict: they name a common file, and one of them writes
it. -/
def Conflict (history : History Str Str Str) (first second : Str) : Prop :=
  ∃ act ∈ history, ∃ act' ∈ history, act.owner = first ∧ act'.owner = second ∧
    act.key?.isSome ∧ act.key? = act'.key? ∧ (act.write?.isSome ∨ act'.write?.isSome)

instance (history : History Str Str Str) (first second : Str) :
    Decidable (Conflict history first second) :=
  inferInstanceAs (Decidable (∃ act ∈ history, ∃ act' ∈ history, _))

/-- The vote is computed from the committed view. -/
theorem intercepted_committedView (history : History Str Str Str) (transaction : Str) :
    Intercepted (committedView history transaction) transaction ↔
      Intercepted history transaction := by
  apply intercepted_filter
  · intro act howner
    exact decide_eq_true (Or.inl howner)
  · rintro other hcommit act rfl
    exact decide_eq_true (Or.inr hcommit)

/-- **What a positive vote promises.**  After any two runs that agree on the
rows of a transaction and of the committed ones, the transaction gets the same
vote, so no undecided transaction stands in the way of another.  In a run that
asks for votes one transaction at a time there are never two undecided
transactions with a positive vote, conflicting or not. -/
theorem run_undecided_votes {cfg : Config} (hauto : cfg.autoMode = true)
    {initial : SharedDirectory} {console : List Str} {requests : List Request}
    {exchanges : List Exchange} {s : ServerState}
    (hrun : run cfg (.initial initial console) requests = some (exchanges, s)) :
    (∀ initial' console' requests' exchanges' s',
      run cfg (.initial initial' console') requests' = some (exchanges', s') →
      ∀ transactionId, committedView (recorded exchanges) (cString transactionId) =
          committedView (recorded exchanges') (cString transactionId) →
        (handleRequest cfg s (.prepare transactionId)).map Prod.fst =
          (handleRequest cfg s' (.prepare transactionId)).map Prod.fst) ∧
    (Obeys VotesAlone (recorded exchanges) →
      ∀ first second, Outstanding s.log.history first → Outstanding s.log.history second →
        first = second) := by
  constructor
  · intro initial' console' requests' exchanges' s' hrun' transactionId hview
    rw [← (run_spec hrun).1, ← (run_spec hrun').1] at hview
    obtain ⟨reply, next, hhandle⟩ := handleRequest_isSome cfg hauto s (.prepare transactionId)
    obtain ⟨reply', next', hhandle'⟩ := handleRequest_isSome cfg hauto s' (.prepare transactionId)
    have hsame : canAutoCommitTransaction s.log transactionId =
        canAutoCommitTransaction s'.log transactionId := by
      rw [Bool.eq_iff_iff, canAutoCommitTransaction_iff, canAutoCommitTransaction_iff,
        ← intercepted_committedView, hview, intercepted_committedView]
    rw [hhandle, hhandle', reply_prepare hauto hhandle, reply_prepare hauto hhandle', hsame]
    rfl
  · intro halone first second hfirst hsecond
    rw [← (run_spec hrun).1] at halone
    exact outstanding_unique halone hfirst hsecond

/-- Two conflicting transactions can both hold a positive vote. -/
theorem run_two_outstanding_votes :
    ∃ s,
      run ⟨true⟩ (.initial (fun _ => none) [])
          [.write (text "T") (text "f") (text "1"), .write (text "U") (text "f") (text "2"),
            .prepare (text "T"), .prepare (text "U")] =
        some ([(.write (text "T") (text "f") (text "1"),
              .ok (makeWriteResponseMessage (text "T"))),
            (.write (text "U") (text "f") (text "2"),
              .ok (makeWriteResponseMessage (text "U"))),
            (.prepare (text "T"), .ok (makeVoteCommitMessage (text "T"))),
            (.prepare (text "U"), .ok (makeVoteCommitMessage (text "U")))], s) ∧
      Outstanding s.log.history (text "T") ∧ Outstanding s.log.history (text "U") ∧
      Conflict s.log.history (text "T") (text "U") :=
  ⟨_, rfl, by decide, by decide, by decide⟩

theorem run_undecided_votes_one_at_a_time :
    ∃ exchanges s,
      run ⟨true⟩ (.initial (fun _ => none) [])
          [.write (text "T") (text "f") (text "1"), .write (text "U") (text "f") (text "2"),
            .prepare (text "T"), .globalCommit (text "T"), .read (text "V") (text "f"),
            .prepare (text "V")] = some (exchanges, s) ∧
      Outstanding s.log.history (text "V") ∧
      ∀ second, Outstanding s.log.history second → text "V" = second := by
  have hunique : ∀ {exchanges s},
      run ⟨true⟩ (.initial (fun _ => none) [])
          [.write (text "T") (text "f") (text "1"), .write (text "U") (text "f") (text "2"),
            .prepare (text "T"), .globalCommit (text "T"), .read (text "V") (text "f"),
            .prepare (text "V")] = some (exchanges, s) →
      Obeys VotesAlone (recorded exchanges) → Outstanding s.log.history (text "V") →
      ∀ second, Outstanding s.log.history second → text "V" = second :=
    fun hrun halone hvoted second => (run_undecided_votes rfl hrun).2 halone _ second hvoted
  exact ⟨_, _, rfl, by decide, hunique rfl (by decide) (by decide)⟩

end DistributedFileServer
