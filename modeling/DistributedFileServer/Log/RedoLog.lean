import DistributedFileServer.Log.Serving

/-!
# The log as a redo log

The rows of `OPERATION` say what every read returned and what every global
commit did to the shared directory.  Redoing the log means going through the
rows in the order of their ids and laying, at every `global_commit` row, the
transaction's write rows with smaller ids over the directory.
-/

namespace DistributedFileServer

open DeferredUpdate Dao Controller

/-- The rows with a smaller id. -/
def rowsBefore (rows : List Operation) (id : Nat) : List Operation :=
  rows.filter fun o => o.id < id

/-- The write rows of a transaction, in the order of their ids. -/
def writeRows (rows : List Operation) (transaction : Str) : List (Str × Str) :=
  (rows.filter fun o => o.transactionId = transaction ∧ o.name = .write).map
    fun o => (o.filename, o.data)

/-- The shared directory after redoing the rows on an initial one. -/
def redo (initial : SharedDirectory) (rows : List Operation) : SharedDirectory :=
  rows.foldl (fun directory o =>
    if o.name = .globalCommit then
      applyWrites (writeRows (rowsBefore rows o.id) o.transactionId) directory
    else
      directory) initial

/-- What a read by the transaction finds at a place of the log: the content of its
last write row of the file with a smaller id, or else the file as redone so far. -/
def redoneContent (initial : SharedDirectory) (rows : List Operation) (id : Nat)
    (transaction filename : Str) : Str :=
  ((lastValue (writeRows (rowsBefore rows id) transaction) filename).or
    (redo initial (rowsBefore rows id) filename)).getD []

/-! ## Rows and entries -/

/-- Ids ascend, so the rows with a smaller id are the rows before. -/
theorem rowsBefore_of_split {rows before after : List Operation} {o : Operation}
    (hascending : rows.Pairwise fun earlier later => earlier.id < later.id)
    (hsplit : rows = before ++ o :: after) : rowsBefore rows o.id = before := by
  subst hsplit
  obtain ⟨-, hrest, hacross⟩ := List.pairwise_append.mp hascending
  have hbefore : before.filter (fun r => r.id < o.id) = before := by
    rw [List.filter_eq_self]
    intro r hr
    exact decide_eq_true (hacross r hr o List.mem_cons_self)
  have hafter : (o :: after).filter (fun r => r.id < o.id) = [] := by
    rw [List.filter_eq_nil_iff]
    intro r hr
    rcases List.mem_cons.mp hr with rfl | hr
    · simp
    · have := (List.pairwise_cons.mp hrest).1 r hr
      simp only [decide_eq_true_eq]
      omega
  rw [rowsBefore, List.filter_append, hbefore, hafter, List.append_nil]

theorem writeRows_eq (rows : List Operation) (transaction : Str) :
    writeRows rows transaction = writesOf (rows.map Operation.entry) transaction := by
  unfold writeRows writesOf
  rw [List.filterMap_map, ← List.filterMap_eq_map, List.filterMap_filter]
  apply List.filterMap_congr
  intro o _
  simp only [Function.comp_apply, Operation.owner_entry, Operation.write?_entry]
  by_cases howner : o.transactionId = transaction
  · by_cases hname : o.name = .write <;> simp [howner, hname]
  · simp [howner]

/-- A row with the largest id leaves the rows before the others alone. -/
theorem rowsBefore_concat {rows : List Operation} {o r : Operation} (h : r.id < o.id) :
    rowsBefore (rows ++ [o]) r.id = rowsBefore rows r.id := by
  have hlater : ¬ o.id < r.id := by omega
  simp [rowsBefore, List.filter_append, hlater]

/-- **Redoing is replaying.** -/
theorem redo_eq_replay (initial : SharedDirectory) {rows : List Operation}
    (hascending : rows.Pairwise fun earlier later => earlier.id < later.id) :
    redo initial rows = replay initial (rows.map Operation.entry) := by
  induction rows using List.reverseRecOn with
  | nil => rfl
  | append_singleton rows o ih =>
      obtain ⟨hrows, -, hlast⟩ := List.pairwise_append.mp hascending
      -- the earlier rows do not see the last one
      have hearlier : redo initial rows = rows.foldl (fun directory r =>
          if r.name = .globalCommit then
            applyWrites (writeRows (rowsBefore (rows ++ [o]) r.id) r.transactionId) directory
          else
            directory) initial := by
        unfold redo
        apply List.foldl_ext
        intro directory r hr
        rw [rowsBefore_concat (hlast r hr o (List.mem_singleton_self _))]
      rw [List.map_append, List.map_singleton, replay_concat, ← ih hrows, hearlier]
      unfold redo
      rw [List.foldl_append, List.foldl_cons, List.foldl_nil,
        rowsBefore_of_split hascending rfl, writeRows_eq]
      unfold Operation.entry
      cases o.name <;> rfl

theorem redoneContent_of_split (initial : SharedDirectory) {rows before after : List Operation}
    {o : Operation} (hascending : rows.Pairwise fun earlier later => earlier.id < later.id)
    (hsplit : rows = before ++ o :: after) (transaction filename : Str) :
    redoneContent initial rows o.id transaction filename =
      (readValue initial (before.map Operation.entry) transaction filename).getD [] := by
  have hbefore : before.Pairwise fun earlier later => earlier.id < later.id := by
    rw [hsplit] at hascending
    exact (List.pairwise_append.mp hascending).1
  rw [redoneContent, rowsBefore_of_split hascending hsplit, writeRows_eq,
    redo_eq_replay initial hbefore]
  rfl

/-! ## The rows of a run -/

/-- A request appends at most one row, and a read row holds what the read found. -/
theorem rows_handleRequest {cfg : Config} {initial : SharedDirectory} {s next : ServerState}
    {request : Request} {reply : Reply}
    (hdirectory : s.sharedDirectory = replay initial s.log.history)
    (hhandle : handleRequest cfg s request = some (reply, next)) :
    next.log.rows = s.log.rows ∨ ∃ o, next.log.rows = s.log.rows ++ [o] ∧
      (o.name = .read → o.data =
        cString ((readValue initial s.log.history o.transactionId o.filename).getD [])) := by
  cases request with
  | read transactionId filename =>
      simp only [handleRequest, handleReadMessage, getFileContent_eq hdirectory,
        Option.some.injEq, Prod.mk.injEq] at hhandle
      obtain ⟨-, rfl⟩ := hhandle
      exact Or.inr ⟨_, rfl, fun _ => rfl⟩
  | write transactionId filename data =>
      obtain ⟨-, rfl⟩ := Prod.mk.inj (Option.some.inj hhandle)
      exact Or.inr ⟨_, rfl, fun hname => by cases hname⟩
  | prepare transactionId =>
      simp only [handleRequest, handlePrepareMessage] at hhandle
      split at hhandle
      · cases hhandle
      · obtain ⟨-, rfl⟩ := Prod.mk.inj (Option.some.inj hhandle)
        exact Or.inr ⟨_, rfl, fun hname => by cases hname⟩
      · obtain ⟨-, rfl⟩ := Prod.mk.inj (Option.some.inj hhandle)
        exact Or.inr ⟨_, rfl, fun hname => by cases hname⟩
  | globalCommit transactionId =>
      obtain ⟨-, rfl⟩ := Prod.mk.inj (Option.some.inj hhandle)
      exact Or.inr ⟨_, rfl, fun hname => by cases hname⟩
  | globalAbort transactionId =>
      obtain ⟨-, rfl⟩ := Prod.mk.inj (Option.some.inj hhandle)
      exact Or.inr ⟨_, rfl, fun hname => by cases hname⟩
  | unsupported transactionId =>
      obtain ⟨-, rfl⟩ := Prod.mk.inj (Option.some.inj hhandle)
      exact Or.inl rfl

/-- Every read row of a run holds, up to the first NUL byte, what the log before
it lets the reader find. -/
theorem data_of_readRow {cfg : Config} {initial : SharedDirectory} {console : List Str}
    {requests : List Request} {exchanges : List Exchange} {s : ServerState}
    (hrun : run cfg (.initial initial console) requests = some (exchanges, s))
    {before after : List Operation} {o : Operation} (hsplit : s.log.rows = before ++ o :: after)
    (hname : o.name = .read) :
    o.data = cString
      ((readValue initial (before.map Operation.entry) o.transactionId o.filename).getD []) := by
  have hinvariant : s.sharedDirectory = replay initial s.log.history ∧
      ∀ before o after, s.log.rows = before ++ o :: after → o.name = .read → o.data = cString
        ((readValue initial (before.map Operation.entry) o.transactionId o.filename).getD []) := by
    refine run_induction (P := fun _ s => s.sharedDirectory = replay initial s.log.history ∧
      ∀ before o after, s.log.rows = before ++ o :: after → o.name = .read → o.data = cString
        ((readValue initial (before.map Operation.entry) o.transactionId o.filename).getD []))
      ⟨rfl, ?_⟩ ?_ hrun
    · intro before o after hnil
      simp [ServerState.initial, initDatabase] at hnil
    · intro _ s request reply next ⟨hdirectory, hrows⟩ hhandle
      obtain ⟨-, -, -, hnext, -⟩ := handleRequest_spec hdirectory hhandle
      refine ⟨hnext, ?_⟩
      intro before o after hsplit hname
      rcases rows_handleRequest hdirectory hhandle with hsame | ⟨last, happend, hread⟩
      · exact hrows before o after (hsame ▸ hsplit) hname
      · rw [happend] at hsplit
        -- the row is the appended one, or it was there before
        rcases List.eq_nil_or_concat after with rfl | ⟨rest, row, rfl⟩
        · obtain ⟨rfl, hlast⟩ := List.append_inj' hsplit rfl
          obtain rfl : last = o := by simpa using hlast
          exact hread hname
        · rw [List.concat_eq_append, ← List.cons_append, ← List.append_assoc] at hsplit
          exact hrows before o rest (List.append_inj' hsplit rfl).1 hname
  exact hinvariant.2 before o after hsplit hname

/-- What is read in a history without NUL bytes has none. -/
theorem nulFree_readValue {initial : SharedDirectory}
    (hinitial : ∀ filename content, initial filename = some content → NulFree content)
    {rows : List Operation} (hstored : ∀ o ∈ rows, o.Stored) (transaction filename : Str) :
    NulFree ((readValue initial (rows.map Operation.entry) transaction filename).getD []) := by
  cases hvalue : readValue initial (rows.map Operation.entry) transaction filename with
  | none => exact List.not_mem_nil
  | some content =>
      refine forall_value_readValue hinitial ?_ hvalue
      intro owner key value hwrite
      obtain ⟨o, ho, hentry⟩ := List.mem_map.mp hwrite
      have hdata : o.entry.write? = some (key, value) := by
        rw [hentry]
        rfl
      rw [Operation.write?_entry] at hdata
      split_ifs at hdata
      obtain ⟨-, rfl⟩ : o.filename = key ∧ o.data = value := by simpa using hdata
      exact (hstored o ho).data

/-- **The log is a complete redo log.**  After every run, the shared directory is
the one that redoing the log produces.  If the files held no NUL byte at the
start, every read row holds what the reader finds in the log before it.  The
contents go through the streams unchanged; `Streamed.run_text` is about those that
translate line ends. -/
theorem run_redo_log {cfg : Config} {initial : SharedDirectory} {console : List Str}
    {requests : List Request} {exchanges : List Exchange} {s : ServerState}
    (hrun : run cfg (.initial initial console) requests = some (exchanges, s)) :
    s.sharedDirectory = redo initial s.log.rows ∧
      ((∀ filename content, initial filename = some content → NulFree content) →
        ∀ o ∈ s.log.rows, o.name = .read →
          o.data = redoneContent initial s.log.rows o.id o.transactionId o.filename) := by
  obtain ⟨-, hdirectory⟩ := run_spec hrun
  constructor
  · rw [redo_eq_replay initial s.log.ascending]
    exact hdirectory
  · intro hinitial o ho hname
    obtain ⟨before, after, hsplit⟩ := List.append_of_mem ho
    have hstored : ∀ r ∈ before, r.Stored := by
      intro r hr
      apply s.log.stored
      rw [hsplit]
      exact List.mem_append_left _ hr
    rw [redoneContent_of_split initial s.log.ascending hsplit, data_of_readRow hrun hsplit hname]
    exact cString_of_nulFree (nulFree_readValue hinitial hstored _ _)

/-- `U` reads a file before and after `T` overwrites it. -/
theorem run_redo_log_reads :
    ∃ exchanges s, run ⟨true⟩
        (.initial (Function.update (fun _ => none) (text "f") (some (text "x"))) [])
        [.read (text "U") (text "f"), .write (text "T") (text "f") (text "y"),
          .globalCommit (text "T"), .read (text "U") (text "f")] = some (exchanges, s) ∧
      s.sharedDirectory =
        redo (Function.update (fun _ => none) (text "f") (some (text "x"))) s.log.rows ∧
      ∀ o ∈ s.log.rows, o.name = .read → o.data =
        redoneContent (Function.update (fun _ => none) (text "f") (some (text "x")))
          s.log.rows o.id o.transactionId o.filename := by
  have hinitial : ∀ filename content,
      Function.update (fun _ => none) (text "f") (some (text "x")) filename = some content →
      NulFree content := by
    intro filename content hcontent
    rw [Function.update_apply] at hcontent
    split_ifs at hcontent
    obtain rfl : text "x" = content := Option.some.inj hcontent
    decide
  obtain ⟨exchanges, s, hrun⟩ := run_isSome ⟨true⟩ rfl
    (.initial (Function.update (fun _ => none) (text "f") (some (text "x"))) [])
    [.read (text "U") (text "f"), .write (text "T") (text "f") (text "y"),
      .globalCommit (text "T"), .read (text "U") (text "f")]
  obtain ⟨hdirectory, hreads⟩ := run_redo_log hrun
  exact ⟨exchanges, s, hrun, hdirectory, hreads hinitial⟩

end DistributedFileServer
