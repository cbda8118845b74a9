import DistributedFileServer.Failures.ServeSpecs

/-!
# What comes back from the disk

A content that was written, committed and not overwritten since is read as the
streams bring it back.  In text mode that is the content up to its first
end-of-file byte.  The transaction that wrote it reads it from the log before it
commits, where no stream is in between.
-/

namespace DistributedFileServer

open Programs DeferredUpdate

variable {κ : Type} [DecidableEq κ]

namespace Streamed

/-! ## One request -/

section Step

variable {mode : StreamMode} {system : System κ} {s next : Stores κ} {request : Request}
  {reply : Ptree}

/-- The other requests touch no file. -/
theorem step_eq (hread : ∀ transactionId filename, request ≠ .read transactionId filename)
    (hcommit : ∀ transactionId, request ≠ .globalCommit transactionId) :
    step mode system s request = s.handleRequest system request := by
  cases request with
  | read transactionId filename => exact absurd rfl (hread transactionId filename)
  | globalCommit transactionId => exact absurd rfl (hcommit transactionId)
  | _ => rfl

/-- **The log after a request.**  At most one row is added, and it is a write only for
a write request. -/
theorem log_step (h : step mode system s request = some (reply, next)) :
    next.log = s.log ∨ ∃ name filename fileContent,
      next.log = Dao.insertOperation s.log name request.transactionId filename fileContent ∧
      (name = .write → request = .write request.transactionId filename fileContent) := by
  cases request with
  | read transactionId filename =>
      obtain ⟨-, rfl⟩ := Prod.mk.inj (Option.some.inj h)
      exact Or.inr ⟨.read, filename, _, rfl, fun hname => by cases hname⟩
  | globalCommit transactionId =>
      obtain ⟨-, rfl⟩ := Prod.mk.inj (Option.some.inj h)
      exact Or.inr ⟨.globalCommit, [], [], rfl, fun hname => by cases hname⟩
  | _ =>
      rw [step_eq (by simp) (by simp)] at h
      exact Stores.log_handleRequest h

/-- **Frame.**  Only a global commit changes files. -/
theorem disk_step (h : step mode system s request = some (reply, next)) :
    next.files.disk = s.files.disk ∨ ∃ transactionId, request = .globalCommit transactionId ∧
      next.files = committedFiles mode system s transactionId := by
  cases request with
  | read transactionId filename =>
      obtain ⟨-, rfl⟩ := Prod.mk.inj (Option.some.inj h)
      left
      show (getStoredContent mode system s transactionId filename).2.disk = s.files.disk
      unfold getStoredContent
      cases Dao.lastFileContentFromThisTransaction s.log transactionId filename with
      | ok fileContent => rfl
      | error exception => exact Files.disk_openInput _ _
  | globalCommit transactionId =>
      obtain ⟨-, rfl⟩ := Prod.mk.inj (Option.some.inj h)
      exact Or.inr ⟨transactionId, rfl, rfl⟩
  | _ =>
      rw [step_eq (by simp) (by simp)] at h
      rcases disk_handleRequest h with hsame | ⟨transactionId, hcommit⟩
      · exact Or.inl hsame
      · cases hcommit

/-- A file that no write names stays as it was, whatever happens to the streams. -/
theorem disk_foldl_write_of_ne {locate : Str → κ} {encode : Str → Str} {file : κ}
    {writes : List (Str × Str)} (files : Files κ) (h : ∀ write ∈ writes, locate write.1 ≠ file) :
    (writes.foldl (fun files write => files.write (locate write.1) (encode write.2))
      files).disk file = files.disk file := by
  induction writes generalizing files with
  | nil => rfl
  | cons write writes ih =>
      rw [List.foldl_cons, ih _ fun later hlater => h later (List.mem_cons_of_mem _ hlater)]
      have hne : file ≠ locate write.1 := (h write List.mem_cons_self).symm
      unfold Files.write
      cases (files.outcome files.opened.length).transferred (encode write.2) with
      | none => rfl
      | some transferred => exact Function.update_of_ne hne _ _

end Step

/-! ## The last write of a transaction to a file -/

/-- This content is the last one the transaction has written to the file that the
filename leads to, and it used this filename. -/
def LastWritten (system : System κ) (table : OperationTable)
    (transactionId filename fileContent : Str) : Prop :=
  ∃ earlier later, Dao.getPendingWrites table transactionId =
      earlier ++ (cString filename, fileContent) :: later ∧
    ∀ write ∈ later, system.locate write.1 ≠ system.locate filename

section LastWrite

variable {system : System κ} {table : OperationTable} {transactionId filename fileContent : Str}

omit [DecidableEq κ] in
theorem lastWritten_insert (hcontent : NulFree fileContent) :
    LastWritten system
      (Dao.insertOperation table .write transactionId filename fileContent)
      transactionId filename fileContent := by
  refine ⟨Dao.getPendingWrites table transactionId, [], ?_, by simp⟩
  rw [getPendingWrites_eq, getPendingWrites_eq, history_insertOperation]
  show writesOf (table.history ++
    [.write (cString transactionId) (cString filename) (cString fileContent)]) _ = _
  rw [writesOf_concat_write, cString_of_nulFree hcontent]

omit [DecidableEq κ] in
/-- A row that is no later write of the transaction to the file. -/
theorem LastWritten.insert {name : OperationName} {owner other data : Str}
    (h : LastWritten system table transactionId filename fileContent)
    (hother : name = .write → cString owner = cString transactionId →
      system.locate other ≠ system.locate filename) :
    LastWritten system (Dao.insertOperation table name owner other data)
      transactionId filename fileContent := by
  obtain ⟨earlier, later, hwrites, hlater⟩ := h
  rw [getPendingWrites_eq] at hwrites
  by_cases hown : name = .write ∧ cString owner = cString transactionId
  · obtain ⟨rfl, howner⟩ := hown
    refine ⟨earlier, later ++ [(cString other, cString data)], ?_, ?_⟩
    · rw [getPendingWrites_eq, history_insertOperation]
      show writesOf (table.history ++
        [.write (cString owner) (cString other) (cString data)]) _ = _
      rw [howner, writesOf_concat_write, hwrites, List.append_assoc]
      rfl
    · intro write hwrite
      rcases List.mem_append.mp hwrite with hwrite | hwrite
      · exact hlater write hwrite
      · obtain rfl := List.mem_singleton.mp hwrite
        rw [system.locate_cString]
        exact hother rfl howner
  · refine ⟨earlier, later, ?_, hlater⟩
    rw [getPendingWrites_eq, history_insertOperation, writesOf_concat_of_ne ?_, hwrites]
    intro howner
    rw [Operation.owner_entry] at howner
    rw [Operation.write?_entry, if_neg fun hname => hown ⟨hname, howner⟩]

omit [DecidableEq κ] in
/-- The transaction finds it in the log. -/
theorem LastWritten.own (h : LastWritten system table transactionId filename fileContent) :
    Dao.lastFileContentFromThisTransaction table transactionId filename = .ok fileContent := by
  obtain ⟨earlier, later, hwrites, hlater⟩ := h
  rw [lastFileContentFromThisTransaction_eq, ← getPendingWrites_eq, hwrites,
    lastValue_of_split earlier fileContent]
  intro write hwrite heq
  apply hlater write hwrite
  rw [heq, system.locate_cString]

/-- The commit puts it on the disk, as the stream encodes it. -/
theorem LastWritten.disk_committedFiles {mode : StreamMode} {s : Stores κ}
    (h : LastWritten system s.log transactionId filename fileContent)
    (hcomplete : ∀ n < (Dao.getPendingWrites s.log transactionId).length,
      s.files.outcome (s.files.opened.length + n) = .complete) :
    (committedFiles mode system s transactionId).disk (system.locate filename) =
      some (mode.encode fileContent) := by
  obtain ⟨earlier, later, hwrites, hlater⟩ := h
  unfold committedFiles
  rw [disk_foldl_write_of_complete _ _ _ hcomplete, applyWrites_apply, hwrites, List.map_append,
    List.map_cons, system.locate_cString, lastValue_of_split, Option.some_or]
  intro write hwrite
  obtain ⟨later', hlater', rfl⟩ := List.mem_map.mp hwrite
  exact hlater later' hlater'

end LastWrite

/-! ## Runs -/

section Run

variable {mode : StreamMode} {system : System κ}

/-- A request that hangs ends the run. -/
theorem run_cons (world : World κ) (request : Request) (requests : List Request) :
    ((exec (handleRequest mode system request) world).1 = .error .hangs ∧
        (run mode system world (request :: requests)).2 =
          (exec (handleRequest mode system request) world).2) ∨
      ∀ requests, (run mode system world (request :: requests)).2 =
        (run mode system (exec (handleRequest mode system request) world).2 requests).2 := by
  cases hexec : exec (handleRequest mode system request) world with
  | mk result next =>
      cases result with
      | ok reply =>
          right
          intro requests
          rw [run, hexec]
      | error failure =>
          cases failure with
          | hangs =>
              left
              rw [run, hexec]
              exact ⟨rfl, rfl⟩
          | _ =>
              right
              intro requests
              rw [run, hexec]

/-- **Invariants of runs.**  What every request of the run keeps, in the world it finds,
holds at the end. -/
theorem run_keeps {P : OperationTable → Prop} {Q : Files κ → Prop} {world : World κ}
    {requests : List Request}
    (hstep : ∀ front request back, requests = front ++ request :: back →
      ∀ reply next,
        step mode system (run mode system world front).2.stores request = some (reply, next) →
        P (run mode system world front).2.database.table → Q (run mode system world front).2.files →
        P next.log ∧ Q next.files)
    (hlog : P world.database.table) (hfiles : Q world.files) :
    P (run mode system world requests).2.database.table ∧
      Q (run mode system world requests).2.files := by
  induction requests generalizing world with
  | nil => exact ⟨hlog, hfiles⟩
  | cons request requests ih =>
      have hfirst := exec_keeps (P := P) (Q := Q)
        (fun reply next h => hstep [] request requests rfl reply next h hlog hfiles) hlog hfiles
        (Prod.eta (exec (handleRequest mode system request) world)).symm
      rcases run_cons world request requests with ⟨-, hrun⟩ | hrun
      · rw [hrun]
        exact hfirst
      · rw [hrun]
        apply ih _ hfirst.1 hfirst.2
        intro front later back hsplit reply next
        rw [← hrun front]
        exact hstep (request :: front) later back (by rw [hsplit]; rfl) reply next

end Run

/-- Every stream that the global commit opens takes everything. -/
def StreamsComplete (world : World κ) (transactionId : Str) : Prop :=
  ∀ n < (Dao.getPendingWrites world.database.table transactionId).length,
    world.files.outcome (world.files.opened.length + n) = .complete

/-- The requests write nothing to the file for the transaction. -/
def NoLaterWrite (system : System κ) (requests : List Request) (transactionId filename : Str) :
    Prop :=
  ∀ owner other data, .write owner other data ∈ requests → cString owner = cString transactionId →
    system.locate other ≠ system.locate filename

/-- No request of the run is a global commit of a transaction that has written to the
file. -/
def NoCommit (mode : StreamMode) (system : System κ) (world : World κ) (requests : List Request)
    (filename : Str) : Prop :=
  ∀ front other back, requests = front ++ .globalCommit other :: back →
    ∀ write ∈ Dao.getPendingWrites (run mode system world front).2.database.table other,
      system.locate write.1 ≠ system.locate filename

section RoundTrip

variable {mode : StreamMode} {system : System κ} {world : World κ} {requests : List Request}
  {transactionId filename fileContent : Str}

omit [DecidableEq κ] in
theorem NoLaterWrite.of_append {front back : List Request}
    (h : NoLaterWrite system (front ++ back) transactionId filename) :
    NoLaterWrite system front transactionId filename :=
  fun owner other data hmem => h owner other data (List.mem_append_left back hmem)

/-- Between the write and the commit. -/
theorem LastWritten.run
    (h : LastWritten system world.database.table transactionId filename fileContent)
    (hrequests : NoLaterWrite system requests transactionId filename) :
    LastWritten system (run mode system world requests).2.database.table
      transactionId filename fileContent := by
  refine (run_keeps (P := fun table => LastWritten system table transactionId filename fileContent)
    (Q := fun _ => True) ?_ h trivial).1
  rintro front request back rfl reply next hstep hbefore -
  refine ⟨?_, trivial⟩
  rcases log_step hstep with hlog | ⟨name, other, data, hlog, hname⟩
  · rw [hlog]
    exact hbefore
  · rw [hlog]
    apply hbefore.insert
    intro hwrite howner
    have hrequest := hname hwrite
    exact hrequests _ other data (by rw [← hrequest]; simp) howner

/-- After the commit. -/
theorem disk_run {bytes : Str}
    (h : world.files.disk (system.locate filename) = some bytes)
    (hrequests : NoCommit mode system world requests filename) :
    (Streamed.run mode system world requests).2.files.disk (system.locate filename) =
      some bytes := by
  refine (run_keeps (P := fun _ => True)
    (Q := fun files => files.disk (system.locate filename) = some bytes) ?_ trivial h).2
  intro front request back hsplit reply next hstep _ hbefore
  refine ⟨trivial, ?_⟩
  rcases disk_step hstep with hsame | ⟨other, rfl, hfiles⟩
  · rw [hsame]
    exact hbefore
  · rw [hfiles]
    exact (disk_foldl_write_of_ne _ (hrequests front other back hsplit)).trans hbefore

/-- What a read answers. -/
theorem reply_read {after : World κ} {reply : Ptree}
    (hexec : exec (handleRequest mode system (.read transactionId filename)) world =
      (.ok reply, after)) :
    reply = makeReadResponseMessage transactionId filename
      (getStoredContent mode system world.stores transactionId filename).1 :=
  (Prod.mk.inj (Option.some.inj (step_of_ok hexec))).1.symm

omit [DecidableEq κ] in
/-- A transaction that has written the file reads its last write. -/
theorem LastWritten.getStoredContent
    (h : LastWritten system world.database.table transactionId filename fileContent) :
    (getStoredContent mode system world.stores transactionId filename).1 = fileContent := by
  have hlast : Dao.lastFileContentFromThisTransaction world.stores.log transactionId filename =
      .ok fileContent := h.own
  rw [Streamed.getStoredContent, hlast]

omit [DecidableEq κ] in
/-- Another one reads the disk. -/
theorem getStoredContent_of_disk {bytes : Str}
    (hwritten : Dao.fileWasWrittenInThisTransaction world.database.table transactionId filename =
      false)
    (hdisk : world.files.disk (system.locate filename) = some bytes) :
    (getStoredContent mode system world.stores transactionId filename).1 = mode.decode bytes := by
  unfold getStoredContent
  cases hlast : Dao.lastFileContentFromThisTransaction world.stores.log transactionId filename with
  | ok own =>
      have hyes := (fileWasWrittenInThisTransaction_iff_ok _ _ _).mpr ⟨own, hlast⟩
      cases hwritten.symm.trans hyes
  | error exception =>
      show ((world.files.disk (system.locate filename)).map mode.decode).getD [] = _
      rw [hdisk]
      rfl

end RoundTrip

/-- The content of a reply to a read. -/
theorem makeReadResponseMessage_inj {transactionId filename fileContent fileContent' : Str} :
    makeReadResponseMessage transactionId filename fileContent =
        makeReadResponseMessage transactionId filename fileContent' ↔
      fileContent = fileContent' := by
  constructor
  · intro h
    exact Option.some.inj (congrArg Ptree.data h)
  · rintro rfl
    rfl

/-- **The content on its way through the disk.**  A transaction writes a content and
commits it, with all streams taking everything.  Until another commit of the file, a
transaction that has not written it reads what the streams make of the content. -/
theorem getStoredContent_after_commit {mode : StreamMode} {system : System κ}
    {written before committed : World κ} {middle after : List Request}
    {T U f c : Str} {vote : Ptree}
    (hwritten : LastWritten system written.database.table T f c)
    (hmiddle : (run mode system written middle).2 = before)
    (hkept : NoLaterWrite system middle T f)
    (hcommit : exec (handleRequest mode system (.globalCommit T)) before = (.ok vote, committed))
    (hcomplete : StreamsComplete before T)
    (hquiet : NoCommit mode system committed after f)
    (hreader : Dao.fileWasWrittenInThisTransaction
      (run mode system committed after).2.database.table U f = false) :
    (getStoredContent mode system (run mode system committed after).2.stores U f).1 =
      mode.decode (mode.encode c) := by
  have hbefore : LastWritten system before.database.table T f c := by
    rw [← hmiddle]
    exact hwritten.run hkept
  have hdisk : committed.files.disk (system.locate f) = some (mode.encode c) := by
    have hnext := (Prod.mk.inj (Option.some.inj (step_of_ok hcommit))).2
    have hfiles : committed.files = committedFiles mode system before.stores T :=
      (congrArg Stores.files hnext).symm
    rw [hfiles]
    exact LastWritten.disk_committedFiles hbefore hcomplete
  exact getStoredContent_of_disk hreader (disk_run hdisk hquiet)

/-- **When a committed content survives the disk.**  A transaction writes a NUL-free
content and commits it, with all streams in text mode and taking everything.  Another
transaction, which has not written the file, reads it before the file is committed
again.  It reads just the content, like the transaction itself before its commit, if
and only if the content holds no end-of-file byte. -/
theorem committed_content_iff {system : System κ}
    {world written before committed later final : World κ} {middle after : List Request}
    {T U f c : Str} {acknowledged vote reply : Ptree} (hcontent : NulFree c)
    (hwrite : exec (handleRequest .text system (.write T f c)) world =
      (.ok acknowledged, written))
    (hmiddle : (run .text system written middle).2 = before)
    (hkept : NoLaterWrite system middle T f)
    (hcommit : exec (handleRequest .text system (.globalCommit T)) before =
      (.ok vote, committed))
    (hcomplete : StreamsComplete before T)
    (hafter : (run .text system committed after).2 = later)
    (hquiet : NoCommit .text system committed after f)
    (hreader : Dao.fileWasWrittenInThisTransaction later.database.table U f = false)
    (hread : exec (handleRequest .text system (.read U f)) later = (.ok reply, final)) :
    (reply = makeReadResponseMessage U f c ∧
      ∀ front back own left, middle = front ++ back →
        exec (handleRequest .text system (.read T f)) (run .text system written front).2 =
          (.ok own, left) →
        own = makeReadResponseMessage T f c) ↔
      LineEnds.endOfFile ∉ c := by
  have hlast : LastWritten system written.database.table T f c := by
    have hnext := (Prod.mk.inj (Option.some.inj (step_of_ok hwrite))).2
    have hlog : written.database.table = Dao.insertOperation world.database.table .write T f c :=
      (congrArg Stores.log hnext).symm
    rw [hlog]
    exact lastWritten_insert hcontent
  have hown : ∀ front back own left, middle = front ++ back →
      exec (handleRequest .text system (.read T f)) (run .text system written front).2 =
        (.ok own, left) →
      own = makeReadResponseMessage T f c := by
    intro front back own left hsplit hexec
    rw [hsplit] at hkept
    have hfront : LastWritten system (run .text system written front).2.database.table T f c :=
      hlast.run hkept.of_append
    rw [reply_read hexec, hfront.getStoredContent]
  have hreply : reply = makeReadResponseMessage U f (LineEnds.decode (LineEnds.encode c)) := by
    rw [reply_read hread, ← hafter]
    rw [← hafter] at hreader
    exact congrArg _ (getStoredContent_after_commit hlast hmiddle hkept hcommit hcomplete hquiet
      hreader)
  rw [hreply, makeReadResponseMessage_inj, LineEnds.decode_encode_eq_self_iff]
  constructor
  · intro h
    exact h.1
  · intro h
    exact ⟨h, hown⟩

/-- Nothing is logged yet, there are no files, and nothing fails. -/
def freshWorld : World Str where
  database :=
    { table := Dao.initDatabase, succeeds := fun _ => true, connections := 0, calls := [] }
  files := { disk := fun _ => none, outcome := fun _ => .complete, opened := [] }
  console := []

/-- The content `a`, end of file, `b` comes back as `a`. -/
theorem committed_content_cut :
    ∃ acknowledged vote written committed final, NulFree [97, 26, 98] ∧
      exec (handleRequest .text (.flat ⟨true⟩ fun _ => none)
        (.write (text "T") (text "f") [97, 26, 98])) freshWorld = (.ok acknowledged, written) ∧
      exec (handleRequest .text (.flat ⟨true⟩ fun _ => none) (.globalCommit (text "T"))) written =
        (.ok vote, committed) ∧
      StreamsComplete written (text "T") ∧
      Dao.fileWasWrittenInThisTransaction committed.database.table (text "U") (text "f") = false ∧
      exec (handleRequest .text (.flat ⟨true⟩ fun _ => none) (.read (text "U") (text "f")))
        committed = (.ok (makeReadResponseMessage (text "U") (text "f") [97]), final) := by
  exact ⟨_, _, _, _, _, by decide, rfl, rfl, fun _ _ => rfl, rfl, rfl⟩

/-- `T` writes `a` and a line end to `f`, reads it, and commits; `U` reads it. -/
theorem committed_content_iff_line :
    ∃ written before committed reply final,
      exec (handleRequest .text (.flat ⟨true⟩ fun _ => none)
        (.write (text "T") (text "f") [97, 13, 10])) freshWorld =
          (.ok (makeWriteResponseMessage (text "T")), written) ∧
      exec (handleRequest .text (.flat ⟨true⟩ fun _ => none) (.read (text "T") (text "f")))
        written = (.ok (makeReadResponseMessage (text "T") (text "f") [97, 13, 10]), before) ∧
      exec (handleRequest .text (.flat ⟨true⟩ fun _ => none) (.globalCommit (text "T")))
        before = (.ok (makeVoteCommitMessage (text "T")), committed) ∧
      exec (handleRequest .text (.flat ⟨true⟩ fun _ => none) (.read (text "U") (text "f")))
        committed = (.ok reply, final) ∧
      ((reply = makeReadResponseMessage (text "U") (text "f") [97, 13, 10] ∧
        ∀ front back own left, [.read (text "T") (text "f")] = front ++ back →
          exec (handleRequest .text (.flat ⟨true⟩ fun _ => none)
            (.read (text "T") (text "f")))
            (run .text (.flat ⟨true⟩ fun _ => none) written front).2 = (.ok own, left) →
          own = makeReadResponseMessage (text "T") (text "f") [97, 13, 10]) ↔
        LineEnds.endOfFile ∉ [97, 13, 10]) := by
  obtain ⟨written, hwrite, hwritten, hsucceeds⟩ : ∃ written,
      exec (handleRequest .text (.flat ⟨true⟩ fun _ => none)
        (.write (text "T") (text "f") [97, 13, 10])) freshWorld =
          (.ok (makeWriteResponseMessage (text "T")), written) ∧
      written.stores = freshWorld.stores.insert .write (text "T") (text "f") [97, 13, 10] ∧
      written.database.succeeds = fun _ => true := exec_of_succeeds rfl rfl
  obtain ⟨before, hown, hbefore, hsucceeds⟩ : ∃ before,
      exec (handleRequest .text (.flat ⟨true⟩ fun _ => none) (.read (text "T") (text "f")))
        written = (.ok (makeReadResponseMessage (text "T") (text "f") [97, 13, 10]), before) ∧
      before.stores = written.stores.insert .read (text "T") (text "f") [97, 13, 10] ∧
      before.database.succeeds = fun _ => true :=
    exec_of_succeeds hsucceeds (by rw [hwritten]; rfl)
  obtain ⟨committed, hcommit, hcommitted, hsucceeds⟩ : ∃ committed,
      exec (handleRequest .text (.flat ⟨true⟩ fun _ => none) (.globalCommit (text "T")))
        before = (.ok (makeVoteCommitMessage (text "T")), committed) ∧
      committed.stores =
        { before.stores with
          files := committedFiles .text (.flat ⟨true⟩ fun _ => none) before.stores
            (text "T") }.insert .globalCommit (text "T") [] [] ∧
      committed.database.succeeds = fun _ => true := exec_of_succeeds hsucceeds rfl
  have hcomplete : StreamsComplete before (text "T") := by
    intro n _
    show before.stores.files.outcome _ = .complete
    rw [hbefore, hwritten]
    rfl
  have hreader : Dao.fileWasWrittenInThisTransaction committed.stores.log (text "U") (text "f") =
      false := by
    rw [hcommitted, hbefore, hwritten]
    rfl
  have hstep : step .text (.flat ⟨true⟩ fun _ => none) committed.stores
      (.read (text "U") (text "f")) = some (_, _) := rfl
  obtain ⟨final, hread, -⟩ := exec_of_succeeds hsucceeds hstep
  have hmiddle : (run .text (.flat ⟨true⟩ fun _ => none) written
      [.read (text "T") (text "f")]).2 = before := by
    rw [run, hown]
    rfl
  have hafter : (run .text (.flat ⟨true⟩ fun _ => none) committed []).2 = committed := rfl
  refine ⟨written, before, committed, _, final, hwrite, hown, hcommit, hread, ?_⟩
  apply committed_content_iff (by decide) hwrite hmiddle _ hcommit hcomplete hafter _ hreader hread
  · intro owner other data hmem
    cases List.mem_singleton.mp hmem
  · intro front other back hsplit
    cases front with
    | nil => cases hsplit
    | cons request front => cases hsplit

end Streamed

end DistributedFileServer
