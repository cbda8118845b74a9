import DistributedFileServer.Filenames.Answers
import DistributedFileServer.Wire.Header
import DistributedFileServer.Wire.Printing

/-!
# How long responses get

A response repeats the content of a file, which came in the body of an earlier
request, and printing it makes it longer.  So the length of all responses is
bounded in the length of the bodies, but it is not bounded by the largest length
a header can hold, and a longer response gets no header.
-/

namespace DistributedFileServer

open Programs Framing Server

variable {κ : Type} [DecidableEq κ]

/-! ## What is stored -/

/-- The writes that are logged are short. -/
def ShortWrites (bound : Nat) (log : OperationTable) : Prop :=
  ∀ o ∈ log.rows, o.name = .write → o.data.length ≤ bound

/-- The files that somebody asks for are short, those that are there. -/
def ShortFiles (bound : Nat) (asked : κ → Prop) (files : Files κ) : Prop :=
  ∀ file content, asked file → files.disk file = some content → content.length ≤ bound

/-- A body asks for the file. -/
def AsksFor (system : System κ) (body : Str) (file : κ) : Prop :=
  ∃ tree transactionId filename, system.fromString body = some tree ∧
    Request.ofPtree tree = .ok (.read transactionId filename) ∧ system.locate filename = file

/-- One of the bodies asks for the file. -/
def AskedFor (system : System κ) (bodies : List Str) (file : κ) : Prop :=
  ∃ body ∈ bodies, AsksFor system body file

theorem shortWrites_initDatabase (bound : Nat) : ShortWrites bound Dao.initDatabase := by
  intro o ho
  cases ho

theorem length_cString_le (value : Str) : (cString value).length ≤ value.length :=
  (List.takeWhile_prefix _).length_le

theorem ShortWrites.insertOperation {bound : Nat} {log : OperationTable} {name : OperationName}
    {transactionId filename fileContent : Str} (h : ShortWrites bound log)
    (hcontent : name = .write → fileContent.length ≤ bound) :
    ShortWrites bound (Dao.insertOperation log name transactionId filename fileContent) := by
  intro o ho hname
  rcases List.mem_append.mp ho with hbefore | hnew
  · exact h o hbefore hname
  · obtain rfl := List.mem_singleton.mp hnew
    exact (length_cString_le fileContent).trans (hcontent hname)

/-- What is read back of a write is short. -/
theorem ShortWrites.lastFileContent {bound : Nat} {log : OperationTable}
    {transactionId filename fileContent : Str} (h : ShortWrites bound log)
    (hlast : Dao.lastFileContentFromThisTransaction log transactionId filename =
      .ok fileContent) :
    fileContent.length ≤ bound := by
  unfold Dao.lastFileContentFromThisTransaction at hlast
  split at hlast
  · next o hfound =>
      obtain rfl := Except.ok.inj hlast
      obtain ⟨ho, hselected⟩ := List.mem_filter.mp (List.mem_of_getLast? hfound)
      have hname : o.name = .write := (of_decide_eq_true hselected).2.2
      exact (length_cString_le o.data).trans (h o ho hname)
  · cases hlast

theorem ShortWrites.getPendingWrites {bound : Nat} {log : OperationTable} {transactionId : Str}
    {write : Str × Str} (h : ShortWrites bound log)
    (hwrite : write ∈ Dao.getPendingWrites log transactionId) : write.2.length ≤ bound := by
  obtain ⟨o, ho, hname, rfl⟩ := mem_getPendingWrites hwrite
  exact h o ho hname

omit [DecidableEq κ] in
theorem ShortFiles.contentOf {bound : Nat} {asked : κ → Prop} {files : Files κ}
    (h : ShortFiles bound asked files) {file : κ} (hasked : asked file) :
    (files.contentOf file).length ≤ bound := by
  unfold Files.contentOf
  cases hfile : files.disk file with
  | none => exact Nat.zero_le bound
  | some content => exact h file content hasked hfile

/-- A stream takes no more than it is given. -/
theorem ShortFiles.write {bound : Nat} {asked : κ → Prop} {files : Files κ}
    (h : ShortFiles bound asked files) (file : κ) {content : Str}
    (hcontent : content.length ≤ bound) :
    ShortFiles bound asked (files.write file content) := by
  intro other found hother hfound
  simp only [Files.write] at hfound
  cases htransferred : (files.outcome files.opened.length).transferred content with
  | none =>
      rw [htransferred] at hfound
      exact h other found hother hfound
  | some transferred =>
      rw [htransferred] at hfound
      simp only [Function.update_apply] at hfound
      split at hfound
      · obtain rfl := Option.some.inj hfound
        have htaken : transferred.length ≤ content.length := by
          cases houtcome : files.outcome files.opened.length with
          | notOpened => simp [houtcome, FileOutcome.transferred] at htransferred
          | partly count =>
              simp only [houtcome, FileOutcome.transferred, Option.some.injEq] at htransferred
              rw [← htransferred, List.length_take]
              omega
          | complete =>
              simp only [houtcome, FileOutcome.transferred, Option.some.injEq] at htransferred
              rw [htransferred]
        omega
      · exact h other found hother hfound

theorem ShortFiles.foldl_write {bound : Nat} {asked : κ → Prop} {files : Files κ}
    (h : ShortFiles bound asked files) (locate : Str → κ) {writes : List (Str × Str)}
    (hwrites : ∀ write ∈ writes, write.2.length ≤ bound) :
    ShortFiles bound asked
      (writes.foldl (fun files write => files.write (locate write.1) write.2) files) := by
  induction writes generalizing files with
  | nil => exact h
  | cons write writes ih =>
      exact ih (h.write _ (hwrites write List.mem_cons_self)) fun later hlater =>
        hwrites later (List.mem_cons_of_mem _ hlater)

/-! ## Requests -/

section Bound

variable {system : System κ} {bound : Nat} {asked : κ → Prop}

omit [DecidableEq κ] in
/-- The content that is read is short. -/
theorem length_getFileContent_le {s : Stores κ} (hlog : ShortWrites bound s.log)
    (hfiles : ShortFiles bound asked s.files) (transactionId : Str) {filename : Str}
    (hasked : asked (system.locate filename)) :
    (s.getFileContent system transactionId filename).1.length ≤ bound := by
  unfold Stores.getFileContent
  cases hlast : Dao.lastFileContentFromThisTransaction s.log transactionId filename with
  | ok fileContent => exact hlog.lastFileContent hlast
  | error exception => exact hfiles.contentOf hasked

/-- A request in a body that is short keeps the contents short. -/
theorem keeps_short {s next : Stores κ} {request : Request} {reply : Ptree}
    (hlog : ShortWrites bound s.log) (hfiles : ShortFiles bound asked s.files)
    (hrequest : request.size ≤ bound)
    (hnext : s.handleRequest system request = some (reply, next)) :
    ShortWrites bound next.log ∧ ShortFiles bound asked next.files := by
  refine ⟨?_, ?_⟩
  · rcases Stores.log_handleRequest hnext with hsame | ⟨name, filename, fileContent, hadded, hwrite⟩
    · rw [hsame]
      exact hlog
    · rw [hadded]
      apply hlog.insertOperation
      intro hname
      rw [hwrite hname, Request.size] at hrequest
      omega
  · rcases Stores.files_handleRequest hnext with hsame | ⟨transactionId, filename, -, hopened⟩ |
      ⟨transactionId, -, hwritten⟩
    · rw [hsame]
      exact hfiles
    · rw [hopened]
      intro file content hasked hfile
      rw [Files.disk_openInput] at hfile
      exact hfiles file content hasked hfile
    · rw [hwritten]
      exact hfiles.foldl_write _ fun write hwrite => hlog.getPendingWrites hwrite

/-- A response holds texts of the request, its own name and the content that was read. -/
theorem size_reply_le {s next : Stores κ} {request : Request} {reply : Ptree}
    (hlog : ShortWrites bound s.log) (hfiles : ShortFiles bound asked s.files)
    (hasked : ∀ transactionId filename, request = .read transactionId filename →
      asked (system.locate filename))
    (hnext : s.handleRequest system request = some (reply, next)) :
    reply.size ≤ request.size + bound + 14 := by
  have hcommit : msgVoteCommit.length = 11 := rfl
  have habort : msgVoteAbort.length = 10 := rfl
  cases request with
  | read transactionId filename =>
      have hreply : makeReadResponseMessage transactionId filename
          (s.getFileContent system transactionId filename).1 = reply :=
        (Prod.mk.inj (Option.some.inj hnext)).1
      have hcontent : (s.getFileContent system transactionId filename).1.length ≤ bound :=
        length_getFileContent_le hlog hfiles transactionId (hasked transactionId filename rfl)
      rw [← hreply, size_makeReadResponseMessage, Request.size]
      omega
  | write transactionId filename data =>
      obtain ⟨rfl, -⟩ := Prod.mk.inj (Option.some.inj hnext)
      have hname : msgWriteResponse.length = 14 := rfl
      rw [makeWriteResponseMessage, size_makeSimpleMessage, hname, Request.size]
      omega
  | prepare transactionId =>
      obtain ⟨console, -, ⟨rfl, -⟩ | ⟨rfl, -⟩⟩ := Stores.handleRequest_prepare hnext
      · rw [makeVoteCommitMessage, size_makeSimpleMessage, hcommit, Request.size]
        omega
      · rw [makeVoteAbortMessage, size_makeSimpleMessage, habort, Request.size]
        omega
  | globalCommit transactionId =>
      obtain ⟨rfl, -⟩ := Prod.mk.inj (Option.some.inj hnext)
      rw [makeVoteCommitMessage, size_makeSimpleMessage, hcommit, Request.size]
      omega
  | globalAbort transactionId =>
      obtain ⟨rfl, -⟩ := Prod.mk.inj (Option.some.inj hnext)
      rw [makeVoteAbortMessage, size_makeSimpleMessage, habort, Request.size]
      omega
  | unsupported transactionId =>
      obtain ⟨rfl, -⟩ := Prod.mk.inj (Option.some.inj hnext)
      have hname : msgUnsupported.length = 11 := rfl
      rw [makeUnsupportedMessage, size_makeSimpleMessage, hname, Request.size]
      omega

/-- What holds of the contents and the response after a request, also if it fails. -/
theorem exec_short {world after : World κ} {request : Request} {result : Except Failure Ptree}
    (hlog : ShortWrites bound world.database.table)
    (hfiles : ShortFiles bound asked world.files) (hrequest : request.size ≤ bound)
    (hasked : ∀ transactionId filename, request = .read transactionId filename →
      asked (system.locate filename))
    (hexec : exec (Serve.handleRequest system request) world = (result, after)) :
    (ShortWrites bound after.database.table ∧ ShortFiles bound asked after.files) ∧
      ∀ reply, result = .ok reply → reply.size ≤ 2 * bound + 14 := by
  refine ⟨exec_keeps (fun reply next hnext => keeps_short hlog hfiles hrequest hnext)
    hlog hfiles hexec, ?_⟩
  rintro reply rfl
  have hsize := size_reply_le (s := world.stores) hlog hfiles hasked (handleRequest_of_ok hexec)
  omega

theorem exec_calculateResponse_short {world after : World κ} {body : Str}
    {result : Except Failure Ptree}
    (hreads : ∀ body tree, system.fromString body = some tree → tree.size ≤ body.length)
    (hlog : ShortWrites bound world.database.table)
    (hfiles : ShortFiles bound asked world.files) (hbody : body.length ≤ bound)
    (hasked : ∀ file, AsksFor system body file → asked file)
    (hexec : exec (Serve.calculateResponse system body) world = (result, after)) :
    (ShortWrites bound after.database.table ∧ ShortFiles bound asked after.files) ∧
      ∀ reply, result = .ok reply → reply.size ≤ 2 * bound + 14 := by
  unfold Serve.calculateResponse at hexec
  cases htree : system.fromString body with
  | none =>
      rw [htree] at hexec
      obtain ⟨rfl, rfl⟩ := Prod.mk.inj hexec
      exact ⟨⟨hlog, hfiles⟩, nofun⟩
  | some tree =>
      simp only [htree] at hexec
      cases hrequest : Request.ofPtree tree with
      | error exception =>
          rw [hrequest] at hexec
          obtain ⟨rfl, rfl⟩ := Prod.mk.inj hexec
          exact ⟨⟨hlog, hfiles⟩, nofun⟩
      | ok request =>
          rw [hrequest] at hexec
          have hsize : request.size ≤ bound :=
            (size_ofPtree hrequest).trans ((hreads body tree htree).trans hbody)
          have hread : ∀ transactionId filename, request = .read transactionId filename →
              asked (system.locate filename) := by
            rintro transactionId filename rfl
            exact hasked _ ⟨tree, transactionId, filename, htree, hrequest, rfl⟩
          exact exec_short hlog hfiles hsize hread hexec

/-- **No response is much longer than two bodies.** -/
theorem run_length_le {toString : Ptree → Str}
    (hreads : ∀ body tree, system.fromString body = some tree → tree.size ≤ body.length)
    (hwrites : ∀ tree, (toString tree).length ≤ 6 * tree.size + 100)
    {world : World κ} {bodies : List Str} (hlog : ShortWrites bound world.database.table)
    (hfiles : ShortFiles bound asked world.files)
    (hbodies : ∀ body ∈ bodies, body.length ≤ bound)
    (hasked : ∀ body ∈ bodies, ∀ file, AsksFor system body file → asked file) :
    ∀ response, .ok response ∈ (Server.run system toString world bodies).1 →
      response.length ≤ 12 * bound + 184 := by
  induction bodies generalizing world with
  | nil => nofun
  | cons body bodies ih =>
      intro response hresponse
      obtain ⟨hbody, hrest⟩ := List.forall_mem_cons.mp hbodies
      obtain ⟨hfirstAsked, hrestAsked⟩ := List.forall_mem_cons.mp hasked
      unfold Server.run at hresponse
      split at hresponse
      · simp at hresponse
      · next result after _ hexec =>
          obtain ⟨⟨hlog', hfiles'⟩, hsize⟩ :=
            exec_calculateResponse_short hreads hlog hfiles hbody hfirstAsked hexec
          rcases List.mem_cons.mp hresponse with hfirst | hlater
          · cases result with
            | error failure => cases hfirst
            | ok reply =>
                obtain rfl := Except.ok.inj hfirst
                have hreply := hsize reply rfl
                have hprinted := hwrites reply
                omega
          · exact ih hlog' hfiles' hrest hrestAsked response hlater

end Bound

/-! ## Framing the responses -/

/-- **Responses on the wire.**  In every run on bodies that fit the header, whatever SQLite
calls and streams fail, a response gets a header exactly if it has at most 99999 bytes.
Then the frame is five digits and the response, and its receiver takes this response and
leaves what comes behind it.  For bodies of at most 8317 bytes every response is framed.
The files that the bodies ask for may be there, and the log may hold the writes of earlier
bodies, as long as they are no longer than the bodies. -/
theorem run_framed_iff {system : System κ} {toString : Ptree → Str}
    (hreads : ∀ body tree, system.fromString body = some tree → tree.size ≤ body.length)
    (hwrites : ∀ tree, (toString tree).length ≤ 6 * tree.size + 100)
    {world final : World κ} {bodies : List Str} {responses : List (Except Failure Str)}
    (hbodies : ∀ body ∈ bodies, body.length ≤ 99999)
    (hlog : ShortWrites 99999 world.database.table)
    (hfiles : ShortFiles 99999 (AskedFor system bodies) world.files)
    (hrun : Server.run system toString world bodies = (responses, final)) :
    (∀ response, .ok response ∈ responses →
      (response.length ≤ 99999 ↔ ∃ frame, addHeader response = some frame) ∧
      ∀ frame, addHeader response = some frame →
        ∃ header, frame = header ++ response ∧ header.length = 5 ∧
          (∀ byte ∈ header, IsDigit byte) ∧
          ∀ rest, receive (frame ++ rest) = some (response, rest)) ∧
    (ShortWrites 8317 world.database.table →
      ShortFiles 8317 (AskedFor system bodies) world.files →
      (∀ body ∈ bodies, body.length ≤ 8317) →
      ∀ response, .ok response ∈ responses → ∃ frame, addHeader response = some frame) := by
  have hlength : ∀ bound, ShortWrites bound world.database.table →
      ShortFiles bound (AskedFor system bodies) world.files →
      (∀ body ∈ bodies, body.length ≤ bound) →
      ∀ response, .ok response ∈ responses → response.length ≤ 12 * bound + 184 := by
    intro bound hrows hfound hbound
    have hresponses := run_length_le hreads hwrites hrows hfound hbound
      fun body hbody file hasks => ⟨body, hbody, hasks⟩
    rw [hrun] at hresponses
    exact hresponses
  have hframed : ∀ response, .ok response ∈ responses →
      ∀ frame, addHeader response = some frame ↔
        response.length ≤ 99999 ∧
          frame = padded headerLength response.length ++ response := by
    intro response hresponse frame
    have hshort := hlength 99999 hlog hfiles hbodies response hresponse
    exact addHeader_eq_some_iff (by omega)
  refine ⟨?_, ?_⟩
  · intro response hresponse
    refine ⟨⟨?_, ?_⟩, ?_⟩
    · intro hfits
      exact ⟨_, (hframed response hresponse _).mpr ⟨hfits, rfl⟩⟩
    · rintro ⟨frame, hframe⟩
      exact ((hframed response hresponse frame).mp hframe).1
    · intro frame hframe
      obtain ⟨hfits, rfl⟩ := (hframed response hresponse frame).mp hframe
      have hheader : (padded headerLength response.length).length = headerLength := by
        rw [length_padded_eq_iff]
        unfold headerLength
        omega
      exact ⟨_, rfl, hheader, fun byte hbyte => isDigit_of_mem_padded hbyte,
        receive_padded_append hfits⟩
  · intro hrows hfound hsmall response hresponse
    have hfits := hlength 8317 hrows hfound hsmall response hresponse
    exact ⟨_, (hframed response hresponse _).mpr ⟨by omega, rfl⟩⟩

/-- What is written comes back. -/
theorem run_write_read {system : System κ} (toString : Ptree → Str) {written asked : Str}
    {transactionId filename data : Str} (hdata : NulFree data)
    (hwritten : system.fromString written =
      some (Request.write transactionId filename data).toPtree)
    (hasked : system.fromString asked = some (Request.read transactionId filename).toPtree)
    (disk : κ → Option Str) :
    ∃ final, Server.run system toString (.initial disk []) [written, asked] =
      ([.ok (toString (makeWriteResponseMessage transactionId)),
        .ok (toString (makeReadResponseMessage transactionId filename data))], final) := by
  have hfirst : (World.initial disk []).stores.handleRequest system
      (.write transactionId filename data) = some (_, _) := rfl
  obtain ⟨after, hexec, hstores, hsucceeds⟩ := exec_of_succeeds rfl hfirst
  have hcontent : (after.stores.getFileContent system transactionId filename).1 = data := by
    rw [hstores]
    simp [Stores.getFileContent, Stores.insert, Dao.lastFileContentFromThisTransaction,
      Dao.insertOperation, Dao.writtenInTransaction, Dao.initDatabase, World.initial,
      World.stores, Dao.getText, Dao.bindTextParam, cString_of_nulFree hdata]
  have hsecond : after.stores.handleRequest system (.read transactionId filename) =
      some (makeReadResponseMessage transactionId filename
        (after.stores.getFileContent system transactionId filename).1, _) := rfl
  obtain ⟨final, hexec', -⟩ := exec_of_succeeds hsucceeds hsecond
  refine ⟨final, ?_⟩
  rw [run_of_requests (.cons hwritten (.cons hasked .nil))]
  simp only [Serve.run, hexec, hexec', hcontent]
  rfl

def readText : Str :=
  text "\x7b\"name\":\"read\",\"transaction_id\":\"T\",\"filename\":\"f\"\x7d"

def writeText (data : Str) : Str :=
  text "\x7b\"name\":\"write\",\"transaction_id\":\"T\",\"filename\":\"f\",\"data\":\"" ++
    (data ++ text "\"\x7d")

/-- A server whose parser is given on these two bodies. -/
def storeSystem (data : Str) : System Str :=
  .flat ⟨true⟩ fun body =>
    if body = readText then
      some (Request.read (text "T") (text "f")).toPtree
    else if body = writeText data then
      some (Request.write (text "T") (text "f") data).toPtree
    else
      none

theorem storeSystem_fromString (data body : Str) :
    (storeSystem data).fromString body =
      if body = readText then
        some (Request.read (text "T") (text "f")).toPtree
      else if body = writeText data then
        some (Request.write (text "T") (text "f") data).toPtree
      else
        none := rfl

theorem length_writeText (data : Str) : (writeText data).length = data.length + 62 := by
  unfold writeText
  rw [List.length_append, List.length_append, Nat.add_comm, Nat.add_assoc]
  rfl

theorem writeText_ne_readText (data : Str) : writeText data ≠ readText := by
  intro heq
  have hstart := congrArg (List.take 12) heq
  rw [writeText, List.take_append_of_le_length (by decide)] at hstart
  exact absurd hstart (by decide)

theorem storeSystem_readText (data : Str) :
    (storeSystem data).fromString readText =
      some (Request.read (text "T") (text "f")).toPtree := by
  rw [storeSystem_fromString, if_pos rfl]

theorem storeSystem_writeText (data : Str) :
    (storeSystem data).fromString (writeText data) =
      some (Request.write (text "T") (text "f") data).toPtree := by
  rw [storeSystem_fromString, if_neg (writeText_ne_readText data), if_pos rfl]

theorem storeSystem_cases {data body : Str} {tree : Ptree}
    (h : (storeSystem data).fromString body = some tree) :
    body = readText ∧ tree = (Request.read (text "T") (text "f")).toPtree ∨
      body = writeText data ∧ tree = (Request.write (text "T") (text "f") data).toPtree := by
  rw [storeSystem_fromString] at h
  split_ifs at h with hread hwrite
  · exact Or.inl ⟨hread, (Option.some.inj h).symm⟩
  · exact Or.inr ⟨hwrite, (Option.some.inj h).symm⟩

/-- The texts that are found are texts of the bodies. -/
theorem size_storeSystem {data body : Str} {tree : Ptree}
    (h : (storeSystem data).fromString body = some tree) : tree.size ≤ body.length := by
  rcases storeSystem_cases h with ⟨rfl, rfl⟩ | ⟨rfl, rfl⟩
  · decide
  · have htransaction : (text "T").length = 1 := rfl
    have hfilename : (text "f").length = 1 := rfl
    rw [length_writeText, size_toPtree_write, htransaction, hfilename]
    omega

/-- Only one file is asked for. -/
theorem asksFor_storeSystem {data body file : Str} (h : AsksFor (storeSystem data) body file) :
    file = text "f" := by
  obtain ⟨tree, transactionId, filename, htree, hrequest, rfl⟩ := h
  rcases storeSystem_cases htree with ⟨-, rfl⟩ | ⟨-, rfl⟩
  · rw [Request.ofPtree_toPtree, Except.ok.injEq, Request.read.injEq] at hrequest
    rw [← hrequest.2]
    rfl
  · rw [Request.ofPtree_toPtree] at hrequest
    cases hrequest

/-- A content of slashes, each of which is printed as two bytes. -/
def slashes : Str :=
  List.replicate 60000 47

theorem length_slashes : slashes.length = 60000 := by
  rw [slashes, List.length_replicate]

theorem length_writeJson_slashes (transactionId filename : Str) :
    120000 ≤ (writeJson (makeReadResponseMessage transactionId filename slashes)).length := by
  have hslash : (escape 47).length = 2 := rfl
  have hslashes : (slashes.flatMap escape).length = 120000 := by
    rw [slashes, length_flatMap_replicate, hslash]
  simp only [writeJson, makeReadResponseMessage, printField, printLines, List.cons_append,
    List.nil_append, List.length_append, hslashes]
  omega

/-- A body of 60062 bytes is stored, and the response to the read of its content is
twice as long and gets no header. -/
theorem addHeader_slashes_eq_none :
    ∃ responses final response,
      Server.run (storeSystem slashes) writeJson (.initial (fun _ => none) [])
          [writeText slashes, readText] = (responses, final) ∧
      (∀ body ∈ [writeText slashes, readText], body.length ≤ 99999) ∧
      (∀ body tree, (storeSystem slashes).fromString body = some tree →
        tree.size ≤ body.length) ∧
      .ok response ∈ responses ∧ addHeader response = none := by
  have hdata : NulFree slashes := by
    intro hzero
    cases List.eq_of_mem_replicate hzero
  obtain ⟨final, hrun⟩ := run_write_read writeJson hdata (storeSystem_writeText slashes)
    (storeSystem_readText slashes) (fun _ => none)
  refine ⟨_, final, _, hrun, ?_, fun _ _ => size_storeSystem,
    List.mem_cons_of_mem _ List.mem_cons_self, ?_⟩
  · intro body hbody
    rcases List.mem_pair.mp hbody with rfl | rfl
    · rw [length_writeText, length_slashes]
      omega
    · decide
  · have hlong := length_writeJson_slashes (text "T") (text "f")
    have hshort := length_writeJson_le (makeReadResponseMessage (text "T") (text "f") slashes)
    have htransaction : (text "T").length = 1 := rfl
    have hfilename : (text "f").length = 1 := rfl
    rw [size_makeReadResponseMessage, length_slashes, htransaction, hfilename] at hshort
    apply Option.eq_none_iff_forall_ne_some.mpr
    intro frame hframe
    have hfits := ((addHeader_eq_some_iff (by omega)).mp hframe).1
    omega

/-- A content is stored and read back beside a file that is too long for any response. -/
theorem run_framed_iff_stored :
    ∃ final frame,
      Server.run (storeSystem (text "a/b")) writeJson
          (.initial (fun file => if file = text "log" then some (slashes ++ slashes) else none) [])
          [writeText (text "a/b"), readText] =
        ([.ok (writeJson (makeWriteResponseMessage (text "T"))),
          .ok (writeJson (makeReadResponseMessage (text "T") (text "f") (text "a/b")))], final) ∧
      addHeader (writeJson (makeReadResponseMessage (text "T") (text "f") (text "a/b"))) =
        some frame ∧
      receive frame =
        some (writeJson (makeReadResponseMessage (text "T") (text "f") (text "a/b")), []) := by
  have hdata : NulFree (text "a/b") := by decide
  obtain ⟨final, hrun⟩ := run_write_read writeJson hdata (storeSystem_writeText (text "a/b"))
    (storeSystem_readText (text "a/b"))
    (fun file => if file = text "log" then some (slashes ++ slashes) else none)
  have hbodies : ∀ body ∈ [writeText (text "a/b"), readText], body.length ≤ 8317 := by decide
  have hfiles : ∀ bound, ShortFiles bound
      (AskedFor (storeSystem (text "a/b")) [writeText (text "a/b"), readText])
      (World.initial (fun file => if file = text "log" then some (slashes ++ slashes) else none)
        []).files := by
    rintro bound file content ⟨body, -, hasks⟩ hfile
    rw [asksFor_storeSystem hasks] at hfile
    cases hfile
  obtain ⟨hframed, hsmall⟩ := run_framed_iff (fun _ _ => size_storeSystem) length_writeJson_le
    (fun body hbody => (hbodies body hbody).trans (by omega)) (shortWrites_initDatabase _)
    (hfiles _) hrun
  have hread := List.mem_cons_of_mem
    (.ok (writeJson (makeWriteResponseMessage (text "T"))) : Except Failure Str)
    (List.mem_singleton_self
      (.ok (writeJson (makeReadResponseMessage (text "T") (text "f") (text "a/b")))))
  obtain ⟨frame, hframe⟩ :=
    hsmall (shortWrites_initDatabase _) (hfiles _) hbodies _ hread
  obtain ⟨header, -, -, -, hreceive⟩ := (hframed _ hread).2 frame hframe
  refine ⟨final, frame, hrun, hframe, ?_⟩
  simpa using hreceive []

end DistributedFileServer
