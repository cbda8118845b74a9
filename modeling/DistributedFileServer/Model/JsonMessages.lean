import DistributedFileServer.Model.Text
import Mathlib.Tactic.SplitIfs

/-!
# Requests and responses (`json_messages.h`, `json_messahes.cpp`)

The server only ever looks up four keys of a request tree and only ever puts
these four keys into a response tree, so a `ptree` is modelled by the four
values it may hold.  Reading and printing JSON text is Boost's work and is not
part of this file.
-/

namespace DistributedFileServer

/-- The keys `NAME`, `TRANSACTION_ID`, `FILENAME` and `DATA`. -/
inductive Key where
  | name
  | transactionId
  | filename
  | data
  deriving DecidableEq, Repr

/-- The text of a key, the path named by a failing `get`. -/
def Key.path : Key → Str
  | .name => text "name"
  | .transactionId => text "transaction_id"
  | .filename => text "filename"
  | .data => text "data"

def msgWrite : Str := text "write"
def msgWriteResponse : Str := text "write_response"
def msgRead : Str := text "read"
def msgReadResponse : Str := text "read_response"
def msgPrepare : Str := text "prepare"
def msgVoteAbort : Str := text "vote_abort"
def msgVoteCommit : Str := text "vote_commit"
def msgGlobalAbort : Str := text "global_abort"
def msgGlobalCommit : Str := text "global_commit"
def msgUnsupported : Str := text "unsupported"

/-- A property tree, as far as the server reads and writes it. -/
structure Ptree where
  name : Option Str
  transactionId : Option Str
  filename : Option Str
  data : Option Str
  deriving DecidableEq, Repr

/-- The exceptions that reach the main loop while every call into SQLite and
the file system succeeds. -/
inductive Exception where
  /-- `ptree_bad_path` of a `get<string>` on a missing key. -/
  | badPath (path : Str)
  /-- "Select exception" of `lastFileContentFromThisTransaction`: no row. -/
  | selectException
  deriving DecidableEq, Repr

def Ptree.lookup (tree : Ptree) : Key → Option Str
  | .name => tree.name
  | .transactionId => tree.transactionId
  | .filename => tree.filename
  | .data => tree.data

/-- `tree.get<string>(key)`. -/
def Ptree.get (tree : Ptree) (key : Key) : Except Exception Str :=
  match tree.lookup key with
  | some value => .ok value
  | none => .error (.badPath key.path)

def makeReadResponseMessage (transactionId filename fileContent : Str) : Ptree :=
  { name := some msgReadResponse
    transactionId := some transactionId
    filename := some filename
    data := some fileContent }

def makeSimpleMessage (messageName transactionId : Str) : Ptree :=
  { name := some messageName
    transactionId := some transactionId
    filename := none
    data := none }

def makeUnsupportedMessage (transactionId : Str) : Ptree :=
  makeSimpleMessage msgUnsupported transactionId

def makeWriteResponseMessage (transactionId : Str) : Ptree :=
  makeSimpleMessage msgWriteResponse transactionId

def makeVoteCommitMessage (transactionId : Str) : Ptree :=
  makeSimpleMessage msgVoteCommit transactionId

def makeVoteAbortMessage (transactionId : Str) : Ptree :=
  makeSimpleMessage msgVoteAbort transactionId

/-- The two votes are told apart by their name. -/
theorem makeVoteCommitMessage_ne_makeVoteAbortMessage (transactionId transactionId' : Str) :
    makeVoteCommitMessage transactionId ≠ makeVoteAbortMessage transactionId' := by
  intro h
  have hname : some msgVoteCommit = some msgVoteAbort := congrArg Ptree.name h
  revert hname
  decide

/-- A request the dispatch of `calculateResponse` has recognised, with the
arguments it hands to the handler. -/
inductive Request where
  | read (transactionId filename : Str)
  | write (transactionId filename data : Str)
  | prepare (transactionId : Str)
  | globalCommit (transactionId : Str)
  | globalAbort (transactionId : Str)
  | unsupported (transactionId : Str)
  deriving DecidableEq, Repr

namespace Request

/-- The transaction a request names. -/
def transactionId : Request → Str
  | read transactionId _ => transactionId
  | write transactionId _ _ => transactionId
  | prepare transactionId => transactionId
  | globalCommit transactionId => transactionId
  | globalAbort transactionId => transactionId
  | unsupported transactionId => transactionId

/-- The file a read or a write names. -/
def filename? : Request → Option Str
  | read _ filename => some filename
  | write _ filename _ => some filename
  | prepare _ | globalCommit _ | globalAbort _ | unsupported _ => none

/-- The transaction id and the filename hold no NUL byte. -/
def NulFreeNames (request : Request) : Prop :=
  NulFree request.transactionId ∧ ∀ filename ∈ request.filename?, NulFree filename

instance (request : Request) : Decidable request.NulFreeNames :=
  inferInstanceAs (Decidable (_ ∧ _))

/-- No text of the request holds a NUL byte. -/
def NulFreeTexts : Request → Prop
  | write transactionId filename data =>
      NulFree transactionId ∧ NulFree filename ∧ NulFree data
  | request => request.NulFreeNames

instance (request : Request) : Decidable request.NulFreeTexts := by
  cases request <;> exact inferInstanceAs (Decidable (_ ∧ _))

theorem NulFreeTexts.names {request : Request} (h : request.NulFreeTexts) :
    request.NulFreeNames := by
  cases request with
  | write transactionId filename data =>
      obtain ⟨htransaction, hfilename, -⟩ := h
      refine ⟨htransaction, ?_⟩
      intro name hname
      obtain rfl : filename = name := by simpa [filename?] using hname
      exact hfilename
  | _ => exact h

/-- The part of `calculateResponse` that reads the request tree: the name
selects which further keys are looked up.  C++ does not say which of the two
arguments of `handleWriteMessage` is looked up first; if both keys are missing, the
exception may be the one for the data. -/
def ofPtree (reqJson : Ptree) : Except Exception Request := do
  let name ← reqJson.get .name
  let transactionId ← reqJson.get .transactionId
  if name = msgRead then
    return .read transactionId (← reqJson.get .filename)
  else if name = msgWrite then
    return .write transactionId (← reqJson.get .filename) (← reqJson.get .data)
  else if name = msgPrepare then
    return .prepare transactionId
  else if name = msgGlobalCommit then
    return .globalCommit transactionId
  else if name = msgGlobalAbort then
    return .globalAbort transactionId
  else
    return .unsupported transactionId

/-- The tree a client sends for a request. -/
def toPtree : Request → Ptree
  | read transactionId filename => ⟨some msgRead, some transactionId, some filename, none⟩
  | write transactionId filename data =>
      ⟨some msgWrite, some transactionId, some filename, some data⟩
  | prepare transactionId => makeSimpleMessage msgPrepare transactionId
  | globalCommit transactionId => makeSimpleMessage msgGlobalCommit transactionId
  | globalAbort transactionId => makeSimpleMessage msgGlobalAbort transactionId
  | unsupported transactionId => makeSimpleMessage msgUnsupported transactionId

/-- Every request is recognised from the tree its client sends. -/
theorem ofPtree_toPtree (request : Request) : ofPtree request.toPtree = .ok request := by
  cases request <;> rfl

/-- A computation fails where its first or its second half fails. -/
private theorem bind_eq_error {α β : Type} {first : Except Exception α}
    {second : α → Except Exception β} {e : Exception} (h : first >>= second = .error e) :
    first = .error e ∨ ∃ value, second value = .error e := by
  cases first with
  | error e' =>
      obtain rfl : e' = e := by simpa [bind, Except.bind] using h
      exact Or.inl rfl
  | ok value => exact Or.inr ⟨value, h⟩

theorem get_error {reqJson : Ptree} {key : Key} {e : Exception}
    (h : reqJson.get key = .error e) :
    reqJson.lookup key = none ∧ e = .badPath key.path := by
  unfold Ptree.get at h
  cases hlookup : reqJson.lookup key with
  | some value => simp [hlookup] at h
  | none => exact ⟨rfl, by simpa [hlookup] using h.symm⟩

/-- A tree is rejected only for a missing key, and the exception names it. -/
theorem ofPtree_error {reqJson : Ptree} {e : Exception} (h : ofPtree reqJson = .error e) :
    ∃ key : Key, reqJson.lookup key = none ∧ e = .badPath key.path := by
  unfold ofPtree at h
  rcases bind_eq_error h with h | ⟨name, h⟩
  · exact ⟨_, get_error h⟩
  rcases bind_eq_error h with h | ⟨transactionId, h⟩
  · exact ⟨_, get_error h⟩
  split_ifs at h
  · rcases bind_eq_error h with h | ⟨filename, h⟩
    · exact ⟨_, get_error h⟩
    · cases h
  · rcases bind_eq_error h with h | ⟨filename, h⟩
    · exact ⟨_, get_error h⟩
    rcases bind_eq_error h with h | ⟨data, h⟩
    · exact ⟨_, get_error h⟩
    · cases h
  all_goals cases h

end Request

end DistributedFileServer
