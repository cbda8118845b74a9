import DistributedFileServer.DeferredUpdate.PrivateWorkspace
import DistributedFileServer.Log.Serving

/-!
# The server implements private workspaces

The specification of the server is the machine of `PrivateWorkspace`, driven by
the requests themselves: a committed store, one workspace per transaction, and
no log.  On NUL-free texts, as long as no transaction sends anything after its
own global decision, the server answers what the machine prescribes and its
shared directory is the machine's store after every request.
-/

namespace DistributedFileServer

open DeferredUpdate Controller

/-- The specification: filenames are keys, contents are values. -/
abbrev Specification := Workspaces Str Str Str

namespace Specification

/-- What a request does to the specification state. -/
def step (spec : Specification) : Request → Specification
  | .read _ _ => spec
  | .write transactionId filename data => spec.write transactionId filename data
  | .prepare _ => spec
  | .globalCommit transactionId => spec.commit transactionId
  | .globalAbort transactionId => spec.abort transactionId
  | .unsupported _ => spec

/-- The specification state after a list of requests. -/
def after (store : SharedDirectory) (requests : List Request) : Specification :=
  requests.foldl step (Workspaces.initial store)

/-- The replies the specification admits.  Either vote is admitted. -/
def Answers (spec : Specification) : Request → Reply → Prop
  | .read transactionId filename, reply =>
      reply = .ok (makeReadResponseMessage transactionId filename
        ((spec.read transactionId filename).getD []))
  | .write transactionId _ _, reply => reply = .ok (makeWriteResponseMessage transactionId)
  | .prepare transactionId, reply =>
      reply = .ok (makeVoteCommitMessage transactionId) ∨
        reply = .ok (makeVoteAbortMessage transactionId)
  | .globalCommit transactionId, reply => reply = .ok (makeVoteCommitMessage transactionId)
  | .globalAbort transactionId, reply => reply = .ok (makeVoteAbortMessage transactionId)
  | .unsupported transactionId, reply => reply = .ok (makeUnsupportedMessage transactionId)

theorem after_concat (store : SharedDirectory) (requests : List Request) (request : Request) :
    after store (requests ++ [request]) = step (after store requests) request :=
  List.foldl_concat ..

end Specification

/-- The request carries a global decision. -/
def Request.isDecision : Request → Bool
  | .globalCommit _ | .globalAbort _ => true
  | .read _ _ | .write _ _ _ | .prepare _ | .unsupported _ => false

/-- No transaction sends a request after its own global decision. -/
def NoRequestAfterDecision (requests : List Request) : Prop :=
  requests.Pairwise fun earlier later =>
    earlier.isDecision = true → earlier.transactionId ≠ later.transactionId

instance (requests : List Request) : Decidable (NoRequestAfterDecision requests) :=
  inferInstanceAs (Decidable (List.Pairwise _ requests))

/-- On NUL-free texts the log entries of a request drive the machine as the
request does. -/
theorem foldl_step_record {request : Request} (hnul : request.NulFreeTexts) (granted : Bool)
    (spec : Specification) :
    (record granted request).foldl Workspaces.step spec = spec.step request := by
  have hid : cString request.transactionId = request.transactionId :=
    cString_of_nulFree hnul.names.1
  cases request with
  | write transactionId filename data =>
      obtain ⟨htransaction, hfilename, hdata⟩ := hnul
      simp only [record, cString_of_nulFree htransaction, cString_of_nulFree hfilename,
        cString_of_nulFree hdata]
      rfl
  | globalCommit transactionId =>
      simp only [Request.transactionId] at hid
      simp only [record, hid]
      rfl
  | globalAbort transactionId =>
      simp only [Request.transactionId] at hid
      simp only [record, hid]
      rfl
  | _ => rfl

theorem after_recorded (store : SharedDirectory) {exchanges : List Exchange}
    (hnul : ∀ exchange ∈ exchanges, exchange.1.NulFreeTexts) :
    Workspaces.after store (recorded exchanges) =
      Specification.after store (exchanges.map Prod.fst) := by
  induction exchanges using List.reverseRecOn with
  | nil => rfl
  | append_singleton exchanges exchange ih =>
      have hbefore := ih fun e he => hnul e (List.mem_append_left _ he)
      rw [recorded_append, recorded_cons, recorded_nil, List.append_nil, List.map_append,
        List.map_singleton, Specification.after_concat, ← hbefore]
      unfold Workspaces.after
      rw [List.foldl_append]
      exact foldl_step_record (hnul exchange (by simp)) _ _

/-- An entry that decides comes from a decision request. -/
theorem isDecision_of_decides {granted : Bool} {request : Request} {act : Entry}
    {transaction : Str} (hact : act ∈ record granted request) (hdecides : act.Decides transaction) :
    request.isDecision = true := by
  cases request <;> simp [record] at hact <;> subst hact <;>
    simp [Act.Decides, Request.isDecision] at hdecides ⊢

/-- The discipline of the requests carries over to the log. -/
theorem quietAfterDecision_recorded {exchanges : List Exchange}
    (hnul : ∀ exchange ∈ exchanges, exchange.1.NulFreeNames)
    (hquiet : NoRequestAfterDecision (exchanges.map Prod.fst)) :
    QuietAfterDecision (recorded exchanges) := by
  unfold QuietAfterDecision recorded
  rw [List.pairwise_flatMap]
  constructor
  · intro exchange _
    obtain ⟨request, reply⟩ := exchange
    cases request <;> simp [record]
  · have hpairs := List.pairwise_map.mp hquiet
    refine hpairs.imp_of_mem ?_
    intro earlier later hearlier hlater hdistinct act hact act' hact' hdecides
    have howner : act.owner = act'.owner := by rcases hdecides with rfl | rfl <;> rfl
    rw [owner_of_mem_record hact, owner_of_mem_record hact',
      cString_of_nulFree (hnul earlier hearlier).1,
      cString_of_nulFree (hnul later hlater).1] at howner
    exact hdistinct (isDecision_of_decides hact hdecides) howner

/-- A read in a disciplined run finds what the specification lets it read. -/
theorem readValue_recorded (initial : SharedDirectory) {exchanges : List Exchange}
    {transactionId filename : Str}
    (hnul : ∀ exchange ∈ exchanges, exchange.1.NulFreeTexts)
    (hread : (Request.read transactionId filename).NulFreeNames)
    (hquiet : NoRequestAfterDecision
      (exchanges.map Prod.fst ++ [.read transactionId filename])) :
    readValue initial (recorded exchanges) (cString transactionId) (cString filename) =
      (Specification.after initial (exchanges.map Prod.fst)).read transactionId filename := by
  have htransaction : cString transactionId = transactionId := cString_of_nulFree hread.1
  have hfilename : cString filename = filename :=
    cString_of_nulFree (hread.2 filename rfl)
  obtain ⟨hbefore, -, hlast⟩ := List.pairwise_append.mp hquiet
  have hlog := quietAfterDecision_recorded (fun e he => (hnul e he).names) hbefore
  -- the reader has sent no decision, so its workspace is still there
  have hundecided : ¬ Decided (recorded exchanges) transactionId := by
    rintro ⟨act, hact, hdecides⟩
    obtain ⟨exchange, hexchange, hrecord⟩ := List.mem_flatMap.mp hact
    have howner : act.owner = transactionId := by rcases hdecides with rfl | rfl <;> rfl
    rw [owner_of_mem_record hrecord, cString_of_nulFree (hnul exchange hexchange).names.1]
      at howner
    exact hlast exchange.1 (List.mem_map_of_mem hexchange) _ (List.mem_singleton_self _)
      (isDecision_of_decides hrecord hdecides) howner
  rw [htransaction, hfilename, readValue_eq_read initial hlog hundecided,
    after_recorded initial hnul]

/-- **The server refines the private-workspace specification.**  Every reply is
one the specification admits in the state it is in, and the shared directory is
the specification's store after every request.  The directory maps filenames to
contents as they are written; `Streamed.run_text` says when streams that translate
line ends make no difference. -/
theorem run_refines_specification {cfg : Config} {initial : SharedDirectory}
    {console : List Str} {requests : List Request} {exchanges : List Exchange}
    {final : ServerState} (hnul : ∀ request ∈ requests, request.NulFreeTexts)
    (hquiet : NoRequestAfterDecision requests)
    (hrun : run cfg (.initial initial console) requests = some (exchanges, final)) :
    (∀ before request reply after, exchanges = before ++ (request, reply) :: after →
      (Specification.after initial (before.map Prod.fst)).Answers request reply) ∧
    (∀ before after, requests = before ++ after → ∃ front middle,
      run cfg (.initial initial console) before = some (front, middle) ∧
        middle.sharedDirectory = (Specification.after initial before).store) := by
  have hrequests : exchanges.map Prod.fst = requests := run_requests hrun
  constructor
  · rintro before request reply after rfl
    obtain ⟨granted, rfl, -⟩ := run_answer hrun
    cases request with
    | read transactionId filename =>
        have hfront : before.map Prod.fst ++ [.read transactionId filename] <+: requests := by
          rw [← hrequests, List.map_append]
          exact ⟨after.map Prod.fst, by simp⟩
        have hnulBefore : ∀ exchange ∈ before, exchange.1.NulFreeTexts := by
          intro exchange hexchange
          exact hnul _ (hfront.subset (by simp [List.mem_map_of_mem hexchange]))
        have hnulRead : (Request.read transactionId filename).NulFreeNames :=
          (hnul _ (hfront.subset (by simp))).names
        have hvalue := readValue_recorded initial hnulBefore hnulRead
          (List.Pairwise.sublist hfront.sublist hquiet)
        simp only [answer, hvalue]
        rfl
    | prepare transactionId =>
        cases granted with
        | true => exact Or.inl rfl
        | false => exact Or.inr rfl
    | _ => rfl
  · rintro before after rfl
    obtain ⟨middle, front, back, hfront, -, -⟩ := run_append_eq_some_iff.mp hrun
    refine ⟨front, middle, hfront, ?_⟩
    have hfronts : front.map Prod.fst = before := run_requests hfront
    have hnulFront : ∀ exchange ∈ front, exchange.1.NulFreeTexts := by
      intro exchange hexchange
      apply hnul
      rw [← hfronts]
      exact List.mem_append_left _ (List.mem_map_of_mem hexchange)
    have hquietFront : NoRequestAfterDecision (front.map Prod.fst) := by
      rw [hfronts]
      exact (List.pairwise_append.mp hquiet).1
    have hlog := quietAfterDecision_recorded (fun e he => (hnulFront e he).names) hquietFront
    obtain ⟨hhistory, hdirectory⟩ := run_spec hfront
    rw [hdirectory, hhistory, ← (workspaces_simulate initial hlog).1,
      after_recorded initial hnulFront, hfronts]

theorem run_refines_specification_own_write :
    ∃ exchanges final, run ⟨true⟩ (.initial (fun _ => none) [])
        [.write (text "T") (text "f") (text "x"), .read (text "T") (text "f"),
          .read (text "U") (text "f"), .prepare (text "T"), .globalCommit (text "T")] =
        some (exchanges, final) ∧
      (∀ before request reply after, exchanges = before ++ (request, reply) :: after →
        (Specification.after (fun _ => none) (before.map Prod.fst)).Answers request reply) := by
  obtain ⟨exchanges, final, hrun⟩ := run_isSome ⟨true⟩ rfl (.initial (fun _ => none) [])
    [.write (text "T") (text "f") (text "x"), .read (text "T") (text "f"),
      .read (text "U") (text "f"), .prepare (text "T"), .globalCommit (text "T")]
  exact ⟨exchanges, final, hrun, (run_refines_specification (by decide) (by decide) hrun).1⟩

end DistributedFileServer
