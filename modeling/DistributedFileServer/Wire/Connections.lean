import DistributedFileServer.Filenames.Answers
import DistributedFileServer.Wire.Requests
import DistributedFileServer.Wire.Responses

/-!
# Connections

A connection brings a request, or something that the server throws away.  The accept
loop serves the requests as if nothing else had arrived, and every other connection gets
the exception that is its own.
-/

namespace DistributedFileServer

open Programs

namespace Server

variable {κ : Type} [DecidableEq κ]

/-- The request that a connection brings.  There is none if the message does not arrive,
or if `calculateResponse` throws before it calls a handler. -/
def decode (system : System κ) (stream : Str) : Except (Option Failure) Request :=
  match receive stream with
  | none => .error none
  | some (body, _) =>
      match system.fromString body with
      | none => .error (some .jsonParser)
      | some reqJson =>
          match Request.ofPtree reqJson with
          | .error exception => .error (some (.request exception))
          | .ok request => .ok request

/-- The connection brings a request. -/
def bringsRequest (system : System κ) (stream : Str) : Bool :=
  match decode system stream with
  | .error _ => false
  | .ok _ => true

/-- The requests among the connections. -/
def decodedRequests (system : System κ) (streams : List Str) : List Request :=
  streams.filterMap fun stream => (decode system stream).toOption

/-- What the connections get, given the outcomes of the requests among them.  Nobody is
served after a request that hangs. -/
def distributed (toString : Ptree → Str) :
    List (Except (Option Failure) Request) → List Serve.Outcome →
      List (Option (Except Failure Str))
  | [], _ => []
  | .error failure :: connections, outcomes =>
      failure.map Except.error :: distributed toString connections outcomes
  | .ok _ :: _, [] => []
  | .ok _ :: _, (_, .error .hangs) :: _ => [some (.error .hangs)]
  | .ok _ :: connections, (_, result) :: outcomes =>
      some (result.map toString) :: distributed toString connections outcomes

/-- A connection without a request. -/
theorem runStreams_cons_of_error {system : System κ} {stream : Str} {failure : Option Failure}
    (hdecode : decode system stream = .error failure) (toString : Ptree → Str)
    (world : World κ) (streams : List Str) :
    runStreams system toString world (stream :: streams) =
      (failure.map Except.error :: (runStreams system toString world streams).1,
        (runStreams system toString world streams).2) := by
  unfold decode at hdecode
  rw [runStreams]
  cases hreceive : receive stream with
  | none =>
      rw [hreceive] at hdecode
      obtain rfl : none = failure := Except.error.inj hdecode
      rfl
  | some received =>
      obtain ⟨body, rest⟩ := received
      rw [hreceive] at hdecode
      dsimp only at hdecode ⊢
      cases hbody : system.fromString body with
      | none =>
          rw [hbody] at hdecode
          obtain rfl : some Failure.jsonParser = failure := Except.error.inj hdecode
          have hcalculate : Serve.calculateResponse system body = throw .jsonParser := by
            rw [Serve.calculateResponse, hbody]
          rw [hcalculate]
          rfl
      | some reqJson =>
          rw [hbody] at hdecode
          dsimp only at hdecode
          cases hrequest : Request.ofPtree reqJson with
          | ok request =>
              rw [hrequest] at hdecode
              cases hdecode
          | error exception =>
              rw [hrequest] at hdecode
              obtain rfl : some (Failure.request exception) = failure :=
                Except.error.inj hdecode
              have hcalculate : Serve.calculateResponse system body =
                  throw (.request exception) := by
                rw [Serve.calculateResponse, hbody]
                simp only [hrequest]
              rw [hcalculate]
              rfl

/-- A connection that brings a request. -/
theorem exists_body_of_decode {system : System κ} {stream : Str} {request : Request}
    (hdecode : decode system stream = .ok request) :
    ∃ body rest, receive stream = some (body, rest) ∧
      Serve.calculateResponse system body = Serve.handleRequest system request := by
  unfold decode at hdecode
  cases hreceive : receive stream with
  | none =>
      rw [hreceive] at hdecode
      cases hdecode
  | some received =>
      obtain ⟨body, rest⟩ := received
      refine ⟨body, rest, rfl, ?_⟩
      rw [hreceive] at hdecode
      dsimp only at hdecode
      cases hbody : system.fromString body with
      | none =>
          rw [hbody] at hdecode
          cases hdecode
      | some reqJson =>
          rw [hbody] at hdecode
          dsimp only at hdecode
          cases hrequest : Request.ofPtree reqJson with
          | error exception =>
              rw [hrequest] at hdecode
              cases hdecode
          | ok request' =>
              rw [hrequest] at hdecode
              obtain rfl : request' = request := Except.ok.inj hdecode
              rw [Serve.calculateResponse, hbody]
              simp only [hrequest]

/-- **Connections.**  On whatever the clients send, and whichever calls fail, the server
does what it does on the requests alone; each request is answered on its own connection,
and every other connection gets its own exception or nothing. -/
theorem runStreams_eq_distributed (system : System κ) (toString : Ptree → Str)
    (world : World κ) (streams : List Str) :
    runStreams system toString world streams =
      (distributed toString (streams.map (decode system))
          (Serve.run system world (decodedRequests system streams)).1,
        (Serve.run system world (decodedRequests system streams)).2) := by
  induction streams generalizing world with
  | nil => rfl
  | cons stream streams ih =>
      cases hdecode : decode system stream with
      | error failure =>
          have hrequests : decodedRequests system (stream :: streams) =
              decodedRequests system streams := by
            simp [decodedRequests, hdecode, Except.toOption]
          rw [runStreams_cons_of_error hdecode, hrequests, ih, List.map_cons, hdecode,
            distributed]
      | ok request =>
          have hrequests : decodedRequests system (stream :: streams) =
              request :: decodedRequests system streams := by
            simp [decodedRequests, hdecode, Except.toOption]
          obtain ⟨body, rest, hreceive, hcalculate⟩ := exists_body_of_decode hdecode
          rw [runStreams, hrequests, List.map_cons, hdecode, Serve.run, hreceive]
          dsimp only
          rw [hcalculate]
          cases hexec : exec (Serve.handleRequest system request) world with
          | mk result next =>
              cases result with
              | ok reply => simp [distributed, ih next]
              | error failure => cases failure <;> simp [distributed, ih next]

omit [DecidableEq κ] in
theorem bringsRequest_of_error {system : System κ} {stream : Str} {failure : Option Failure}
    (hdecode : decode system stream = .error failure) : bringsRequest system stream = false := by
  rw [bringsRequest, hdecode]

omit [DecidableEq κ] in
theorem bringsRequest_of_ok {system : System κ} {stream : Str} {request : Request}
    (hdecode : decode system stream = .ok request) : bringsRequest system stream = true := by
  rw [bringsRequest, hdecode]

omit [DecidableEq κ] in
theorem decodedRequests_filter (system : System κ) (streams : List Str) :
    decodedRequests system (streams.filter (bringsRequest system)) =
      decodedRequests system streams := by
  unfold decodedRequests
  rw [List.filterMap_filter]
  apply List.filterMap_congr
  intro stream _
  unfold bringsRequest
  cases decode system stream <;> rfl

omit [DecidableEq κ] in
/-- What is distributed to the other connections can be left out. -/
theorem zip_distributed_filter (system : System κ) (toString : Ptree → Str)
    (streams : List Str) (outcomes : List Serve.Outcome) :
    (streams.zip (distributed toString (streams.map (decode system)) outcomes)).filter
        (fun answer => bringsRequest system answer.1) =
      (streams.filter (bringsRequest system)).zip
        (distributed toString ((streams.filter (bringsRequest system)).map (decode system))
          outcomes) := by
  induction streams generalizing outcomes with
  | nil => rfl
  | cons stream streams ih =>
      cases hdecode : decode system stream with
      | error failure => simp [hdecode, bringsRequest_of_error hdecode, distributed, ih]
      | ok request =>
          have hbrings := bringsRequest_of_ok hdecode
          cases outcomes with
          | nil => simp [hdecode, hbrings, distributed]
          | cons outcome outcomes =>
              obtain ⟨served, result⟩ := outcome
              cases result with
              | ok reply => simp [hdecode, hbrings, distributed, ih]
              | error failure => cases failure <;> simp [hdecode, hbrings, distributed, ih]

/-- **Junk.**  Connections that bring no request can be left out: whichever calls fail, the
others get the same answers, and the server ends in the same state. -/
theorem runStreams_without_junk (system : System κ) (toString : Ptree → Str)
    (world : World κ) (streams : List Str) :
    (streams.zip (runStreams system toString world streams).1).filter
        (fun answer => bringsRequest system answer.1) =
      (streams.filter (bringsRequest system)).zip
        (runStreams system toString world (streams.filter (bringsRequest system))).1 ∧
    (runStreams system toString world streams).2 =
      (runStreams system toString world (streams.filter (bringsRequest system))).2 := by
  rw [runStreams_eq_distributed, runStreams_eq_distributed, decodedRequests_filter]
  exact ⟨zip_distributed_filter system toString streams _, rfl⟩

/-- **The whole server.**  In auto mode, while no call fails, the bytes of the connections
determine a history of transactions; it explains every answer and the files.  The answers
have no headers yet, as in `runStreams`, and the streams do not translate line ends. -/
theorem runStreams_serves {system : System κ} (hauto : system.cfg.autoMode = true)
    (toString : Ptree → Str) (disk : κ → Option Str) (console streams : List Str) :
    ∃ exchanges history final,
      runStreams system toString (.initial disk console) streams =
        (distributed toString (streams.map (decode system)) (answered exchanges), final) ∧
      exchanges.map Prod.fst = decodedRequests system streams ∧
      Serves true cString system.locate disk [] exchanges history ∧
      final.files.disk = locatedDisk system.locate disk history := by
  obtain ⟨exchanges, history, houtcomes, hrequests, hserves, hfiles⟩ :=
    run_serves hauto (Prod.mk.eta (p := Serve.run system (.initial disk console)
      (decodedRequests system streams)))
  refine ⟨exchanges, history, _, ?_, hrequests, hserves, hfiles⟩
  rw [runStreams_eq_distributed, houtcomes]

/-- A server whose parser is given on one text. -/
def readSystem : System Str :=
  .flat ⟨true⟩ fun body =>
    if body = readText then some (Request.read (text "T") (text "f")).toPtree else none

theorem runStreams_serves_read :
    ∃ exchanges history final,
      runStreams readSystem writeJson (.initial (fun _ => none) [])
          [text "00007garbage", text "00051" ++ readText, text "12"] =
        (distributed writeJson [.error (some .jsonParser), .ok (.read (text "T") (text "f")),
          .error none] (answered exchanges), final) ∧
      exchanges.map Prod.fst = [.read (text "T") (text "f")] ∧
      Serves true cString readSystem.locate (fun _ => none) [] exchanges history ∧
      final.files.disk = locatedDisk readSystem.locate (fun _ => none) history := by
  have hdecode : [text "00007garbage", text "00051" ++ readText, text "12"].map
      (decode readSystem) =
        [.error (some .jsonParser), .ok (.read (text "T") (text "f")), .error none] := rfl
  have hrequests : decodedRequests readSystem
      [text "00007garbage", text "00051" ++ readText, text "12"] =
        [.read (text "T") (text "f")] := rfl
  have hauto : readSystem.cfg.autoMode = true := rfl
  rw [← hdecode, ← hrequests]
  exact runStreams_serves hauto writeJson (fun _ => none) []
    [text "00007garbage", text "00051" ++ readText, text "12"]

end Server

end DistributedFileServer
