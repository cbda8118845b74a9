import DistributedFileServer.Framing.Decimal
import DistributedFileServer.Model.Serve

/-!
# The wire and the accept loop (`server.cpp`)

Every message is sent behind a header of five characters, the length of the
message in decimal.  The accept loop receives a request, has the controller
calculate the response and sends it.
-/

namespace DistributedFileServer

open Programs Framing

namespace Server

/-- `HEADER_LENGTH`. -/
def headerLength : Nat := 5

/-- The conversion of a `size_t` to an `int`. -/
def intOfSize (size : Nat) : Int :=
  Int.bmod size (2 ^ 32)

/-- The conversion of an `int` to a `size_t` of 64 bits. -/
def sizeOfInt (n : Int) : Nat :=
  (n % 2 ^ 64).toNat

/-! ## Sending -/

/-- What the format `%05d` prints.  A sign takes one of the five places. -/
def formatHeader : Int → Str
  | .ofNat n => padded headerLength n
  | .negSucc n => text "-" ++ padded (headerLength - 1) (n + 1)

/-- `sprintf_s` fails when its text with the terminator does not fit into `h`. -/
def makeHeader (bodySize : Int) : Option Str :=
  let h := formatHeader bodySize
  if h.length + 1 ≤ headerLength + 1 then
    some h
  else
    none

def addHeader (request : Str) : Option Str :=
  (makeHeader (intOfSize request.length)).map fun header => header ++ request

/-! ## Receiving -/

/-- `read` with `transfer_exactly`: the bytes, and what is left of the stream.
It fails when the stream ends before. -/
def readExactly (count : Nat) (stream : Str) : Option (Str × Str) :=
  if count ≤ stream.length then
    some (stream.take count, stream.drop count)
  else
    none

/-- `isspace`. -/
def isSpace (byte : UInt8) : Bool :=
  byte = 32 ∨ (9 ≤ byte ∧ byte ≤ 13)

/-- Blanks, a sign, digits; what follows is ignored, and no digits stand for 0.
The number is not limited to an `int`, which holds all numbers of five characters. -/
def atoi (s : Str) : Int :=
  let number (digits : Str) : Nat := value (digits.takeWhile fun byte => IsDigit byte)
  let rest := s.dropWhile isSpace
  if rest.head? = some 45 then
    -number rest.tail
  else if rest.head? = some 43 then
    number rest.tail
  else
    number rest

def getRequestLength (header : Str) : Int :=
  atoi (cString header)

/-- How `main` receives a message, with what is left of the stream.  It throws
when the stream ends too early. -/
def receive (stream : Str) : Option (Str × Str) :=
  match readExactly headerLength stream with
  | none => none
  | some (header, rest) => readExactly (sizeOfInt (getRequestLength header)) rest

/-! ## The loop -/

variable {κ : Type} [DecidableEq κ]

/-- The accept loop on the bodies of the requests, with the string that
`calculateResponse` returns for each.  The headers of the responses are left out, and
so is what happens when a response is sent. -/
def run (system : System κ) (toString : Ptree → Str) :
    World κ → List Str → List (Except Failure Str) × World κ
  | world, [] => ([], world)
  | world, request :: requests =>
      match exec (Serve.calculateResponse system request) world with
      | (.error .hangs, next) => ([.error .hangs], next)
      | (result, next) =>
          let (responses, final) := run system toString next requests
          (result.map toString :: responses, final)

/-- The accept loop on what the clients send before they close their sides.  An
exception ends the service of its connection only.  The responses have no headers yet;
`runFramed` adds them. -/
def runStreams (system : System κ) (toString : Ptree → Str) :
    World κ → List Str → List (Option (Except Failure Str)) × World κ
  | world, [] => ([], world)
  | world, stream :: streams =>
      match receive stream with
      | none =>
          let (responses, final) := runStreams system toString world streams
          (none :: responses, final)
      | some (request, _) =>
          match exec (Serve.calculateResponse system request) world with
          | (.error .hangs, next) => ([some (.error .hangs)], next)
          | (result, next) =>
              let (responses, final) := runStreams system toString next streams
              (some (result.map toString) :: responses, final)

/-- One turn of the loop with the header of the response: what becomes of the request, if one
is received.  There is no frame where `sprintf_s` finds no room for the header. -/
def connection (system : System κ) (toString : Ptree → Str) (world : World κ)
    (stream : Str) : Option (Except Failure (Option Str)) × World κ :=
  match receive stream with
  | none => (none, world)
  | some (request, _) =>
      let (result, next) := exec (Serve.calculateResponse system request) world
      (some (result.map fun reply => addHeader (toString reply)), next)

/-- The vote loop does not return, or `sprintf_s` ends the process. -/
def isLast : Option (Except Failure (Option Str)) → Bool
  | some (.error .hangs) => true
  | some (.ok none) => true
  | _ => false

/-- The accept loop with the headers of the responses. -/
def runFramed (system : System κ) (toString : Ptree → Str) :
    World κ → List Str → List (Option (Except Failure (Option Str))) × World κ
  | world, [] => ([], world)
  | world, stream :: streams =>
      let (sent, next) := connection system toString world stream
      if isLast sent then
        ([sent], next)
      else
        let (frames, final) := runFramed system toString next streams
        (sent :: frames, final)

/-- On bodies that are the texts of requests, the responses are those of `Serve.run`. -/
theorem run_of_requests {system : System κ} {bodies : List Str} {requests : List Request}
    (hbodies : List.Forall₂ (fun body request => system.fromString body = some request.toPtree)
      bodies requests)
    (toString : Ptree → Str) (world : World κ) :
    run system toString world bodies =
      ((Serve.run system world requests).1.map fun outcome => outcome.2.map toString,
        (Serve.run system world requests).2) := by
  induction hbodies generalizing world with
  | nil => rfl
  | @cons body request bodies requests hbody hrest ih =>
      have hcalculate : Serve.calculateResponse system body =
          Serve.handleRequest system request := by
        unfold Serve.calculateResponse
        simp only [hbody, Request.ofPtree_toPtree]
      unfold run Serve.run
      rw [hcalculate]
      cases hexec : exec (Serve.handleRequest system request) world with
      | mk result next =>
          cases result with
          | ok reply => simp [ih next]
          | error failure => cases failure <;> simp [ih next, Except.map]

end Server

end DistributedFileServer
