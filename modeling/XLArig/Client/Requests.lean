import XLArig.Job
import XLArig.Json
import XLArig.Machine
import XLArig.Pool

/-!
# XLArig.Client.Requests

The requests of a `Client` and the responses to them.

A request is written into the send buffer and handed to the socket, or to the TLS
layer; the layer may refuse or fail it.  Callbacks and submitted results are kept
under the id of their request, which is the sequence number all clients share.
Requests are numbered as they are made, so that what is handed over, transmitted
and answered can be compared.
-/

namespace XLArig

namespace Client

/-- `kMaxSendBufferSize`. -/
def kMaxSendBufferSize : Nat := 1024 * 16

/-! ## The send buffer -/

/-- `memcpy` into a buffer. -/
def put (buf : List UInt8) (offset : Nat) (data : List UInt8) : List UInt8 :=
  buf.take offset ++ data ++ buf.drop (offset + data.length)

/-- The C string at an offset of a buffer. -/
def stringAt (buf : List UInt8) (offset : Nat) : List UInt8 := (buf.drop offset).takeWhile (· != 0)

/-- `vector::resize`. -/
def resize (buf : List UInt8) (n : Nat) : List UInt8 :=
  buf.take n ++ List.replicate (n - buf.length) 0

/-- One digit of `cvt_bin2hex`. -/
def hexDigit (c : UInt32) : UInt8 :=
  let less : UInt32 := (c - 10) >>> 8
  (87 + c + (less &&& ~~~(38 : UInt32))).toUInt8

/-- `Cvt::toHex`, without the terminator. -/
def toHex (bin : List UInt8) : List UInt8 :=
  bin.flatMap fun b : UInt8 => [hexDigit (b >>> 4).toUInt32, hexDigit (b &&& 0xF).toUInt32]

/-- What `Client::send(size_t)` hands to the socket or the TLS layer: how many bytes
are asked for, and those of them that are in the send buffer. -/
structure Passed where
  size : Nat
  data : List UInt8
  deriving DecidableEq, Repr

/-- What becomes of it: the client is not connected or the socket not writable, the
layer does not take it, or it is transmitted. -/
inductive Layer
  | refused
  | failed
  | accepted
  deriving DecidableEq, Repr

/-! ## Requests -/

/-- A request with a callback, a submitted result, the login with what the listener
adds to its parameters, or a keepalive. -/
inductive Request
  | call (method : List UInt8) (params : Json)
  | submit (result : JobResult)
  | login (added : List (List UInt8 × Json))
  | ping

/-- Which of the two maps a response is handled by. -/
inductive Owner
  | callback
  | result
  deriving DecidableEq, Repr

/-- A request that was transmitted under an id; `owner` is the map it is kept in. -/
structure Sent where
  number : Nat
  id : Int
  owner : Option Owner
  deriving DecidableEq, Repr

/-- A response that was handled: under which id, and the request it was handled
for. -/
structure Handled where
  number : Nat
  id : Int
  owner : Owner
  deriving DecidableEq, Repr

/-- The part of a `Client` that requests and responses use.  `callbacks` and
`results` give the number of the request that was kept under an id; `next` is the
number of the next request, and the newest entries of `sent` and `handled` come
first. -/
structure Requests where
  base : BaseClient
  agent : List UInt8
  brand : List UInt8
  algo : Bool
  rpcId : CString
  connected : Bool
  sequence : Int
  sendBuf : List UInt8
  callbacks : Int → Option Nat
  results : Int → Option Nat
  next : Nat
  sent : List Sent
  handled : List Handled

namespace Requests

/-- `Client::send(size_t)` for the request that was made last. -/
def transmit (s : Requests) (size : Nat) (id : Int) (owner : Option Owner) (layer : Layer) :
    Requests × Option Passed :=
  let passed := ⟨size, s.sendBuf.take size⟩
  match layer with
  | .refused => (s, none)
  | .failed => (s, some passed)
  | .accepted =>
      ({ s with sequence := s.sequence + 1, sent := ⟨s.next - 1, id, owner⟩ :: s.sent }, some passed)

/-- The send buffer of `Client::send(obj)` for a text of that many bytes. -/
def grown (buf : List UInt8) (size : Nat) : List UInt8 :=
  if size > buf.length - 2 then resize buf (((size + 1) / 1024 + 1) * 1024) else buf

/-- `Client::send(obj)`, which puts a line feed and a terminator after the text. -/
def sendText (s : Requests) (text : List UInt8) (id : Int) (owner : Option Owner) (layer : Layer) :
    Requests × Option Passed :=
  if text.length > kMaxSendBufferSize then (s, none)
  else
    transmit { s with sendBuf := put (grown s.sendBuf text.length) 0 (text ++ [0x0A, 0]) }
      (text.length + 1) id owner layer

section

variable [Features]

/-- The document of `Client::submit`, for the two strings of hex digits. -/
def submitDoc (s : Requests) (result : JobResult) (nonce data : List UInt8) : Json :=
  .request s.sequence (bytes "submit") (.object
    ([(bytes "id", .string (s.rpcId.getD [])), (bytes "job_id", .string (result.jobId.getD [])),
      (bytes "nonce", .string nonce), (bytes "result", .string data)] ++
      if s.algo && result.algorithm.isValid then
        [(bytes "algo", .string result.algorithm.shortName)]
      else []))

end

/-- The document of `Client::login`. -/
def loginDoc (s : Requests) (added : List (List UInt8 × Json)) : Json :=
  .request 1 (bytes "login") (.object
    ([(bytes "login", .ofCString s.base.user), (bytes "pass", .ofCString s.base.password),
      (bytes "agent", .string s.agent), (bytes "cpu_brand", .string s.brand)] ++
      (if s.base.rigId.isNone then [] else [(bytes "rigid", .ofCString s.base.rigId)]) ++ added))

/-- The text of `Client::ping`, without the line feed at its end. -/
def keepalive (s : Requests) : List UInt8 :=
  bytes "\x7b\"id\":" ++ decimal s.sequence ++
    bytes ",\"jsonrpc\":\"2.0\",\"method\":\"keepalived\",\"params\":\x7b\"id\":\"" ++
    s.rpcId.printed ++ bytes "\"\x7d\x7d"

/-- The four bytes of the nonce that a pool is sent. -/
def nonceBytes (result : JobResult) : List UInt8 :=
  [result.nonce.toUInt8, (result.nonce >>> 8).toUInt8, (result.nonce >>> 16).toUInt8,
    (result.nonce >>> 24).toUInt8]

def resultBytes (result : JobResult) : List UInt8 := (List.range 32).map result.result

/-- The checks of `Client::submit`. -/
def takes (s : Requests) (result : JobResult) : Bool :=
  result.clientId == s.rpcId && s.rpcId.isSome && s.connected && result.diff != 0

variable [Features]

/-- Make a request; `layer` is what becomes of it if it gets so far. -/
def request (s : Requests) (layer : Layer) : Request → Requests × Option Passed
  | .call method params =>
      let number := s.next
      -- `map::insert` keeps an entry that is there
      let kept := (s.callbacks s.sequence).getD number
      let s := { s with
        next := number + 1
        callbacks := Function.update s.callbacks s.sequence (some kept) }
      s.sendText (Json.request s.sequence method params).write s.sequence (some .callback) layer
  | .submit result =>
      let number := s.next
      let s := { s with next := number + 1 }
      if s.takes result then
        -- the digits are written into the send buffer and read from there
        let buf := put s.sendBuf 0 (toHex (nonceBytes result) ++ [0])
        let buf := put buf 16 (toHex (resultBytes result) ++ [0])
        let s := { s with
          sendBuf := buf
          results := Function.update s.results s.sequence (some number) }
        s.sendText (s.submitDoc result (stringAt buf 0) (stringAt buf 16)).write s.sequence
          (some .result) layer
      else (s, none)
  | .login added =>
      let s := { s with next := s.next + 1, results := fun _ => none }
      s.sendText (s.loginDoc added).write 1 none layer
  | .ping =>
      let s := { s with next := s.next + 1 }
      let (text, size) := CString.snprintf s.sendBuf.length (s.keepalive ++ [0x0A])
      transmit { s with sendBuf := put s.sendBuf 0 (text ++ [0]) } size s.sequence none layer

/-! ## Responses -/

/-- What a response carries: an error, a redirect, a result that is an object (with
what a login reads from it) or one that is not. -/
inductive Response
  | error
  | redirect
  | object (rpcId : CString) (algo : Bool)
  | other
  deriving DecidableEq, Repr

/-- `BaseClient::handleSubmitResponse`. -/
def handleSubmitResponse (s : Requests) (id : Int) : Requests :=
  match s.results id with
  | some number =>
      { s with
        results := Function.update s.results id none
        handled := ⟨number, id, .result⟩ :: s.handled }
  | none => s

/-- `Client::parseResponse`. -/
def parseResponse (s : Requests) (id : Int) (response : Response) : Requests :=
  match if id = 1 then none else s.callbacks id with
  | some number =>
      { s with
        callbacks := Function.update s.callbacks id none
        handled := ⟨number, id, .callback⟩ :: s.handled }
  | none =>
      match response with
      | .error => s.handleSubmitResponse id
      | .redirect | .other => s
      | .object rpcId algo => if id = 1 then { s with rpcId, algo } else s.handleSubmitResponse id

/-! ## Runs -/

/-- A request is made, a response arrives, the connection is lost or made again, or
another client uses a sequence number. -/
inductive Event
  | request (layer : Layer) (r : Request)
  | response (id : Int) (response : Response)
  | connected (connected : Bool)
  | other

def step (s : Requests) : Event → Option Requests
  | .request layer r => some (s.request layer r).1
  | .response id response => some (s.parseResponse id response)
  | .connected connected => some { s with connected }
  | .other => some { s with sequence := s.sequence + 1 }

/-- A new client; the sequence number starts at 1 with the first client of all. -/
def init (base : BaseClient) (agent brand : List UInt8) (sequence : Nat) : Requests where
  base := base
  agent := agent
  brand := brand
  algo := false
  rpcId := none
  connected := false
  sequence := sequence + 1
  sendBuf := List.replicate 1024 0
  callbacks := fun _ => none
  results := fun _ => none
  next := 0
  sent := []
  handled := []

def machine : Machine Requests Event where
  init s := ∃ base agent brand sequence, s = init base agent brand sequence
  step := step

end Requests

end Client

end XLArig
