import XLArig.Http
import XLArig.Json.Read

/-!
# XLArig.Api

The HTTP API: the requests that `base/api/Api` shows to its listeners and the responses of
`base/net/http/HttpApiResponse`.

A listener is given by its turn: what it does with a request that it is shown.  rapidjson's
parser is given by what it makes of a body.  A response holds the documents that it sends; their
text, and with it the `Content-Length`, is left to the writer of rapidjson.
-/

namespace XLArig

namespace Api

open Http

/-- `Parse` with comments and trailing commas: the document or the text of the error. -/
class BodyParser where
  parse : Bytes → Except Bytes Json

/-! ## Status -/

/-- `HTTP_STATUS_MAP`. -/
def HTTP_STATUS_MAP : List (Int × String) :=
  [(100, "Continue"), (101, "Switching Protocols"), (102, "Processing"), (200, "OK"),
    (201, "Created"), (202, "Accepted"), (203, "Non-Authoritative Information"),
    (204, "No Content"), (205, "Reset Content"), (206, "Partial Content"), (207, "Multi-Status"),
    (208, "Already Reported"), (226, "IM Used"), (300, "Multiple Choices"),
    (301, "Moved Permanently"), (302, "Found"), (303, "See Other"), (304, "Not Modified"),
    (305, "Use Proxy"), (307, "Temporary Redirect"), (308, "Permanent Redirect"),
    (400, "Bad Request"), (401, "Unauthorized"), (402, "Payment Required"), (403, "Forbidden"),
    (404, "Not Found"), (405, "Method Not Allowed"), (406, "Not Acceptable"),
    (407, "Proxy Authentication Required"), (408, "Request Timeout"), (409, "Conflict"),
    (410, "Gone"), (411, "Length Required"), (412, "Precondition Failed"),
    (413, "Payload Too Large"), (414, "URI Too Long"), (415, "Unsupported Media Type"),
    (416, "Range Not Satisfiable"), (417, "Expectation Failed"), (421, "Misdirected Request"),
    (422, "Unprocessable Entity"), (423, "Locked"), (424, "Failed Dependency"),
    (426, "Upgrade Required"), (428, "Precondition Required"), (429, "Too Many Requests"),
    (431, "Request Header Fields Too Large"), (451, "Unavailable For Legal Reasons"),
    (500, "Internal Server Error"), (501, "Not Implemented"), (502, "Bad Gateway"),
    (503, "Service Unavailable"), (504, "Gateway Timeout"), (505, "HTTP Version Not Supported"),
    (506, "Variant Also Negotiates"), (507, "Insufficient Storage"), (508, "Loop Detected"),
    (510, "Not Extended"), (511, "Network Authentication Required")]

/-- `HttpData::statusName` of a status that is no error of libuv. -/
def statusName (status : Int) : Bytes :=
  bytes ((HTTP_STATUS_MAP.lookup status).getD "<unknown>")

def RPC_PARSE_ERROR : Int := -32700

def RPC_INVALID_REQUEST : Int := -32600

def RPC_METHOD_NOT_FOUND : Int := -32601

def RPC_INVALID_PARAMS : Int := -32602

def rpcError (code : Int) : Bytes :=
  if code = RPC_PARSE_ERROR then bytes "Parse error"
  else if code = RPC_INVALID_REQUEST then bytes "Invalid Request"
  else if code = RPC_METHOD_NOT_FOUND then bytes "Method not found"
  else if code = RPC_INVALID_PARAMS then bytes "Invalid params"
  else if 400 ≤ code ∧ code < 600 then statusName code
  else bytes "Internal error"

/-! ## Documents -/

/-- `AddMember`, which asserts an object and does not look for the name. -/
def addMember (doc : Json) (key : String) (value : Json) : Json :=
  match doc with
  | .object members => .object (members ++ [(bytes key, value)])
  | doc => doc

/-- `MemberCount`; an array keeps its size in the same place. -/
def memberCount : Json → Nat
  | .object members => members.length
  | .array elements => elements.length
  | _ => 0

/-! ## Responses -/

/-- What `HttpResponse::end` writes. -/
structure Sent where
  statusCode : Int
  headers : List (Bytes × Bytes)
  body : Option Json

/-- `HttpApiResponse`: `writable` is what `isAlive` returns, `sent` what was written. -/
structure HttpApiResponse where
  writable : Bool
  statusCode : Int
  headers : List (Bytes × Bytes)
  doc : Json
  sent : List Sent

namespace HttpApiResponse

def new (writable : Bool) (statusCode : Int) : HttpApiResponse :=
  ⟨writable, statusCode, [], .object [], []⟩

def setHeader (res : HttpApiResponse) (key value : String) : HttpApiResponse :=
  { res with headers := insertHeader res.headers (bytes key) (bytes value) }

/-- `HttpResponse::end`. -/
def endWith (res : HttpApiResponse) (body : Option Json) : HttpApiResponse :=
  if !res.writable then res
  else
    let res := res.setHeader "Connection" "close"
    { res with sent := res.sent ++ [⟨res.statusCode, res.headers, body⟩] }

/-- The members that a reply with an error status has. -/
def describe (status : Int) (doc : Json) : Json :=
  if 400 ≤ status then
    let doc := if doc.hasMember (bytes "status") then doc else addMember doc "status" (.int status)
    if doc.hasMember (bytes "error") then doc
    else addMember doc "error" (.string (statusName status))
  else doc

/-- `HttpApiResponse::end`. -/
def endReply (res : HttpApiResponse) : HttpApiResponse :=
  let res := res.setHeader "Access-Control-Allow-Origin" "*"
  let res := res.setHeader "Access-Control-Allow-Methods" "GET, PUT, POST, DELETE"
  let res := res.setHeader "Access-Control-Allow-Headers" "Authorization, Content-Type"
  let res := { res with doc := describe res.statusCode res.doc }
  if memberCount res.doc = 0 then res.endWith none
  else (res.setHeader "Content-Type" "application/json").endWith (some res.doc)

end HttpApiResponse

/-! ## Requests -/

inductive RequestType
  | REQ_UNKNOWN
  | REQ_SUMMARY
  | REQ_JSON_RPC
  deriving DecidableEq

/-- `ApiRequest::State`. -/
inductive State
  | STATE_NEW
  | STATE_ACCEPTED
  | STATE_DONE
  deriving DecidableEq

def METHOD_GET : Int := 1

def METHOD_POST : Int := 3

def METHOD_PUT : Int := 4

structure HttpApiRequest where
  req : HttpData
  restricted : Bool
  version : Nat
  type : RequestType
  state : State
  rpcMethod : CString
  parsed : Nat
  body : Json
  res : HttpApiResponse

namespace HttpApiRequest

def isDone (q : HttpApiRequest) : Bool := q.state == .STATE_DONE

def isNew (q : HttpApiRequest) : Bool := q.state == .STATE_NEW

def hasParseError (q : HttpApiRequest) : Bool := q.parsed == 2

def url (q : HttpApiRequest) : Bytes := Json.cstr q.req.url

def reply (q : HttpApiRequest) : Json := q.res.doc

def json (q : HttpApiRequest) : Json :=
  if q.type = .REQ_JSON_RPC then q.body.getValue (bytes "params") else q.body

/-- The caller writes the reply. -/
def write (q : HttpApiRequest) (f : Json → Json) : HttpApiRequest :=
  { q with res.doc := f q.res.doc }

/-- What `accept` returns is used by no caller. -/
def accept [BodyParser] (q : HttpApiRequest) : HttpApiRequest :=
  let q := { q with state := .STATE_ACCEPTED }
  if q.parsed = 0 ∧ q.req.body ≠ [] then
    match BodyParser.parse (Json.cstr q.req.body) with
    | .ok body => { q with parsed := 1, body }
    | .error text =>
        let q := { q with parsed := 2, body := .null }
        if q.type = .REQ_JSON_RPC then q else q.write (addMember · "error" (.string text))
  else q

def rpcDone (q : HttpApiRequest) (key : String) (value : Json) : HttpApiRequest :=
  let q := { q with state := .STATE_DONE }
  let q := q.write (addMember · key value)
  let q := q.write (addMember · "jsonrpc" (.string (bytes "2.0")))
  let q := q.write (addMember · "id" (q.body.getValue (bytes "id")))
  { q with res := { q.res with statusCode := 200 }.endReply }

def setRpcError (q : HttpApiRequest) (code : Int) (message : CString) : HttpApiRequest :=
  q.rpcDone "error"
    (.object [(bytes "code", .int code), (bytes "message", .string (message.getD (rpcError code)))])

def setRpcResult (q : HttpApiRequest) (result : Json) : HttpApiRequest := q.rpcDone "result" result

/-- `done`: `setRpcError` and `setRpcResult` end the response, and then it is ended again. -/
def done (q : HttpApiRequest) (status : Int) : HttpApiRequest :=
  let q := { q with state := .STATE_DONE }
  let q :=
    if q.type = .REQ_JSON_RPC then
      let q := { q with res.statusCode := 200 }
      if status ≠ 200 then
        q.setRpcError (if status = 404 then RPC_METHOD_NOT_FOUND else status) none
      else if q.reply.hasMember (bytes "result") then q
      else q.setRpcResult (.object [(bytes "status", .string (bytes "OK"))])
    else { q with res.statusCode := status }
  { q with res := q.res.endReply }

/-- The constructor. -/
def new [BodyParser] (writable : Bool) (req : HttpData) (restricted : Bool) : HttpApiRequest :=
  let q : HttpApiRequest :=
    { req
      restricted
      version := 1
      type := .REQ_UNKNOWN
      state := .STATE_NEW
      rpcMethod := none
      parsed := 0
      body := .null
      res := .new writable 200 }
  let q :=
    if req.method = METHOD_GET ∧
        (q.url = bytes "/1/summary" ∨ q.url = bytes "/2/summary" ∨ q.url = bytes "/api.json") then
      { q with type := .REQ_SUMMARY }
    else q
  if req.method = METHOD_POST ∧ q.url = bytes "/json_rpc" then
    let q := { q with type := .REQ_JSON_RPC }.accept
    if q.hasParseError then q.done RPC_PARSE_ERROR
    else
      let q := { q with rpcMethod := q.body.getString (bytes "method") }
      if q.rpcMethod.isEmpty then q.done RPC_INVALID_REQUEST
      else { q with state := .STATE_NEW }
  else if q.url.length > 4 ∧ q.url.take 3 = bytes "/2/" then { q with version := 2 }
  else q

end HttpApiRequest

/-! ## Listeners -/

/-- How a listener finishes a request. -/
inductive Finish
  | done (status : Int)
  | setRpcError (code : Int) (message : CString)
  | setRpcResult (result : Json)

/-- What a listener does with a request.  Whoever accepts or finishes one may write the reply,
and who finishes one may have accepted it before. -/
inductive Turn
  | ignore
  | accept (write : Json → Json)
  | finish (accepted : Bool) (write : Json → Json) (how : Finish)

/-- `onRequest` of a listener, with the state that it reads and changes. -/
abbrev Listener (σ : Type) := HttpApiRequest → σ → Turn × σ

namespace HttpApiRequest

def finish (q : HttpApiRequest) : Finish → HttpApiRequest
  | .done status => q.done status
  | .setRpcError code message => q.setRpcError code message
  | .setRpcResult result => q.setRpcResult result

/-- A request after the turn of a listener. -/
def after [BodyParser] (q : HttpApiRequest) : Turn → HttpApiRequest
  | .ignore => q
  | .accept f => q.accept.write f
  | .finish accepted f how => ((if accepted then q.accept else q).write f).finish how

end HttpApiRequest

/-- What becomes of a request, and the requests as the listeners were shown them. -/
structure Ran (σ : Type) where
  request : HttpApiRequest
  state : σ
  shown : List HttpApiRequest

/-- The loop of `exec` and what follows it. -/
def notify [BodyParser] {σ : Type} : List (Listener σ) → HttpApiRequest → σ → Ran σ
  | [], q, s => ⟨q.done (if q.isNew then 404 else 200), s, []⟩
  | l :: ls, q, s =>
      let (turn, s) := l q s
      if (q.after turn).isDone then ⟨q.after turn, s, [q]⟩
      else
        let ran := notify ls (q.after turn) s
        { ran with shown := q :: ran.shown }

end Api

/-- `Api`, with what it asks the system for. -/
structure Api (σ : Type) where
  id : List UInt8
  workerId : CString
  uptime : Int
  resources : Json
  listeners : List (Api.Listener σ)

namespace Api

open Http

variable [BodyParser] {σ : Type}

/-- What `exec` adds to the reply of a summary. -/
def summary (api : Api σ) (restricted : Bool) (doc : Json) : Json :=
  let doc := addMember doc "id" (.string api.id)
  let doc := addMember doc "worker_id" (Json.ofCString api.workerId)
  let doc := addMember doc "uptime" (.int api.uptime)
  let doc := addMember doc "restricted" (.bool restricted)
  let doc := addMember doc "resources" api.resources
  addMember doc "features"
    (.array (["api", "asm", "http", "hwloc", "tls"].map fun feature => .string (bytes feature)))

def exec (api : Api σ) (q : HttpApiRequest) (s : σ) : Ran σ :=
  let q := if q.type = .REQ_SUMMARY then q.accept.write (api.summary q.restricted) else q
  notify api.listeners q s

/-- `Api::request`. -/
def request (api : Api σ) (writable : Bool) (req : HttpData) (restricted : Bool) (s : σ) : Ran σ :=
  api.exec (.new writable req restricted) s

end Api

end XLArig
