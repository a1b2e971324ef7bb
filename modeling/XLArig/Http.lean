import XLArig.CString

/-!
# XLArig.Http

`base/net/http/HttpContext` and what `HttpServer` and `HttpClient` do with a read: the callbacks
that `llhttp` makes, the data they gather and the connection that they close.

`llhttp` itself is not part of the model: a `Chunk` is one call of `llhttp_execute` with the
callbacks that it makes and the error that it returns.  All callbacks return 0, so that the
parser is the same whatever they do.
-/

namespace XLArig

namespace Http

abbrev Bytes := List UInt8

/-! ## Data -/

/-- `HttpData`, without what the caller of `fetch` keeps there. -/
structure HttpData where
  method : Int
  status : Int
  headers : List (Bytes × Bytes)
  body : Bytes
  url : Bytes
  deriving DecidableEq

/-- `std::map::insert` leaves a name that is there already. -/
def insertHeader (headers : List (Bytes × Bytes)) (name value : Bytes) : List (Bytes × Bytes) :=
  if headers.any (·.1 == name) then headers else headers ++ [(name, value)]

/-- `llhttp_type_t`. -/
inductive HttpType
  | HTTP_REQUEST
  | HTTP_RESPONSE
  deriving DecidableEq, Repr

/-- A callback of `llhttp`; `on_headers_complete` reads the method and the status code. -/
inductive Event
  | url (text : Bytes)
  | headerField (text : Bytes)
  | headerValue (text : Bytes)
  | headersComplete (method statusCode : Nat)
  | body (text : Bytes)
  | messageComplete
  deriving DecidableEq

/-- `HttpContext`: `listener` says that `m_listener` is set and alive, and `received` holds what
was handed to its `onHttpData`. -/
@[ext]
structure HttpContext where
  type : HttpType
  data : HttpData
  wasHeaderValue : Bool
  lastHeaderField : Bytes
  lastHeaderValue : Bytes
  listener : Bool
  received : List HttpData
  deriving DecidableEq

namespace HttpContext

def setHeader (s : HttpContext) : HttpContext :=
  { s with
    data.headers :=
      insertHeader s.data.headers (s.lastHeaderField.map CString.tolower) s.lastHeaderValue
    lastHeaderField := []
    lastHeaderValue := [] }

/-- `if (!m_lastHeaderField.empty()) { setHeader(); }` -/
def commitHeader (s : HttpContext) : HttpContext :=
  if s.lastHeaderField = [] then s else s.setHeader

def onHeaderField (s : HttpContext) (text : Bytes) : HttpContext :=
  if s.wasHeaderValue then
    { s.commitHeader with lastHeaderField := text, wasHeaderValue := false }
  else { s with lastHeaderField := s.lastHeaderField ++ text }

def onHeaderValue (s : HttpContext) (text : Bytes) : HttpContext :=
  if s.wasHeaderValue then { s with lastHeaderValue := s.lastHeaderValue ++ text }
  else { s with lastHeaderValue := text, wasHeaderValue := true }

def onHeadersComplete (s : HttpContext) (method statusCode : Nat) : HttpContext :=
  let s := { s with data.status := statusCode }
  let s := if s.type = .HTTP_REQUEST then { s with data.method := method } else s
  s.commitHeader

/-- The listener gets the data. -/
def onHttpData (s : HttpContext) : HttpContext := { s with received := s.received ++ [s.data] }

def onMessageComplete (s : HttpContext) : HttpContext :=
  if s.listener then { s.onHttpData with listener := false } else s

/-- The callbacks that `attach` sets. -/
def callback (s : HttpContext) : Event → HttpContext
  | .url text => { s with data.url := text }
  | .headerField text => s.onHeaderField text
  | .headerValue text => s.onHeaderValue text
  | .headersComplete method statusCode => s.onHeadersComplete method statusCode
  | .body text => { s with data.body := s.data.body ++ text }
  | .messageComplete => s.onMessageComplete

def callbacks (s : HttpContext) (es : List Event) : HttpContext := es.foldl callback s

@[simp] theorem callbacks_nil (s : HttpContext) : s.callbacks [] = s := rfl

@[simp] theorem callbacks_cons (s : HttpContext) (e : Event) (es : List Event) :
    s.callbacks (e :: es) = (s.callback e).callbacks es := rfl

theorem callbacks_append (s : HttpContext) (es es' : List Event) :
    s.callbacks (es ++ es') = (s.callbacks es).callbacks es' := List.foldl_append

end HttpContext

/-! ## Reads -/

def UV_EPROTO : Int := -71

def UV_ETIMEDOUT : Int := -110

def UV_ECANCELED : Int := -125

def UV_EOF : Int := -4095

/-- What is passed to `parse`, the callbacks of `llhttp_execute` for it and what that returns. -/
structure Chunk where
  data : Bytes
  events : List Event
  errno : Nat
  deriving DecidableEq

/-- A context, its entry in `storage` and its handle. -/
@[ext]
structure Connection where
  ctx : HttpContext
  registered : Bool
  closing : Bool
  deriving DecidableEq

namespace Connection

/-- `HttpContext::close`. -/
def close (s : Connection) (status : Int) : Connection :=
  if s.registered then
    let ctx :=
      if status < 0 ∧ s.ctx.listener then
        HttpContext.onHttpData { s.ctx with data.status := status }
      else s.ctx
    { ctx := ctx, registered := false, closing := true }
  else s

/-- `HttpContext::parse`: the number that `llhttp_execute` returns is its error. -/
def parse (s : Connection) (c : Chunk) : Connection × Nat :=
  if c.data = [] then (s, 0)
  else ({ s with ctx := s.ctx.callbacks c.events }, c.errno)

/-- The status with which a read that is not understood closes the connection: 0 in
`HttpServer`, `UV_EPROTO` in `HttpClient`. -/
def failure : HttpType → Int
  | .HTTP_REQUEST => 0
  | .HTTP_RESPONSE => UV_EPROTO

/-- `HttpClient::read`, and what `HttpServer` does with the bytes it reads. -/
def read (s : Connection) (c : Chunk) : Connection :=
  let (s, parsed) := s.parse c
  if parsed < c.data.length then s.close (failure s.ctx.type) else s

/-- One read of the socket: with TLS, all of its chunks are parsed, also after the context was
closed; without, there is one. -/
def onRead (s : Connection) (chunks : List Chunk) : Connection := chunks.foldl read s

/-- A closed handle reads no more. -/
def onReads (s : Connection) (reads : List (List Chunk)) : Connection :=
  reads.foldl (fun s chunks => if s.closing then s else s.onRead chunks) s

end Connection

end Http

end XLArig
