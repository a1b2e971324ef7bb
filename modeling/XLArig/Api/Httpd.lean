import XLArig.Api.Answered
import XLArig.RxConfig

/-!
# XLArig.Api.Httpd

`base/api/Httpd` and the listeners that the miner registers with the API.

The replies of the listeners and the result of `Base::reload` are given; what is followed here is
which of `Base::reload`, `Config::getJSON`, `Miner::setEnabled` and `Miner::stop` a request
reaches.  It reaches one of them only with the token of a configuration that is not restricted
(`authorized`).
-/

namespace XLArig

namespace Api

open Http

/-! ## Configuration -/

/-- `Http`, without the address of the server. -/
structure HttpConfig where
  enabled : Bool
  restricted : Bool
  token : CString
  /-- The token is a C string. -/
  terminated : ∀ t ∈ token, (0 : UInt8) ∉ t

namespace HttpConfig

theorem not_mem_cstr (s : Bytes) : (0 : UInt8) ∉ Json.cstr s := by
  intro h
  have hne := List.mem_takeWhile_imp h
  simp at hne

/-- `Http::load`; what is no object leaves the defaults. -/
def load (http : Json) : HttpConfig where
  enabled := http.isObject && http.getBool (bytes "enabled") false
  restricted := !http.isObject || http.getBool (bytes "restricted") true
  token := http.getString (bytes "access-token")
  terminated := by
    intro t ht
    unfold Json.getString at ht
    split at ht
    · obtain rfl := Option.some.inj ht
      exact not_mem_cstr _
    · contradiction

def isAuthRequired (c : HttpConfig) : Bool := !c.restricted || c.token.isSome

end HttpConfig

/-! ## `Httpd` -/

/-- `strncmp(a, b, n) == 0`; the lists end before the terminators. -/
def strncmpEq : Nat → Bytes → Bytes → Bool
  | 0, _, _ => true
  | n + 1, a, b =>
      let x := a.headD 0
      x == b.headD 0 && (x == 0 || strncmpEq n a.tail b.tail)

/-- `headers.at(name)`, where there is one. -/
def header (req : HttpData) (name : String) : Option Bytes := req.headers.lookup (bytes name)

def auth (config : HttpConfig) (req : HttpData) : Int :=
  match header req "authorization" with
  | none => if config.isAuthRequired then 401 else 200
  | some value =>
      match config.token with
      | none => 401
      | some token =>
          if value.length < 8 ∨ token.length ≠ value.length - 7 ∨
              value.take 7 ≠ bytes "Bearer " then
            403
          else if strncmpEq token.length token (value.drop 7) then 200
          else 403

def HTTP_OPTIONS : Int := 6

/-- What a request reaches. -/
inductive Reached
  | reload (json : Json)
  | getJSON
  | setEnabled (enabled : Bool)
  | stop

/-- What comes of a request: what was sent, what was reached and what the listeners were shown. -/
structure Served where
  sent : List Sent
  reached : List Reached
  shown : List HttpApiRequest

def HttpApiResponse.served (res : HttpApiResponse) : Served := ⟨res.sent, [], []⟩

/-- `Httpd::onHttpData`, which has no icon outside of Windows. -/
def onHttpData [BodyParser] (api : Api (List Reached)) (config : HttpConfig) (writable : Bool)
    (req : HttpData) : Served :=
  if req.method = HTTP_OPTIONS then (HttpApiResponse.new writable 200).endReply.served
  else if req.method = METHOD_GET ∧ req.url = bytes "/favicon.ico" then
    ((HttpApiResponse.new writable 404).endWith none).served
  else if req.method > 4 then (HttpApiResponse.new writable 405).endReply.served
  else if auth config req ≠ 200 then
    (HttpApiResponse.new writable (auth config req)).endReply.served
  else if req.method ≠ METHOD_GET ∧ config.restricted then
    (HttpApiResponse.new writable 403).endReply.served
  else if req.method ≠ METHOD_GET ∧ header req "content-type" ≠ some (bytes "application/json") then
    (HttpApiResponse.new writable 415).endReply.served
  else
    let ran := api.request writable req config.restricted []
    ⟨ran.request.res.sent, ran.state, ran.shown⟩

/-! ## The listeners of the miner -/

/-- What the listeners write, and what `Base::reload` returns for a document. -/
structure Replies where
  reload : Json → Bool
  config : Json
  results : Nat → Json → Json
  dmi : Json → Json
  summary : Nat → Json → Json
  backends : Json → Json

def isConfigPath (q : HttpApiRequest) : Bool :=
  q.url == bytes "/1/config" || q.url == bytes "/2/config"

/-- `Base::onRequest`. -/
def Base.onRequest [BodyParser] (r : Replies) : Listener (List Reached) := fun q reached =>
  if q.req.method = METHOD_GET then
    if isConfigPath q then
      if q.restricted then (.finish false (fun doc => doc) (.done 403), reached)
      else (.accept fun _ => r.config, reached ++ [.getJSON])
    else (.ignore, reached)
  else if q.req.method = METHOD_PUT ∨ q.req.method = METHOD_POST then
    if isConfigPath q then
      let json := q.accept.json
      (.finish true (fun doc => doc) (.done (if r.reload json then 204 else 400)),
        reached ++ [.reload json])
    else (.ignore, reached)
  else (.ignore, reached)

/-- `Network::onRequest`: `getResults` and `getConnection`. -/
def Network.onRequest (r : Replies) : Listener (List Reached) := fun q reached =>
  if q.type = .REQ_SUMMARY then (.accept (r.results q.version), reached) else (.ignore, reached)

/-- `HwApi::onRequest`. -/
def HwApi.onRequest (r : Replies) : Listener (List Reached) := fun q reached =>
  if q.req.method = METHOD_GET ∧ q.url = bytes "/2/dmi" then (.accept r.dmi, reached)
  else (.ignore, reached)

/-- `Miner::onRequest`: the summary has `getMiner`, `getHashrate` and what the CPU backend adds to
it. -/
def Miner.onRequest (r : Replies) : Listener (List Reached) := fun q reached =>
  if q.req.method = METHOD_GET then
    if q.type = .REQ_SUMMARY then (.accept (r.summary q.version), reached)
    else if q.url = bytes "/2/backends" then (.accept r.backends, reached)
    else (.ignore, reached)
  else if q.type = .REQ_JSON_RPC then
    if q.rpcMethod = some (bytes "pause") then
      (.accept fun doc => doc, reached ++ [.setEnabled false])
    else if q.rpcMethod = some (bytes "resume") then
      (.accept fun doc => doc, reached ++ [.setEnabled true])
    else if q.rpcMethod = some (bytes "stop") then (.accept fun doc => doc, reached ++ [.stop])
    else (.ignore, reached)
  else (.ignore, reached)

/-- In the order in which they are added. -/
def registered [BodyParser] (r : Replies) : List (Listener (List Reached)) :=
  [Base.onRequest r, Network.onRequest r, HwApi.onRequest r, Miner.onRequest r]

/-! ## Authority -/

theorem strncmpEq_iff {a b : Bytes} (h : (0 : UInt8) ∉ a) (hlen : b.length = a.length) :
    strncmpEq a.length a b = true ↔ a = b := by
  induction a generalizing b with
  | nil => simp [strncmpEq, List.length_eq_zero_iff.mp hlen]
  | cons x xs ih =>
      cases b with
      | nil => contradiction
      | cons y ys =>
          have hx : x ≠ 0 := fun hx => h (hx ▸ List.mem_cons_self)
          have hxs : (0 : UInt8) ∉ xs := fun hmem => h (List.mem_cons_of_mem x hmem)
          have hys : ys.length = xs.length := Nat.succ.inj hlen
          simp [strncmpEq, hx, ih hxs hys]

/-- The request carries the token. -/
def Carries (config : HttpConfig) (req : HttpData) : Prop :=
  ∃ token, config.token = some token ∧
    header req "authorization" = some (bytes "Bearer " ++ token)

theorem carries_of_auth {config : HttpConfig} {req : HttpData} (h : auth config req = 200) :
    Carries config req ∨
      header req "authorization" = none ∧ config.restricted = true ∧ config.token = none := by
  unfold auth at h
  cases hheader : header req "authorization" with
  | none =>
      rw [hheader] at h
      dsimp only at h
      split at h
      case isTrue => contradiction
      case isFalse hrequired =>
        simp only [HttpConfig.isAuthRequired, Bool.or_eq_true, Bool.not_eq_true', not_or,
          Bool.not_eq_false, Bool.not_eq_true, Option.isSome_eq_false_iff,
          Option.isNone_iff_eq_none] at hrequired
        exact .inr ⟨rfl, hrequired⟩
  | some value =>
      rw [hheader] at h
      dsimp only at h
      cases htoken : config.token with
      | none =>
          rw [htoken] at h
          exact absurd (show (401 : Int) = 200 from h) (by decide)
      | some token =>
          rw [htoken] at h
          dsimp only at h
          split at h
          case isTrue => contradiction
          case isFalse hshape =>
            simp only [not_or, not_lt, not_not] at hshape
            obtain ⟨hlong, hlen, hbearer⟩ := hshape
            split at h
            case isFalse => contradiction
            case isTrue heq =>
              have hdrop : (value.drop 7).length = token.length := by
                rw [List.length_drop, hlen]
              have hvalue := (strncmpEq_iff (config.terminated token htoken) hdrop).mp heq
              refine .inl ⟨token, htoken, ?_⟩
              rw [hheader, hvalue, ← hbearer, List.take_append_drop]

/-! ## What is reached -/

section

variable [BodyParser]

/-- A listener that reaches nothing for a `GET` of a restricted API. -/
def Quiet {σ : Type} (l : Listener σ) : Prop :=
  ∀ q s, q.restricted = true → q.req.method = METHOD_GET → (l q s).2 = s

theorem quiet_registered (r : Replies) : ∀ l ∈ registered r, Quiet l := by
  intro l hmem q reached hrestricted hget
  simp only [registered, List.mem_cons, List.not_mem_nil, or_false] at hmem
  obtain rfl | rfl | rfl | rfl := hmem
  · simp only [Base.onRequest, if_pos hget, hrestricted, if_true]
    split <;> rfl
  · unfold Network.onRequest
    split <;> rfl
  · unfold HwApi.onRequest
    split <;> rfl
  · simp only [Miner.onRequest, if_pos hget]
    split
    · rfl
    · split <;> rfl

theorem state_notify {σ : Type} {ls : List (Listener σ)} (hquiet : ∀ l ∈ ls, Quiet l)
    {q : HttpApiRequest} (hrestricted : q.restricted = true) (hget : q.req.method = METHOD_GET)
    (s : σ) : (notify ls q s).state = s := by
  induction ls generalizing q with
  | nil => rfl
  | cons l ls ih =>
      obtain ⟨hl, hls⟩ := List.forall_mem_cons.mp hquiet
      have hstate := hl q s hrestricted hget
      simp only [notify, hstate]
      split
      case isTrue => rfl
      case isFalse hdone =>
        cases hturn : (l q s).1 with
        | ignore => exact ih hls hrestricted hget
        | accept f =>
            obtain ⟨hreq, hrestricted'⟩ := q.accept_req
            exact ih hls (hrestricted'.trans hrestricted) (by rw [← hget, ← hreq]; rfl)
        | finish accepted f how =>
            rw [hturn] at hdone
            exact absurd (HttpApiRequest.isDone_finish how) hdone

theorem new_req {req : HttpData} (hget : req.method = METHOD_GET) (writable restricted : Bool) :
    (HttpApiRequest.new writable req restricted).req = req ∧
      (HttpApiRequest.new writable req restricted).restricted = restricted := by
  have hpost : ¬ req.method = METHOD_POST := by
    rw [hget]
    decide
  unfold HttpApiRequest.new
  simp only [hpost, false_and, if_false]
  split
  · split <;> exact ⟨rfl, rfl⟩
  · split <;> exact ⟨rfl, rfl⟩

/-- Nothing is reached by a `GET` of a restricted API. -/
theorem state_request (api : Api (List Reached)) (r : Replies) {req : HttpData}
    (hget : req.method = METHOD_GET) (writable : Bool) :
    (Api.request { api with listeners := registered r } writable req true []).state = [] := by
  obtain ⟨hreq, hrestricted⟩ := new_req hget writable true
  have hmethod := hreq ▸ hget
  unfold request exec
  dsimp only
  split
  case isFalse => exact state_notify (quiet_registered r) hrestricted hmethod []
  case isTrue =>
    obtain ⟨hreq', hrestricted'⟩ := (HttpApiRequest.new writable req true).accept_req
    refine state_notify (quiet_registered r) ?_ ?_ []
    · exact hrestricted'.trans hrestricted
    · exact (congrArg HttpData.method hreq').trans hmethod

/-- What a request that is answered without the listeners does. -/
theorem onHttpData_cases (api : Api (List Reached)) (config : HttpConfig) (writable : Bool)
    (req : HttpData) :
    ((onHttpData api config writable req).reached = [] ∧
        (onHttpData api config writable req).shown = []) ∨
      (auth config req = 200 ∧ ¬ (req.method ≠ METHOD_GET ∧ config.restricted = true) ∧
        (onHttpData api config writable req).reached =
          (api.request writable req config.restricted []).state ∧
        (onHttpData api config writable req).shown =
          (api.request writable req config.restricted []).shown) := by
  unfold onHttpData
  split
  · exact .inl ⟨rfl, rfl⟩
  split
  · exact .inl ⟨rfl, rfl⟩
  split
  · exact .inl ⟨rfl, rfl⟩
  split
  · exact .inl ⟨rfl, rfl⟩
  case isFalse hauth =>
    split
    · exact .inl ⟨rfl, rfl⟩
    case isFalse hrestricted =>
      split
      · exact .inl ⟨rfl, rfl⟩
      · exact .inr ⟨not_not.mp hauth, hrestricted, rfl, rfl⟩

/-- What changes the miner or shows its configuration is reached only with the token of an API that
is not restricted; and a listener sees a request only with the token, or if there is neither a
token nor a header and the API is restricted. -/
theorem authorized (api : Api (List Reached)) (r : Replies) (config : HttpConfig) (writable : Bool)
    (req : HttpData) :
    let served := onHttpData { api with listeners := registered r } config writable req
    (served.reached ≠ [] → config.restricted = false ∧ Carries config req) ∧
      (served.shown ≠ [] → Carries config req ∨
        header req "authorization" = none ∧ config.restricted = true ∧ config.token = none) := by
  obtain ⟨hreached, hshown⟩ | ⟨hauth, hmethod, hreached, hshown⟩ :=
    onHttpData_cases { api with listeners := registered r } config writable req
  · exact ⟨fun h => absurd hreached h, fun h => absurd hshown h⟩
  · have hcarries := carries_of_auth hauth
    refine ⟨fun h => ?_, fun _ => hcarries⟩
    have hrestricted : config.restricted = false := by
      refine Bool.eq_false_of_not_eq_true fun hrestricted => h ?_
      have hget : req.method = METHOD_GET :=
        Classical.byContradiction fun hne => hmethod ⟨hne, hrestricted⟩
      rw [hreached, hrestricted]
      exact state_request api r hget writable
    refine ⟨hrestricted, hcarries.resolve_right fun hopen => ?_⟩
    rw [hrestricted] at hopen
    exact Bool.false_ne_true hopen.2.1

end

end Api

end XLArig
