import XLArig.Json.Read
import XLArig.Pool.Url
import XLArig.Pools

/-!
# XLArig.Pool.Config

A pool in the configuration: how it is read from a JSON object, and written to one.

What is written depends on the mode of the pool; what is read does not, but for the setting
that goes with a self-select daemon.
-/

namespace XLArig

namespace Json

/-- `Json::getBool`. -/
def getBool (obj : Json) (key : List UInt8) (defaultValue : Bool) : Bool :=
  match obj.getValue key with
  | bool b => b
  | _ => defaultValue

/-- `Json::getUint64` with a default. -/
def getUint64Or (obj : Json) (key : List UInt8) (defaultValue : UInt64) : UInt64 :=
  match obj.getValue key with
  | int n => if 0 ≤ n ∧ n < 2 ^ 64 then .ofNat n.toNat else defaultValue
  | _ => defaultValue

end Json

/-! ## Names -/

namespace Algorithm

/-- `Algorithm::toJSON`. -/
def toJSON [Features] (a : Algorithm) : Json := if a.isValid then .string a.shortName else .null

end Algorithm

namespace Coin

/-- `coin_names`. -/
def coinNames : List (String × Coin) :=
  [("monero", MONERO), ("xmr", MONERO), ("arqma", ARQMA), ("arq", ARQMA), ("dero", DERO),
    ("keva", KEVA), ("ravencoin", RAVEN), ("raven", RAVEN), ("rvn", RAVEN), ("conceal", CONCEAL)]

/-- `Coin::parse`. -/
def parse : CString → Coin
  | none => INVALID
  | some name =>
      if name.length < 3 then INVALID
      else
        match coinNames.find? fun x => CString.sameIgnoringCase name (bytes x.1) with
        | some (_, id) => id
        | none => INVALID

/-- `Coin::name`. -/
def name (c : Coin) : CString := (coinNames.find? fun x => x.2 == c).map fun x => bytes x.1

/-- `Coin::toJSON`. -/
def toJSON (c : Coin) : Json := if c.isValid then .ofCString c.name else .null

end Coin

namespace ProxyUrl

/-- `ProxyUrl(value)`. -/
def ofJSON : Json → ProxyUrl
  | .string text => ⟨empty.parse (some (Json.cstr text))⟩
  | .int n => if 0 ≤ n ∧ n < 2 ^ 32 then ⟨{ empty.toUrl with port := .ofNat (n % 2 ^ 16).toNat }⟩ else empty
  | _ => empty

/-- `ProxyUrl::toJSON`; a port alone is one of this host. -/
def toJSON (u : ProxyUrl) : Json :=
  if !u.isValid then .null
  else if u.host.isSome then .ofCString u.url
  else .int u.port.toNat

end ProxyUrl

namespace Pool

/-! ## Reading -/

def kKeepAliveTimeout : Int := 60

/-- `setKeepAlive`, for a pool that has no keepalive yet. -/
def readKeepAlive : Json → Int
  | .int n => if -2 ^ 31 ≤ n ∧ n < 2 ^ 31 then max n 0 else 0
  | .bool b => if b then kKeepAliveTimeout else 0
  | _ => 0

/-- `Pool` with no more than an address. -/
def ofUrl (url : Url) : Pool where
  algorithm := .INVALID
  submitToOrigin := false
  coin := .INVALID
  keepAlive := 0
  mode := .POOL
  proxy := .empty
  enabled := true
  nicehash := false
  tls := false
  fingerprint := none
  password := none
  rigId := none
  user := none
  pollInterval := kDefaultPollInterval
  daemon := .empty
  url := url

/-- The address of the pool, and that of the self-select daemon. -/
def readUrl (o : Json) : Url := Url.empty.parse (o.getString (bytes "url"))

def readDaemon (o : Json) : Url := Url.empty.parse (o.getString (bytes "self-select"))

def isNicehashHost (u : Url) : Bool := u.host.any fun host => decide (kNicehashHost <:+: host)

variable [Features]

/-- `Pool(object)`. -/
def ofJSON (o : Json) : Pool :=
  let url := readUrl o
  if !url.isValid then ofUrl url
  else
    let daemon := readDaemon o
    { algorithm := .parse (o.getString (bytes "algo"))
      submitToOrigin := daemon.isValid && o.getBool (bytes "submit-to-origin") false
      coin := .parse (o.getString (bytes "coin"))
      keepAlive := readKeepAlive (o.getValue (bytes "keepalive"))
      mode :=
        if daemon.isValid then .SELF_SELECT
        else if o.getBool (bytes "daemon") false then .DAEMON
        else .POOL
      proxy := .ofJSON (o.getValue (bytes "socks5"))
      enabled := o.getBool (bytes "enabled") true
      nicehash := o.getBool (bytes "nicehash") false || isNicehashHost url
      tls := o.getBool (bytes "tls") false || url.tls
      fingerprint := o.getString (bytes "tls-fingerprint")
      password := o.getString (bytes "pass")
      rigId := o.getString (bytes "rig-id")
      user := o.getString (bytes "user")
      pollInterval := o.getUint64Or (bytes "daemon-poll-interval") kDefaultPollInterval
      daemon
      url }

/-! ## Writing -/

/-- The keepalive is a switch where it can be one. -/
def keepAliveToJSON (keepAlive : Int) : Json :=
  if keepAlive = 0 ∨ keepAlive = kKeepAliveTimeout then .bool (keepAlive > 0) else .int keepAlive

/-- The members of `Pool::toJSON`, in their order. -/
def members (p : Pool) : List (List UInt8 × Json) :=
  [(bytes "algo", p.algorithm.toJSON), (bytes "coin", p.coin.toJSON),
    (bytes "url", .ofCString p.url.url), (bytes "user", .ofCString p.user)] ++
  (if p.mode ≠ .DAEMON then
    [(bytes "pass", .ofCString p.password), (bytes "rig-id", .ofCString p.rigId),
      (bytes "nicehash", .bool p.nicehash), (bytes "keepalive", keepAliveToJSON p.keepAlive)]
  else []) ++
  [(bytes "enabled", .bool p.enabled), (bytes "tls", .bool p.isTLS),
    (bytes "tls-fingerprint", .ofCString p.fingerprint),
    (bytes "daemon", .bool (p.mode = .DAEMON)), (bytes "socks5", p.proxy.toJSON)] ++
  (if p.mode = .DAEMON then [(bytes "daemon-poll-interval", .int p.pollInterval.toNat)]
  else
    [(bytes "self-select", .ofCString p.daemon.url),
      (bytes "submit-to-origin", .bool p.submitToOrigin)])

/-- `Pool::toJSON`. -/
def toJSON (p : Pool) : Json := .object p.members

end Pool

end XLArig
