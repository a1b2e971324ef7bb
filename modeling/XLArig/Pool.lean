import XLArig.Algorithm

/-!
# XLArig.Pool

`base/net/stratum`: the address of a pool, its attributes, and what a client takes
over from it.

A pool is built from a configuration or from the eight arguments of a constructor;
`Pool::isEqual` and `createClient` read more attributes than these eight.  A
redirect rebuilds the pool by that constructor, so `redirect_keeps_iff` says which
pools it leaves as they are.
-/

namespace XLArig

/-! ## Addresses -/

/-- `Url::Scheme`. -/
inductive Scheme
  | UNSPECIFIED
  | STRATUM
  | DAEMON
  | SOCKS5
  deriving DecidableEq, Repr

/-- `Url`. -/
structure Url where
  tls : Bool
  scheme : Scheme
  host : CString
  url : CString
  port : UInt16
  deriving DecidableEq

namespace Url

/-- A default-constructed address. -/
def empty : Url := ⟨false, .UNSPECIFIED, none, none, 3333⟩

def isValid (u : Url) : Bool := u.host.isSome && u.port > 0

/-- `Url(host, port, tls)`. -/
def ofHost (host : List UInt8) (port : UInt16) (tls : Bool) : Url where
  tls := tls
  scheme := .UNSPECIFIED
  host := some host
  url := some (CString.snprintf (host.length + 7) (host ++ bytes ":" ++ decimal port.toNat)).1
  port := port

end Url

/-- `ProxyUrl`, which is valid without a host and has no default port. -/
structure ProxyUrl extends Url
  deriving DecidableEq

namespace ProxyUrl

def empty : ProxyUrl := ⟨{ Url.empty with port := 0 }⟩

def isValid (u : ProxyUrl) : Bool :=
  u.port > 0 && (u.scheme = .UNSPECIFIED || u.scheme = .SOCKS5)

end ProxyUrl

/-- `Coin::Id`. -/
inductive Coin
  | INVALID
  | MONERO
  | ARQMA
  | DERO
  | KEVA
  | RAVEN
  | CONCEAL
  deriving DecidableEq, Repr

namespace Coin

def isValid (c : Coin) : Bool := c != INVALID

/-- `Coin::algorithm`, for the first byte of a blob. -/
def algorithm (c : Coin) (blobVersion : UInt8) : Algorithm :=
  match c with
  | MONERO => if blobVersion ≥ 12 then .RX_0 else .CN_R
  | ARQMA => if blobVersion ≥ 15 then .RX_ARQ else .CN_PICO_0
  | DERO => if blobVersion ≥ 4 then .ASTROBWT_DERO else .CN_0
  | KEVA => if blobVersion ≥ 11 then .RX_KEVA else .CN_R
  | RAVEN => .KAWPOW_RVN
  | CONCEAL => .CN_CCX
  | INVALID => .INVALID

end Coin

/-! ## Pools -/

/-- `Pool::Mode`. -/
inductive Mode
  | POOL
  | DAEMON
  | SELF_SELECT
  | AUTO_ETH
  deriving DecidableEq, Repr

/-- `Pool`; the three flags of `m_flags` are `enabled`, `nicehash` and `tls`. -/
structure Pool where
  algorithm : Algorithm
  submitToOrigin : Bool
  coin : Coin
  keepAlive : Int
  mode : Mode
  proxy : ProxyUrl
  enabled : Bool
  nicehash : Bool
  tls : Bool
  fingerprint : CString
  password : CString
  rigId : CString
  user : CString
  pollInterval : UInt64
  daemon : Url
  url : Url
  deriving DecidableEq

namespace Pool

def kDefaultPollInterval : UInt64 := 1000

/-- `kDefaultUser` and `kDefaultPassword`. -/
def kDefault : List UInt8 := bytes "x"

def kNicehashHost : List UInt8 := bytes "nicehash.com"

/-- `Pool::isTLS`. -/
def isTLS (p : Pool) : Bool := p.tls || p.url.tls

def isValid (p : Pool) : Bool := p.url.isValid

/-- `Pool::user`, with the default for a pool without a user. -/
def userOrDefault (p : Pool) : CString := if p.user.isNone then some kDefault else p.user

/-- `Pool::password`. -/
def passwordOrDefault (p : Pool) : CString :=
  if p.password.isNone then some kDefault else p.password

/-- `Pool(host, port, user, password, keepAlive, nicehash, tls, mode)`. -/
def ofHost (host : List UInt8) (port : UInt16) (user password : CString) (keepAlive : Int)
    (nicehash tls : Bool) (mode : Mode) : Pool where
  algorithm := .INVALID
  submitToOrigin := false
  coin := .INVALID
  keepAlive := keepAlive
  mode := mode
  proxy := .empty
  enabled := true
  nicehash := nicehash || decide (kNicehashHost <:+: host)
  tls := tls
  fingerprint := none
  password := password
  rigId := none
  user := user
  pollInterval := kDefaultPollInterval
  daemon := .empty
  url := .ofHost host port tls

/-- The pool that a redirect to `host` and `port` is followed with. -/
def redirect (p : Pool) (host : List UInt8) (port : Int) : Pool :=
  .ofHost host (UInt16.ofNat (port % 2 ^ 16).toNat) p.userOrDefault p.passwordOrDefault
    p.keepAlive p.nicehash p.isTLS p.mode

/-- A pool on which only what that constructor takes has been set. -/
structure Plain (p : Pool) (host : List UInt8) : Prop where
  algorithm : p.algorithm = .INVALID
  submitToOrigin : p.submitToOrigin = false
  coin : p.coin = .INVALID
  proxy : p.proxy = .empty
  enabled : p.enabled = true
  nicehash : kNicehashHost <:+: host → p.nicehash = true
  tls : p.url.tls = true → p.tls = true
  fingerprint : p.fingerprint = none
  password : p.password ≠ none
  rigId : p.rigId = none
  user : p.user ≠ none
  pollInterval : p.pollInterval = kDefaultPollInterval
  daemon : p.daemon = .empty

variable {p : Pool} {host : List UInt8} {port : Int}

theorem redirect_port (h0 : 0 < port) (h1 : port < 2 ^ 16) :
    ((p.redirect host port).url.port.toNat : Int) = port := by
  simp only [redirect, ofHost, Url.ofHost, UInt16.toNat_ofNat']
  omega

theorem isValid_redirect (h0 : 0 < port) (h1 : port < 2 ^ 16) :
    (p.redirect host port).isValid = true := by
  have hport : ((p.redirect host port).url.port.toNat : Int) = port := redirect_port h0 h1
  simp only [isValid, Url.isValid, Bool.and_eq_true, decide_eq_true_eq]
  refine ⟨rfl, ?_⟩
  rw [gt_iff_lt, UInt16.lt_iff_toNat_lt]
  simp only [UInt16.toNat_zero]
  omega

theorem userOrDefault_eq_iff : p.userOrDefault = p.user ↔ p.user ≠ none := by
  unfold userOrDefault
  cases h : p.user <;> simp

theorem passwordOrDefault_eq_iff : p.passwordOrDefault = p.password ↔ p.password ≠ none := by
  unfold passwordOrDefault
  cases h : p.password <;> simp

/-- The default is only filled in once. -/
theorem redirect_userOrDefault : (p.redirect host port).userOrDefault = p.userOrDefault := by
  have hsome : p.userOrDefault ≠ none := by
    unfold userOrDefault
    cases p.user <;> simp
  exact userOrDefault_eq_iff.mpr hsome

theorem redirect_passwordOrDefault :
    (p.redirect host port).passwordOrDefault = p.passwordOrDefault := by
  have hsome : p.passwordOrDefault ≠ none := by
    unfold passwordOrDefault
    cases p.password <;> simp
  exact passwordOrDefault_eq_iff.mpr hsome

/-- The flags a rebuilt pool gets are those it had, unless one is implied anew. -/
theorem flag_eq_iff (flag : Bool) (implied : Prop) [Decidable implied] :
    (flag || decide implied) = flag ↔ (implied → flag = true) := by
  by_cases h : implied <;> cases flag <;> simp [h]

/-- All attributes but the address are kept exactly for a plain pool. -/
theorem redirect_eq_iff : { p.redirect host port with url := p.url } = p ↔ p.Plain host := by
  have htls : p.isTLS = p.tls ↔ (p.url.tls = true → p.tls = true) := by
    rw [← flag_eq_iff, Bool.decide_eq_true, isTLS]
  have heq : { p.redirect host port with url := p.url } = p ↔
      p.algorithm = .INVALID ∧ p.submitToOrigin = false ∧ p.coin = .INVALID ∧ p.proxy = .empty ∧
      p.enabled = true ∧ (p.nicehash || decide (kNicehashHost <:+: host)) = p.nicehash ∧
      p.isTLS = p.tls ∧ p.fingerprint = none ∧ p.passwordOrDefault = p.password ∧
      p.rigId = none ∧ p.userOrDefault = p.user ∧ p.pollInterval = kDefaultPollInterval ∧
      p.daemon = .empty := by
    obtain ⟨_, _, _, _, _, _, _, _, _, _, _, _, _, _, _, _⟩ := p
    simp only [redirect, ofHost, mk.injEq, true_and, and_true, eq_comm]
  rw [heq, flag_eq_iff, htls, userOrDefault_eq_iff, passwordOrDefault_eq_iff]
  constructor
  · rintro ⟨h1, h2, h3, h4, h5, h6, h7, h8, h9, h10, h11, h12, h13⟩
    exact ⟨h1, h2, h3, h4, h5, h6, h7, h8, h9, h10, h11, h12, h13⟩
  · rintro ⟨h1, h2, h3, h4, h5, h6, h7, h8, h9, h10, h11, h12, h13⟩
    exact ⟨h1, h2, h3, h4, h5, h6, h7, h8, h9, h10, h11, h12, h13⟩

end Pool

/-! ## Clients -/

/-- What a `BaseClient` holds of its pool: the credentials are those of the pool
with the variables of the environment expanded. -/
structure BaseClient where
  pool : Pool
  user : CString
  password : CString
  rigId : CString
  deriving DecidableEq

namespace BaseClient

section

variable (expand : CString → CString)

/-- `BaseClient::setPool`, for `Env::expand`. -/
def setPool (c : BaseClient) (pool : Pool) : BaseClient :=
  if pool.isValid then
    ⟨pool, expand pool.userOrDefault, expand pool.passwordOrDefault, expand pool.rigId⟩
  else c

/-- The redirect branch of `Client::parseResponse`, as far as the pool goes. -/
def redirect (c : BaseClient) (host : List UInt8) (port : Int) : BaseClient :=
  c.setPool expand (c.pool.redirect host port)

/-- **What a redirect keeps.**  The client has the new host and port; the other
attributes of its pool are as before, and so are the credentials, just when all
that was set on the pool is what the constructor takes. -/
theorem redirect_keeps_iff (c : BaseClient) (host : List UInt8) (port : Int) (h0 : 0 < port)
    (h1 : port < 2 ^ 16) :
    ((c.redirect expand host port).pool.url.host = some host ∧
      ((c.redirect expand host port).pool.url.port.toNat : Int) = port ∧
      { (c.redirect expand host port).pool with url := c.pool.url } = c.pool ∧
      (c.redirect expand host port).user = expand c.pool.userOrDefault ∧
      (c.redirect expand host port).password = expand c.pool.passwordOrDefault ∧
      (c.redirect expand host port).rigId = expand c.pool.rigId) ↔ c.pool.Plain host := by
  have hset : c.redirect expand host port = ⟨c.pool.redirect host port,
      expand c.pool.userOrDefault, expand c.pool.passwordOrDefault, expand none⟩ := by
    rw [redirect, setPool, if_pos (Pool.isValid_redirect h0 h1), Pool.redirect_userOrDefault,
      Pool.redirect_passwordOrDefault]
    rfl
  rw [hset]
  constructor
  · rintro ⟨-, -, heq, -⟩
    exact Pool.redirect_eq_iff.mp heq
  · intro h
    exact ⟨rfl, Pool.redirect_port h0 h1, Pool.redirect_eq_iff.mpr h, rfl, rfl,
      congrArg expand h.rigId.symm⟩

end

/-- A pool that is only an address and a user. -/
theorem redirect_keeps_plain :
    let pool := Pool.ofHost (bytes "a") 3333 (some (bytes "u")) (some (bytes "p")) 0 false true .POOL
    let c : BaseClient := ⟨pool, pool.user, pool.password, none⟩
    pool.Plain (bytes "b") ∧ { (c.redirect id (bytes "b") 4444).pool with url := pool.url } = pool := by
  intro pool c
  have hplain : pool.Plain (bytes "b") :=
    ⟨rfl, rfl, rfl, rfl, rfl, by decide, fun _ => rfl, rfl, by decide, rfl, by decide, rfl, rfl⟩
  exact ⟨hplain, ((redirect_keeps_iff id c (bytes "b") 4444 (by decide) (by decide)).mpr hplain).2.2.1⟩

/-- **A redirect loses the algorithm, the proxy and the fingerprint** of a pool, and
logs in without its rig-id. -/
theorem redirect_loses :
    let pool := { Pool.ofHost (bytes "a") 3333 (some (bytes "u")) none 0 false true .POOL with
      algorithm := .RX_XLA
      proxy := ⟨.ofHost (bytes "s") 1080 false⟩
      fingerprint := some (bytes "f")
      rigId := some (bytes "r") }
    let c : BaseClient := ⟨pool, pool.user, some Pool.kDefault, pool.rigId⟩
    let c' := c.redirect id (bytes "b") 4444
    c'.pool.algorithm = .INVALID ∧ c'.pool.proxy.isValid = false ∧ c'.pool.fingerprint = none ∧
      c'.rigId = none ∧ { c'.pool with url := pool.url } ≠ pool := by
  decide

end BaseClient

end XLArig
