import XLArig.Pool

/-!
# XLArig.Pools

`Pools`, the part of a configuration that says where to mine, and what of a `Pool` decides
whether it is mined at and whether it has changed.
-/

namespace XLArig

namespace Pool

/-- `Pool::isEqual`. -/
def isEqual (p q : Pool) : Bool :=
  p.enabled == q.enabled && p.nicehash == q.nicehash && p.tls == q.tls &&
    p.keepAlive == q.keepAlive && p.algorithm == q.algorithm && p.coin == q.coin &&
    p.mode == q.mode && p.fingerprint == q.fingerprint && p.password == q.password &&
    p.rigId == q.rigId && p.url == q.url && p.user == q.user && p.pollInterval == q.pollInterval &&
    p.daemon == q.daemon && p.proxy == q.proxy

/-- Only where results are submitted is not compared. -/
theorem isEqual_iff {p q : Pool} :
    p.isEqual q = true ↔ { p with submitToOrigin := q.submitToOrigin } = q := by
  obtain ⟨_, _, _, _, _, _, _, _, _, _, _, _, _, _, _, _⟩ := p
  obtain ⟨_, _, _, _, _, _, _, _, _, _, _, _, _, _, _, _⟩ := q
  simp only [isEqual, Bool.and_eq_true, beq_iff_eq, mk.injEq, true_and]
  tauto

/-- `Pool::isEnabled`, of a build with TLS and HTTP. -/
def isEnabled [Features] (p : Pool) : Bool :=
  !(p.mode = .DAEMON && !p.algorithm.isValid && !p.coin.isValid) && p.enabled && p.isValid

end Pool

/-- `Pools`. -/
structure Pools where
  data : List Pool
  retries : Int
  retryPause : Int

namespace Pools

/-- `Pools::isEqual`. -/
def isEqual (p q : Pools) : Bool :=
  p.data.length == q.data.length && p.retries == q.retries && p.retryPause == q.retryPause &&
    (p.data.zip q.data).all fun (pool, other) => pool.isEqual other

variable [Features]

/-- The pools that have a client. -/
def enabled (p : Pools) : List Pool := p.data.filter Pool.isEnabled

/-- `Pools::active`. -/
def active (p : Pools) : Nat := p.enabled.length

end Pools

end XLArig
