import XLArig.DonateStrategy
import XLArig.FailoverStrategy
import XLArig.Job
import XLArig.Pools

/-!
# XLArig.Network

`Network`: what the miner is told to work on.

It listens to the strategy of the user and to the donate strategy, and answers each of their
calls by at most one command to the miner.  The strategy of the user is replaced with the
configuration; the clients of the old one are not heard of any more.
-/

namespace XLArig

/-- `SinglePoolStrategy`. -/
structure SinglePoolStrategy where
  active : Bool
  deriving DecidableEq, Repr

namespace Network

/-- The strategy of the user. -/
inductive Strategy
  | single (s : SinglePoolStrategy)
  | failover (s : FailoverStrategy)

def Strategy.isActive : Strategy → Bool
  | single s => s.active
  | failover s => s.isActive

/-- A client of the strategy: the pool and the job that it has. -/
structure UserClient where
  pool : Pool
  job : Job

/-- `DonateStrategy`: its cycle, and what a connect uses: `m_algorithm`, and the pools of the
clients of `m_strategy`. -/
structure Donate where
  cycle : DonateStrategy
  algorithm : Algorithm
  pools : List Pool

/-- What the miner is told. -/
inductive Command
  | pause
  | setJob (job : Job) (donate : Bool)

def Command.isPause : Command → Bool
  | pause => true
  | setJob _ _ => false

end Network

open Network in
/-- `Network`; the newest command comes first, and `accepted` is the algorithm of the last
job of the user that was set, and the proxy of its pool. -/
structure Network where
  pools : Pools
  strategy : Strategy
  clients : List UserClient
  donate : Option Donate
  accepted : Option (Algorithm × ProxyUrl)
  commands : List Command

namespace Network

/-! ## The donate strategy -/

namespace Donate

def setAlgo (d : Donate) (algo : Algorithm) : Donate :=
  { d with
    algorithm := algo
    pools := d.pools.map fun pool => { pool with algorithm := algo } }

def setProxy (d : Donate) (proxy : ProxyUrl) : Donate :=
  { d with pools := d.pools.map fun pool => { pool with proxy } }

/-- `kDonateHost` and `kDonateHostTls`. -/
def kDonateHost : List UInt8 := bytes "164.68.115.234"

/-- The donate strategy as it is created, for a donate level in percent. -/
def init [ft : Features] (level : UInt64) (userId : List UInt8) : Donate :=
  let mode : Mode := if ft.kawpow then .AUTO_ETH else .POOL
  { cycle := .init level
    algorithm := .INVALID
    pools := [.ofHost kDonateHost 443 (some userId) none 0 true true mode,
      .ofHost kDonateHost 3333 (some userId) none 0 true false mode] }

/-- A client of a donate pool follows a redirect; a client is not set to an invalid pool. -/
def redirect (d : Donate) (id : Nat) (host : List UInt8) (port : Int) : Donate :=
  { d with
    pools := d.pools.modify id fun pool =>
      if (pool.redirect host port).isValid then pool.redirect host port else pool }

end Donate

/-- The donate strategy is there, and active. -/
def isDonating (s : Network) : Bool := s.donate.any (·.cycle.isActive)

/-! ## Jobs and pauses -/

def command (s : Network) (c : Command) : Network := { s with commands := c :: s.commands }

/-- `v8Height`. -/
def v8Height : UInt64 := 820102

/-- The job is set for the miner. -/
def accept (s : Network) (pool : Pool) (job : Job) (donate : Bool) : Network :=
  { s with accepted := if donate then s.accepted else some (job.algorithm, pool.proxy) }.command
    (.setJob job donate)

/-- `setJob`. -/
def setJob (s : Network) (pool : Pool) (job : Job) (donate : Bool) : Network :=
  if job.height > v8Height then
    if job.height % 4 = 0 then s.command .pause else s.accept pool job donate
  else
    let s := if donate then s
      else { s with
        donate := s.donate.map fun d => (d.setAlgo job.algorithm).setProxy pool.proxy }
    s.accept pool job donate

/-- `onJob`; while there is a donation the jobs of the user are left out. -/
def onJob (s : Network) (pool : Pool) (job : Job) (donate : Bool) : Network :=
  if s.isDonating = true ∧ donate = false then s else s.setJob pool job donate

/-- `onPause` of the strategy of the user. -/
def onPause (s : Network) : Network :=
  if s.strategy.isActive then s else s.command .pause

/-- The strategy hands over the job of a client. -/
def onClientJob (s : Network) (id : Nat) : Network :=
  match s.clients[id]? with
  | some client => s.onJob client.pool client.job false
  | none => s

/-! ## The strategy of the user -/

/-- A call of a `FailoverStrategy`, as far as the network is told of it. -/
def hear (s : Network) : FailoverCall → Network
  | .onJob id => s.onClientJob id
  | .onPause => s.onPause
  | .connect _ | .disconnect _ | .submit _ | .onActive _ => s

/-- The strategy before a handler runs, whose calls go to the log. -/
def fresh (f : FailoverStrategy) : FailoverStrategy := { f with log := [] }

/-- A handler of the `FailoverStrategy` has run, and made the calls of the log. -/
def drive (s : Network) (f : FailoverStrategy) : Network :=
  f.log.reverse.foldl hear { s with strategy := .failover f }

def connect (s : Network) : Network :=
  match s.strategy with
  | .single _ => s
  | .failover f => s.drive (fresh f).connect

/-- `resume` of the strategy. -/
def resume (s : Network) : Network :=
  match s.strategy with
  | .single t => if t.active then s.onClientJob 0 else s
  | .failover f => s.drive (fresh f).resume

/-- `stop` of the strategy; the client of a `SinglePoolStrategy` is disconnected, and its
close comes later. -/
def stop (s : Network) : Network :=
  match s.strategy with
  | .single _ => s
  | .failover f => s.drive (fresh f).stop

def onLoginSuccess (s : Network) (id : Nat) : Network :=
  match s.strategy with
  | .single _ => { s with strategy := .single ⟨true⟩ }
  | .failover f => s.drive ((fresh f).onLoginSuccess id)

/-- The client has the job. -/
def receive (s : Network) (id : Nat) (job : Job) : Network :=
  { s with clients := s.clients.modify id fun client => { client with job } }

/-- `onJobReceived` of the strategy. -/
def handOver (s : Network) (id : Nat) : Network :=
  match s.strategy with
  | .single _ => s.onClientJob id
  | .failover f => s.drive ((fresh f).onJobReceived id)

def onJobReceived (s : Network) (id : Nat) (job : Job) : Network := (s.receive id job).handOver id

def onClose (s : Network) (id : Nat) (failures : Int) : Network :=
  match s.strategy with
  | .single t => if t.active then { s with strategy := .single ⟨false⟩ }.onPause else s
  | .failover f => s.drive ((fresh f).onClose id failures)

/-! ## The configuration -/

section

variable [Features]

/-- `Pools::createStrategy`. -/
def createStrategy (pools : Pools) : Strategy :=
  if pools.active = 1 then .single ⟨false⟩ else .failover (.init pools.active pools.retries)

def createClients (pools : Pools) : List UserClient := pools.enabled.map fun pool => ⟨pool, .empty⟩

/-- The new pools are others than those there are, and there is one to mine at. -/
def Replaces (s : Network) (pools : Pools) : Prop :=
  pools.isEqual s.pools = false ∧ pools.active ≠ 0

instance (s : Network) (pools : Pools) : Decidable (s.Replaces pools) :=
  inferInstanceAs (Decidable (_ ∧ _))

/-- `onConfigChanged`. -/
def onConfigChanged (s : Network) (pools : Pools) : Network :=
  if s.Replaces pools then
    { s.stop with
      pools
      strategy := createStrategy pools
      clients := createClients pools }.connect
  else { s with pools }

end

/-! ## The machine -/

/-- The clients of the user log in, get a job and close; a client is given another pool or
job without a word; the donate strategy goes its way, its clients get jobs and are
redirected; the configuration changes. -/
inductive Event
  | connect
  | onLoginSuccess (id : Nat)
  | onJobReceived (id : Nat) (job : Job)
  | onClose (id : Nat) (failures : Int)
  | client (id : Nat) (client : UserClient)
  | donate (e : DonateStrategy.Event)
  | donateJob (pool : Pool) (job : Job)
  | redirect (id : Nat) (host : List UInt8) (port : Int)
  | onConfigChanged (pools : Pools)

/-- A step of the donate strategy; it finishes when it enters the wait state. -/
def onDonate (s : Network) (d : Donate) (cycle : DonateStrategy) : Network :=
  let finished := d.cycle.isActive && !cycle.isActive
  let s := { s with donate := some { d with cycle } }
  if finished then s.resume.onPause else s

/-- Only the clients there are do something. -/
def step [Features] (s : Network) : Event → Option Network
  | .connect => some s.connect
  | .onLoginSuccess id => if id < s.clients.length then some (s.onLoginSuccess id) else none
  | .onJobReceived id job => if id < s.clients.length then some (s.onJobReceived id job) else none
  | .onClose id failures => if id < s.clients.length then some (s.onClose id failures) else none
  | .client id client => some { s with clients := s.clients.modify id fun _ => client }
  | .donate e => do
      let d ← s.donate
      let cycle ← d.cycle.step e
      return s.onDonate d cycle
  | .donateJob pool job => some (if s.isDonating then s.onJob pool job true else s)
  | .redirect id host port => some { s with donate := s.donate.map (·.redirect id host port) }
  | .onConfigChanged pools => some (s.onConfigChanged pools)

/-- The network of a configuration. -/
def init [Features] (pools : Pools) (donate : Option Donate) : Network where
  pools := pools
  strategy := createStrategy pools
  clients := createClients pools
  donate := donate
  accepted := none
  commands := []

/-- The network of any configuration with a pool, with the donate strategy or without. -/
def machine [Features] : Machine Network Event where
  init s := ∃ pools donate, pools.active ≠ 0 ∧
    (donate = none ∨ ∃ level userId, donate = some (Donate.init level userId)) ∧
    s = init pools donate
  step := step

end Network

end XLArig
