import XLArig.Network

/-!
# XLArig.Pools.Strategy

`Pools::createStrategy` and `Pool::createClient`: the strategy of a configuration with its
clients, and what these have of their pools.

A client keeps a copy of its pool and reads it by the accessors of `Pool`, of which there is none
for where results are submitted; that is handed to the constructor of `SelfSelectClient` alone.
`createStrategy_eq_iff` says when two configurations that are equal to `Pools::isEqual` build the
same.
-/

namespace XLArig

/-! ## What is read of a pool -/

/-- The pool of a client as its accessors show it. -/
structure PoolView where
  algorithm : Algorithm
  coin : Coin
  daemon : Url
  fingerprint : CString
  host : CString
  isNicehash : Bool
  isTLS : Bool
  isValid : Bool
  keepAlive : Int
  mode : Mode
  password : CString
  pollInterval : UInt64
  port : UInt16
  proxy : ProxyUrl
  rigId : CString
  url : CString
  user : CString
  deriving DecidableEq

namespace Pool

def view (p : Pool) : PoolView where
  algorithm := p.algorithm
  coin := p.coin
  daemon := p.daemon
  fingerprint := p.fingerprint
  host := p.url.host
  isNicehash := p.nicehash
  isTLS := p.isTLS
  isValid := p.isValid
  keepAlive := p.keepAlive
  mode := p.mode
  password := p.passwordOrDefault
  pollInterval := p.pollInterval
  port := p.url.port
  proxy := p.proxy
  rigId := p.rigId
  url := p.url.url
  user := p.userOrDefault

/-- `Pool()`. -/
def empty : Pool where
  algorithm := .INVALID
  submitToOrigin := false
  coin := .INVALID
  keepAlive := 0
  mode := .POOL
  proxy := .empty
  enabled := false
  nicehash := false
  tls := false
  fingerprint := none
  password := none
  rigId := none
  user := none
  pollInterval := kDefaultPollInterval
  daemon := .empty
  url := .empty

end Pool

/-! ## Clients -/

/-- The classes of clients, with the arguments of their constructors that come from the pool. -/
inductive ClientClass
  | Client
  | EthStratumClient
  | DaemonClient
  | SelfSelectClient (submitToOrigin : Bool)
  | AutoClient
  deriving DecidableEq

/-- A client as a strategy makes it. -/
structure CreatedClient where
  kind : ClientClass
  id : Nat
  pool : PoolView
  user : CString
  password : CString
  rigId : CString
  retries : Int
  retryPause : Int
  deriving DecidableEq

namespace Pool

variable [ft : Features]

/-- The class of `createClient`; there is none where the build leaves it out. -/
def clientClass (p : Pool) : Option ClientClass :=
  match p.mode with
  | .POOL =>
      if ft.kawpow && (p.algorithm.family = .KAWPOW || p.coin = .RAVEN) then some .EthStratumClient
      else some .Client
  | .DAEMON => some .DaemonClient
  | .SELF_SELECT => some (.SelfSelectClient p.submitToOrigin)
  | .AUTO_ETH => if ft.kawpow then some .AutoClient else none

variable (expand : CString → CString) (id : Nat) (retryPause retries : Int)

/-- What a new client is set to; `expand` is `Env::expand`. -/
def setUp (p : Pool) (kind : ClientClass) : CreatedClient :=
  let client : BaseClient := (⟨.empty, none, none, none⟩ : BaseClient).setPool expand p
  { kind
    id
    pool := client.pool.view
    user := client.user
    password := client.password
    rigId := client.rigId
    retries
    retryPause := retryPause * 1000 }

/-- `createClient`, with what the strategy sets then. -/
def createClient (p : Pool) : Option CreatedClient :=
  p.clientClass.map (p.setUp expand id retryPause retries)

end Pool

/-! ## Strategies -/

/-- `SinglePoolStrategy` and `FailoverStrategy`. -/
inductive CreatedStrategy
  | single (client : Option CreatedClient)
  | failover (retryPause retries : Int) (clients : List (Option CreatedClient))
  deriving DecidableEq

namespace Pools

/-- `createStrategy`: one enabled pool is mined at alone, and else each is added. -/
def createStrategy [Features] (expand : CString → CString) (p : Pools) : CreatedStrategy :=
  match p.enabled with
  | [pool] => .single (pool.createClient expand 0 p.retryPause p.retries)
  | pools => .failover p.retryPause p.retries
      (pools.mapIdx fun id pool => pool.createClient expand id p.retryPause p.retries)

/-- Where results are submitted is the same for the pools that read it. -/
def SubmitsAlike [Features] (p q : Pools) : Prop :=
  ∀ x ∈ p.data.zip q.data, x.1.isEnabled = true → x.1.mode = .SELF_SELECT →
    x.1.submitToOrigin = x.2.submitToOrigin

instance [Features] (p q : Pools) : Decidable (p.SubmitsAlike q) :=
  inferInstanceAs (Decidable (∀ x ∈ _, _ → _ → _))

end Pools

/-! ## Equal configurations -/

namespace Pool

/-- What `isEqual` says of two pools. -/
def Alike (p q : Pool) : Prop := { p with submitToOrigin := q.submitToOrigin } = q

variable {p q : Pool} [Features]

theorem Alike.isEnabled (h : p.Alike q) : q.isEnabled = p.isEnabled := by
  rw [← h]
  rfl

variable (expand : CString → CString) (id : Nat) (retryPause retries : Int)

omit [Features] in
theorem Alike.setUp (h : p.Alike q) :
    q.setUp expand id retryPause retries = p.setUp expand id retryPause retries := by
  rw [← h]
  funext kind
  have hvalid : ({ p with submitToOrigin := q.submitToOrigin } : Pool).isValid = p.isValid := rfl
  unfold Pool.setUp BaseClient.setPool
  rw [hvalid]
  cases p.isValid <;> rfl

/-- The class is the same but for where a client in self-select mode submits. -/
theorem clientClass_eq_iff (h : p.Alike q) : p.clientClass = q.clientClass ↔
    (p.mode = .SELF_SELECT → p.submitToOrigin = q.submitToOrigin) := by
  rw [← h]
  cases hmode : p.mode <;> simp [clientClass, hmode]

theorem createClient_eq_iff (h : p.Alike q) :
    p.createClient expand id retryPause retries = q.createClient expand id retryPause retries ↔
      (p.mode = .SELF_SELECT → p.submitToOrigin = q.submitToOrigin) := by
  rw [← clientClass_eq_iff h, createClient, createClient, h.setUp]
  constructor
  · intro heq
    exact Option.map_injective (fun _ _ hkind => congrArg CreatedClient.kind hkind) heq
  · intro heq
    rw [heq]

end Pool

namespace Pools

/-- Two lists whose elements at each place give the same. -/
theorem mapIdx_eq_iff {α β γ : Type} {R : α → β → Prop} {P : α → β → Prop} {l : List α} {l' : List β}
    (hl : List.Forall₂ R l l') {f : Nat → α → γ} {g : Nat → β → γ}
    (hfg : ∀ {i a b}, R a b → (f i a = g i b ↔ P a b)) :
    l.mapIdx f = l'.mapIdx g ↔ List.Forall₂ P l l' := by
  induction hl generalizing f g with
  | nil => simp
  | cons h _ ih =>
      have hrest := ih (f := fun i => f (i + 1)) (g := fun i => g (i + 1)) fun h => hfg h
      rw [List.mapIdx_cons, List.mapIdx_cons, List.cons.injEq, hfg h, hrest, List.forall₂_cons]

variable {p q : Pools}

/-- What `isEqual` says of two configurations. -/
theorem alike_of_isEqual (h : p.isEqual q = true) :
    List.Forall₂ Pool.Alike p.data q.data ∧ p.retries = q.retries ∧ p.retryPause = q.retryPause := by
  simp only [isEqual, Bool.and_eq_true, beq_iff_eq] at h
  obtain ⟨⟨⟨hlength, hretries⟩, hpause⟩, hall⟩ := h
  refine ⟨List.forall₂_iff_zip.mpr ⟨hlength, fun {a b} hab => ?_⟩, hretries, hpause⟩
  exact Pool.isEqual_iff.mp (List.all_eq_true.mp hall (a, b) hab)

variable [Features]

theorem enabled_alike {l l' : List Pool} (h : List.Forall₂ Pool.Alike l l') :
    List.Forall₂ Pool.Alike (l.filter Pool.isEnabled) (l'.filter Pool.isEnabled) := by
  induction h with
  | nil => exact .nil
  | cons h _ ih =>
      rw [List.filter_cons, List.filter_cons, h.isEnabled]
      split
      · exact .cons h ih
      · exact ih

/-- What is the same for the enabled pools is said of all pools by those that are enabled. -/
theorem forall_enabled_iff {l l' : List Pool} (h : List.Forall₂ Pool.Alike l l')
    {P : Pool → Pool → Prop} :
    List.Forall₂ P (l.filter Pool.isEnabled) (l'.filter Pool.isEnabled) ↔
      ∀ x ∈ l.zip l', x.1.isEnabled = true → P x.1 x.2 := by
  induction h with
  | nil => simp
  | @cons a b l l' h _ ih =>
      rw [List.filter_cons, List.filter_cons, h.isEnabled, List.zip_cons_cons, List.forall_mem_cons,
        ← ih]
      split
      · next henabled =>
          rw [List.forall₂_cons]
          exact and_congr_left' (by simp [henabled])
      · next hdisabled => simp [hdisabled]

/-- **Equal configurations.**  Two configurations that `isEqual` takes for the same build the same
strategy over the same clients just when those that are in self-select mode submit alike. -/
theorem createStrategy_eq_iff (expand : CString → CString) (h : p.isEqual q = true) :
    p.createStrategy expand = q.createStrategy expand ↔ p.SubmitsAlike q := by
  obtain ⟨hdata, hretries, hpause⟩ := alike_of_isEqual h
  have henabled : List.Forall₂ Pool.Alike p.enabled q.enabled := enabled_alike hdata
  rw [SubmitsAlike, ← forall_enabled_iff hdata (P := fun a b => a.mode = .SELF_SELECT →
    a.submitToOrigin = b.submitToOrigin)]
  change _ ↔ List.Forall₂ _ p.enabled q.enabled
  unfold createStrategy
  rw [← hretries, ← hpause]
  generalize p.enabled = l at *
  generalize q.enabled = l' at *
  rcases henabled with _ | ⟨hpool, _ | ⟨hother, hrest⟩⟩
  · simp
  · simp [Pool.createClient_eq_iff expand _ _ _ hpool]
  · dsimp only
    rw [CreatedStrategy.failover.injEq, and_iff_right rfl, and_iff_right rfl]
    exact mapIdx_eq_iff (.cons hpool (.cons hother hrest))
      fun h => Pool.createClient_eq_iff expand _ _ _ h

/-- A network that is given such a configuration goes on as it was. -/
theorem onConfigChanged_of_isEqual {s : Network} (h : p.isEqual s.pools = true) :
    s.onConfigChanged p = { s with pools := p } := by
  have hkept : ¬ s.Replaces p := fun hreplaces => Bool.false_ne_true (hreplaces.1.symm.trans h)
  rw [Network.onConfigChanged, if_neg hkept]

end Pools

/-! ## Two configurations -/

namespace Pools

/-- A pool that gets its jobs of a daemon, with another beside it. -/
def selfSelect (submitToOrigin : Bool) : Pools where
  data := [{ Pool.ofHost (bytes "pool") 3333 none none 0 false false .SELF_SELECT with
      submitToOrigin
      daemon := .ofHost (bytes "daemon") 18081 false },
    Pool.ofHost (bytes "other") 3333 none none 0 false false .POOL]
  retries := 5
  retryPause := 5

theorem createStrategy_eq_iff_self : (selfSelect true).isEqual (selfSelect true) = true ∧
    (selfSelect true).createStrategy id = (selfSelect true).createStrategy id :=
  ⟨by decide +kernel, (createStrategy_eq_iff id (by decide +kernel)).mpr (by decide +kernel)⟩

/-- **A reload that is skipped** although the first pool is to submit elsewhere. -/
theorem skips_submitToOrigin :
    (selfSelect true).isEqual (selfSelect false) = true ∧
      (selfSelect true).createStrategy id ≠ (selfSelect false).createStrategy id := by
  decide +kernel

end Pools

end XLArig
