import XLArig.Network.Calls

/-!
# XLArig.Network.Followed

Whether the donate strategy mines what the user does, and through the same proxy.

The network passes the algorithm and the proxy on with the jobs up to a height; and a donate
pool that redirects its client takes the proxy from it.
-/

namespace XLArig

namespace Network

/-- A connect would ask for the algorithm, and go through the proxy. -/
def Donate.Uses (d : Donate) (algorithm : Algorithm) (proxy : ProxyUrl) : Prop :=
  d.algorithm = algorithm ∧ ∀ pool ∈ d.pools, pool.proxy = proxy

variable {s s' t : Network} {f : FailoverStrategy} {pool : Pool} {job : Job} {id : Nat}
variable {host : List UInt8} {port : Int}

/-- The donate strategy is set for the last job of the user. -/
def Followed (s : Network) : Prop := ∀ x ∈ s.accepted, ∀ d ∈ s.donate, d.Uses x.1 x.2

/-- The job is one that is passed on, or that pauses the miner; or it changes nothing. -/
def Tells (s : Network) (pool : Pool) (job : Job) : Prop :=
  ∀ d ∈ s.donate, job.height ≤ v8Height ∨ job.height % 4 = 0 ∨ d.Uses job.algorithm pool.proxy

/-- The strategy hands over the jobs of the client. -/
def Hands (s : Network) (id : Nat) : Prop :=
  match s.strategy with
  | .single _ => True
  | .failover f => f.active = id

/-- The client whose job is handed over when the strategy resumes. -/
def activeId (s : Network) : Option Nat :=
  match s.strategy with
  | .single t => if t.active then some 0 else none
  | .failover f => if f.isActive then some f.active.toNat else none

/-- The donation ends with this step. -/
def Finishes (d : Donate) (e : DonateStrategy.Event) : Prop :=
  d.cycle.isActive = true ∧ ∀ cycle ∈ d.cycle.step e, cycle.isActive = false

/-- The jobs of the user that are set are passed on; and no donate pool redirects its client
away from a proxy. -/
def PassesOn (s : Network) : Event → Prop
  | .onJobReceived id job =>
      s.Hands id → s.isDonating = false → ∀ client ∈ s.clients[id]?, s.Tells client.pool job
  | .donate e =>
      ∀ d ∈ s.donate, Finishes d e → ∀ id ∈ s.activeId, ∀ client ∈ s.clients[id]?,
        s.Tells client.pool client.job
  | .redirect id host port =>
      ∀ d ∈ s.donate, ∀ pool ∈ d.pools[id]?, (pool.redirect host port).isValid = true →
        ∀ x ∈ s.accepted, x.2 = .empty
  | _ => True

/-! ## Jobs -/

theorem uses_setProxy (d : Donate) (algorithm : Algorithm) (proxy : ProxyUrl) :
    ((d.setAlgo algorithm).setProxy proxy).Uses algorithm proxy := by
  refine ⟨rfl, fun pool hpool => ?_⟩
  obtain ⟨_, -, rfl⟩ := List.mem_map.mp hpool
  rfl

theorem followed_setJob_iff (h : s.Followed) : (s.setJob pool job false).Followed ↔ s.Tells pool job := by
  unfold setJob Tells
  split
  · next hheight =>
    have hnot : ¬ job.height ≤ v8Height := UInt64.not_le.mpr hheight
    split
    · next hfour => exact iff_of_true h fun _ _ => .inr (.inl hfour)
    · next hfour =>
      simp only [hnot, hfour, false_or]
      show (∀ x ∈ some (job.algorithm, pool.proxy), ∀ d ∈ s.donate, d.Uses x.1 x.2) ↔ _
      simp
  · next hheight =>
    refine iff_of_true ?_ fun _ _ => .inl (UInt64.not_lt.mp hheight)
    show ∀ x ∈ some (job.algorithm, pool.proxy),
      ∀ d ∈ s.donate.map fun d => (d.setAlgo job.algorithm).setProxy pool.proxy, d.Uses x.1 x.2
    intro x hx d hd
    obtain rfl := Option.some.inj hx
    obtain ⟨d, -, rfl⟩ := Option.map_eq_some_iff.mp hd
    exact uses_setProxy _ _ _

/-- The jobs of a donation. -/
theorem Followed.setJob_donate (h : s.Followed) : (s.setJob pool job true).Followed := by
  unfold setJob
  split
  · split <;> exact h
  · exact h

theorem followed_onClientJob_iff (h : s.Followed) : (s.onClientJob id).Followed ↔
    (s.isDonating = false → ∀ client ∈ s.clients[id]?, s.Tells client.pool client.job) := by
  unfold onClientJob
  cases hclient : s.clients[id]? with
  | none => exact iff_of_true h fun _ _ hmem => absurd hmem (Option.not_mem_none _)
  | some client =>
      simp only [Option.mem_def, Option.some.injEq, forall_eq']
      unfold onJob
      split
      · next hdonating =>
        refine iff_of_true h fun hidle => ?_
        exact absurd (hdonating.1.symm.trans hidle) nofun
      · next hidle =>
        have hidle : s.isDonating = false := by simpa using hidle
        simp only [hidle, forall_const]
        exact followed_setJob_iff h

theorem onPause_eq : s.onPause.accepted = s.accepted ∧ s.onPause.donate = s.donate := by
  unfold onPause
  split <;> exact ⟨rfl, rfl⟩

theorem followed_onPause_iff : s.onPause.Followed ↔ s.Followed := by
  unfold Followed
  rw [onPause_eq.1, onPause_eq.2]

/-! ## Handlers -/

theorem Followed.moved (h : s.Followed) : (s.moved f).Followed := h

theorem Followed.connect (h : s.Followed) : s.connect.Followed := by
  unfold Network.connect
  split
  · exact h
  · exact h.moved

theorem Followed.stop (h : s.Followed) : s.stop.Followed := by
  unfold Network.stop
  split
  · exact h
  · rw [drive_stop, followed_onPause_iff]
    exact h.moved

theorem Followed.onLoginSuccess (h : s.Followed) : (s.onLoginSuccess id).Followed := by
  unfold Network.onLoginSuccess
  split
  · exact h
  · rw [drive_onLoginSuccess]
    exact h.moved

theorem Followed.onClose (h : s.Followed) (failures : Int) : (s.onClose id failures).Followed := by
  unfold Network.onClose
  split
  · split
    · rw [followed_onPause_iff]
      exact h
    · exact h
  · next f hs =>
    by_cases hother : failures = -1 ∨ f.active ≠ id
    · rw [drive_onClose_other hother]
      exact h.moved
    · rw [not_or, not_not] at hother
      rw [drive_onClose hother.1 hother.2, followed_onPause_iff]
      exact h.moved

theorem followed_handOver_iff (h : s.Followed) : (s.handOver id).Followed ↔
    (s.Hands id → s.isDonating = false → ∀ client ∈ s.clients[id]?, s.Tells client.pool client.job) := by
  unfold handOver Hands
  cases s.strategy with
  | single t =>
      simp only [forall_const]
      exact followed_onClientJob_iff h
  | failover f =>
      dsimp only
      rw [drive_onJobReceived]
      split
      · next hactive =>
        simp only [hactive, forall_const]
        have hmoved : (s.moved ((fresh f).onJobReceived id)).Followed := h.moved
        exact followed_onClientJob_iff hmoved
      · next hother => exact iff_of_true h.moved fun hactive => absurd hactive hother

theorem followed_resume_iff (h : s.Followed) : s.resume.Followed ↔
    (s.isDonating = false → ∀ id ∈ s.activeId, ∀ client ∈ s.clients[id]?,
      s.Tells client.pool client.job) := by
  unfold resume activeId
  cases s.strategy with
  | single t =>
      dsimp only
      split
      · simp only [Option.mem_def, Option.some.injEq, forall_eq']
        exact followed_onClientJob_iff h
      · exact iff_of_true h fun _ _ hmem => absurd hmem (Option.not_mem_none _)
  | failover f =>
      dsimp only
      rw [drive_resume]
      split
      · next hactive =>
        simp only [Option.mem_def, Option.some.injEq, forall_eq']
        have hmoved : (s.moved (fresh f).resume).Followed := h.moved
        exact followed_onClientJob_iff hmoved
      · exact iff_of_true h.moved fun _ _ hmem => absurd hmem (Option.not_mem_none _)

/-! ## Donations -/

theorem Followed.cycle (h : s.Followed) {d : Donate} (hd : s.donate = some d)
    (cycle : DonateStrategy) : ({ s with donate := some { d with cycle } } : Network).Followed := by
  intro x hx d' hd'
  obtain rfl := Option.some.inj hd'
  exact h x hx d hd

theorem followed_onDonate_iff (h : s.Followed) {d : Donate} {cycle : DonateStrategy}
    {e : DonateStrategy.Event} (hd : s.donate = some d) (hcycle : d.cycle.step e = some cycle) :
    (s.onDonate d cycle).Followed ↔
      (Finishes d e → ∀ id ∈ s.activeId, ∀ client ∈ s.clients[id]?,
        s.Tells client.pool client.job) := by
  have hfinishes : Finishes d e ↔ (d.cycle.isActive && !cycle.isActive) = true := by
    unfold Finishes
    rw [hcycle]
    simp
  have htells : ∀ pool job, ({ s with donate := some { d with cycle } } : Network).Tells pool job ↔
      s.Tells pool job := by
    intro pool job
    unfold Tells
    rw [hd]
    simp only [Option.mem_def, Option.some.injEq, forall_eq']
    rfl
  have hkept := h.cycle hd cycle
  rw [hfinishes]
  unfold onDonate
  dsimp only
  split
  · next hfinished =>
    have hidle : ({ s with donate := some { d with cycle } } : Network).isDonating = false := by
      rw [Bool.and_eq_true, Bool.not_eq_true'] at hfinished
      exact hfinished.2
    rw [followed_onPause_iff, followed_resume_iff hkept]
    simp only [hidle, hfinished, forall_const, htells]
    rfl
  · next hgoes => exact iff_of_true hkept fun hfinished => absurd hfinished hgoes

/-- The redirected pool has no proxy. -/
theorem uses_redirect_iff {d : Donate} {algorithm : Algorithm} {proxy : ProxyUrl}
    (h : d.Uses algorithm proxy) : (d.redirect id host port).Uses algorithm proxy ↔
      ∀ pool ∈ d.pools[id]?, (pool.redirect host port).isValid = true → proxy = .empty := by
  unfold Donate.redirect Donate.Uses
  simp only [h.1, true_and]
  constructor
  · intro hall pool hpool hvalid
    have hmem : pool.redirect host port ∈ d.pools.modify id fun pool =>
        if (pool.redirect host port).isValid then pool.redirect host port else pool := by
      refine List.mem_of_getElem? (i := id) ?_
      rw [Option.mem_def] at hpool
      simp [hpool, hvalid]
    exact (hall _ hmem).symm
  · intro hempty q hq
    obtain ⟨j, hj⟩ := List.mem_iff_getElem?.mp hq
    rw [List.getElem?_modify] at hj
    obtain ⟨pool, hpool, rfl⟩ := Option.map_eq_some_iff.mp hj
    have hkept := h.2 pool (List.mem_of_getElem? hpool)
    split
    · next hid =>
      subst hid
      split
      · next hvalid => exact (hempty pool hpool hvalid).symm
      · exact hkept
    · exact hkept

theorem followed_redirect_iff (h : s.Followed) :
    ({ s with donate := s.donate.map (·.redirect id host port) } : Network).Followed ↔
      ∀ d ∈ s.donate, ∀ pool ∈ d.pools[id]?, (pool.redirect host port).isValid = true →
        ∀ x ∈ s.accepted, x.2 = .empty := by
  unfold Followed
  cases hd : s.donate with
  | none => simp
  | some d =>
      simp only [Option.map_some, Option.mem_def, Option.some.injEq, forall_eq']
      constructor
      · intro hall pool hpool hvalid x hx
        exact (uses_redirect_iff (h x hx d hd)).mp (hall x hx) pool hpool hvalid
      · intro hempty x hx
        exact (uses_redirect_iff (h x hx d hd)).mpr fun pool hpool hvalid => hempty pool hpool hvalid x hx

/-! ## Runs -/

section

variable [Features] {e : Event} {es : List Event}

theorem Followed.onConfigChanged (h : s.Followed) (pools : Pools) :
    (s.onConfigChanged pools).Followed := by
  unfold Network.onConfigChanged
  split
  · have hstop : s.stop.Followed := h.stop
    have hcreated : ({ s.stop with
        pools
        strategy := createStrategy pools
        clients := createClients pools } : Network).Followed := hstop
    exact hcreated.connect
  · exact h

/-- What a step leaves. -/
theorem followed_step_iff (h : s.Followed) (hstep : machine.step s e = some s') :
    s'.Followed ↔ s.PassesOn e := by
  cases e with
  | connect =>
      obtain rfl := Option.some.inj hstep
      exact iff_of_true h.connect trivial
  | onLoginSuccess id =>
      obtain ⟨-, hstep⟩ := Option.ite_none_right_eq_some.mp hstep
      obtain rfl := Option.some.inj hstep
      exact iff_of_true h.onLoginSuccess trivial
  | onJobReceived id job =>
      obtain ⟨hid, hstep⟩ := Option.ite_none_right_eq_some.mp hstep
      obtain rfl := Option.some.inj hstep
      have hreceive : (s.receive id job).Followed := h
      rw [show s.onJobReceived id job = (s.receive id job).handOver id from rfl,
        followed_handOver_iff hreceive, getElem?_receive hid]
      show _ ↔ (s.Hands id → s.isDonating = false → ∀ client ∈ s.clients[id]?, s.Tells client.pool job)
      rw [List.getElem?_eq_getElem hid]
      simp only [Option.mem_def, Option.some.injEq, forall_eq']
      rfl
  | onClose id failures =>
      obtain ⟨-, hstep⟩ := Option.ite_none_right_eq_some.mp hstep
      obtain rfl := Option.some.inj hstep
      exact iff_of_true (h.onClose failures) trivial
  | client id client =>
      obtain rfl := Option.some.inj hstep
      exact iff_of_true h trivial
  | donate e =>
      obtain ⟨d, hd, hstep⟩ := Option.bind_eq_some_iff.mp hstep
      obtain ⟨cycle, hcycle, hstep⟩ := Option.bind_eq_some_iff.mp hstep
      obtain rfl := Option.some.inj hstep
      rw [followed_onDonate_iff h hd hcycle]
      unfold PassesOn
      rw [hd]
      simp only [Option.mem_def, Option.some.injEq, forall_eq']
  | donateJob pool job =>
      obtain rfl := Option.some.inj hstep
      refine iff_of_true ?_ trivial
      split
      · unfold onJob
        split
        · exact h
        · exact h.setJob_donate
      · exact h
  | redirect id host port =>
      obtain rfl := Option.some.inj hstep
      exact followed_redirect_iff h
  | onConfigChanged pools =>
      obtain rfl := Option.some.inj hstep
      exact iff_of_true (h.onConfigChanged pools) trivial

/-- **When the donate strategy follows the user**: the runs in all of whose states it has
the algorithm and the proxy of the last job of the user are those whose steps pass them on. -/
theorem always_followed_iff (hs : machine.init s) (hr : machine.run s es = some s') :
    machine.Always Followed s es ↔ machine.Meets PassesOn s es := by
  refine Machine.always_iff (fun _ _ _ => followed_step_iff) hr ?_
  obtain ⟨pools, donate, -, -, rfl⟩ := hs
  exact fun x hx => absurd hx (Option.not_mem_none x)

end

end Network

end XLArig

namespace XLArig.Network

/-! ## A user behind a proxy -/

instance (d : Donate) (algorithm : Algorithm) (proxy : ProxyUrl) : Decidable (d.Uses algorithm proxy) :=
  inferInstanceAs (Decidable (_ ∧ _))

instance (s : Network) : Decidable s.Followed :=
  inferInstanceAs (Decidable (∀ x ∈ s.accepted, ∀ d ∈ s.donate, d.Uses x.1 x.2))

instance (s : Network) (pool : Pool) (job : Job) : Decidable (s.Tells pool job) :=
  inferInstanceAs (Decidable (∀ d ∈ s.donate, _))

instance (s : Network) (id : Nat) : Decidable (s.Hands id) := by
  unfold Hands
  cases s.strategy <;> infer_instance

instance (d : Donate) (e : DonateStrategy.Event) : Decidable (Finishes d e) :=
  inferInstanceAs (Decidable (_ ∧ _))

instance (s : Network) (e : Event) : Decidable (s.PassesOn e) := by
  cases e <;> unfold PassesOn <;> infer_instance

/-- A pool that is reached through a SOCKS5 proxy. -/
def proxiedPool : Pool :=
  { Pool.ofHost (bytes "a") 3333 none none 0 false false .POOL with
    proxy := ⟨.ofHost (bytes "s") 1080 false⟩ }

def proxiedPools : Pools := ⟨[proxiedPool], 5, 5⟩

def jobAt (height : UInt64) : Job :=
  { Job.empty with
    algorithm := .RX_XLA
    height }

/-- A job of a low height, a donation, and the job that is resumed. -/
theorem always_followed_low : machine.Always Followed (init proxiedPools (some (.init 1 [])))
    [.connect, .onLoginSuccess 0, .onJobReceived 0 (jobAt 820102), .donate (.onTimer false),
      .donate .onActive, .donateJob proxiedPool (jobAt 9), .donate (.onTimer false)] := by
  have hsome : (machine.run (init proxiedPools (some (.init 1 [])))
      [.connect, .onLoginSuccess 0, .onJobReceived 0 (jobAt 820102), .donate (.onTimer false),
        .donate .onActive, .donateJob proxiedPool (jobAt 9),
        .donate (.onTimer false)]).isSome = true := by
    decide +kernel
  obtain ⟨s, hr⟩ := Option.isSome_iff_exists.mp hsome
  have hinit : machine.init (init proxiedPools (some (.init 1 []))) :=
    ⟨_, _, by decide +kernel, .inr ⟨1, [], rfl⟩, rfl⟩
  exact (always_followed_iff hinit hr).mpr (by decide +kernel)

/-- **A job of a greater height** is set, and the donate pools are contacted directly; so is
one that redirects its client. -/
theorem leaves_proxy_out :
    ((machine.run (init proxiedPools (some (.init 1 [])))
        [.connect, .onLoginSuccess 0, .onJobReceived 0 (jobAt 820103), .donate (.onTimer false)]).any
      fun s => ¬ s.Followed ∧ s.donate.any fun d => d.pools.all fun pool => pool.proxy = .empty) = true ∧
    ((machine.run (init proxiedPools (some (.init 1 [])))
        [.connect, .onLoginSuccess 0, .onJobReceived 0 (jobAt 820102), .donate (.onTimer false),
          .redirect 0 (bytes "b") 3333]).any fun s => ¬ s.Followed) = true := by
  decide +kernel

end XLArig.Network
