import XLArig.Network.Calls

/-!
# XLArig.Network.Paused

Whether the miner works without a pool.

A `FailoverStrategy` hands over the jobs of its active pool only, and tells of a pause when
it is stopped.  A `SinglePoolStrategy` hands over any job, and is stopped without a word:
`always_paused_iff` says which runs it spoils.
-/

namespace XLArig

namespace Network

variable {s s' t : Network} {f : FailoverStrategy} {pool : Pool} {job : Job} {donate : Bool}

def Strategy.IsSingle : Strategy → Prop
  | single _ => True
  | failover _ => False

instance (t : Strategy) : Decidable t.IsSingle := by
  cases t <;> unfold Strategy.IsSingle <;> infer_instance

/-- The last command, if there was one, was to pause. -/
def LastPause (s : Network) : Prop := ∀ c ∈ s.commands.head?, c.isPause = true

/-- Nobody is there to work for, and the miner does not work. -/
def Paused (s : Network) : Prop :=
  s.strategy.isActive = false → s.isDonating = false → s.LastPause

/-- A job that the miner is paused for. -/
def Pauses (job : Job) : Prop := job.height > v8Height ∧ job.height % 4 = 0

/-- No job of a single pool comes before its login, unless it pauses the miner; and the
strategy of a single pool is not replaced while the miner works for it. -/
def Orderly [Features] (s : Network) : Event → Prop
  | .onJobReceived _ job =>
      s.strategy.IsSingle → s.strategy.isActive = false → s.isDonating = false → Pauses job
  | .onConfigChanged pools =>
      s.Replaces pools → s.strategy.IsSingle → s.isDonating = false → s.LastPause
  | _ => True

/-! ## Commands -/

theorem lastPause_setJob : (s.setJob pool job donate).LastPause ↔ Pauses job := by
  unfold setJob Pauses LastPause
  split
  · next hheight =>
    split
    · next hfour => simp [command, Command.isPause, hheight, hfour]
    · next hfour => simp [accept, command, Command.isPause, hfour]
  · next hheight => simp [accept, command, Command.isPause, hheight]

/-- Whoever is active is not paused; otherwise there is a pause. -/
theorem paused_onPause : s.onPause.Paused := by
  unfold onPause
  split
  · next hactive => exact fun hinactive => absurd (hactive.symm.trans hinactive) nofun
  · intro _ _
    simp [LastPause, command, Command.isPause]

theorem paused_of_isActive (h : s.strategy.isActive = true) : s.Paused :=
  fun hinactive => absurd (h.symm.trans hinactive) nofun

theorem paused_of_isDonating (h : s.isDonating = true) : s.Paused :=
  fun _ hidle => absurd (h.symm.trans hidle) nofun

/-- Only the strategy moved, and as active as it was. -/
theorem Paused.moved (h : s.Paused) (hf : f.isActive = s.strategy.isActive) : (s.moved f).Paused :=
  fun hinactive hidle => h (hf ▸ hinactive) hidle

/-! ## Handlers -/

theorem Paused.connect (h : s.Paused) : s.connect.Paused := by
  unfold Network.connect
  cases hs : s.strategy with
  | single t => exact h
  | failover f =>
      dsimp only
      rw [drive_connect]
      refine h.moved ?_
      rw [hs]
      rfl

theorem paused_onLoginSuccess (id : Nat) : (s.onLoginSuccess id).Paused := by
  unfold onLoginSuccess
  cases s.strategy with
  | single t => exact paused_of_isActive rfl
  | failover f =>
      dsimp only
      rw [drive_onLoginSuccess]
      exact paused_of_isActive isActive_onLoginSuccess

theorem Paused.onClose (h : s.Paused) (id : Nat) (failures : Int) :
    (s.onClose id failures).Paused := by
  unfold Network.onClose
  cases hs : s.strategy with
  | single t =>
      dsimp only
      split
      · exact paused_onPause
      · exact h
  | failover f =>
      dsimp only
      by_cases hother : failures = -1 ∨ f.active ≠ id
      · rw [drive_onClose_other hother]
        refine h.moved ?_
        rw [hs, isActive_onClose_other hother]
        rfl
      · rw [not_or, not_not] at hother
        rw [drive_onClose hother.1 hother.2]
        exact paused_onPause

/-- A strategy that is not the one of a single pool is stopped with a pause. -/
theorem paused_stop_iff (hnone : t.strategy.isActive = false)
    (hcommands : t.commands = s.stop.commands) (hdonate : t.isDonating = s.isDonating) :
    t.Paused ↔ (s.strategy.IsSingle → s.isDonating = false → s.LastPause) := by
  unfold Paused LastPause
  rw [hcommands, hdonate]
  simp only [hnone, forall_const]
  unfold stop
  cases hs : s.strategy with
  | single u => simp [Strategy.IsSingle]
  | failover f =>
      simp only [Strategy.IsSingle, false_implies, iff_true]
      intro hidle
      rw [drive_stop]
      exact paused_onPause (strategy_onPause ▸ rfl) (isDonating_onPause ▸ hidle)

/-- A job is handed over while nobody is active, or it is not heard of. -/
theorem paused_handOver_iff (h : s.Paused) {id : Nat} {client : UserClient}
    (hclient : s.clients[id]? = some client) : (s.handOver id).Paused ↔
      (s.strategy.IsSingle → s.strategy.isActive = false → s.isDonating = false →
        Pauses client.job) := by
  unfold handOver
  cases hs : s.strategy with
  | single t =>
      simp only [onClientJob, hclient, Strategy.IsSingle, forall_const]
      unfold onJob
      split
      · next hdonating =>
        refine iff_of_true (paused_of_isDonating hdonating.1) fun _ hidle => ?_
        exact absurd (hdonating.1.symm.trans hidle) nofun
      · unfold Paused
        rw [strategy_setJob, isDonating_setJob, lastPause_setJob, hs]
  | failover f =>
      dsimp only
      rw [drive_onJobReceived]
      simp only [Strategy.IsSingle, false_implies, iff_true]
      split
      · next hactive =>
        refine paused_of_isActive ?_
        rw [strategy_onClientJob]
        show ((fresh f).onJobReceived id).isActive = true
        unfold FailoverStrategy.onJobReceived
        rw [if_pos (show (fresh f).active = id from hactive), FailoverStrategy.isActive_iff]
        show (0 : Int) ≤ f.active
        rw [hactive]
        exact Int.natCast_nonneg id
      · refine h.moved ?_
        rw [hs]
        rfl

/-- The donate strategy finishes with a pause, if no pool of the user takes over. -/
theorem Paused.onDonate (h : s.Paused) {d : Donate} {cycle : DonateStrategy}
    (hd : s.donate = some d) : (s.onDonate d cycle).Paused := by
  unfold Network.onDonate
  dsimp only
  split
  · exact paused_onPause
  · next hfinished =>
    intro hinactive hidle
    refine h hinactive ?_
    have hcycle : cycle.isActive = false := hidle
    unfold isDonating
    rw [hd]
    show d.cycle.isActive = false
    simpa [hcycle] using hfinished

theorem paused_donateJob (h : s.Paused) :
    (if s.isDonating then s.onJob pool job true else s).Paused := by
  split
  · next hdonating =>
    refine paused_of_isDonating ?_
    rw [isDonating_onJob]
    exact hdonating
  · exact h

/-! ## Runs -/

section

variable [Features] {e : Event} {es : List Event}

omit [Features] in
/-- A strategy that is connected is as active as it was. -/
theorem connect_eq : s.connect.strategy.isActive = s.strategy.isActive ∧
    s.connect.isDonating = s.isDonating ∧ s.connect.commands = s.commands := by
  unfold connect
  split
  · exact ⟨rfl, rfl, rfl⟩
  · next f hs =>
    rw [drive_connect, hs]
    exact ⟨rfl, rfl, rfl⟩

theorem isActive_createStrategy (pools : Pools) : (createStrategy pools).isActive = false := by
  unfold createStrategy
  split <;> rfl

omit [Features] in
theorem isDonating_stop : s.stop.isDonating = s.isDonating := by
  unfold stop
  split
  · rfl
  · rw [drive_stop, isDonating_onPause, isDonating_moved]

theorem paused_onConfigChanged_iff (h : s.Paused) (pools : Pools) :
    (s.onConfigChanged pools).Paused ↔
      (s.Replaces pools → s.strategy.IsSingle → s.isDonating = false → s.LastPause) := by
  unfold onConfigChanged
  split
  · next hreplaces =>
    simp only [hreplaces, forall_const]
    obtain ⟨hactive, hdonating, hcommands⟩ := connect_eq (s := { s.stop with
      pools
      strategy := createStrategy pools
      clients := createClients pools })
    refine paused_stop_iff ?_ hcommands (hdonating.trans isDonating_stop)
    rw [hactive]
    exact isActive_createStrategy pools
  · next hsame =>
    simp only [hsame, false_implies, iff_true]
    exact h

/-- What a step leaves. -/
theorem paused_step_iff (h : s.Paused) (hstep : machine.step s e = some s') :
    s'.Paused ↔ s.Orderly e := by
  cases e with
  | connect =>
      obtain rfl := Option.some.inj hstep
      exact iff_of_true h.connect trivial
  | onLoginSuccess id =>
      obtain ⟨-, hstep⟩ := Option.ite_none_right_eq_some.mp hstep
      obtain rfl := Option.some.inj hstep
      exact iff_of_true (paused_onLoginSuccess id) trivial
  | onJobReceived id job =>
      obtain ⟨hid, hstep⟩ := Option.ite_none_right_eq_some.mp hstep
      obtain rfl := Option.some.inj hstep
      have hreceive : (s.receive id job).Paused := h
      exact paused_handOver_iff hreceive (getElem?_receive hid)
  | onClose id failures =>
      obtain ⟨-, hstep⟩ := Option.ite_none_right_eq_some.mp hstep
      obtain rfl := Option.some.inj hstep
      exact iff_of_true (h.onClose id failures) trivial
  | client id client =>
      obtain rfl := Option.some.inj hstep
      exact iff_of_true h trivial
  | donate e =>
      obtain ⟨d, hd, hstep⟩ := Option.bind_eq_some_iff.mp hstep
      obtain ⟨cycle, -, hstep⟩ := Option.bind_eq_some_iff.mp hstep
      obtain rfl := Option.some.inj hstep
      exact iff_of_true (h.onDonate hd) trivial
  | donateJob pool job =>
      obtain rfl := Option.some.inj hstep
      exact iff_of_true (paused_donateJob h) trivial
  | redirect id host port =>
      obtain rfl := Option.some.inj hstep
      refine iff_of_true (fun hinactive hidle => h hinactive ?_) trivial
      rw [← hidle]
      unfold isDonating
      dsimp only
      cases s.donate <;> rfl
  | onConfigChanged pools =>
      obtain rfl := Option.some.inj hstep
      exact paused_onConfigChanged_iff h pools

/-- **When the miner never works without a pool**: the runs in all of whose states it is
paused while no strategy is active are those whose steps are all orderly. -/
theorem always_paused_iff (hs : machine.init s) (hr : machine.run s es = some s') :
    machine.Always Paused s es ↔ machine.Meets Orderly s es := by
  refine Machine.always_iff (fun _ _ _ => paused_step_iff) hr ?_
  obtain ⟨pools, donate, -, -, rfl⟩ := hs
  intro _ _ c hc
  contradiction

end

end Network

end XLArig

namespace XLArig.Network

/-! ## A single pool -/

instance (s : Network) : Decidable s.LastPause :=
  inferInstanceAs (Decidable (∀ c ∈ s.commands.head?, c.isPause = true))

instance (s : Network) : Decidable s.Paused := inferInstanceAs (Decidable (_ → _ → _))

instance (job : Job) : Decidable (Pauses job) := inferInstanceAs (Decidable (_ ∧ _))

instance (s : Network) : (e : Event) → Decidable (s.Orderly e)
  | .onJobReceived .. | .onConfigChanged _ => inferInstanceAs (Decidable (_ → _))
  | .connect | .onLoginSuccess _ | .onClose .. | .client .. | .donate _ | .donateJob .. |
      .redirect .. => inferInstanceAs (Decidable True)

/-- A configuration with one pool. -/
def samplePools (host : String) : Pools :=
  ⟨[.ofHost (bytes host) 3333 none none 0 false false .POOL], 5, 5⟩

def sampleJob (height : UInt64) : Job := { Job.empty with height }

/-- A login, a job and a close, and another pool after that. -/
theorem always_paused_single : machine.Always Paused (init (samplePools "a") none)
    [.connect, .onLoginSuccess 0, .onJobReceived 0 (sampleJob 5), .onClose 0 1,
      .onConfigChanged (samplePools "b")] := by
  have hsome : (machine.run (init (samplePools "a") none)
      [.connect, .onLoginSuccess 0, .onJobReceived 0 (sampleJob 5), .onClose 0 1,
        .onConfigChanged (samplePools "b")]).isSome = true := by
    decide +kernel
  obtain ⟨s, hr⟩ := Option.isSome_iff_exists.mp hsome
  have hinit : machine.init (init (samplePools "a") none) :=
    ⟨_, none, by decide +kernel, .inl rfl, rfl⟩
  exact (always_paused_iff hinit hr).mpr (by decide +kernel)

/-- **A job before the login, and a reload**: the miner works, and there is no pool. -/
theorem works_without_pool :
    ((machine.run (init (samplePools "a") none) [.connect, .onJobReceived 0 (sampleJob 5)]).any
      fun s => ¬ s.Paused) = true ∧
    ((machine.run (init (samplePools "a") none)
        [.connect, .onLoginSuccess 0, .onJobReceived 0 (sampleJob 5),
          .onConfigChanged (samplePools "b")]).any fun s => ¬ s.Paused) = true := by
  decide +kernel

end XLArig.Network
