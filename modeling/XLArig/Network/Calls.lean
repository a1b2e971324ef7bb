import XLArig.Network

/-!
# XLArig.Network.Calls

What the handlers of the strategies come to for the network.

Most of them only move the strategy.  The others hand over one job, or tell of one pause.
-/

namespace XLArig

namespace Network

variable {s : Network} {f : FailoverStrategy} {id : Nat} {failures : Int}

/-! ## Calls -/

/-- The network does nothing about the call. -/
def Quiet : FailoverCall → Prop
  | .onJob _ | .onPause => False
  | .connect _ | .disconnect _ | .submit _ | .onActive _ => True

theorem hear_of_quiet {c : FailoverCall} (h : Quiet c) : s.hear c = s := by
  cases c with
  | onJob _ | onPause => exact h.elim
  | connect _ | disconnect _ | submit _ | onActive _ => rfl

theorem foldl_hear {calls : List FailoverCall} (h : ∀ c ∈ calls, Quiet c) :
    calls.foldl hear s = s := by
  induction calls with
  | nil => rfl
  | cons c calls ih =>
      rw [List.foldl_cons, hear_of_quiet (h c List.mem_cons_self)]
      exact ih fun c hc => h c (List.mem_cons_of_mem _ hc)

theorem quiet_disconnect (ids : List Nat) : ∀ c ∈ ids.map FailoverCall.disconnect, Quiet c := by
  intro c hc
  obtain ⟨i, -, rfl⟩ := List.mem_map.mp hc
  trivial

theorem quiet_nil : ∀ c ∈ ([] : List FailoverCall), Quiet c := fun _ hc => absurd hc List.not_mem_nil

/-- The strategy has moved. -/
def moved (s : Network) (f : FailoverStrategy) : Network := { s with strategy := .failover f }

/-- The calls before and after those that matter. -/
theorem drive_eq {calls pre post : List FailoverCall} (hlog : f.log.reverse = pre ++ (calls ++ post))
    (hpre : ∀ c ∈ pre, Quiet c) (hpost : ∀ c ∈ post, Quiet c) :
    s.drive f = calls.foldl hear (s.moved f) := by
  unfold drive
  rw [hlog, List.foldl_append, List.foldl_append, foldl_hear hpre, foldl_hear hpost]
  rfl

/-! ## Handlers of the `FailoverStrategy` -/

@[simp] theorem isActive_fresh : (fresh f).isActive = f.isActive := rfl

theorem drive_connect : s.drive (fresh f).connect = s.moved (fresh f).connect := rfl

theorem drive_stop : s.drive (fresh f).stop = (s.moved (fresh f).stop).onPause := by
  have hlog : (fresh f).stop.log.reverse =
      (List.range f.pools).map .disconnect ++ ([.onPause] ++ []) := by
    simp [FailoverStrategy.stop, FailoverStrategy.call, fresh]
  exact drive_eq hlog (quiet_disconnect _) quiet_nil

theorem drive_resume : s.drive (fresh f).resume =
    if f.isActive then (s.moved (fresh f).resume).onClientJob f.active.toNat
    else s.moved (fresh f) := by
  unfold FailoverStrategy.resume
  rw [isActive_fresh]
  split <;> rfl

theorem drive_onJobReceived : s.drive ((fresh f).onJobReceived id) =
    if f.active = id then (s.moved ((fresh f).onJobReceived id)).onClientJob id
    else s.moved (fresh f) := by
  have hactive : (fresh f).active = f.active := rfl
  unfold FailoverStrategy.onJobReceived
  rw [hactive]
  split <;> rfl

/-- A login makes the strategy active. -/
theorem isActive_onLoginSuccess : (f.onLoginSuccess id).isActive = true := by
  rw [FailoverStrategy.isActive_iff]
  unfold FailoverStrategy.onLoginSuccess
  have hactive : (0 : Int) ≤ if id = 0 ∨ ¬ f.isActive = true then (id : Int) else f.active := by
    split
    · exact Int.natCast_nonneg id
    · next h =>
      rw [not_or, not_not, FailoverStrategy.isActive_iff] at h
      exact h.2
  generalize (if id = 0 ∨ ¬ f.isActive = true then (id : Int) else f.active) = active at hactive
  dsimp only
  split
  · exact hactive
  · next h =>
    rw [FailoverStrategy.call_active] at h ⊢
    have heq : active = f.active := by
      by_contra hne
      exact h ⟨hactive, hne⟩
    rwa [← heq]

theorem drive_onLoginSuccess :
    s.drive ((fresh f).onLoginSuccess id) = s.moved ((fresh f).onLoginSuccess id) := by
  obtain ⟨ids, post, hlog, hpost⟩ : ∃ (ids : List Nat) (post : List FailoverCall),
      ((fresh f).onLoginSuccess id).log.reverse = ids.map .disconnect ++ ([] ++ post) ∧
        ∀ c ∈ post, Quiet c := by
    unfold FailoverStrategy.onLoginSuccess
    generalize (if id = 0 ∨ ¬ (fresh f).isActive = true then (id : Int) else (fresh f).active) = active
    dsimp only
    generalize List.filter _ (List.range (fresh f).pools) = ids
    split
    · refine ⟨ids, [.onActive id], ?_, by simp [Quiet]⟩
      simp only [FailoverStrategy.call_log, fresh, List.append_nil, List.reverse_append,
        List.reverse_reverse]
      rfl
    · refine ⟨ids, [], ?_, quiet_nil⟩
      simp only [FailoverStrategy.call_log, fresh, List.append_nil, List.reverse_reverse]
  exact drive_eq hlog (quiet_disconnect ids) hpost

/-- The active pool is closed. -/
theorem drive_onClose (hfailures : failures ≠ -1) (hactive : f.active = id) :
    s.drive ((fresh f).onClose id failures) =
      (s.moved ((fresh f).onClose id failures)).onPause := by
  obtain ⟨post, hlog, hpost⟩ : ∃ post : List FailoverCall,
      ((fresh f).onClose id failures).log.reverse = [] ++ ([.onPause] ++ post) ∧
        ∀ c ∈ post, Quiet c := by
    have hactive : (fresh f).active = id := hactive
    simp only [FailoverStrategy.onClose, hfailures, hactive, if_true, if_false]
    split
    · exact ⟨[], rfl, quiet_nil⟩
    · split
      · exact ⟨[.connect _], rfl, by simp [Quiet]⟩
      · exact ⟨[], rfl, quiet_nil⟩
  exact drive_eq hlog quiet_nil hpost

/-- Another pool is closed, or the client was disconnected. -/
theorem drive_onClose_other (h : failures = -1 ∨ f.active ≠ id) :
    s.drive ((fresh f).onClose id failures) = s.moved ((fresh f).onClose id failures) := by
  obtain ⟨post, hlog, hpost⟩ : ∃ post : List FailoverCall,
      ((fresh f).onClose id failures).log.reverse = [] ++ ([] ++ post) ∧ ∀ c ∈ post, Quiet c := by
    unfold FailoverStrategy.onClose
    dsimp only
    split
    · exact ⟨[], rfl, quiet_nil⟩
    next hfailures =>
      have hactive : (fresh f).active ≠ id := h.resolve_left hfailures
      rw [if_neg hactive]
      split
      · exact ⟨[], rfl, quiet_nil⟩
      · split
        · exact ⟨[.connect _], rfl, by simp [Quiet]⟩
        · exact ⟨[], rfl, quiet_nil⟩
  exact drive_eq hlog quiet_nil hpost

/-- Then the strategy is as active as it was. -/
theorem isActive_onClose_other (h : failures = -1 ∨ f.active ≠ id) :
    ((fresh f).onClose id failures).isActive = f.isActive := by
  unfold FailoverStrategy.onClose
  dsimp only
  split
  · rfl
  next hfailures =>
    have hactive : (fresh f).active ≠ id := h.resolve_left hfailures
    rw [if_neg hactive]
    split
    · rfl
    · split <;> rfl

/-! ## Jobs and pauses -/

variable {pool : Pool} {job : Job} {donate : Bool}

@[simp] theorem strategy_accept : (s.accept pool job donate).strategy = s.strategy := rfl

@[simp] theorem strategy_setJob : (s.setJob pool job donate).strategy = s.strategy := by
  unfold setJob
  split
  · split <;> rfl
  · cases donate <;> rfl

@[simp] theorem strategy_onJob : (s.onJob pool job donate).strategy = s.strategy := by
  unfold onJob
  split
  · rfl
  · exact strategy_setJob

@[simp] theorem strategy_onClientJob : (s.onClientJob id).strategy = s.strategy := by
  unfold onClientJob
  split
  · exact strategy_onJob
  · rfl

@[simp] theorem strategy_onPause : s.onPause.strategy = s.strategy := by
  unfold onPause
  split <;> rfl

@[simp] theorem strategy_moved : (s.moved f).strategy = .failover f := rfl

@[simp] theorem isDonating_moved : (s.moved f).isDonating = s.isDonating := rfl

@[simp] theorem isDonating_setJob : (s.setJob pool job donate).isDonating = s.isDonating := by
  unfold setJob
  split
  · split <;> rfl
  · cases donate with
    | true => rfl
    | false =>
        show ((s.donate.map fun d => (d.setAlgo job.algorithm).setProxy pool.proxy).any
          fun d => d.cycle.isActive) = s.donate.any fun d => d.cycle.isActive
        cases s.donate <;> rfl

@[simp] theorem isDonating_onJob : (s.onJob pool job donate).isDonating = s.isDonating := by
  unfold onJob
  split
  · rfl
  · exact isDonating_setJob

@[simp] theorem isDonating_onClientJob : (s.onClientJob id).isDonating = s.isDonating := by
  unfold onClientJob
  split
  · exact isDonating_onJob
  · rfl

@[simp] theorem isDonating_onPause : s.onPause.isDonating = s.isDonating := by
  unfold onPause
  split <;> rfl

theorem getElem?_receive (hid : id < s.clients.length) :
    (s.receive id job).clients[id]? = some ⟨s.clients[id].pool, job⟩ := by
  simp [receive, hid]

end Network

end XLArig
