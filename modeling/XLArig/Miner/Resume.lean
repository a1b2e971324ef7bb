import XLArig.Miner

/-!
# XLArig.Miner.Resume

The automatic pause, and when it lets the user resume.

The timer counts in `autoPause` how many of its two conditions hold, and keeps each of them in a
flag of its own.  A flag is only looked at while its option is on, and `setEnabled` refuses to
resume while `batteryPower` is set.  So a reload that switches both options off on battery power
leaves a miner that cannot be resumed by hand, and only such a reload does (`resumes_iff`).
-/

namespace XLArig

namespace Miner

variable [Features]

/-! ## Calls in any order -/

/-- What an event does; here the timer may run before the first job. -/
def after (s : Miner) : Event → Miner
  | .setJob job donate wasReady isReady => s.setJob job donate wasReady isReady
  | .pause => s.pause
  | .setEnabled enabled => s.setEnabled enabled
  | .stop => s.stop
  | .onConfigChanged config poolsDiffer => s.onConfigChanged config poolsDiffer
  | .onDatasetReady isReady => s.onDatasetReady isReady
  | .onTimer stopMiner isOnBatteryPower isUserActive =>
      s.onTimer stopMiner isOnBatteryPower isUserActive
  | .exhausted => { s with nonce := s.nonce.pause true }

/-- The miner that takes every event. -/
def calls : Machine Miner Event where
  init s := ∃ config, s = init config
  step s e := some (s.after e)

variable {s s' t : Miner}

theorem step_after {e : Event} (h : step s e = some s') : s' = s.after e := by
  cases e with
  | setJob _ _ _ _ | pause | setEnabled _ | stop | onConfigChanged _ _ | onDatasetReady _ =>
      exact (Option.some.inj h).symm
  | onTimer _ _ _ | exhausted =>
      simp only [step, Option.ite_none_left_eq_some, Option.some.injEq] at h
      exact h.2.symm

/-- Every run of the miner is such a run. -/
theorem run_calls {es : List Event} (h : machine.run s es = some s') :
    calls.run s es = some s' := by
  induction es generalizing s with
  | nil => exact h
  | cons e es ih =>
      simp only [Machine.run] at h ⊢
      cases ht : machine.step s e with
      | none =>
          rw [ht] at h
          contradiction
      | some t =>
          rw [ht] at h
          obtain rfl := step_after ht
          exact ih h

theorem exists_run_calls (s : Miner) (es : List Event) : ∃ s', calls.run s es = some s' := by
  induction es generalizing s with
  | nil => exact ⟨s, rfl⟩
  | cons e es ih => exact ih (s.after e)

/-! ## Flags -/

/-- The count is that of the flags. -/
def Counts (s : Miner) : Prop :=
  s.autoPause = (if s.batteryPower then 1 else 0) + (if s.userActive then 1 else 0)

instance (s : Miner) : Decidable s.Counts := inferInstanceAs (Decidable (_ = _))

/-- And nothing has resumed the miner on battery power. -/
structure Latched (s : Miner) : Prop where
  counts : s.Counts
  battery : s.batteryPower = true → s.enabled = false

/-- The flags, the count and the switch of the user are what they were. -/
structure Kept (s t : Miner) : Prop where
  batteryPower : t.batteryPower = s.batteryPower
  userActive : t.userActive = s.userActive
  autoPause : t.autoPause = s.autoPause
  enabled : t.enabled = s.enabled

omit [Features] in
theorem Kept.latched (h : s.Kept t) (hs : s.Latched) : t.Latched := by
  constructor
  · unfold Counts
    rw [h.batteryPower, h.userActive, h.autoPause]
    exact hs.counts
  · rw [h.batteryPower, h.enabled]
    exact hs.battery

theorem kept_handleJobChange : s.Kept s.handleJobChange ∧ s.handleJobChange.config = s.config := by
  unfold handleJobChange startTimer unpause pauseIfDisabled resetCounter
  split_ifs <;> exact ⟨⟨rfl, rfl, rfl, rfl⟩, rfl⟩

theorem kept_setJob (job : Job) (donate wasReady isReady : Bool) :
    s.Kept (s.setJob job donate wasReady isReady) ∧
      (s.setJob job donate wasReady isReady).config = s.config := by
  let t : Miner := { (s.prepare job wasReady).store job donate with active := true }
  have hprepare : s.Kept t ∧ t.config = s.config := by
    unfold t prepare
    split <;> exact ⟨⟨rfl, rfl, rfl, rfl⟩, rfl⟩
  obtain ⟨hkept, hconfig⟩ := hprepare
  show s.Kept (if t.initRX isReady then t.handleJobChange else t) ∧
    Miner.config (if t.initRX isReady then t.handleJobChange else t) = s.config
  split
  · obtain ⟨hchange, hsame⟩ := kept_handleJobChange (s := t)
    exact ⟨⟨hchange.batteryPower.trans hkept.batteryPower,
      hchange.userActive.trans hkept.userActive, hchange.autoPause.trans hkept.autoPause,
      hchange.enabled.trans hkept.enabled⟩, hsame.trans hconfig⟩
  · exact ⟨hkept, hconfig⟩

theorem kept_onConfigChanged (config : Config) (poolsDiffer : Bool) :
    s.Kept (s.onConfigChanged config poolsDiffer) ∧
      (s.onConfigChanged config poolsDiffer).config = config := by
  unfold onConfigChanged
  dsimp only
  split <;> exact ⟨⟨rfl, rfl, rfl, rfl⟩, rfl⟩

/-! ### Commands and the timer -/

omit [Features] in
/-- `setEnabled` writes the switch alone. -/
theorem setEnabled_flags (enabled : Bool) :
    (s.setEnabled enabled).batteryPower = s.batteryPower ∧
      (s.setEnabled enabled).userActive = s.userActive ∧
      (s.setEnabled enabled).autoPause = s.autoPause ∧
      (s.setEnabled enabled).config = s.config := by
  unfold setEnabled
  dsimp only
  split_ifs <;> exact ⟨rfl, rfl, rfl, rfl⟩

omit [Features] in
/-- Resuming is refused on battery power, pausing never. -/
theorem setEnabled_enabled (enabled : Bool) :
    (s.setEnabled enabled).enabled = (enabled && (s.enabled || !s.batteryPower)) := by
  unfold setEnabled
  dsimp only
  cases henabled : s.enabled with
  | true => cases enabled <;> cases s.batteryPower <;> cases s.active <;> simp_all [touch]
  | false => cases enabled <;> cases s.batteryPower <;> cases s.active <;> simp_all [touch]

omit [Features] in
theorem latched_setEnabled (h : s.Latched) (enabled : Bool) : (s.setEnabled enabled).Latched := by
  obtain ⟨hbattery, huser, hcount, -⟩ := s.setEnabled_flags enabled
  constructor
  · unfold Counts
    rw [hbattery, huser, hcount]
    exact h.counts
  · intro hpower
    rw [hbattery] at hpower
    rw [setEnabled_enabled, h.battery hpower, hpower]
    cases enabled <;> rfl

omit [Features] in
/-- The switch follows the count, so the miner is off on battery power. -/
theorem latched_autoPause (h : s.Counts) : (s.setEnabled (s.autoPause == 0)).Latched := by
  obtain ⟨hbattery, huser, hcount, -⟩ := s.setEnabled_flags (s.autoPause == 0)
  constructor
  · unfold Counts
    rw [hbattery, huser, hcount]
    exact h
  · intro hpower
    rw [hbattery] at hpower
    have hpositive : (s.autoPause == 0) = false := by
      unfold Counts at h
      rw [hpower] at h
      rw [h]
      cases s.userActive <;> rfl
    rw [setEnabled_enabled, hpositive]
    rfl

omit [Features] in
theorem latched_onBatteryPower (h : s.Latched) (pause : Bool) :
    (s.applyAutoPause s.batteryPower pause fun s b => { s with batteryPower := b }).Latched := by
  unfold applyAutoPause
  split
  · exact h
  · next hedge =>
    apply latched_autoPause
    have hcounts := h.counts
    unfold Counts at hcounts ⊢
    dsimp only
    rw [hcounts]
    cases hpower : s.batteryPower <;> cases pause <;> cases s.userActive <;> simp_all

omit [Features] in
theorem latched_onUserActive (h : s.Latched) (pause : Bool) :
    (s.applyAutoPause s.userActive pause fun s b => { s with userActive := b }).Latched := by
  unfold applyAutoPause
  split
  · exact h
  · next hedge =>
    apply latched_autoPause
    have hcounts := h.counts
    unfold Counts at hcounts ⊢
    dsimp only
    rw [hcounts]
    cases s.batteryPower <;> cases pause <;> cases hactive : s.userActive <;> simp_all

omit [Features] in
theorem config_applyAutoPause (state pause : Bool) (setState : Miner → Bool → Miner)
    (h : (setState s pause).config = s.config) :
    (s.applyAutoPause state pause setState).config = s.config := by
  unfold applyAutoPause
  split
  · rfl
  · obtain ⟨-, -, -, hconfig⟩ := setEnabled_flags (s := { setState s pause with
        autoPause := (setState s pause).autoPause + if pause then 1 else -1 })
        ((setState s pause).autoPause + (if pause then 1 else -1) == 0)
    exact hconfig.trans h

omit [Features] in
/-- The timer keeps the configuration, and without its option `batteryPower` too. -/
theorem latched_onTimer (h : s.Latched) (stopMiner battery user : Bool) :
    (s.onTimer stopMiner battery user).Latched ∧
      (s.onTimer stopMiner battery user).config = s.config ∧
      (s.config.isPauseOnBattery = false →
        (s.onTimer stopMiner battery user).batteryPower = s.batteryPower) := by
  have hticks : Latched { s with ticks := s.ticks + 1 } := ⟨h.counts, h.battery⟩
  have hbattery : ∀ t : Miner, t.Latched → ∀ u, u = (if t.config.isPauseOnBattery then
      t.applyAutoPause t.batteryPower battery fun s b => { s with batteryPower := b } else t) →
      u.Latched ∧ u.config = t.config ∧
        (t.config.isPauseOnBattery = false → u.batteryPower = t.batteryPower) := by
    rintro t ht u rfl
    cases hoption : t.config.isPauseOnBattery with
    | true =>
        rw [if_pos rfl]
        exact ⟨latched_onBatteryPower ht battery, config_applyAutoPause _ _ _ rfl, nofun⟩
    | false => exact ⟨ht, rfl, fun _ => rfl⟩
  have huser : ∀ t : Miner, t.Latched → ∀ u, u = (if t.config.isPauseOnActive then
      t.applyAutoPause t.userActive user fun s b => { s with userActive := b } else t) →
      u.Latched ∧ u.config = t.config ∧ u.batteryPower = t.batteryPower := by
    rintro t ht u rfl
    cases hoption : t.config.isPauseOnActive with
    | true =>
        rw [if_pos rfl]
        refine ⟨latched_onUserActive ht user, config_applyAutoPause _ _ _ rfl, ?_⟩
        unfold applyAutoPause
        split
        · rfl
        · exact (setEnabled_flags _).1
    | false => exact ⟨ht, rfl, rfl⟩
  have hstop : ∀ t : Miner, t.Latched → ∀ u, u = (if stopMiner then t.stop else t) →
      u.Latched ∧ u.config = t.config ∧ u.batteryPower = t.batteryPower := by
    rintro t ht u rfl
    cases stopMiner with
    | true => exact ⟨⟨ht.counts, ht.battery⟩, rfl, rfl⟩
    | false => exact ⟨ht, rfl, rfl⟩
  obtain ⟨hlatched, hconfig, hpower⟩ := hbattery _ hticks _ rfl
  obtain ⟨hlatched', hconfig', hpower'⟩ := huser _ hlatched _ rfl
  obtain ⟨hlatched'', hconfig'', hpower''⟩ := hstop _ hlatched' _ rfl
  exact ⟨hlatched'', hconfig''.trans (hconfig'.trans hconfig),
    fun hoff => hpower''.trans (hpower'.trans (hpower hoff))⟩

/-! ## Resuming -/

/-- Both options of the automatic pause are off. -/
def Manual (config : Config) : Prop :=
  config.isPauseOnBattery = false ∧ config.isPauseOnActive = false

instance (config : Config) : Decidable (Manual config) :=
  inferInstanceAs (Decidable (_ ∧ _))

/-- The count is right, and without an option the user can resume. -/
def Resumes (s : Miner) : Prop :=
  s.Counts ∧ (Manual s.config → (s.setEnabled true).enabled = true)

/-- A reload does not switch both options off while `batteryPower` is set. -/
def Released (s : Miner) : Event → Prop
  | .onConfigChanged config _ => Manual config → s.batteryPower = false
  | _ => True

instance (s : Miner) : (e : Event) → Decidable (s.Released e)
  | .onConfigChanged _ _ => inferInstanceAs (Decidable (_ → _))
  | .setJob .. | .pause | .setEnabled _ | .stop | .onDatasetReady _ | .onTimer .. | .exhausted =>
      inferInstanceAs (Decidable True)

/-- What holds along a run whose reloads are such: the flag is down while both options are off. -/
structure Free (s : Miner) : Prop extends s.Latched where
  down : Manual s.config → s.batteryPower = false

omit [Features] in
theorem Latched.continues_iff (h : s.Latched) :
    s.Resumes ↔ (Manual s.config → s.batteryPower = false) := by
  unfold Resumes
  rw [setEnabled_enabled, Bool.true_and, and_iff_right h.counts]
  refine forall_congr' fun _ => ?_
  constructor
  · intro henabled
    by_contra hpower
    rw [Bool.not_eq_false] at hpower
    rw [h.battery hpower, hpower] at henabled
    contradiction
  · intro hpower
    rw [hpower]
    exact Bool.or_true _

/-- What a step leaves: the flags and the count fit, and unless it is a reload, the configuration
and a flag that is down with its option off. -/
theorem latched_after (h : s.Latched) (e : Event) : (s.after e).Latched ∧
    ((∃ config poolsDiffer, e = .onConfigChanged config poolsDiffer ∧
        (s.after e).config = config ∧ (s.after e).batteryPower = s.batteryPower) ∨
      (∀ config poolsDiffer, e ≠ .onConfigChanged config poolsDiffer) ∧
        (s.after e).config = s.config ∧
        (s.config.isPauseOnBattery = false → (s.after e).batteryPower = s.batteryPower)) := by
  have hkept : ∀ t : Miner, s.Kept t → t.Latched := fun t hk => hk.latched h
  cases e with
  | setJob job donate wasReady isReady =>
      obtain ⟨hk, hconfig⟩ := kept_setJob (s := s) job donate wasReady isReady
      exact ⟨hkept _ hk, .inr ⟨nofun, hconfig, fun _ => hk.batteryPower⟩⟩
  | pause | stop | exhausted =>
      exact ⟨hkept _ ⟨rfl, rfl, rfl, rfl⟩, .inr ⟨nofun, rfl, fun _ => rfl⟩⟩
  | setEnabled enabled =>
      obtain ⟨hbattery, -, -, hconfig⟩ := s.setEnabled_flags enabled
      exact ⟨latched_setEnabled h enabled, .inr ⟨nofun, hconfig, fun _ => hbattery⟩⟩
  | onConfigChanged config poolsDiffer =>
      obtain ⟨hk, hconfig⟩ := kept_onConfigChanged (s := s) config poolsDiffer
      exact ⟨hkept _ hk, .inl ⟨config, poolsDiffer, rfl, hconfig, hk.batteryPower⟩⟩
  | onDatasetReady isReady =>
      cases isReady with
      | false => exact ⟨h, .inr ⟨nofun, rfl, fun _ => rfl⟩⟩
      | true =>
          obtain ⟨hk, hconfig⟩ := kept_handleJobChange (s := s)
          exact ⟨hkept _ hk, .inr ⟨nofun, hconfig, fun _ => hk.batteryPower⟩⟩
  | onTimer stopMiner battery user =>
      obtain ⟨hlatched, hconfig, hpower⟩ := latched_onTimer h stopMiner battery user
      exact ⟨hlatched, .inr ⟨nofun, hconfig, hpower⟩⟩

/-- One event: the next state lets the user resume just if the event is not such a reload. -/
theorem free_after (h : s.Free) (e : Event) :
    ((s.after e).Resumes ↔ s.Released e) ∧ (s.Released e → (s.after e).Free) := by
  obtain ⟨hlatched, hcases⟩ := latched_after h.toLatched e
  have hiff : (Manual (s.after e).config → (s.after e).batteryPower = false) ↔
      s.Released e := by
    rcases hcases with ⟨config, poolsDiffer, rfl, hconfig, hpower⟩ | ⟨hother, hconfig, hpower⟩
    · rw [hconfig, hpower]
      exact Iff.rfl
    · have hreleased : s.Released e := by
        cases e with
        | onConfigChanged config poolsDiffer => exact absurd rfl (hother config poolsDiffer)
        | _ => trivial
      refine iff_of_true ?_ hreleased
      rw [hconfig]
      exact fun hoff => (hpower hoff.1).trans (h.down hoff)
  exact ⟨hlatched.continues_iff.trans hiff, fun hr => ⟨hlatched, hiff.mpr hr⟩⟩

/-- **When the user can resume.**  Along a run of calls the count is that of the flags, and the
user can resume whenever both options are off, if and only if no reload switches them both off
while `batteryPower` is set. -/
theorem resumes_iff (config : Config) (events : List Event) :
    calls.Always Resumes (init config) events ↔ calls.Meets Released (init config) events := by
  obtain ⟨s, hrun⟩ := exists_run_calls (init config) events
  have hinit : (init config).Free := ⟨⟨rfl, nofun⟩, fun _ => rfl⟩
  have hresumes : ∀ s : Miner, s.Free → s.Resumes := fun s hs =>
    hs.toLatched.continues_iff.mpr hs.down
  refine Machine.always_iff_of_invariant hresumes ?_ hrun hinit
  intro s e s' hs hstep
  obtain rfl := Option.some.inj hstep
  exact free_after hs e

end Miner

end XLArig

namespace XLArig.Miner

/-! ### A reload on battery power -/

/-- **The user cannot resume.**  The host goes on battery power, both options are switched off,
and it comes back on mains power. -/
theorem refuses_resume : ∃ s, machine.Reachable s ∧ Manual s.config ∧
    (s.setEnabled true).enabled = false ∧ ¬ s.Resumes := by
  let manual : Config := { sample 1 with isPauseOnBattery := false }
  have hrun : (machine.run (init (sample 1)) [.setJob (.sample "1") false false true,
      .onTimer false true false, .onConfigChanged manual false, .onTimer false false false]).any
      (fun s => decide (Manual s.config ∧ (s.setEnabled true).enabled = false)) = true := by
    decide
  obtain ⟨s, hs, hp⟩ := Machine.Reachable.exists_of_run (init_sample 1) hrun
  obtain ⟨hmanual, hrefused⟩ := of_decide_eq_true hp
  refine ⟨s, hs, hmanual, hrefused, fun hresumes => ?_⟩
  have henabled := hresumes.2 hmanual
  rw [hrefused] at henabled
  contradiction

end XLArig.Miner
