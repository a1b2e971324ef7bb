import XLArig.Machine

/-!
# XLArig.DonateStrategy

`DonateStrategy`: the cycle of idle, connect, active and wait around a donation.

The strategy moves by its one-shot timer, by `tick`, and by the logins of its
clients: the proxy client it may create, or the donate pools of its inner
strategy.  Clients stay connected until the idle state is entered again, so a
login can come at any time in between.  The `log` keeps what happened to the
state and to the timer.
-/

namespace XLArig

namespace DonateStrategy

/-- The states, `STATE_NEW` and so on. -/
inductive State
  | NEW
  | IDLE
  | CONNECT
  | ACTIVE
  | WAIT
  deriving DecidableEq, Repr

/-- What the timer is started with: `random(base, min, max)`, the factors in
tenths, or a fixed time in milliseconds. -/
inductive Timeout
  | random (base : UInt64) (min max : Nat)
  | fixed (ms : UInt64)
  deriving DecidableEq, Repr

/-- A state is entered; the timer is started, or runs out. -/
inductive Entry
  | enter (state : State)
  | start (timeout : Timeout)
  | fire (timeout : Timeout)
  deriving DecidableEq, Repr

end DonateStrategy

open DonateStrategy in
/-- `m_donateTime`, `m_idleTime`, `m_state`, `m_now` and `m_timestamp`; whether the
timer is running, whether `m_proxy` is set, and whether `m_strategy` was connected
and not stopped since.  The newest entry of the log comes first. -/
structure DonateStrategy where
  donateTime : UInt64
  idleTime : UInt64
  state : DonateStrategy.State
  now : UInt64
  timestamp : UInt64
  timer : Option Timeout
  proxy : Bool
  strategy : Bool
  log : List Entry
  deriving DecidableEq, Repr

namespace DonateStrategy

/-- What happens: the timer runs out, with what `createProxy` would give then;
a tick; a donate pool or the proxy client logs in; the proxy client closes, with
whether the configuration says `PROXY_DONATE_AUTO`. -/
inductive Event
  | onTimer (createProxy : Bool)
  | tick (now : UInt64)
  | onActive
  | onLoginSuccess
  | onClose (failures : Int) (auto : Bool)
  deriving DecidableEq, Repr

def isActive (s : DonateStrategy) : Bool := s.state = .ACTIVE

def start (s : DonateStrategy) (timeout : Timeout) : DonateStrategy :=
  { s with timer := some timeout, log := .start timeout :: s.log }

def idle (s : DonateStrategy) (min max : Nat) : DonateStrategy :=
  s.start (.random s.idleTime min max)

def connect (s : DonateStrategy) (createProxy : Bool) : DonateStrategy :=
  let s := { s with proxy := createProxy }
  if s.proxy then s else { s with strategy := true }

def setState (s : DonateStrategy) (state : State) (createProxy : Bool) : DonateStrategy :=
  if s.state = state then s
  else
    let prev := s.state
    let s := { s with state, log := .enter state :: s.log }
    match state with
    | .NEW => s
    | .IDLE =>
        match prev with
        | .NEW => s.idle 5 15
        | .CONNECT => s.start (.fixed 20000)
        | _ => { s with strategy := false, proxy := false }.idle 8 12
    | .CONNECT => s.connect createProxy
    | .ACTIVE => s.start (.fixed s.donateTime)
    | .WAIT => { s with timestamp := s.now + 3000 }

def onTimer (s : DonateStrategy) (createProxy : Bool) : DonateStrategy :=
  s.setState (if s.isActive then .WAIT else .CONNECT) createProxy

def tick (s : DonateStrategy) (now : UInt64) : DonateStrategy :=
  let s := { s with now }
  if s.state = .WAIT ∧ now > s.timestamp then s.setState .IDLE false else s

/-- `onActive` of the inner strategy and `onLoginSuccess` of the proxy client do
the same. -/
def onLogin (s : DonateStrategy) : DonateStrategy :=
  if s.isActive then s else s.setState .ACTIVE false

def onClose (s : DonateStrategy) (failures : Int) (auto : Bool) : DonateStrategy :=
  if failures = 2 ∧ auto then { s with proxy := false, strategy := true } else s

/-- The constructor, for a donate level in percent. -/
def init (level : UInt64) : DonateStrategy :=
  setState ⟨level * 60 * 1000, (100 - level) * 60 * 1000, .NEW, 0, 0, none, false, false, []⟩
    .IDLE false

/-- The timer runs out once when it was started; time does not go back; a client
is heard of until it is stopped or deleted. -/
def step (s : DonateStrategy) : Event → Option DonateStrategy
  | .onTimer createProxy =>
      s.timer.map fun timeout =>
        { s with timer := none, log := .fire timeout :: s.log }.onTimer createProxy
  | .tick now => if s.now ≤ now then some (s.tick now) else none
  | .onActive => if s.strategy then some s.onLogin else none
  | .onLoginSuccess => if s.proxy then some s.onLogin else none
  | .onClose failures auto => if s.proxy then some (s.onClose failures auto) else none

def machine : Machine DonateStrategy Event where
  init s := ∃ level, s = init level
  step := step

/-! ## The cycle -/

/-- The state that follows a state. -/
def State.next : State → State
  | .NEW => .IDLE
  | .IDLE => .CONNECT
  | .CONNECT => .ACTIVE
  | .ACTIVE => .WAIT
  | .WAIT => .IDLE

/-- No client logs in during the grace period. -/
def Quiet (s : DonateStrategy) : Event → Prop
  | .onActive | .onLoginSuccess => s.state ≠ .WAIT
  | _ => True

instance (s : DonateStrategy) : (e : Event) → Decidable (s.Quiet e)
  | .onActive | .onLoginSuccess => inferInstanceAs (Decidable (_ ≠ _))
  | .onTimer _ | .tick _ | .onClose _ _ => inferInstanceAs (Decidable True)

/-- What may be logged after an entry: in the idle state the idle timer, in the
active state one donation time. -/
inductive Follows (donateTime : UInt64) : Entry → Entry → Prop
  | idle (base : UInt64) (min max : Nat) :
      Follows donateTime (.enter .IDLE) (.start (.random base min max))
  | idleOver (base : UInt64) (min max : Nat) :
      Follows donateTime (.start (.random base min max)) (.fire (.random base min max))
  | connect (base : UInt64) (min max : Nat) :
      Follows donateTime (.fire (.random base min max)) (.enter .CONNECT)
  | active : Follows donateTime (.enter .CONNECT) (.enter .ACTIVE)
  | donate : Follows donateTime (.enter .ACTIVE) (.start (.fixed donateTime))
  | donateOver : Follows donateTime (.start (.fixed donateTime)) (.fire (.fixed donateTime))
  | wait : Follows donateTime (.fire (.fixed donateTime)) (.enter .WAIT)
  | over : Follows donateTime (.enter .WAIT) (.enter .IDLE)

/-- The running timer and the last entry of the log in a state. -/
inductive Phase (donateTime : UInt64) : State → Option Timeout → Entry → Prop
  | idle (base : UInt64) (min max : Nat) : Phase donateTime .IDLE (some (.random base min max))
      (.start (.random base min max))
  | connect : Phase donateTime .CONNECT none (.enter .CONNECT)
  | active : Phase donateTime .ACTIVE (some (.fixed donateTime)) (.start (.fixed donateTime))
  | wait : Phase donateTime .WAIT none (.enter .WAIT)

/-- The log goes round the cycle, and no client is left in the idle state. -/
structure Inv (s : DonateStrategy) : Prop where
  phase : ∃ entry log, s.log = entry :: log ∧ Phase s.donateTime s.state s.timer entry
  chain : s.log.IsChain fun entry before => Follows s.donateTime before entry
  first : s.log.getLast? = some (.enter .IDLE)
  idle : s.state = .IDLE → s.proxy = false ∧ s.strategy = false

variable {s s' : DonateStrategy} {e : Event}

theorem inv_init (level : UInt64) : (init level).Inv where
  phase := ⟨_, _, rfl, .idle _ _ _⟩
  chain := .cons_cons (.idle _ _ _) (.singleton _)
  first := rfl
  idle := fun _ => ⟨rfl, rfl⟩

/-! ### Entering a state -/

theorem setState_connect (h : s.state = .IDLE) (createProxy : Bool) :
    s.setState .CONNECT createProxy = { s with
      state := .CONNECT
      proxy := createProxy
      strategy := !createProxy || s.strategy
      log := .enter .CONNECT :: s.log } := by
  cases createProxy <;> simp [setState, connect, h]

theorem setState_active (h : s.state ≠ .ACTIVE) (createProxy : Bool) :
    s.setState .ACTIVE createProxy = { s with
      state := .ACTIVE
      timer := some (.fixed s.donateTime)
      log := .start (.fixed s.donateTime) :: .enter .ACTIVE :: s.log } := by
  simp [setState, start, h]

theorem setState_wait (h : s.state = .ACTIVE) (createProxy : Bool) :
    s.setState .WAIT createProxy = { s with
      state := .WAIT
      timestamp := s.now + 3000
      log := .enter .WAIT :: s.log } := by
  simp [setState, h]

theorem setState_idle (h : s.state = .WAIT) (createProxy : Bool) :
    s.setState .IDLE createProxy = { s with
      state := .IDLE
      timer := some (.random s.idleTime 8 12)
      proxy := false
      strategy := false
      log := .start (.random s.idleTime 8 12) :: .enter .IDLE :: s.log } := by
  simp [setState, idle, start, h]

/-- The timer runs out: the idle period is over, or the donation is. -/
theorem Inv.onTimer (h : s.Inv) {timeout : Timeout} (ht : s.timer = some timeout)
    (createProxy : Bool) :
    ({ s with timer := none, log := .fire timeout :: s.log }.onTimer createProxy).Inv := by
  obtain ⟨entry, log, hlog, hphase⟩ := h.phase
  have hchain := h.chain
  have hfirst := h.first
  rw [hlog] at hchain hfirst
  generalize hstate : s.state = state at hphase
  rw [ht] at hphase
  cases hphase with
  | idle base min max =>
      rw [DonateStrategy.onTimer, if_neg (by simp [isActive]), setState_connect rfl]
      refine ⟨⟨_, _, rfl, .connect⟩, ?_, ?_, nofun⟩
      · rw [hlog]
        exact .cons_cons (.connect base min max) (.cons_cons (.idleOver base min max) hchain)
      · simpa [hlog] using hfirst
  | active =>
      rw [DonateStrategy.onTimer, if_pos (by simp [isActive]), setState_wait rfl]
      refine ⟨⟨_, _, rfl, .wait⟩, ?_, ?_, nofun⟩
      · rw [hlog]
        exact .cons_cons .wait (.cons_cons .donateOver hchain)
      · simpa [hlog] using hfirst

/-- The grace period is over. -/
theorem Inv.tick (h : s.Inv) (now : UInt64) : (s.tick now).Inv := by
  unfold DonateStrategy.tick
  dsimp only
  split
  · next hw =>
      obtain ⟨entry, log, hlog, hphase⟩ := h.phase
      have hchain := h.chain
      have hfirst := h.first
      rw [hlog] at hchain hfirst
      have hwait : ({ s with now } : DonateStrategy).state = .WAIT := hw.1
      rw [setState_idle hwait]
      rw [hw.1] at hphase
      generalize s.timer = timer at hphase
      cases hphase with
      | wait =>
          refine ⟨⟨_, _, rfl, .idle _ _ _⟩, ?_, ?_, fun _ => ⟨rfl, rfl⟩⟩
          · rw [hlog]
            exact .cons_cons (.idle _ _ _) (.cons_cons .over hchain)
          · simpa [hlog] using hfirst
  · exact ⟨h.phase, h.chain, h.first, h.idle⟩

/-- A login outside the grace period ends the connect state, or changes nothing. -/
theorem Inv.onLogin (h : s.Inv) (hidle : s.state ≠ .IDLE) (hwait : s.state ≠ .WAIT) :
    s.onLogin.Inv := by
  unfold DonateStrategy.onLogin
  split
  · exact h
  · next hactive =>
      have hactive : s.state ≠ .ACTIVE := by simpa [isActive] using hactive
      obtain ⟨entry, log, hlog, hphase⟩ := h.phase
      have hchain := h.chain
      have hfirst := h.first
      rw [hlog] at hchain hfirst
      rw [setState_active hactive]
      generalize hstate : s.state = state at hphase
      generalize s.timer = timer at hphase
      cases hphase with
      | connect =>
          refine ⟨⟨_, _, rfl, .active⟩, ?_, ?_, nofun⟩
          · rw [hlog]
            exact .cons_cons .donate (.cons_cons .active hchain)
          · simpa [hlog] using hfirst
      | idle => exact absurd hstate hidle
      | active => exact absurd hstate hactive
      | wait => exact absurd hstate hwait

theorem Inv.onClose (h : s.Inv) (hproxy : s.proxy = true) (failures : Int) (auto : Bool) :
    (s.onClose failures auto).Inv := by
  unfold DonateStrategy.onClose
  split
  · refine ⟨h.phase, h.chain, h.first, ?_⟩
    intro hstate
    have := (h.idle hstate).1
    simp [hproxy] at this
  · exact h

theorem Inv.step (h : s.Inv) (hq : s.Quiet e) (hs : s.step e = some s') : s'.Inv := by
  cases e with
  | onTimer createProxy =>
      obtain ⟨timeout, ht, rfl⟩ := Option.map_eq_some_iff.mp hs
      exact h.onTimer ht createProxy
  | tick now =>
      obtain ⟨-, hs⟩ := Option.ite_none_right_eq_some.mp hs
      obtain rfl := Option.some.inj hs
      exact h.tick now
  | onActive =>
      obtain ⟨hon, hs⟩ := Option.ite_none_right_eq_some.mp hs
      obtain rfl := Option.some.inj hs
      exact h.onLogin (fun hi => by simp [(h.idle hi).2] at hon) hq
  | onLoginSuccess =>
      obtain ⟨hon, hs⟩ := Option.ite_none_right_eq_some.mp hs
      obtain rfl := Option.some.inj hs
      exact h.onLogin (fun hi => by simp [(h.idle hi).1] at hon) hq
  | onClose failures auto =>
      obtain ⟨hon, hs⟩ := Option.ite_none_right_eq_some.mp hs
      obtain rfl := Option.some.inj hs
      exact h.onClose hon failures auto

theorem inv_of_reachable (h : machine.ReachableIf Quiet s) : s.Inv := by
  refine h.invariant ?_ fun _ _ _ hi hq hs => hi.step hq hs
  rintro _ ⟨level, rfl⟩
  exact inv_init level

/-! ## Donations -/

theorem setState_state (state : State) (createProxy : Bool) :
    (s.setState state createProxy).state = state := by
  unfold setState
  split
  · assumption
  · cases state <;> dsimp only
    · split <;> rfl
    · unfold connect
      dsimp only
      split <;> rfl
    · rfl

/-- The timer runs in the idle and in the active state only. -/
theorem Inv.of_timer (h : s.Inv) {timeout : Timeout} (ht : s.timer = some timeout) :
    s.state = .IDLE ∨ s.state = .ACTIVE := by
  obtain ⟨entry, log, -, hphase⟩ := h.phase
  generalize s.state = state at hphase
  rw [ht] at hphase
  cases hphase with
  | idle => exact .inl rfl
  | active => exact .inr rfl

/-- A step outside the condition goes from the grace period to the next donation. -/
theorem step_not_quiet (hq : ¬ s.Quiet e) (hs : s.step e = some s') :
    s.state = .WAIT ∧ s'.state = .ACTIVE := by
  have hlogin : s.state = .WAIT → s.onLogin.state = .ACTIVE := by
    intro hwait
    rw [DonateStrategy.onLogin, if_neg (by simp [isActive, hwait]), setState_state]
  cases e with
  | onActive =>
      obtain ⟨-, hs⟩ := Option.ite_none_right_eq_some.mp hs
      obtain rfl := Option.some.inj hs
      exact ⟨not_not.mp hq, hlogin (not_not.mp hq)⟩
  | onLoginSuccess =>
      obtain ⟨-, hs⟩ := Option.ite_none_right_eq_some.mp hs
      obtain rfl := Option.some.inj hs
      exact ⟨not_not.mp hq, hlogin (not_not.mp hq)⟩
  | onTimer createProxy | tick now | onClose failures auto => exact absurd trivial hq

theorem Inv.onLogin_next (h : s.Inv) (hidle : s.state ≠ .IDLE) (hwait : s.state ≠ .WAIT) :
    s.onLogin.state = s.state ∨ s.onLogin.state = s.state.next := by
  unfold DonateStrategy.onLogin
  split
  · exact .inl rfl
  · next hactive =>
      obtain ⟨entry, log, -, hphase⟩ := h.phase
      rw [setState_state]
      generalize hstate : s.state = state at hphase hidle hwait ⊢
      generalize s.timer = timer at hphase
      cases hphase with
      | connect => exact .inr rfl
      | idle => exact absurd rfl hidle
      | active => exact absurd (by simp [isActive, hstate]) hactive
      | wait => exact absurd rfl hwait

theorem Inv.step_next (h : s.Inv) (hq : s.Quiet e) (hs : s.step e = some s') :
    s'.state = s.state ∨ s'.state = s.state.next := by
  cases e with
  | onTimer createProxy =>
      obtain ⟨timeout, ht, rfl⟩ := Option.map_eq_some_iff.mp hs
      simp only [DonateStrategy.onTimer, setState_state, isActive, decide_eq_true_eq]
      rcases h.of_timer ht with hstate | hstate <;> simp [hstate, State.next]
  | tick now =>
      obtain ⟨-, hs⟩ := Option.ite_none_right_eq_some.mp hs
      obtain rfl := Option.some.inj hs
      unfold DonateStrategy.tick
      dsimp only
      split
      · next hw => simp [setState_state, hw.1, State.next]
      · exact .inl rfl
  | onActive =>
      obtain ⟨hon, hs⟩ := Option.ite_none_right_eq_some.mp hs
      obtain rfl := Option.some.inj hs
      exact h.onLogin_next (fun hi => by simp [(h.idle hi).2] at hon) hq
  | onLoginSuccess =>
      obtain ⟨hon, hs⟩ := Option.ite_none_right_eq_some.mp hs
      obtain rfl := Option.some.inj hs
      exact h.onLogin_next (fun hi => by simp [(h.idle hi).1] at hon) hq
  | onClose failures auto =>
      obtain ⟨-, hs⟩ := Option.ite_none_right_eq_some.mp hs
      obtain rfl := Option.some.inj hs
      unfold DonateStrategy.onClose
      split <;> exact .inl rfl

/-- An entry of the log other than the first was allowed by the one before. -/
theorem before {donateTime : UInt64} {entry : Entry} {log : List Entry}
    (hchain : (entry :: log).IsChain fun entry before => Follows donateTime before entry)
    (hfirst : (entry :: log).getLast? = some (.enter .IDLE)) (hne : entry ≠ .enter .IDLE) :
    ∃ before rest, log = before :: rest ∧ Follows donateTime before entry ∧
      ((before :: rest).IsChain fun entry before => Follows donateTime before entry) ∧
      (before :: rest).getLast? = some (.enter .IDLE) := by
  cases log with
  | nil => exact absurd (Option.some.inj hfirst) hne
  | cons before rest =>
      obtain ⟨hb, hrest⟩ := List.isChain_cons_cons.mp hchain
      exact ⟨before, rest, rfl, hb, hrest, by simpa using hfirst⟩

/-- Before a donation the idle timer has run out. -/
theorem before_active {donateTime : UInt64} {log : List Entry}
    (hchain : (.enter .ACTIVE :: log).IsChain fun entry before => Follows donateTime before entry)
    (hfirst : (.enter .ACTIVE :: log).getLast? = some (Entry.enter .IDLE)) :
    ∃ base min max rest, log = .enter .CONNECT :: .fire (.random base min max) ::
      .start (.random base min max) :: .enter .IDLE :: rest := by
  obtain ⟨_, _, rfl, ⟨⟩, hchain, hfirst⟩ := before hchain hfirst nofun
  obtain ⟨_, _, rfl, hb, hchain, hfirst⟩ := before hchain hfirst nofun
  cases hb with
  | connect base min max =>
      obtain ⟨_, _, rfl, ⟨⟩, hchain, hfirst⟩ := before hchain hfirst nofun
      obtain ⟨_, _, rfl, ⟨⟩, hchain, hfirst⟩ := before hchain hfirst nofun
      exact ⟨base, min, max, _, rfl⟩

/-- A donation lasts until its timer has run out. -/
theorem after_active {donateTime : UInt64} {later : List Entry}
    (hchain : (.enter .ACTIVE :: later).IsChain (Follows donateTime)) :
    later.take 4 <+: [.start (.fixed donateTime), .fire (.fixed donateTime), .enter .WAIT,
      .enter .IDLE] := by
  rcases later with - | ⟨x, later⟩
  · exact List.nil_prefix
  obtain ⟨⟨⟩, hchain⟩ := List.isChain_cons_cons.mp hchain
  rcases later with - | ⟨x, later⟩
  · exact ⟨_, rfl⟩
  obtain ⟨⟨⟩, hchain⟩ := List.isChain_cons_cons.mp hchain
  rcases later with - | ⟨x, later⟩
  · exact ⟨_, rfl⟩
  obtain ⟨⟨⟩, hchain⟩ := List.isChain_cons_cons.mp hchain
  rcases later with - | ⟨x, later⟩
  · exact ⟨_, rfl⟩
  obtain ⟨⟨⟩, hchain⟩ := List.isChain_cons_cons.mp hchain
  exact ⟨_, rfl⟩

/-- **The donation cycle**, in every run without a login in the grace period.  The
state only goes on to the next one of the cycle.  Before each donation the idle
timer was started and has run out and the strategy has connected, all since the
donation before; after it comes its timer of one donation time and the wait. -/
theorem donation_cycle (h : machine.ReachableIf Quiet s) :
    (∀ e s', s.Quiet e → s.step e = some s' →
      s'.state = s.state ∨ s'.state = s.state.next) ∧
    ∀ post pre, s.log = post ++ .enter .ACTIVE :: pre →
      (∃ base min max rest, pre = .enter .CONNECT :: .fire (.random base min max) ::
        .start (.random base min max) :: .enter .IDLE :: rest) ∧
      post.reverse.take 4 <+: [.start (.fixed s.donateTime), .fire (.fixed s.donateTime),
        .enter .WAIT, .enter .IDLE] := by
  have hinv := inv_of_reachable h
  refine ⟨fun e s' hq hs => hinv.step_next hq hs, ?_⟩
  intro post pre hlog
  have hchain := hinv.chain
  have hfirst := hinv.first
  rw [hlog] at hchain hfirst
  obtain ⟨hpost, hpre⟩ := List.isChain_split.mp hchain
  constructor
  · rw [List.getLast?_append_of_ne_nil _ (List.cons_ne_nil _ _)] at hfirst
    exact before_active hpre hfirst
  · apply after_active
    have := List.isChain_reverse.mpr hpost
    simpa [flip] using this

/-- Two donations one after the other. -/
theorem donation_cycle_two : ∃ s, machine.ReachableIf Quiet s ∧ s.state = .ACTIVE ∧
    (s.log.filter (· = .enter .ACTIVE)).length = 2 ∧
    ∀ post pre, s.log = post ++ .enter .ACTIVE :: pre →
      ∃ base min max rest, pre = .enter .CONNECT :: .fire (.random base min max) ::
        .start (.random base min max) :: .enter .IDLE :: rest := by
  let events : List Event :=
    [.onTimer true, .onLoginSuccess, .onTimer false, .tick 4000, .onTimer false, .onActive]
  have h0 : machine.init (init 1) := ⟨1, rfl⟩
  have hm : machine.Meets Quiet (init 1) events := by decide
  have hrun : (machine.run (init 1) events).any (fun s => decide (s.state = .ACTIVE ∧
      (s.log.filter (· = .enter .ACTIVE)).length = 2)) = true := by decide
  obtain ⟨s, hs, hp⟩ := Machine.ReachableIf.exists_of_run h0 hm hrun
  obtain ⟨hstate, hlength⟩ := of_decide_eq_true hp
  exact ⟨s, hs, hstate, hlength, fun post pre hlog => ((donation_cycle hs).2 post pre hlog).1⟩

/-- **A second donation without an idle period**: a donate pool logs in again before
the grace period is over. -/
theorem donation_again : ∃ s s' e, machine.Reachable s ∧ s.step e = some s' ∧
    s.state = .WAIT ∧ s'.state = .ACTIVE ∧
    ∃ post pre, s'.log = post ++ .enter .ACTIVE :: .enter .WAIT :: pre := by
  let events : List Event := [.onTimer false, .onActive, .onTimer false]
  have h0 : machine.init (init 1) := ⟨1, rfl⟩
  have hrun : (machine.run (init 1) events).any (fun s => decide (s.state = .WAIT ∧
      s.strategy = true ∧ s.log.head? = some (.enter .WAIT))) = true := by decide
  obtain ⟨s, hs, hp⟩ := Machine.Reachable.exists_of_run h0 hrun
  obtain ⟨hwait, hon, hhead⟩ := of_decide_eq_true hp
  obtain ⟨pre, hlog⟩ := List.head?_eq_some_iff.mp hhead
  have hstep : s.step .onActive = some s.onLogin := if_pos hon
  have hlogin : s.onLogin = s.setState .ACTIVE false := if_neg (by simp [isActive, hwait])
  refine ⟨s, _, _, hs, hstep, hwait, (step_not_quiet (by simp [Quiet, hwait]) hstep).2, ?_⟩
  rw [hlogin, setState_active (by simp [hwait]), hlog]
  exact ⟨[_], pre, rfl⟩

end DonateStrategy

end XLArig
