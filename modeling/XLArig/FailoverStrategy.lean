import XLArig.Machine

/-!
# XLArig.FailoverStrategy

`FailoverStrategy`: a list of pools, of which the first is preferred and the next
ones are tried in turn.

The strategy drives its clients by `connect` and `disconnect` and hears from them
by `onLoginSuccess`, `onJobReceived` and `onClose`; nothing is assumed about the
order of these.  A handler gives the new state and the calls it makes, and the
`log` of the strategy keeps the calls of the whole run: which pools are connected
and whether the listener knows of an active one are read off it.
-/

namespace XLArig

/-- The calls the strategy makes, on the clients by their id and on its listener. -/
inductive FailoverCall
  | connect (id : Nat)
  | disconnect (id : Nat)
  | submit (id : Nat)
  | onActive (id : Nat)
  | onPause
  | onJob (id : Nat)
  deriving DecidableEq, Repr

namespace FailoverCall

/-- `connect()` was called on the client after its last `disconnect()`; the newest
call comes first. -/
def Connected (id : Nat) : List FailoverCall → Prop
  | [] => False
  | connect i :: log => i = id ∨ Connected id log
  | disconnect i :: log => i ≠ id ∧ Connected id log
  | _ :: log => Connected id log

/-- The listener was told of an active pool and of no pause since. -/
def Activated : List FailoverCall → Prop
  | [] => False
  | onActive _ :: _ => True
  | onPause :: _ => False
  | _ :: log => Activated log

instance decidableConnected (id : Nat) : (log : List FailoverCall) → Decidable (Connected id log)
  | [] => inferInstanceAs (Decidable False)
  | connect _ :: log =>
      have := decidableConnected id log
      inferInstanceAs (Decidable (_ ∨ _))
  | disconnect _ :: log =>
      have := decidableConnected id log
      inferInstanceAs (Decidable (_ ∧ _))
  | submit _ :: log | onActive _ :: log | onPause :: log | onJob _ :: log =>
      decidableConnected id log

variable {id : Nat} {log : List FailoverCall}

/-- Disconnecting all clients of a list. -/
theorem connected_disconnect {ids : List Nat} :
    Connected id (ids.map disconnect ++ log) ↔ id ∉ ids ∧ Connected id log := by
  induction ids with
  | nil => simp
  | cons i ids ih => simp [Connected, ih, eq_comm, and_assoc]

theorem activated_disconnect {ids : List Nat} :
    Activated (ids.map disconnect ++ log) ↔ Activated log := by
  induction ids with
  | nil => simp
  | cons i ids ih => simp [Activated, ih]

end FailoverCall

/-- `m_pools` by its size, `m_retries`, `m_index` and `m_active`, and the calls
made so far, the newest first. -/
structure FailoverStrategy where
  pools : Nat
  retries : Int
  index : Nat
  active : Int
  log : List FailoverCall
  deriving DecidableEq, Repr

namespace FailoverStrategy

open FailoverCall (Connected Activated connected_disconnect activated_disconnect)

/-- The strategy as it is created. -/
def init (pools : Nat) (retries : Int) : FailoverStrategy := ⟨pools, retries, 0, -1, []⟩

/-- What is called on the strategy: by its owner, and by the client of an id. -/
inductive Event
  | connect
  | stop
  | submit
  | resume
  | onClose (id : Nat) (failures : Int)
  | onJobReceived (id : Nat)
  | onLoginSuccess (id : Nat)
  deriving DecidableEq, Repr

def isActive (s : FailoverStrategy) : Bool := 0 ≤ s.active

/-- Make calls, the first one first. -/
def call (s : FailoverStrategy) (calls : List FailoverCall) : FailoverStrategy :=
  { s with log := calls.reverse ++ s.log }

def connect (s : FailoverStrategy) : FailoverStrategy := s.call [.connect s.index]

def stop (s : FailoverStrategy) : FailoverStrategy :=
  let s := s.call ((List.range s.pools).map .disconnect)
  { s with index := 0, active := -1 }.call [.onPause]

def submit (s : FailoverStrategy) : FailoverStrategy :=
  if s.isActive then s.call [.submit s.active.toNat] else s

def resume (s : FailoverStrategy) : FailoverStrategy :=
  if s.isActive then s.call [.onJob s.active.toNat] else s

def onClose (s : FailoverStrategy) (id : Nat) (failures : Int) : FailoverStrategy :=
  if failures = -1 then s
  else
    let s := if s.active = id then { s with active := -1 }.call [.onPause] else s
    if s.index = 0 ∧ failures < s.retries then s
    else if s.index = id ∧ s.pools - s.index > 1 then
      { s with index := s.index + 1 }.connect
    else s

def onJobReceived (s : FailoverStrategy) (id : Nat) : FailoverStrategy :=
  if s.active = id then s.call [.onJob id] else s

def onLoginSuccess (s : FailoverStrategy) (id : Nat) : FailoverStrategy :=
  let active : Int := if id = 0 ∨ ¬ s.isActive then id else s.active
  let others := (List.range s.pools).filter fun i : Nat => 1 ≤ i ∧ active ≠ i
  let s := s.call (others.map .disconnect)
  if 0 ≤ active ∧ active ≠ s.active then
    { s with index := active.toNat, active }.call [.onActive id]
  else s

/-- The clients of the strategy are those of its pools. -/
def step (s : FailoverStrategy) : Event → Option FailoverStrategy
  | .connect => some s.connect
  | .stop => some s.stop
  | .submit => some s.submit
  | .resume => some s.resume
  | .onClose id failures => if id < s.pools then some (s.onClose id failures) else none
  | .onJobReceived id => if id < s.pools then some (s.onJobReceived id) else none
  | .onLoginSuccess id => if id < s.pools then some (s.onLoginSuccess id) else none

/-- Any list of at least one pool, and everything that can happen to it. -/
def machine : Machine FailoverStrategy Event where
  init s := ∃ pools retries, 0 < pools ∧ s = init pools retries
  step := step

variable {s s' : FailoverStrategy} {e : Event} {id : Nat} {failures : Int}

/-! ## Small lemmas -/

@[simp] theorem call_pools (calls : List FailoverCall) : (s.call calls).pools = s.pools := rfl
@[simp] theorem call_index (calls : List FailoverCall) : (s.call calls).index = s.index := rfl
@[simp] theorem call_active (calls : List FailoverCall) : (s.call calls).active = s.active := rfl

theorem call_log (calls : List FailoverCall) : (s.call calls).log = calls.reverse ++ s.log := rfl

theorem isActive_iff : s.isActive = true ↔ 0 ≤ s.active := by simp [isActive]

theorem connected_call_disconnect {ids : List Nat} :
    Connected id (s.call (ids.map .disconnect)).log ↔ id ∉ ids ∧ Connected id s.log := by
  rw [call_log, ← List.map_reverse, connected_disconnect, List.mem_reverse]

theorem activated_call_disconnect {ids : List Nat} :
    Activated (s.call (ids.map .disconnect)).log ↔ Activated s.log := by
  rw [call_log, ← List.map_reverse, activated_disconnect]

/-! ## The invariant -/

/-- The active pool is the pool of the index, and but for the first pool the only
one connected; no pool beyond the index is connected, and the listener knows
whether there is an active one. -/
structure Inv (s : FailoverStrategy) : Prop where
  index_lt : s.index < s.pools
  active : s.active = -1 ∨ s.active = s.index
  connected_le : ∀ i, 1 ≤ i → Connected i s.log → i ≤ s.index
  connected_active : 0 ≤ s.active → ∀ i, 1 ≤ i → Connected i s.log → s.active = i
  activated : 0 ≤ s.active ↔ Activated s.log

theorem inv_init (pools : Nat) (retries : Int) (h : 0 < pools) : (init pools retries).Inv where
  index_lt := h
  active := .inl rfl
  connected_le := fun _ _ hc => hc.elim
  connected_active := fun _ _ _ hc => hc.elim
  activated := by simp [init, Activated]

theorem Inv.connect (h : s.Inv) : s.connect.Inv where
  index_lt := h.index_lt
  active := h.active
  connected_le := by
    intro i hi hc
    rcases hc with rfl | hc
    · exact Nat.le_refl _
    · exact h.connected_le i hi hc
  connected_active := by
    intro ha i hi hc
    rcases hc with rfl | hc
    · exact h.active.resolve_left (by simp only [FailoverStrategy.connect, call_active] at ha; omega)
    · exact h.connected_active ha i hi hc
  activated := h.activated

theorem Inv.stop (h : s.Inv) : s.stop.Inv where
  index_lt := Nat.zero_lt_of_lt h.index_lt
  active := .inl rfl
  connected_le := by
    intro i hi hc
    have hle := h.connected_le i hi (connected_call_disconnect.mp hc).2
    have hnot := (connected_call_disconnect.mp hc).1
    have := h.index_lt
    exact absurd (List.mem_range.mpr (by omega)) hnot
  connected_active := fun ha => absurd ha (by simp [FailoverStrategy.stop])
  activated := by simp [FailoverStrategy.stop, call_log, Activated]

theorem Inv.submit (h : s.Inv) : s.submit.Inv := by
  unfold FailoverStrategy.submit
  split
  · exact ⟨h.index_lt, h.active, h.connected_le, h.connected_active, h.activated⟩
  · exact h

theorem Inv.resume (h : s.Inv) : s.resume.Inv := by
  unfold FailoverStrategy.resume
  split
  · exact ⟨h.index_lt, h.active, h.connected_le, h.connected_active, h.activated⟩
  · exact h

theorem Inv.onJobReceived (h : s.Inv) : (s.onJobReceived id).Inv := by
  unfold FailoverStrategy.onJobReceived
  split
  · exact ⟨h.index_lt, h.active, h.connected_le, h.connected_active, h.activated⟩
  · exact h

/-- The active pool is given up. -/
theorem Inv.pause (h : s.Inv) : ({ s with active := -1 }.call [.onPause] : FailoverStrategy).Inv where
  index_lt := h.index_lt
  active := .inl rfl
  connected_le := h.connected_le
  connected_active := fun ha => absurd ha (by simp)
  activated := by simp [call_log, Activated]

/-- The next pool is tried. -/
theorem Inv.next (h : s.Inv) (hactive : s.active = -1) (hlt : s.index + 1 < s.pools) :
    ({ s with index := s.index + 1 }.connect : FailoverStrategy).Inv where
  index_lt := hlt
  active := .inl hactive
  connected_le := by
    intro i hi hc
    rcases hc with rfl | hc
    · exact Nat.le_refl _
    · exact Nat.le_succ_of_le (h.connected_le i hi hc)
  connected_active := fun ha => absurd (hactive ▸ ha : (0 : Int) ≤ -1) (by decide)
  activated := h.activated

theorem Inv.onClose (h : s.Inv) : (s.onClose id failures).Inv := by
  unfold FailoverStrategy.onClose
  split
  · exact h
  · -- after the pause the closed pool is not the active one
    have hpause : ∀ t, t = (if s.active = id then { s with active := -1 }.call [.onPause] else s) →
        t.Inv ∧ (t.index = id → t.active = -1) := by
      rintro t rfl
      split
      · exact ⟨h.pause, fun _ => rfl⟩
      · next hne =>
          refine ⟨h, ?_⟩
          intro hid
          rcases h.active with ha | ha
          · exact ha
          · exact absurd (ha.trans (congrArg _ hid)) hne
    dsimp only
    generalize ht : (if s.active = id then { s with active := -1 }.call [.onPause] else s) = t
    obtain ⟨hinv, hactive⟩ := hpause t ht.symm
    split
    · exact hinv
    · split
      · next hnext => exact hinv.next (hactive hnext.1) (by omega)
      · exact hinv

/-- The pool that becomes or stays active at a login. -/
def loggedIn (s : FailoverStrategy) (id : Nat) : Nat :=
  if id = 0 ∨ ¬ s.isActive then id else s.index

theorem Inv.loggedIn_eq (h : s.Inv) :
    (if id = 0 ∨ ¬ s.isActive then (id : Int) else s.active) = s.loggedIn id := by
  unfold loggedIn
  split
  · rfl
  · next hn =>
      rw [not_or, not_not, isActive_iff] at hn
      have := h.active
      omega

/-- After a login the strategy is active with the pool of the index, and no other
pool but the first is connected. -/
theorem Inv.onLoginSuccess_eq (h : s.Inv) :
    (s.onLoginSuccess id).index = s.loggedIn id ∧
    (s.onLoginSuccess id).active = s.loggedIn id ∧
    (∀ i, 1 ≤ i → Connected i (s.onLoginSuccess id).log →
      i = s.loggedIn id ∧ Connected i s.log) ∧
    (s.onLoginSuccess id).pools = s.pools ∧
    Activated (s.onLoginSuccess id).log := by
  have hcon : ∀ i, 1 ≤ i → Connected i (s.call (((List.range s.pools).filter fun i : Nat =>
      1 ≤ i ∧ (s.loggedIn id : Int) ≠ i).map .disconnect)).log →
      i = s.loggedIn id ∧ Connected i s.log := by
    intro i hi hc
    obtain ⟨hnot, hc⟩ := connected_call_disconnect.mp hc
    have hle := h.connected_le i hi hc
    have hlt := h.index_lt
    simp only [List.mem_filter, List.mem_range, decide_eq_true_eq, not_and, not_not] at hnot
    exact ⟨by have := hnot (by omega) hi; omega, hc⟩
  unfold onLoginSuccess
  simp only [h.loggedIn_eq]
  split
  · next hc => exact ⟨by simp, rfl, hcon, rfl, trivial⟩
  · next hc =>
      have hsame : (s.loggedIn id : Int) = s.active := by
        by_contra hne
        exact hc ⟨Int.natCast_nonneg _, hne⟩
      have := h.active
      refine ⟨?_, ?_, hcon, rfl, ?_⟩
      · simp only [call_index]; omega
      · exact hsame.symm
      · rw [activated_call_disconnect, ← h.activated]; omega

theorem Inv.onLoginSuccess (h : s.Inv) (hid : id < s.pools) : (s.onLoginSuccess id).Inv := by
  obtain ⟨hi, ha, hc, hp, hl⟩ := h.onLoginSuccess_eq
  refine ⟨?_, .inr (by rw [ha, hi]), ?_, ?_, ?_⟩
  · rw [hi, hp, loggedIn]
    split
    · exact hid
    · exact h.index_lt
  · intro i h1 hci
    rw [hi, (hc i h1 hci).1]
  · intro _ i h1 hci
    rw [ha, (hc i h1 hci).1]
  · simp [ha, hl]

theorem Inv.step (h : s.Inv) (hs : s.step e = some s') : s'.Inv := by
  cases e with
  | connect => obtain rfl := Option.some.inj hs; exact h.connect
  | stop => obtain rfl := Option.some.inj hs; exact h.stop
  | submit => obtain rfl := Option.some.inj hs; exact h.submit
  | resume => obtain rfl := Option.some.inj hs; exact h.resume
  | onClose id failures =>
      obtain ⟨-, hs⟩ := Option.ite_none_right_eq_some.mp hs
      obtain rfl := Option.some.inj hs
      exact h.onClose
  | onJobReceived id =>
      obtain ⟨-, hs⟩ := Option.ite_none_right_eq_some.mp hs
      obtain rfl := Option.some.inj hs
      exact h.onJobReceived
  | onLoginSuccess id =>
      obtain ⟨hid, hs⟩ := Option.ite_none_right_eq_some.mp hs
      obtain rfl := Option.some.inj hs
      exact h.onLoginSuccess hid

theorem inv_of_reachable (h : machine.Reachable s) : s.Inv := by
  refine h.invariant ?_ fun _ _ _ hi _ hs => hi.step hs
  rintro _ ⟨pools, retries, hpos, rfl⟩
  exact inv_init pools retries hpos

/-! ## One active pool -/

/-- The calls a handler makes on behalf of a pool are made for the active one, and
it only reports a pause at a close to a listener that knows of an active pool. -/
def Proper (s : FailoverStrategy) (e : Event) (calls : List FailoverCall) : Prop :=
  (∀ i : Nat, .onJob i ∈ calls → s.active = i) ∧ (∀ i : Nat, .submit i ∈ calls → s.active = i) ∧
    ∀ id failures, e = .onClose id failures → .onPause ∈ calls → Activated s.log

theorem Inv.proper_onClose (h : s.Inv) : ∃ calls,
    (s.onClose id failures).log = calls ++ s.log ∧ s.Proper (.onClose id failures) calls := by
  have hactive : s.active = id → Activated s.log := by
    intro ha
    rw [← h.activated, ha]
    exact Int.natCast_nonneg _
  unfold FailoverStrategy.onClose
  dsimp only
  split
  · exact ⟨[], rfl, by simp [Proper]⟩
  · by_cases ha : s.active = id
    · simp only [ha, if_true]
      split
      · exact ⟨[.onPause], rfl, by simp [Proper, hactive ha]⟩
      · split
        · exact ⟨[.connect (s.index + 1), .onPause], rfl, by simp [Proper, hactive ha]⟩
        · exact ⟨[.onPause], rfl, by simp [Proper, hactive ha]⟩
    · simp only [ha, if_false]
      split
      · exact ⟨[], rfl, by simp [Proper]⟩
      · split
        · exact ⟨[.connect (s.index + 1)], rfl, by simp [Proper]⟩
        · exact ⟨[], rfl, by simp [Proper]⟩

theorem proper_onLoginSuccess : ∃ calls,
    (s.onLoginSuccess id).log = calls ++ s.log ∧ s.Proper (.onLoginSuccess id) calls := by
  unfold FailoverStrategy.onLoginSuccess
  dsimp only
  generalize (if id = 0 ∨ ¬ s.isActive then (id : Int) else s.active) = active
  split
  · exact ⟨.onActive id :: (List.map .disconnect _).reverse, rfl, by simp [Proper]⟩
  · exact ⟨(List.map .disconnect _).reverse, rfl, by simp [Proper]⟩

theorem Inv.step_proper (h : s.Inv) (hs : s.step e = some s') :
    ∃ calls, s'.log = calls ++ s.log ∧ s.Proper e calls := by
  cases e with
  | connect =>
      obtain rfl := Option.some.inj hs
      exact ⟨[.connect s.index], rfl, by simp [Proper]⟩
  | stop =>
      obtain rfl := Option.some.inj hs
      exact ⟨.onPause :: (List.map .disconnect _).reverse, rfl, by simp [Proper]⟩
  | submit =>
      obtain rfl := Option.some.inj hs
      unfold FailoverStrategy.submit
      split
      · next ha =>
          have := isActive_iff.mp ha
          exact ⟨[.submit s.active.toNat], rfl, by simp [Proper]; omega⟩
      · exact ⟨[], rfl, by simp [Proper]⟩
  | resume =>
      obtain rfl := Option.some.inj hs
      unfold FailoverStrategy.resume
      split
      · next ha =>
          have := isActive_iff.mp ha
          exact ⟨[.onJob s.active.toNat], rfl, by simp [Proper]; omega⟩
      · exact ⟨[], rfl, by simp [Proper]⟩
  | onClose id failures =>
      obtain ⟨-, hs⟩ := Option.ite_none_right_eq_some.mp hs
      obtain rfl := Option.some.inj hs
      exact h.proper_onClose
  | onJobReceived id =>
      obtain ⟨-, hs⟩ := Option.ite_none_right_eq_some.mp hs
      obtain rfl := Option.some.inj hs
      unfold FailoverStrategy.onJobReceived
      split
      · next ha => exact ⟨[.onJob id], rfl, by simp [Proper, ha]⟩
      · exact ⟨[], rfl, by simp [Proper]⟩
  | onLoginSuccess id =>
      obtain ⟨-, hs⟩ := Option.ite_none_right_eq_some.mp hs
      obtain rfl := Option.some.inj hs
      exact proper_onLoginSuccess

/-- **One active pool**: in every run, with any number of pools and the clients'
events in any order.  The active pool is the pool of the index; no pool beyond it
is connected, and right after a login only the active one besides the first; jobs
and results pass between the listener and the active pool alone, and a close
reports a pause only of a pool that was reported active. -/
theorem one_active (h : machine.Reachable s) :
    s.index < s.pools ∧ (s.active = -1 ∨ s.active = s.index) ∧
    (∀ i, 1 ≤ i → Connected i s.log → i ≤ s.index) ∧
    ∀ e s', s.step e = some s' →
      (∀ id, e = .onLoginSuccess id → ∀ i : Nat, 1 ≤ i → Connected i s'.log → s'.active = i) ∧
      ∃ calls, s'.log = calls ++ s.log ∧
        (∀ i : Nat, .onJob i ∈ calls → s.active = i) ∧ (∀ i : Nat, .submit i ∈ calls → s.active = i) ∧
        ∀ id failures, e = .onClose id failures → .onPause ∈ calls → Activated s.log := by
  have hinv := inv_of_reachable h
  refine ⟨hinv.index_lt, hinv.active, hinv.connected_le, ?_⟩
  intro e s' hs
  refine ⟨?_, hinv.step_proper hs⟩
  rintro id rfl i hi hc
  obtain ⟨-, hs'⟩ := Option.ite_none_right_eq_some.mp hs
  obtain rfl := Option.some.inj hs'
  obtain ⟨-, ha, hcon, -, -⟩ : _ ∧ (s.onLoginSuccess id).active = _ ∧ _ := hinv.onLoginSuccess_eq
  rw [ha, (hcon i hi hc).1]

/-- The second pool takes over from the first one, which then comes back. -/
theorem one_active_comeback : ∃ s, machine.Reachable s ∧ s.active = 0 ∧
    ∀ i, 1 ≤ i → ¬ Connected i s.log := by
  let events : List Event := [.connect, .onClose 0 5, .onLoginSuccess 1, .onLoginSuccess 0]
  have h0 : machine.init (init 2 5) := ⟨2, 5, by decide, rfl⟩
  have hrun : (machine.run (init 2 5) events).any (fun s => decide (s.active = 0 ∧ s.index = 0))
      = true := by decide
  obtain ⟨s, hs, hp⟩ := Machine.Reachable.exists_of_run h0 hrun
  have hp := of_decide_eq_true hp
  refine ⟨s, hs, hp.1, ?_⟩
  intro i hi hc
  have := (one_active hs).2.2.1 i hi hc
  omega

/-! ## No pool abandoned -/

/-- The state `init` and `stop` leave. -/
def Stopped (s : FailoverStrategy) : Prop :=
  s.index = 0 ∧ s.active = -1 ∧ ∀ i, ¬ Connected i s.log

/-- The runs from `connect` on a stopped strategy, and without `stop`. -/
def started : Machine FailoverStrategy Event where
  init s := ∃ t, machine.Reachable t ∧ t.Stopped ∧ s = t.connect
  step s e := if e = .stop then none else s.step e

/-- Every pool is still being retried, or it will be tried. -/
def NoneAbandoned (s : FailoverStrategy) : Prop :=
  s.active = -1 → ∀ i, i < s.pools → Connected i s.log ∨ s.index < i

/-- A close that takes the active pool down is one of the first pool, or of the
second one while it is connected. -/
def Kept (s : FailoverStrategy) : Event → Prop
  | .onClose id failures => failures ≠ -1 → s.active = id →
      id = 0 ∨ id = 1 ∧ Connected 1 s.log
  | _ => True

instance (s : FailoverStrategy) : (e : Event) → Decidable (s.Kept e)
  | .onClose _ _ => inferInstanceAs (Decidable (_ → _ → _))
  | .connect | .stop | .submit | .resume | .onJobReceived _ | .onLoginSuccess _ =>
      inferInstanceAs (Decidable True)

/-- The first pool is always retried, and while no pool is active so are all up to
the index. -/
structure Tried (s : FailoverStrategy) : Prop where
  inv : s.Inv
  primary : Connected 0 s.log
  retried : s.active = -1 → ∀ i ≤ s.index, Connected i s.log

theorem Stopped.tried (h : s.Stopped) (hinv : s.Inv) : s.connect.Tried where
  inv := hinv.connect
  primary := .inl h.1
  retried := by
    intro _ i hi
    exact .inl (by simp only [connect, call_index, h.1] at hi ⊢; omega)

theorem Tried.connect (h : s.Tried) : s.connect.Tried :=
  ⟨h.inv.connect, .inr h.primary, fun ha i hi => .inr (h.retried ha i hi)⟩

theorem Tried.submit (h : s.Tried) : s.submit.Tried := by
  refine ⟨h.inv.submit, ?_, ?_⟩ <;> unfold FailoverStrategy.submit <;> split
  · exact h.primary
  · exact h.primary
  · exact h.retried
  · exact h.retried

theorem Tried.resume (h : s.Tried) : s.resume.Tried := by
  refine ⟨h.inv.resume, ?_, ?_⟩ <;> unfold FailoverStrategy.resume <;> split
  · exact h.primary
  · exact h.primary
  · exact h.retried
  · exact h.retried

theorem Tried.onJobReceived (h : s.Tried) : (s.onJobReceived id).Tried := by
  refine ⟨h.inv.onJobReceived, ?_, ?_⟩ <;> unfold FailoverStrategy.onJobReceived <;> split
  · exact h.primary
  · exact h.primary
  · exact h.retried
  · exact h.retried

/-- All pools up to one that may be taken down are retried when it is. -/
theorem Tried.pause (h : s.Tried) (ha : s.active = id) (hk : id = 0 ∨ id = 1 ∧ Connected 1 s.log) :
    ({ s with active := -1 }.call [.onPause] : FailoverStrategy).Tried where
  inv := h.inv.pause
  primary := h.primary
  retried := by
    intro _ i hi
    have hindex := h.inv.active
    rcases hk with rfl | ⟨rfl, hc⟩
    · obtain rfl : i = 0 := by simp only [call_index] at hi; omega
      exact h.primary
    · obtain rfl | rfl : i = 0 ∨ i = 1 := by simp only [call_index] at hi; omega
      · exact h.primary
      · exact hc

theorem Tried.next (h : s.Tried) (ha : s.active = -1) (hlt : s.index + 1 < s.pools) :
    ({ s with index := s.index + 1 }.connect : FailoverStrategy).Tried where
  inv := h.inv.next ha hlt
  primary := .inr h.primary
  retried := by
    intro _ i hi
    rcases Nat.lt_or_ge s.index i with hgt | hle
    · exact .inl (Nat.le_antisymm hgt hi)
    · exact .inr (h.retried ha i hle)

theorem Tried.onClose (h : s.Tried) (hk : s.Kept (.onClose id failures)) :
    (s.onClose id failures).Tried := by
  unfold FailoverStrategy.onClose
  split
  · exact h
  · next hf =>
      have hpause : ∀ t,
          t = (if s.active = id then { s with active := -1 }.call [.onPause] else s) →
          t.Tried ∧ (t.index = id → t.active = -1) := by
        rintro t rfl
        split
        · next ha => exact ⟨h.pause ha (hk hf ha), fun _ => rfl⟩
        · next hne =>
            refine ⟨h, ?_⟩
            intro hid
            rcases h.inv.active with ha | ha
            · exact ha
            · exact absurd (ha.trans (congrArg _ hid)) hne
      dsimp only
      generalize ht : (if s.active = id then { s with active := -1 }.call [.onPause] else s) = t
      obtain ⟨htried, hactive⟩ := hpause t ht.symm
      split
      · exact htried
      · split
        · next hnext => exact htried.next (hactive hnext.1) (by omega)
        · exact htried

theorem Tried.onLoginSuccess (h : s.Tried) (hid : id < s.pools) : (s.onLoginSuccess id).Tried where
  inv := h.inv.onLoginSuccess hid
  primary := by
    have hcon : ∀ active : Int, Connected 0 (s.call (((List.range s.pools).filter fun i : Nat =>
        1 ≤ i ∧ active ≠ i).map .disconnect)).log := by
      intro active
      rw [connected_call_disconnect]
      exact ⟨by simp, h.primary⟩
    unfold FailoverStrategy.onLoginSuccess
    dsimp only
    generalize (if id = 0 ∨ ¬ s.isActive then (id : Int) else s.active) = active
    split
    · exact hcon active
    · exact hcon active
  retried := by
    intro ha
    rw [h.inv.onLoginSuccess_eq.2.1] at ha
    omega

theorem Tried.step (h : s.Tried) (hk : s.Kept e) (hs : started.step s e = some s') : s'.Tried := by
  obtain ⟨hne, hs⟩ := Option.ite_none_left_eq_some.mp hs
  cases e with
  | connect => obtain rfl := Option.some.inj hs; exact h.connect
  | stop => exact absurd rfl hne
  | submit => obtain rfl := Option.some.inj hs; exact h.submit
  | resume => obtain rfl := Option.some.inj hs; exact h.resume
  | onClose id failures =>
      obtain ⟨-, hs⟩ := Option.ite_none_right_eq_some.mp hs
      obtain rfl := Option.some.inj hs
      exact h.onClose hk
  | onJobReceived id =>
      obtain ⟨-, hs⟩ := Option.ite_none_right_eq_some.mp hs
      obtain rfl := Option.some.inj hs
      exact h.onJobReceived
  | onLoginSuccess id =>
      obtain ⟨hid, hs⟩ := Option.ite_none_right_eq_some.mp hs
      obtain rfl := Option.some.inj hs
      exact h.onLoginSuccess hid

/-- **No pool is abandoned**, in every run in which only the first pool, or the
second one while it is connected, goes down while it is active. -/
theorem none_abandoned (h : started.ReachableIf Kept s) : s.NoneAbandoned := by
  have htried : s.Tried := by
    refine h.invariant ?_ fun _ _ _ ht hk hs => ht.step hk hs
    rintro _ ⟨t, ht, hstop, rfl⟩
    exact hstop.tried (inv_of_reachable ht)
  intro ha i _
  rcases Nat.lt_or_ge s.index i with hgt | hle
  · exact .inr hgt
  · exact .inl (htried.retried ha i hle)

/-- The condition is exact: any other close of the active pool abandons the second
pool. -/
theorem Inv.abandons (h : s.Inv) (hs : started.step s e = some s') (hk : ¬ s.Kept e) :
    ¬ s'.NoneAbandoned := by
  obtain ⟨-, hs⟩ := Option.ite_none_left_eq_some.mp hs
  cases e with
  | onClose id failures =>
      obtain ⟨-, hs⟩ := Option.ite_none_right_eq_some.mp hs
      obtain rfl := Option.some.inj hs
      simp only [Kept, Classical.not_imp, not_or, not_and] at hk
      obtain ⟨hf, ha, hid, hc⟩ := hk
      have hindex := h.active
      have hpools := h.index_lt
      have hlost : ¬ Connected 1 s.log := by
        intro hc1
        have h1 := h.connected_active (by omega) 1 (by decide) hc1
        exact hc (by omega) hc1
      intro hnone
      have hgone : ¬ Connected 1 (s.onClose id failures).log ∧ 1 ≤ (s.onClose id failures).index ∧
          (s.onClose id failures).active = -1 ∧ (s.onClose id failures).pools = s.pools := by
        simp only [FailoverStrategy.onClose, if_neg hf, if_pos ha, call_index, call_pools]
        rw [if_neg (by omega)]
        split
        · refine ⟨?_, Nat.le_add_left 1 _, rfl, rfl⟩
          rintro (h1 | h1)
          · simp only at h1; omega
          · exact hlost h1
        · exact ⟨hlost, by simp only [call_index]; omega, rfl, rfl⟩
      rcases hnone hgone.2.2.1 1 (by omega) with h1 | h1
      · exact hgone.1 h1
      · omega
  | connect | stop | submit | resume | onJobReceived id | onLoginSuccess id => exact absurd trivial hk

theorem stopped_init (pools : Nat) (retries : Int) : (init pools retries).Stopped :=
  ⟨rfl, rfl, fun _ hc => hc⟩

/-- Both pools of a list fail in turn. -/
theorem none_abandoned_two : ∃ s, started.ReachableIf Kept s ∧ s.active = -1 ∧
    ∀ i, i < s.pools → Connected i s.log ∨ s.index < i := by
  let events : List Event := [.onClose 0 5, .onLoginSuccess 1, .onClose 1 1]
  have h0 : started.init (init 2 5).connect :=
    ⟨_, .init ⟨2, 5, by decide, rfl⟩, stopped_init 2 5, rfl⟩
  have hm : started.Meets Kept (init 2 5).connect events := by decide
  have hrun : (started.run (init 2 5).connect events).any (fun s => decide (s.active = -1))
      = true := by decide
  obtain ⟨s, hs, hp⟩ := Machine.ReachableIf.exists_of_run h0 hm hrun
  exact ⟨s, hs, of_decide_eq_true hp, none_abandoned hs (of_decide_eq_true hp)⟩

/-- **The second pool of three is abandoned**: the third one logs in while the
second is being retried, and goes down again. -/
theorem abandoned : ∃ s, started.Reachable s ∧ ¬ s.NoneAbandoned := by
  let events : List Event :=
    [.onClose 0 5, .onClose 1 1, .onLoginSuccess 2, .onClose 2 1]
  have h0 : started.init (init 3 5).connect :=
    ⟨_, .init ⟨3, 5, by decide, rfl⟩, stopped_init 3 5, rfl⟩
  have hrun : (started.run (init 3 5).connect events).any (fun s => decide
      (s.active = -1 ∧ s.pools = 3 ∧ s.index = 2 ∧ ¬ Connected 1 s.log)) = true := by decide
  obtain ⟨s, hs, hp⟩ := Machine.Reachable.exists_of_run h0 hrun
  obtain ⟨ha, hpools, hindex, hc⟩ := of_decide_eq_true hp
  refine ⟨s, hs, ?_⟩
  intro hnone
  rcases hnone ha 1 (by omega) with h | h
  · exact hc h
  · omega

end FailoverStrategy

end XLArig
