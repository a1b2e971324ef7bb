import XLArig.Client.Connection.Sockets
import XLArig.FailoverStrategy

/-!
# XLArig.Client.Lookups

The lookups of any number of clients, and the `Dns` objects that make them.

A `Dns` has one request, which `resolve` hands to the event loop and the destructor deletes.  The
strategies create clients, connect and disconnect them, tick them, and give them up with
`deleteLater`; a client that has a socket then is deleted when that is closed, one without is
deleted at once.  None of this waits for an answer of the resolver.  A request is only used and
deleted while it is idle if and only if the answer is there whenever a client is connected again,
by its strategy, by a tick or by a redirect, and whenever it is deleted (`unused_iff`).

The clients do not share anything but the loop, so the calls that a strategy makes in one of its
handlers come one after the other.
-/

namespace XLArig

namespace Client

/-! ## `Dns` -/

/-- What happens to a `Dns`: `resolve`, with whether `uv_getaddrinfo` takes the request, the
callback of the request, and the destructor. -/
inductive DnsCall
  | resolve (ok : Bool)
  | onResolved
  | destroy
  deriving DecidableEq, Repr

namespace DnsCall

/-- The requests in flight after a call. -/
def after (pending : Nat) : DnsCall → Nat
  | resolve ok => if ok then pending + 1 else pending
  | onResolved => pending - 1
  | destroy => pending

/-- The requests in flight after some calls. -/
def afterAll (pending : Nat) (calls : List DnsCall) : Nat := calls.foldl after pending

/-- The request is idle whenever it is used or deleted. -/
def Sound : Nat → List DnsCall → Prop
  | _, [] => True
  | pending, onResolved :: calls => Sound (after pending onResolved) calls
  | pending, call :: calls => pending = 0 ∧ Sound (after pending call) calls

instance decidableSound :
    (pending : Nat) → (calls : List DnsCall) → Decidable (Sound pending calls)
  | _, [] => inferInstanceAs (Decidable True)
  | pending, onResolved :: calls => decidableSound (after pending onResolved) calls
  | pending, resolve ok :: calls =>
      have := decidableSound (after pending (resolve ok)) calls
      inferInstanceAs (Decidable (_ ∧ _))
  | pending, destroy :: calls =>
      have := decidableSound (after pending destroy) calls
      inferInstanceAs (Decidable (_ ∧ _))

end DnsCall

namespace Connection

/-- What an event does to the `Dns` of the client. -/
def dnsCalls (c : Connection) (e : Event) : List DnsCall :=
  match e with
  | .resolved _ _ => [.onResolved]
  | e =>
      match c.call e with
      | some (.connect _ ok) => [.resolve ok]
      | _ => []

/-- What `close` and `disconnect` return: the close callback will be called. -/
def closes (c : Connection) : Bool :=
  if c.state = .ClosingState then c.socket.isSome
  else !(c.state = .UnconnectedState || c.socket.isNone)

/-- An event of a client that was given up, whose listener is null; its strategy makes no more
calls.  `reconnect` deletes the client then, and a login or a job is passed to the null pointer. -/
def orphan (c : Connection) : Event → Option (Option Connection × List DnsCall)
  | .resolved _ _ => some (none, [.onResolved, .destroy])
  | .closed _ => some (none, [.destroy])
  | .received _ none _ => some (some c.close, [])
  | .received _ (some _) _ => some (none, [.destroy])
  | .connected h success w =>
      if success && c.state ≠ .ConnectedState && c.socks5.isNone && !c.isTLS then none
      else (c.onConnect h success w).map fun d => (some d, [])
  | .proceed =>
      match c.todo with
      | .line (.login _ _) :: _ | .line .job :: _ | .job :: _ => none
      | _ => (c.after .proceed).map fun d => (some d, c.dnsCalls .proceed)
  | .elapse ms => some (some { c with now := c.now + ms }, [])
  | .connect _ | .disconnect | .close | .setProxy _ | .send _ | .tick _ _ => none

end Connection

/-! ## Clients -/

/-- A client, whether it has a listener, and the requests of its `Dns` that are in flight. -/
structure Owned where
  connection : Connection
  listener : Bool
  dns : Nat

namespace Owned

/-- `deleteLater`. -/
def deleteLater (c : Owned) : Option Connection × Bool × List DnsCall :=
  if c.listener then
    if c.connection.closes then (some c.connection.disconnect, false, [])
    else (none, false, [.destroy])
  else (some c.connection, false, [])

/-- An event of the client. -/
def after (c : Owned) (e : Connection.Event) : Option (Option Connection × Bool × List DnsCall) :=
  if c.connection.Ready e then
    if c.listener then
      (c.connection.after e).map fun d => (some d, true, c.connection.dnsCalls e)
    else (c.connection.orphan e).map fun x => (x.1, false, x.2)
  else none

end Owned

/-- All clients there are, and whether a request was used or deleted in flight. -/
structure Clients (ι : Type*) where
  client : ι → Option Owned
  misused : Bool

namespace Clients

variable {ι : Type*} [DecidableEq ι]

/-- A strategy creates a client or gives it up; what happens to a client, which may be a call of
its strategy. -/
inductive Event (ι : Type*)
  | create (i : ι) (pool : Pool) (retryPause now : Nat)
  | deleteLater (i : ι)
  | client (i : ι) (e : Connection.Event)

/-- A client becomes another one or is deleted, and its `Dns` is called. -/
def put (s : Clients ι) (i : ι) (pending : Nat) (x : Option Connection × Bool × List DnsCall) :
    Clients ι where
  client := Function.update s.client i
    (x.1.map fun d => ⟨d, x.2.1, DnsCall.afterAll pending x.2.2⟩)
  misused := s.misused || !decide (DnsCall.Sound pending x.2.2)

def step (s : Clients ι) : Event ι → Option (Clients ι)
  | .create i pool retryPause now =>
      match s.client i with
      | none => some (s.put i 0 (some (.init pool retryPause now), true, []))
      | some _ => none
  | .deleteLater i => (s.client i).map fun c => s.put i c.dns c.deleteLater
  | .client i e => (s.client i).bind fun c => (c.after e).map (s.put i c.dns)

/-- There is no client yet. -/
def init : Clients ι := ⟨fun _ => none, false⟩

def machine (ι : Type*) [DecidableEq ι] : Machine (Clients ι) (Event ι) where
  init s := s = init
  step := step

end Clients

/-! ## When the answer has to be there -/

/-- No answer is outstanding for the client. -/
def Connection.Answered (c : Connection) : Prop := c.lookups = 0

/-- The answer is there when the client is connected again, by its strategy, by a tick or by a
redirect, and when the close callback or a read deletes it. -/
def Owned.InTime (c : Owned) : Connection.Event → Prop
  | .connect _ => c.connection.Answered
  | .tick _ _ => c.connection.Retries → c.connection.Answered
  | .proceed => ∀ host port ok todo,
      c.connection.todo = .line (.redirect host port ok) :: todo → c.connection.Answered
  | .closed _ | .received _ (some _) _ => c.listener = false → c.connection.Answered
  | _ => True

/-- And when a client without a socket to close is given up. -/
def Clients.InTime {ι : Type*} (s : Clients ι) : Clients.Event ι → Prop
  | .create _ _ _ _ => True
  | .deleteLater i => ∀ c, s.client i = some c → c.listener = true →
      c.connection.closes = false → c.connection.Answered
  | .client i e => ∀ c, s.client i = some c → c.InTime e

namespace Connection

variable {c d : Connection} {e : Event}

/-! ## The requests of a connection -/

/-- Effects without a call of `connect` leave the requests. -/
theorem lookups_effects (h : Effects (fun _ _ => False) c d) : d.lookups = c.lookups := by
  induction h with
  | refl => rfl
  | tail _ he ih =>
      rcases he.lookups with hl | ⟨-, pool, -, hpool⟩
      · exact hl.trans ih
      · exact hpool.elim

theorem lookups_connect (ok : Bool) :
    (c.connect ok).lookups = DnsCall.afterAll c.lookups [.resolve ok] := by
  obtain ⟨_, _, _, _, _, -, heq⟩ := c.connect_eq ok
  rw [heq]
  rfl

theorem lookups_reconnect : c.reconnect.lookups = c.lookups := by
  obtain ⟨_, _, _, _, heq⟩ := c.reconnect_eq
  rw [heq]

theorem lookups_disconnect : c.disconnect.lookups = c.lookups := by
  obtain ⟨_, _, heq, -⟩ := disconnect_cases (s := c)
  rw [heq]

theorem lookups_onResolved (records : Option Bool) (started : Bool) :
    (c.onResolved records started).lookups = c.lookups - 1 := by
  obtain ⟨records', heq | heq⟩ := onResolved_cases (s := c) records started
  · obtain ⟨_, hconnect⟩ := Connection.connectTo_eq
      (s := { c with lookups := c.lookups - 1, records := records' }) started
    rw [heq, hconnect]
  · rw [heq, lookups_reconnect]

theorem lookups_onClose (h : Nat) : (c.onClose h).lookups = c.lookups := by
  obtain ⟨_, -, heq⟩ := c.onClose_eq h
  rw [heq, lookups_reconnect]

/-- An event that calls no `connect` leaves the requests, unless it is a completion. -/
theorem lookups_of_no_call (hready : c.Ready e) (h : c.after e = some d)
    (hcall : ∀ pool ok, c.call e ≠ some (.connect pool ok))
    (hresolved : ∀ records started, e ≠ .resolved records started) : d.lookups = c.lookups := by
  cases e with
  | connect ok => exact absurd rfl (hcall c.pool ok)
  | disconnect =>
      obtain rfl := Option.some.inj h
      exact lookups_disconnect
  | close =>
      obtain rfl := Option.some.inj h
      exact lookups_effects Effect.close.effects
  | setProxy proxy | elapse ms =>
      obtain rfl := Option.some.inj h
      rfl
  | send w =>
      obtain rfl := Option.some.inj h
      exact lookups_effects (effects_send w)
  | tick ok w =>
      obtain rfl := Option.some.inj h
      refine lookups_effects (effects_tick ok w fun hretries => ?_)
      exact hcall c.pool ok (if_pos hretries)
  | resolved records started => exact absurd rfl (hresolved records started)
  | connected k success w =>
      refine lookups_effects (effects_onConnect ?_ h)
      intro hsuccess
      exact hready.2.2.resolve_right fun hfail => by simp [hsuccess] at hfail
  | closed k =>
      obtain rfl := Option.some.inj h
      exact lookups_onClose k
  | received k chunk w =>
      cases chunk with
      | none =>
          obtain rfl := Option.some.inj h
          exact lookups_effects Effect.close.effects
      | some chunk =>
          obtain rfl := Option.some.inj h
          exact lookups_effects (effects_read chunk w hready.2.1)
  | proceed =>
      simp only [after] at h
      split at h
      · contradiction
      · next task todo ht =>
        obtain rfl := Option.some.inj h
        cases task with
        | job => rfl
        | line line =>
            refine lookups_effects (effects_parse ht ?_)
            rintro host port ok rfl
            exact hcall (redirected c.pool host port) ok (by simp only [call, ht])

theorem dnsCalls_of_call {pool : Pool} {ok : Bool} (h : c.call e = some (.connect pool ok)) :
    c.dnsCalls e = [.resolve ok] := by
  unfold dnsCalls
  split
  · simp [call] at h
  · rw [h]

theorem dnsCalls_of_no_call (hcall : ∀ pool ok, c.call e ≠ some (.connect pool ok))
    (hresolved : ∀ records started, e ≠ .resolved records started) : c.dnsCalls e = [] := by
  unfold dnsCalls
  split
  · exact absurd rfl (hresolved _ _)
  · split
    · next hcalled => exact absurd hcalled (hcall _ _)
    · rfl

theorem tick_of_retries (h : c.Retries) (ok : Bool) (w : Write) : c.tick ok w = c.connect ok := by
  unfold tick
  rw [if_neg (by rw [h.1]; decide), if_pos h]

/-- The requests are those that were handed to the loop and are not complete. -/
theorem lookups_after (hready : c.Ready e) (h : c.after e = some d) :
    d.lookups = DnsCall.afterAll c.lookups (c.dnsCalls e) := by
  by_cases hresolved : ∃ records started, e = .resolved records started
  · obtain ⟨records, started, rfl⟩ := hresolved
    obtain rfl := Option.some.inj h
    exact lookups_onResolved records started
  by_cases hcall : ∃ pool ok, c.call e = some (.connect pool ok)
  · obtain ⟨pool, ok, hcall⟩ := hcall
    rw [dnsCalls_of_call hcall]
    cases e with
    | connect ok' =>
        obtain ⟨rfl, rfl⟩ := Call.connect.inj (Option.some.inj hcall)
        obtain rfl := Option.some.inj h
        exact lookups_connect ok'
    | tick ok' w =>
        simp only [call] at hcall
        obtain ⟨hretries, hcall⟩ := Option.ite_none_right_eq_some.mp hcall
        obtain ⟨rfl, rfl⟩ := Call.connect.inj (Option.some.inj hcall)
        obtain rfl := Option.some.inj h
        rw [tick_of_retries hretries, lookups_connect]
    | proceed =>
        simp only [call] at hcall
        split at hcall
        · next host port ok' todo ht =>
          obtain ⟨rfl, rfl⟩ := Call.connect.inj (Option.some.inj hcall)
          simp only [after, ht, Option.some.injEq] at h
          subst h
          show (({ c with todo } : Connection).startTimeout.redirect host port ok').lookups = _
          rw [redirect_eq, lookups_connect]
          exact congrArg (DnsCall.afterAll · _) lookups_disconnect
        · contradiction
    | disconnect | close | setProxy _ | send _ | elapse _ | resolved _ _ | connected _ _ _
    | closed _ | received _ _ _ => simp [call] at hcall
  · have hnone : ∀ pool ok, c.call e ≠ some (.connect pool ok) :=
      fun pool ok hcalled => hcall ⟨pool, ok, hcalled⟩
    have hother : ∀ records started, e ≠ .resolved records started :=
      fun records started he => hresolved ⟨records, started, he⟩
    rw [dnsCalls_of_no_call hnone hother]
    exact lookups_of_no_call hready h hnone hother

/-- The calls of an event are sound if it does not connect while an answer is outstanding. -/
theorem sound_dnsCalls : DnsCall.Sound c.lookups (c.dnsCalls e) ↔
    ∀ pool ok, c.call e = some (.connect pool ok) → c.Answered := by
  by_cases hcall : ∃ pool ok, c.call e = some (.connect pool ok)
  · obtain ⟨pool, ok, hcall⟩ := hcall
    rw [dnsCalls_of_call hcall]
    exact ⟨fun h _ _ _ => h.1, fun h => ⟨h pool ok hcall, trivial⟩⟩
  · have hnone : ∀ pool ok, c.call e ≠ some (.connect pool ok) :=
      fun pool ok hcalled => hcall ⟨pool, ok, hcalled⟩
    refine iff_of_true ?_ fun pool ok hcalled => absurd hcalled (hnone pool ok)
    unfold dnsCalls
    split
    · trivial
    · split
      · next hcalled => exact absurd hcalled (hnone _ _)
      · trivial

theorem sound_proceed : DnsCall.Sound c.lookups (c.dnsCalls .proceed) ↔
    ∀ host port ok todo, c.todo = .line (.redirect host port ok) :: todo → c.Answered := by
  rw [sound_dnsCalls]
  constructor
  · intro h host port ok todo ht
    exact h (redirected c.pool host port) ok (by simp only [call, ht])
  · intro h pool ok hcall
    simp only [call] at hcall
    split at hcall
    · next host port ok' todo ht => exact h host port ok' todo ht
    · contradiction

end Connection

theorem DnsCall.afterAll_le {pending : Nat} {calls : List DnsCall} (h : Sound pending calls)
    (hle : pending ≤ 1) : afterAll pending calls ≤ 1 := by
  induction calls generalizing pending with
  | nil => exact hle
  | cons call calls ih =>
      cases call with
      | onResolved => exact ih h (Nat.sub_le_of_le_add (Nat.le_succ_of_le hle))
      | destroy => exact ih h.2 hle
      | resolve ok =>
          obtain ⟨rfl, hrest⟩ := h
          cases ok with
          | false => exact ih hrest hle
          | true => exact ih hrest (Nat.le_refl 1)

namespace Owned

variable {c : Owned} {d : Connection} {e : Connection.Event} {listener : Bool}
variable {calls : List DnsCall} {x : Option Connection × Bool × List DnsCall}

/-! ## One client -/

theorem lookups_after (h : c.after e = some (some d, listener, calls)) :
    d.lookups = DnsCall.afterAll c.connection.lookups calls := by
  obtain ⟨hready, h⟩ := Option.ite_none_right_eq_some.mp h
  cases hlistener : c.listener with
  | true =>
      rw [hlistener, if_pos rfl] at h
      obtain ⟨d', hd, heq⟩ := Option.map_eq_some_iff.mp h
      obtain ⟨rfl, rfl, rfl⟩ : d' = d ∧ true = listener ∧ c.connection.dnsCalls e = calls := by
        simpa using heq
      exact Connection.lookups_after hready hd
  | false =>
      simp only [hlistener, Bool.false_eq_true, if_false] at h
      obtain ⟨⟨y, calls'⟩, hy, heq⟩ := Option.map_eq_some_iff.mp h
      obtain ⟨rfl, -, rfl⟩ : y = some d ∧ false = listener ∧ calls' = calls := by simpa using heq
      cases e with
      | resolved _ _ | closed _ => simp [Connection.orphan] at hy
      | received k chunk w =>
          cases chunk with
          | some chunk => simp [Connection.orphan] at hy
          | none =>
              obtain ⟨rfl, rfl⟩ : c.connection.close = d ∧ [] = calls' := by
                simpa [Connection.orphan] using hy
              exact Connection.lookups_effects Connection.Effect.close.effects
      | connected k success w =>
          simp only [Connection.orphan] at hy
          obtain ⟨-, hy⟩ := Option.ite_none_left_eq_some.mp hy
          obtain ⟨d', hd, heq⟩ := Option.map_eq_some_iff.mp hy
          obtain ⟨rfl, rfl⟩ : d' = d ∧ [] = calls' := by simpa using heq
          exact Connection.lookups_after (e := .connected k success w) hready hd
      | proceed =>
          simp only [Connection.orphan] at hy
          split at hy
          case h_1 | h_2 | h_3 => contradiction
          case h_4 =>
            obtain ⟨d', hd, heq⟩ := Option.map_eq_some_iff.mp hy
            obtain ⟨rfl, rfl⟩ : d' = d ∧ c.connection.dnsCalls .proceed = calls' := by
              simpa using heq
            exact Connection.lookups_after hready hd
      | elapse ms =>
          obtain ⟨rfl, rfl⟩ : { c.connection with now := c.connection.now + ms } = d ∧
              [] = calls' := by
            simpa [Connection.orphan] using hy
          rfl
      | connect _ | disconnect | close | setProxy _ | send _ | tick _ _ =>
          simp [Connection.orphan] at hy

/-- An event uses the request while it is idle just if the answer is there in time. -/
theorem sound_after (h : c.after e = some x) (hle : c.connection.lookups ≤ 1) :
    DnsCall.Sound c.connection.lookups x.2.2 ↔ c.InTime e := by
  obtain ⟨hready, h⟩ := Option.ite_none_right_eq_some.mp h
  cases hlistener : c.listener with
  | true =>
      rw [hlistener, if_pos rfl] at h
      obtain ⟨d, -, rfl⟩ := Option.map_eq_some_iff.mp h
      show DnsCall.Sound _ (c.connection.dnsCalls e) ↔ _
      cases e with
      | connect ok => exact ⟨And.left, fun h => ⟨h, trivial⟩⟩
      | tick ok w =>
          rw [Connection.sound_dnsCalls]
          simp only [Connection.call, InTime]
          exact ⟨fun h hr => h _ _ (if_pos hr), fun h pool ok hcall =>
            h (Option.ite_none_right_eq_some.mp hcall).1⟩
      | proceed => exact Connection.sound_proceed
      | closed _ => exact iff_of_true trivial fun hnone => by simp [hlistener] at hnone
      | received _ chunk _ =>
          cases chunk with
          | none => exact iff_of_true trivial trivial
          | some chunk => exact iff_of_true trivial fun hnone => by simp [hlistener] at hnone
      | disconnect | close | setProxy _ | send _ | elapse _ | resolved _ _ | connected _ _ _ =>
          exact iff_of_true trivial trivial
  | false =>
      simp only [hlistener, Bool.false_eq_true, if_false] at h
      obtain ⟨⟨y, calls⟩, hy, rfl⟩ := Option.map_eq_some_iff.mp h
      have hdestroy : DnsCall.Sound c.connection.lookups [.destroy] ↔
          (c.listener = false → c.connection.Answered) :=
        ⟨fun h _ => h.1, fun h => ⟨h hlistener, trivial⟩⟩
      cases e with
      | resolved _ _ =>
          obtain ⟨rfl, rfl⟩ : none = y ∧ [.onResolved, .destroy] = calls := by
            simpa [Connection.orphan] using hy
          exact iff_of_true ⟨Nat.sub_eq_zero_of_le hle, trivial⟩ trivial
      | closed _ =>
          obtain ⟨rfl, rfl⟩ : none = y ∧ [.destroy] = calls := by
            simpa [Connection.orphan] using hy
          exact hdestroy
      | received k chunk w =>
          cases chunk with
          | some chunk =>
              obtain ⟨rfl, rfl⟩ : none = y ∧ [.destroy] = calls := by
                simpa [Connection.orphan] using hy
              exact hdestroy
          | none =>
              obtain ⟨rfl, rfl⟩ : some c.connection.close = y ∧ [] = calls := by
                simpa [Connection.orphan] using hy
              exact iff_of_true trivial trivial
      | connected k success w =>
          simp only [Connection.orphan] at hy
          obtain ⟨-, hy⟩ := Option.ite_none_left_eq_some.mp hy
          obtain ⟨d', hd, heq⟩ := Option.map_eq_some_iff.mp hy
          obtain ⟨rfl, rfl⟩ : some d' = y ∧ [] = calls := by simpa using heq
          exact iff_of_true trivial trivial
      | proceed =>
          simp only [Connection.orphan] at hy
          split at hy
          case h_1 | h_2 | h_3 => contradiction
          case h_4 =>
            obtain ⟨d', hd, heq⟩ := Option.map_eq_some_iff.mp hy
            obtain ⟨rfl, rfl⟩ : some d' = y ∧ c.connection.dnsCalls .proceed = calls := by
              simpa using heq
            exact Connection.sound_proceed
      | elapse ms =>
          obtain ⟨-, rfl⟩ : some { c.connection with now := c.connection.now + ms } = y ∧
              [] = calls := by
            simpa [Connection.orphan] using hy
          exact iff_of_true trivial trivial
      | connect _ | disconnect | close | setProxy _ | send _ | tick _ _ =>
          simp [Connection.orphan] at hy

theorem lookups_deleteLater (h : c.deleteLater.1 = some d) :
    d.lookups = DnsCall.afterAll c.connection.lookups c.deleteLater.2.2 := by
  unfold deleteLater at h ⊢
  split at h
  · next hlistener =>
    rw [if_pos hlistener]
    split at h
    · next hcloses =>
      rw [if_pos hcloses]
      obtain rfl := Option.some.inj h
      exact Connection.lookups_disconnect
    · contradiction
  · next hlistener =>
    rw [if_neg hlistener]
    obtain rfl := Option.some.inj h
    rfl

theorem sound_deleteLater : DnsCall.Sound c.connection.lookups c.deleteLater.2.2 ↔
    (c.listener = true → c.connection.closes = false → c.connection.Answered) := by
  unfold deleteLater
  cases hlistener : c.listener with
  | false => exact iff_of_true trivial nofun
  | true =>
      cases hcloses : c.connection.closes with
      | true => exact iff_of_true trivial fun _ => nofun
      | false => exact ⟨fun h _ _ => h.1, fun h => ⟨h rfl rfl, trivial⟩⟩

end Owned

namespace Clients

variable {ι : Type*} [DecidableEq ι] {s s' : Clients ι} {i : ι} {pending : Nat}
variable {x : Option Connection × Bool × List DnsCall}

/-! ## All clients -/

/-- No request was misused, and what is in flight is known to the clients: one at most. -/
structure Inv (s : Clients ι) : Prop where
  unused : s.misused = false
  client : ∀ i c, s.client i = some c → c.dns = c.connection.lookups ∧ c.connection.lookups ≤ 1

theorem misused_put (h : s.misused = false) :
    (s.put i pending x).misused = false ↔ DnsCall.Sound pending x.2.2 := by
  simp [put, h]

theorem Inv.put (h : s.Inv) (hle : pending ≤ 1) (hsound : DnsCall.Sound pending x.2.2)
    (hx : ∀ d, x.1 = some d → d.lookups = DnsCall.afterAll pending x.2.2) :
    (s.put i pending x).Inv where
  unused := (misused_put h.unused).mpr hsound
  client k c hc := by
    simp only [Clients.put, Function.update_apply] at hc
    split at hc
    · obtain ⟨d, hd, rfl⟩ := Option.map_eq_some_iff.mp hc
      have hlookups := hx d hd
      exact ⟨hlookups.symm, hlookups.trans_le (DnsCall.afterAll_le hsound hle)⟩
    · exact h.client k c hc

omit [DecidableEq ι] in
theorem inv_init : (init : Clients ι).Inv where
  unused := rfl
  client i c hc := by simp [init] at hc

/-- One event: a request is misused just if an answer is not there in time. -/
theorem Inv.step (h : s.Inv) {e : Event ι} (hs : s.step e = some s') :
    (s'.misused = false ↔ s.InTime e) ∧ (s.InTime e → s'.Inv) := by
  have hput : ∀ i pending x, pending ≤ 1 → s' = s.put i pending x →
      (DnsCall.Sound pending x.2.2 ↔ s.InTime e) →
      (∀ d, x.1 = some d → d.lookups = DnsCall.afterAll pending x.2.2) →
      (s'.misused = false ↔ s.InTime e) ∧ (s.InTime e → s'.Inv) := by
    rintro i pending x hle rfl hsound hx
    exact ⟨(misused_put h.unused).trans hsound, fun ht => h.put hle (hsound.mpr ht) hx⟩
  cases e with
  | create i pool retryPause now =>
      simp only [Clients.step] at hs
      split at hs
      case h_2 => contradiction
      case h_1 =>
        refine hput i 0 _ (Nat.zero_le 1) (Option.some.inj hs).symm (iff_of_true trivial trivial) ?_
        intro d hd
        obtain rfl := Option.some.inj hd
        rfl
  | deleteLater i =>
      obtain ⟨c, hc, rfl⟩ := Option.map_eq_some_iff.mp hs
      obtain ⟨hdns, hle⟩ := h.client i c hc
      refine hput i c.dns _ (hdns ▸ hle) rfl ?_ ?_
      · rw [hdns, Owned.sound_deleteLater]
        simp only [InTime, hc, Option.some.injEq, forall_eq']
      · intro d hd
        rw [hdns]
        exact Owned.lookups_deleteLater hd
  | client i e =>
      obtain ⟨c, hc, hs⟩ := Option.bind_eq_some_iff.mp hs
      obtain ⟨x, hx, rfl⟩ := Option.map_eq_some_iff.mp hs
      obtain ⟨hdns, hle⟩ := h.client i c hc
      refine hput i c.dns x (hdns ▸ hle) rfl ?_ ?_
      · rw [hdns, Owned.sound_after hx hle]
        simp only [InTime, hc, Option.some.injEq, forall_eq']
      · intro d hd
        obtain ⟨y, listener, calls⟩ := x
        obtain rfl : y = some d := hd
        rw [hdns]
        exact Owned.lookups_after hx

/-- **When no request is misused.**  Along a run no `Dns` is used or deleted while its request is
in flight, if and only if the answer is there whenever a client is connected again or deleted. -/
theorem unused_iff {events : List (Event ι)} (h : (machine ι).run init events = some s') :
    (machine ι).Always (fun s => s.misused = false) init events ↔
      (machine ι).Meets InTime init events :=
  Machine.always_iff_of_invariant (fun _ => Inv.unused) (fun _ _ _ hs hstep => hs.step hstep)
    h inv_init

/-! ## Strategies -/

/-- What a call of a strategy is to its clients. -/
def ofCall : FailoverCall → List (Event Nat)
  | .connect id => [.client id (.connect true)]
  | .disconnect id => [.client id .disconnect]
  | .submit _ | .onActive _ | .onPause | .onJob _ => []

/-- A strategy is created with its clients, and makes its calls. -/
def calls (strategy : FailoverStrategy) (pool : Pool) : List (Event Nat) :=
  (List.range strategy.pools).map (.create · pool 5000 0) ++ strategy.log.reverse.flatMap ofCall

/-- `~FailoverStrategy`. -/
def destroy (strategy : FailoverStrategy) : List (Event Nat) :=
  (List.range strategy.pools).map .deleteLater

/-- A pool that is only an address. -/
def samplePool : Pool := .ofHost (bytes "a") 3333 none none 0 false false .POOL

/-- The answer is there before the client is given up. -/
theorem unused_iff_answered : (machine Nat).Always (fun s => s.misused = false) init
    [.create 0 samplePool 5000 0, .client 0 (.connect true),
      .client 0 (.resolved (some false) false), .deleteLater 0] := by
  obtain ⟨s, hs⟩ : ∃ s, (machine Nat).run init [.create 0 samplePool 5000 0,
      .client 0 (.connect true), .client 0 (.resolved (some false) false), .deleteLater 0] =
      some s := Option.isSome_iff_exists.mp (by decide +kernel)
  refine (unused_iff hs).mpr ⟨trivial, fun c hc => ?_, fun c _ => trivial, fun c hc => ?_, trivial⟩
  · obtain rfl := Option.some.inj hc
    rfl
  · obtain rfl := Option.some.inj hc
    exact fun _ _ => rfl

/-- **A strategy that is deleted, or stopped and connected again, before the answer is there
misuses a request.** -/
theorem misuses_request :
    ((machine Nat).run init (calls (FailoverStrategy.init 2 5).connect samplePool ++
      destroy (.init 2 5))).any (·.misused) = true ∧
    ((machine Nat).run init (calls (FailoverStrategy.init 2 5).connect.stop.connect
      samplePool)).any (·.misused) = true := by
  decide +kernel

end Clients

end Client

end XLArig
