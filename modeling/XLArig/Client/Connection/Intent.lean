import XLArig.Client.Connection.Effect

/-!
# XLArig.Client.Connection.Intent

What a `Client` does after `connect` and after `disconnect`.

`connect` looks the host up, and every handler that ends an attempt starts another one
or sets a deadline for it: `pending_of_connect`, as long as the resolver takes its
requests.  `disconnect` closes the current socket only.  A lookup that is pending, an
older socket and the lines left of a read are not stopped by it, and the client stays
quiet just when there is nothing of the kind (`quiet_of_disconnect`).
-/

namespace XLArig

namespace Client

namespace Connection

variable {s s' : Connection} {h : Nat}

/-! ## After `connect` -/

/-- The resolver takes the request, or it still has another one. -/
def Resolves (s : Connection) : Call → Prop
  | .connect _ ok => ok = true ∨ 0 < s.lookups
  | .disconnect => True

instance (s : Connection) : (c : Call) → Decidable (s.Resolves c)
  | .connect _ _ => inferInstanceAs (Decidable (_ ∨ _))
  | .disconnect => inferInstanceAs (Decidable True)

/-- Something will call the client back: a lookup, a connect request, a socket that is
open or closing, or the deadline that `tick` waits for. -/
def Pending (s : Connection) : Prop :=
  0 < s.lookups ∨ (∃ h, (s.handles h).connecting = true) ∨ (∃ h, s.Live h) ∨
    s.state = .ReconnectingState ∧ s.expire ≠ 0

/-- The client is not idle, and waits for what its state says. -/
structure Waits (s : Connection) : Prop where
  failures : 0 ≤ s.failures
  unconnected : s.state ≠ .UnconnectedState
  lookup : s.state = .HostLookupState → 0 < s.lookups
  retry : s.state = .ReconnectingState → s.expire ≠ 0 ∨ ∃ h, s.Live h

/-- What `connect` brings about and keeps. -/
structure Wants (s : Connection) : Prop where
  failures : -1 ≤ s.failures
  waits : s.intent = .connect → s.Waits

theorem Wants.close (hi : s.Wants) : s.close.Wants := by
  rcases close_cases (s := s) with ⟨heq, -⟩ | ⟨k, -, heq⟩
  · rw [heq]
    exact hi
  · rw [heq]
    refine ⟨hi.failures, ?_⟩
    intro hc
    exact { failures := (hi.waits hc).failures, unconnected := nofun, lookup := nofun, retry := nofun }

theorem wants_connect {ok : Bool} (hf : -1 ≤ s.failures) (hok : ok = true ∨ 0 < s.lookups) :
    (s.connect ok).Wants := by
  obtain ⟨expire, host, records, socks5, tls, -, heq⟩ := connect_eq (s := s) ok
  have hfailures : 0 ≤ if s.failures = -1 then 0 else s.failures := by
    split <;> omega
  have hlookups : 0 < if ok = true then s.lookups + 1 else s.lookups := by
    split
    · exact Nat.succ_pos _
    · next hne => exact hok.resolve_left hne
  rw [heq]
  refine ⟨by dsimp only; omega, fun _ => ?_⟩
  exact { failures := hfailures, unconnected := nofun, lookup := fun _ => hlookups, retry := nofun }

/-- A retry gets a deadline, or keeps the one there is. -/
theorem wants_reconnect (hpause : 0 < s.retryPause) (hf : -1 ≤ s.failures)
    (hwants : s.intent = .connect → 0 ≤ s.failures)
    (hr : s.intent = .connect → s.state = .ReconnectingState → s.expire ≠ 0 ∨ ∃ h, s.Live h) :
    s.reconnect.Wants := by
  rcases reconnect_cases (s := s) with ⟨hneg, heq⟩ | ⟨-, expire, hexpire, heq⟩
  · rw [heq]
    refine ⟨hf, ?_⟩
    intro hc
    have := hwants hc
    omega
  · rw [heq]
    refine ⟨by dsimp only; omega, ?_⟩
    intro hc
    have hdeadline : expire ≠ 0 ∨ ∃ h, s.Live h := by
      rcases hexpire with rfl | ⟨hstate, rfl⟩
      · exact .inl (by omega)
      · exact hr hc hstate
    exact
      { failures := by have := hwants hc; dsimp only; omega
        unconnected := nofun
        lookup := nofun
        retry := fun _ => hdeadline }

theorem wants_init (pool : Pool) (retryPause now : Nat) : (init pool retryPause now).Wants where
  failures := neg_one_lt_zero.le
  waits := nofun

/-- A step that may clear the deadline, in a read or with another one. -/
theorem Wants.timeout (hi : s.Wants) {t : Connection} (hintent : t.intent = s.intent)
    (hfailures : t.failures = s.failures ∨ t.failures = 0) (hstate : t.state = s.state)
    (hlookups : t.lookups = s.lookups) (hretry : t.expire ≠ 0 ∨ ∃ h, t.Live h) : t.Wants := by
  refine ⟨?_, ?_⟩
  · have := hi.failures
    omega
  · intro hc
    have hwaits : s.Waits := hi.waits (hintent ▸ hc)
    exact
      { failures := by have := hwaits.failures; omega
        unconnected := hstate ▸ hwaits.unconnected
        lookup := by
          rw [hstate, hlookups]
          exact hwaits.lookup
        retry := fun _ => hretry }

theorem Wants.effect (hi : s.Wants) (hw : s.Wired) (he : Effect Resolves s s') : s'.Wants := by
  have hread : ∀ {task todo}, s.todo = task :: todo → ∃ h, s.Live h := by
    intro task todo ht
    exact hw.todo (by simp [ht])
  have hframe : Frame s s' := he.frame
  cases he with
  | pool | elapse | keepAlive | socks5 | socks5Ready | tls | received =>
      exact ⟨hi.failures, fun hc => { hi.waits hc with }⟩
  | close => exact hi.close
  | disconnect =>
      obtain ⟨state, handles, heq, -⟩ := disconnect_cases (s := s)
      rw [heq]
      exact ⟨le_rfl, nofun⟩
  | connect hp => exact wants_connect hi.failures hp
  | called k =>
      refine ⟨hi.failures, fun hc => ?_⟩
      have hwaits : s.Waits := hi.waits hc
      exact { hwaits with
        retry := fun hr => (hwaits.retry hr).imp_right (Exists.imp fun j => (hframe.live j).mpr) }
  | connected =>
      refine ⟨hi.failures, fun hc => ?_⟩
      exact { failures := (hi.waits hc).failures, unconnected := nofun, lookup := nofun, retry := nofun }
  | sent => exact hi.timeout rfl (.inl rfl) rfl rfl (.inl (by dsimp only [kResponseTimeout]; omega))
  | login =>
      exact hi.timeout rfl (.inl rfl) rfl rfl (.inl (by dsimp only [kResponseTimeout, report]; omega))
  | line ht => exact hi.timeout rfl (.inl rfl) rfl rfl (.inr (hread ht))
  | job ht => exact hi.timeout rfl (.inl rfl) rfl rfl (.inr (hread ht))
  | loginJob ht => exact hi.timeout rfl (.inl rfl) rfl rfl (.inr (hread ht))
  | loginSuccess ht => exact hi.timeout rfl (.inr rfl) rfl rfl (.inr (hread ht))
  | @redirect _ _ _ todo pool ht ms hp htls =>
      obtain ⟨state, handles, heq, -⟩ :=
        disconnect_cases (s := { s with todo, expire := 0, keepAlive := ms })
      rw [heq]
      exact wants_connect le_rfl hp

theorem Wants.onResolved (hi : s.Wants) (hw : s.Wired) (records : Option Bool) (started : Bool) :
    (s.onResolved records started).Wants := by
  obtain ⟨records', heq | heq⟩ := onResolved_cases (s := s) records started
  · obtain ⟨expire, hto⟩ := connectTo_eq
      (s := { s with lookups := s.lookups - 1, records := records' }) started
    rw [heq, hto]
    refine ⟨hi.failures, fun hc => ?_⟩
    exact { failures := (hi.waits hc).failures, unconnected := nofun, lookup := nofun, retry := nofun }
  · rw [heq]
    exact wants_reconnect hw.retryPause hi.failures (fun hc => (hi.waits hc).failures)
      fun hc => (hi.waits hc).retry

theorem Wants.onClose (hi : s.Wants) (hw : s.Wired) : (s.onClose h).Wants := by
  obtain ⟨handles, -, heq⟩ := onClose_eq (s := s) h
  rw [heq]
  exact wants_reconnect hw.retryPause hi.failures (fun hc => (hi.waits hc).failures) nofun

/-- What is pending, by the state. -/
theorem Waits.pending (h : s.Waits) (hw : s.Wired) : s.Pending := by
  have hsocket : s.socket ≠ none → ∃ h, s.Live h := by
    intro hs
    obtain ⟨k, hk⟩ := Option.ne_none_iff_exists'.mp hs
    exact ⟨k, hw.socket k hk⟩
  unfold Pending
  cases hstate : s.state with
  | UnconnectedState => exact absurd hstate h.unconnected
  | HostLookupState => exact .inl (h.lookup hstate)
  | ConnectingState => exact .inr (.inr (.inl (hsocket (hw.connected (.inl hstate)))))
  | ConnectedState => exact .inr (.inr (.inl (hsocket (hw.connected (.inr hstate)))))
  | ClosingState =>
      obtain ⟨k, hk, -⟩ := hw.closing hstate
      exact .inr (.inr (.inl ⟨k, hw.socket k hk⟩))
  | ReconnectingState =>
      rcases h.retry hstate with hexpire | hlive
      · exact .inr (.inr (.inr ⟨rfl, hexpire⟩))
      · exact .inr (.inr (.inl hlive))

/-- **A client that wants a connection is not stuck**, as long as the resolver takes
its requests. -/
theorem pending_of_connect (h : machine.ReachableIf (Calls Resolves) s)
    (hc : s.intent = .connect) :
    s.Pending ∧ (s.state = .HostLookupState → 0 < s.lookups) := by
  obtain ⟨hw, hi⟩ : s.Wired ∧ s.Wants := invariant h (fun pool r n _ => wants_init pool r n)
    (fun _ _ hw hi he => hi.effect hw he) (fun _ records started hw hi _ => hi.onResolved hw records started)
    (fun _ _ hw hi _ => hi.onClose hw)
  exact ⟨(hi.waits hc).pending hw, (hi.waits hc).lookup⟩

/-- The first lookup of a new client. -/
theorem pending_of_connect_new :
    let s := (sample false).connect true
    s.intent = .connect ∧ s.Pending ∧ (s.state = .HostLookupState → 0 < s.lookups) := by
  intro s
  have hconnect : machine.ReachableIf (Calls Resolves) s :=
    .step (e := .connect true) (.init (init_sample false)) (by decide) rfl
  exact ⟨rfl, pending_of_connect hconnect rfl⟩

/-- **A request that the resolver does not take leaves the client stuck.**  It is in
`HostLookupState`, nothing is pending, and no tick changes that. -/
theorem stuck_of_connect :
    let s := (sample false).connect false
    machine.Reachable s ∧ s.intent = .connect ∧ s.state = .HostLookupState ∧ s.lookups = 0 ∧
      ¬ s.Pending ∧ ∀ ok w, s.tick ok w = s := by
  intro s
  have hreachable : machine.Reachable s :=
    .step (e := .connect false) (.init (init_sample false)) trivial rfl
  refine ⟨hreachable, rfl, rfl, rfl, ?_, fun _ _ => rfl⟩
  rintro (hl | ⟨k, hk⟩ | ⟨k, hk | hk⟩ | ⟨hr, -⟩)
  · exact absurd hl (Nat.lt_irrefl 0)
  · exact absurd hk Bool.false_ne_true
  · exact nomatch hk
  · exact nomatch hk
  · exact nomatch hr

/-! ## After `disconnect` -/

/-- Nothing that is left of a read reports to the listener before the next redirect. -/
def calm : List Task → Bool
  | [] => true
  | .line (.redirect _ _ _) :: _ => true
  | .line .other :: todo | .line (.failed _) :: todo => calm todo
  | .line .job :: _ | .line (.login _ _) :: _ | .job :: _ => false

/-- `disconnect` finds no lookup pending, no open socket but its own, and nothing left
of a read that would be reported. -/
def Alone (s : Connection) : Call → Prop
  | .connect _ _ => True
  | .disconnect => s.lookups = 0 ∧ (∀ h < s.next, s.Open h → s.socket = some h) ∧
      calm s.todo = true

instance (s : Connection) : (c : Call) → Decidable (s.Alone c)
  | .connect _ _ => inferInstanceAs (Decidable True)
  | .disconnect => inferInstanceAs (Decidable (_ ∧ _))

/-- Nothing happens any more but that a socket is closed. -/
structure Quiet (s : Connection) : Prop where
  lookups : s.lookups = 0
  failures : s.failures = -1
  closed : ∀ h, ¬ s.Open h
  connecting : s.state ≠ .ConnectingState
  connected : s.state ≠ .ConnectedState
  retry : s.state = .ReconnectingState → s.expire = 0
  todo : calm s.todo = true

/-- After `disconnect` nothing was done but to tell the listener that it is closed. -/
def Silent (log : List (Intent × Entry)) : Prop :=
  ∀ entry ∈ log, entry.1 = .disconnect → ∃ failures, entry.2 = .onClose failures

/-- What `disconnect` brings about and keeps. -/
structure Ended (s : Connection) : Prop where
  log : Silent s.log
  quiet : s.intent = .disconnect → s.Quiet

theorem Silent.cons {log : List (Intent × Entry)} {intent : Intent} {e : Entry} (hl : Silent log)
    (he : intent = .disconnect → ∃ failures, e = .onClose failures) : Silent ((intent, e) :: log) := by
  intro entry hm hintent
  rcases List.mem_cons.mp hm with rfl | hm
  · exact he hintent
  · exact hl entry hm hintent

/-- Another intent. -/
theorem ended_of_ne (hl : Silent s.log) (hi : s.intent ≠ .disconnect) : s.Ended :=
  ⟨hl, fun h => absurd h hi⟩

theorem ended_report {e : Entry} (hl : Silent s.log) (hi : s.intent ≠ .disconnect) :
    (s.report e).Ended :=
  ended_of_ne (hl.cons fun h => absurd h hi) hi

theorem ended_init (pool : Pool) (retryPause now : Nat) : (init pool retryPause now).Ended :=
  ended_of_ne (fun _ h => absurd h List.not_mem_nil) nofun

/-- Closing opens no socket. -/
theorem not_open_close {k : Nat} (hclosed : ¬ s.Open h) :
    (Function.update s.handles k (s.handles k).close h).state ≠ .opened := by
  by_cases hk : h = k
  · subst hk
    simpa using Handle.state_close_ne
  · simpa [hk, Open] using hclosed

theorem Ended.close (hi : s.Ended) : s.close.Ended := by
  rcases close_cases (s := s) with ⟨heq, -⟩ | ⟨k, -, heq⟩
  · rw [heq]
    exact hi
  · rw [heq]
    refine ⟨hi.log, fun hc => ?_⟩
    have hquiet : s.Quiet := hi.quiet hc
    exact { hquiet with
      closed := fun h => not_open_close (hquiet.closed h)
      connecting := nofun
      connected := nofun
      retry := nofun }

theorem Ended.disconnect (hi : s.Ended) (hw : s.Wired) (ha : s.Alone .disconnect) :
    s.disconnect.Ended := by
  obtain ⟨hlookups, hsocket, hcalm⟩ := ha
  have hopen : ∀ h, s.Open h → s.socket = some h := by
    intro h ho
    exact hsocket h (hw.lt_next h (.inl ho)) ho
  obtain ⟨state, handles, heq, ⟨rfl, rfl, hkept⟩ | ⟨k, hk, rfl, rfl⟩⟩ := disconnect_cases (s := s)
  · rw [heq]
    -- without a socket to close none is open
    have hclosed : ∀ h, ¬ s.Open h := by
      intro h ho
      have hs : s.socket = some h := hopen h ho
      rcases hkept with hstate | hstate | hnone
      · obtain ⟨j, hj, hclosing⟩ := hw.closing hstate
        obtain rfl := Option.some.inj (hs.symm.trans hj)
        exact nomatch ho.symm.trans hclosing
      · exact nomatch hs.symm.trans (hw.unconnected hstate)
      · exact nomatch hs.symm.trans hnone
    have hstate : ∀ state, state = .ConnectingState ∨ state = .ConnectedState → s.state ≠ state := by
      rintro state hstate rfl
      rcases hkept with hkept | hkept | hnone
      · rcases hstate with hstate | hstate <;> exact nomatch hstate.symm.trans hkept
      · rcases hstate with hstate | hstate <;> exact nomatch hstate.symm.trans hkept
      · exact hw.connected hstate hnone
    exact ⟨hi.log, fun _ =>
      { lookups := hlookups
        failures := rfl
        closed := hclosed
        connecting := hstate _ (.inl rfl)
        connected := hstate _ (.inr rfl)
        retry := fun _ => rfl
        todo := hcalm }⟩
  · rw [heq]
    have hclosed : ∀ h, (Function.update s.handles k (s.handles k).close h).state ≠ .opened := by
      intro h
      by_cases hk' : h = k
      · subst hk'
        simpa using Handle.state_close_ne
      · have hother : ¬ s.Open h := fun ho => hk' (Option.some.inj ((hopen h ho).symm.trans hk))
        exact not_open_close hother
    exact ⟨hi.log, fun _ =>
      { lookups := hlookups
        failures := rfl
        closed := hclosed
        connecting := nofun
        connected := nofun
        retry := fun _ => rfl
        todo := hcalm }⟩

theorem ended_connect {ok : Bool} (hl : Silent s.log) : (s.connect ok).Ended := by
  obtain ⟨expire, host, records, socks5, tls, -, heq⟩ := connect_eq (s := s) ok
  rw [heq]
  exact ended_of_ne hl nofun

/-- The listener hears of the end, and there is no retry. -/
theorem ended_reconnect (hl : Silent s.log) (hq : s.intent = .disconnect → s.Quiet) :
    s.reconnect.Ended := by
  rcases reconnect_cases (s := s) with ⟨-, heq⟩ | ⟨hne, expire, -, heq⟩
  · rw [heq]
    exact ⟨hl.cons fun _ => ⟨_, rfl⟩, fun hc => { hq hc with }⟩
  · rw [heq]
    have hintent : s.intent ≠ .disconnect := fun hc => hne (hq hc).failures
    exact ended_of_ne (hl.cons fun _ => ⟨_, rfl⟩) hintent

theorem Ended.effect (hi : s.Ended) (hw : s.Wired) (he : Effect Alone s s') : s'.Ended := by
  have hopen : ∀ {h}, s.Open h → s.intent ≠ .disconnect :=
    fun ho hc => (hi.quiet hc).closed _ ho
  have hconnected : s.state = .ConnectedState → s.intent ≠ .disconnect :=
    fun hs hc => (hi.quiet hc).connected hs
  have hreports : calm s.todo = false → s.intent ≠ .disconnect := by
    intro ht hc
    exact Bool.false_ne_true (ht.symm.trans (hi.quiet hc).todo)
  cases he with
  | pool | elapse | keepAlive => exact ⟨hi.log, fun hc => { hi.quiet hc with }⟩
  | close => exact hi.close
  | disconnect hp => exact hi.disconnect hw hp
  | connect => exact ended_connect hi.log
  | called k =>
      refine ⟨hi.log, fun hc => ?_⟩
      have hquiet : s.Quiet := hi.quiet hc
      exact { hquiet with
        closed := by
          intro h
          by_cases hk : h = k
          · subst hk
            simpa [Open] using hquiet.closed h
          · simpa [Open, hk] using hquiet.closed h }
  | connected ho => exact ended_report hi.log (hopen ho)
  | sent hc =>
      refine ended_of_ne hi.log ?_
      rcases hc with hc | ⟨h, ho⟩
      · exact hconnected hc
      · exact hopen ho
  | login hc => exact ended_report hi.log (hconnected hc)
  | socks5 ho | socks5Ready ho | tls ho | received ho => exact ended_of_ne hi.log (hopen ho)
  | @line line todo ht hl =>
      refine ⟨hi.log, fun hc => ?_⟩
      have hquiet : s.Quiet := hi.quiet hc
      have hcalm : calm (.line line :: todo) = true := ht ▸ hquiet.todo
      have htodo : calm todo = true := by
        rcases hl with rfl | ⟨keepAlive, rfl⟩ <;> exact hcalm
      exact { hquiet with retry := fun _ => rfl, todo := htodo }
  | job ht => exact ended_report hi.log (hreports (by rw [ht]; rfl))
  | loginJob ht => exact ended_report hi.log (hreports (by rw [ht]; rfl))
  | loginSuccess ht => exact ended_report hi.log (hreports (by rw [ht]; rfl))
  | @redirect _ _ _ todo pool ht ms hp htls =>
      obtain ⟨state, handles, heq, -⟩ :=
        disconnect_cases (s := { s with todo, expire := 0, keepAlive := ms })
      rw [heq]
      exact ended_connect hi.log

theorem Ended.onResolved (hi : s.Ended) (hl : 0 < s.lookups) (records : Option Bool)
    (started : Bool) : (s.onResolved records started).Ended := by
  have hintent : s.intent ≠ .disconnect := fun hc => hl.ne' (hi.quiet hc).lookups
  obtain ⟨records', heq | heq⟩ := onResolved_cases (s := s) records started
  · obtain ⟨expire, hto⟩ := connectTo_eq
      (s := { s with lookups := s.lookups - 1, records := records' }) started
    rw [heq, hto]
    exact ended_of_ne hi.log hintent
  · rw [heq]
    exact ended_reconnect hi.log fun hc => absurd hc hintent

theorem Ended.onClose (hi : s.Ended) : (s.onClose h).Ended := by
  obtain ⟨handles, hdeleted, heq⟩ := onClose_eq (s := s) h
  rw [heq]
  refine ended_reconnect hi.log fun hc => ?_
  have hquiet : s.Quiet := hi.quiet hc
  have hclosed : ∀ k, (handles k).state ≠ .opened := by
    intro k ho
    rcases hdeleted k with ⟨-, -, hsame⟩ | ⟨-, hdead⟩
    · rw [hsame] at ho
      exact hquiet.closed k ho
    · exact hdead (.inl ho)
  exact { hquiet with closed := hclosed, connecting := nofun, connected := nofun, retry := nofun }

/-- **`disconnect` is final** where it finds nothing it does not stop: until the next
`connect` the client is not connected, sends no login, reports no login and no job, and
does not try again. -/
theorem quiet_of_disconnect (h : machine.ReachableIf (Calls Alone) s) :
    (∀ entry ∈ s.log, entry.1 = .disconnect → ∃ failures, entry.2 = .onClose failures) ∧
      (s.intent = .disconnect → s.state ≠ .ConnectedState ∧ ¬ s.Retries) := by
  obtain ⟨-, hi⟩ : s.Wired ∧ s.Ended := invariant h (fun pool r n _ => ended_init pool r n)
    (fun _ _ hw hi he => hi.effect hw he) (fun _ records started _ hi hl => hi.onResolved hl records started)
    (fun _ _ _ hi _ => hi.onClose)
  refine ⟨hi.log, fun hc => ⟨(hi.quiet hc).connected, ?_⟩⟩
  rintro ⟨hstate, hexpire, -⟩
  exact hexpire ((hi.quiet hc).retry hstate)

/-- A client that has logged in is disconnected. -/
theorem quiet_of_disconnect_connected : ∃ s, machine.ReachableIf (Calls Alone) s ∧
    s.log = [(.disconnect, .onClose (-1)), (.connect, .onLoginSuccess),
      (.connect, .login false false), (.connect, .connected)] ∧
    ∀ entry ∈ s.log, entry.1 = .disconnect → ∃ failures, entry.2 = .onClose failures := by
  let events : List Event :=
    [.connect true, .resolved (some true) true, .connected 0 true .accepted,
      .received 0 (some ⟨.short, .wantRead, [.login false false]⟩) .accepted, .proceed,
      .disconnect, .closed 0]
  have hm : machine.Meets (Calls Alone) (sample false) events := by decide +kernel
  have hrun : (machine.run (sample false) events).any (fun s => decide
      (s.log = [(.disconnect, .onClose (-1)), (.connect, .onLoginSuccess),
        (.connect, .login false false), (.connect, .connected)])) = true := by decide +kernel
  obtain ⟨s, hs, hlog⟩ := Machine.ReachableIf.exists_of_run (init_sample false) hm hrun
  exact ⟨s, hs, of_decide_eq_true hlog, (quiet_of_disconnect hs).1⟩

/-- **A client that was disconnected gets connected, logs in and reports a job**: the
lookup was pending when it was disconnected. -/
theorem connected_after_disconnect : ∃ s, machine.Reachable s ∧ s.intent = .disconnect ∧
    s.state = .ConnectedState ∧
    s.log = [(.disconnect, .onJobReceived), (.disconnect, .onLoginSuccess),
      (.disconnect, .login false false), (.disconnect, .connected)] := by
  let events : List Event :=
    [.connect true, .disconnect, .resolved (some true) true, .connected 0 true .accepted,
      .received 0 (some ⟨.short, .wantRead, [.login false true]⟩) .accepted, .proceed, .proceed]
  have hrun : (machine.run (sample false) events).any (fun s => decide
      (s.intent = .disconnect ∧ s.state = .ConnectedState ∧
        s.log = [(.disconnect, .onJobReceived), (.disconnect, .onLoginSuccess),
          (.disconnect, .login false false), (.disconnect, .connected)])) = true := by
    decide +kernel
  obtain ⟨s, hs, hp⟩ := Machine.Reachable.exists_of_run (init_sample false) hrun
  obtain ⟨hintent, hstate, hlog⟩ := of_decide_eq_true hp
  exact ⟨s, hs, hintent, hstate, hlog⟩

end Connection

end Client

end XLArig
