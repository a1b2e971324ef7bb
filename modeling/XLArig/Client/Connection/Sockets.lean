import XLArig.Client.Connection.Effect

/-!
# XLArig.Client.Connection.Sockets

The sockets of a `Client` and the layers over them.

`connect` does not wait for the socket before it: the lookup it starts may complete
while that one is open or closing, and the close callback deletes whatever the client
points to by then.  `OneSocket` holds as long as `connect` is called without a lookup
or a socket, and what belongs to the socket is created and deleted with it
(`one_socket`, `login_secure`).
-/

namespace XLArig

namespace Client

namespace Handle

variable {x : Handle}

/-- A handle that was created is closed once, or open. -/
def Sound (x : Handle) : Prop :=
  x.state = .opened ∧ x.closes = 0 ∨ (x.state = .closing ∨ x.state = .closed) ∧ x.closes = 1

theorem Sound.close (hx : x.Sound) : x.close.Sound := by
  unfold Handle.close
  split
  · next ho =>
    rcases hx with ⟨-, hcloses⟩ | ⟨hstate, -⟩
    · exact .inr ⟨.inl rfl, by simp [hcloses]⟩
    · rw [ho] at hstate
      rcases hstate with hstate | hstate <;> exact nomatch hstate
  · exact hx

theorem Sound.readStart (hx : x.Sound) : x.readStart.Sound := by
  unfold Handle.readStart
  split <;> exact hx

end Handle

namespace Connection

variable {P : Connection → Call → Prop} {s s' : Connection} {h : Nat}

/-- No handle is open or closing. -/
def Idle (s : Connection) : Prop := ∀ h < s.next, ¬ s.Live h

instance (s : Connection) : Decidable s.Idle := inferInstanceAs (Decidable (∀ h < s.next, _))

theorem Wired.not_live (hw : s.Wired) (hi : s.Idle) (h : Nat) : ¬ s.Live h :=
  fun hl => hi h (hw.lt_next h hl) hl

theorem Wired.socket_eq_none (hw : s.Wired) (hi : s.Idle) : s.socket = none := by
  cases hs : s.socket with
  | none => rfl
  | some h => exact absurd (hw.socket h hs) (hw.not_live hi h)

/-! ## One socket at a time -/

/-- A lookup or a socket, and no other handle that is open or closing. -/
structure OneSocket (s : Connection) : Prop where
  lookups : s.lookups ≤ 1
  idle : 0 < s.lookups → ∀ h, ¬ s.Live h
  socket : ∀ h, s.Live h → s.socket = some h

/-- Effects keep the lookups, but for `connect`. -/
theorem Effect.lookups (he : Effect P s s') : s'.lookups = s.lookups ∨
    s'.lookups = s.lookups + 1 ∧ ∃ pool, pool.isTLS = s.pool.isTLS ∧ P s (.connect pool true) := by
  have hconnect : ∀ (t : Connection) ok, (t.connect ok).lookups = t.lookups ∨
      (t.connect ok).lookups = t.lookups + 1 ∧ ok = true := by
    intro t ok
    obtain ⟨expire, host, records, socks5, tls, -, heq⟩ := connect_eq (s := t) ok
    rw [heq]
    cases ok with
    | false => exact .inl rfl
    | true => exact .inr ⟨rfl, rfl⟩
  cases he with
  | pool | elapse | keepAlive | sent | login | socks5 | socks5Ready | tls | received | line | job
  | loginJob | loginSuccess | called | connected => exact .inl rfl
  | close =>
      rcases close_cases (s := s) with ⟨heq, -⟩ | ⟨k, -, heq⟩ <;> exact .inl (by rw [heq])
  | disconnect =>
      obtain ⟨state, handles, heq, -⟩ := disconnect_cases (s := s)
      exact .inl (by rw [heq])
  | @connect ok hp =>
      rcases hconnect s ok with hl | ⟨hl, rfl⟩
      · exact .inl hl
      · exact .inr ⟨hl, _, rfl, hp⟩
  | @redirect _ _ ok todo pool ht ms hp htls =>
      obtain ⟨state, handles, heq, -⟩ :=
        disconnect_cases (s := { s with todo, expire := 0, keepAlive := ms })
      rw [heq]
      rcases hconnect _ ok with hl | ⟨hl, rfl⟩
      · exact .inl hl
      · exact .inr ⟨hl, pool, htls, hp⟩

theorem oneSocket_init (pool : Pool) (retryPause now : Nat) :
    (init pool retryPause now).OneSocket where
  lookups := Nat.zero_le 1
  idle := fun hl => absurd hl (Nat.lt_irrefl 0)
  socket := by
    rintro h (hl | hl) <;> exact nomatch hl

theorem OneSocket.frame (hi : s.OneSocket) (hf : Frame s s') (hl : s'.lookups = s.lookups) :
    s'.OneSocket where
  lookups := hl ▸ hi.lookups
  idle := fun hpos h => (hf.live h).not.mpr (hi.idle (hl ▸ hpos) h)
  socket := fun h hlive => hf.socket.trans (hi.socket h ((hf.live h).mp hlive))

theorem OneSocket.effect (hi : s.OneSocket) (hw : s.Wired) (he : Effect P s s')
    (hp : ∀ pool, pool.isTLS = s.pool.isTLS → P s (.connect pool true) → s.lookups = 0 ∧ s.Idle) :
    s'.OneSocket := by
  rcases he.lookups with hl | ⟨hl, pool, htls, hpool⟩
  · exact hi.frame he.frame hl
  · obtain ⟨h0, hidle⟩ := hp pool htls hpool
    have hnone : ∀ h, ¬ s'.Live h := fun h => (he.frame.live h).not.mpr (hw.not_live hidle h)
    exact
      { lookups := by omega
        idle := fun _ => hnone
        socket := fun h hlive => absurd hlive (hnone h) }

theorem oneSocket_reconnect (hi : s.OneSocket) : s.reconnect.OneSocket := by
  obtain ⟨state, expire, failures, f, heq⟩ := reconnect_eq (s := s)
  refine hi.frame frame_reconnect ?_
  rw [heq]

theorem OneSocket.onResolved (hi : s.OneSocket) (hl : 0 < s.lookups) (records : Option Bool)
    (started : Bool) : (s.onResolved records started).OneSocket := by
  have hnone : ∀ h, ¬ s.Live h := hi.idle hl
  have hzero : s.lookups - 1 = 0 := by
    have := hi.lookups
    omega
  obtain ⟨records', heq | heq⟩ := onResolved_cases (s := s) records started
  · obtain ⟨expire, hto⟩ := connectTo_eq
      (s := { s with lookups := s.lookups - 1, records := records' }) started
    rw [heq, hto]
    exact
      { lookups := by dsimp only; omega
        idle := fun hpos => absurd hpos (by dsimp only; omega)
        socket := by
          intro h hlive
          by_cases hh : h = s.next
          · rw [hh]
          · simp only [Live, Function.update_of_ne hh] at hlive
            exact absurd hlive (hnone h) }
  · rw [heq]
    refine oneSocket_reconnect ?_
    exact
      { lookups := by dsimp only; omega
        idle := fun _ => hnone
        socket := fun h hlive => absurd hlive (hnone h) }

/-- The close callback is that of the socket. -/
theorem OneSocket.onClose (hi : s.OneSocket) (hc : (s.handles h).state = .closing) :
    (s.onClose h).OneSocket ∧ (s.onClose h).lookups = 0 ∧ ∀ k, ¬ (s.onClose h).Live k := by
  have hzero : s.lookups = 0 := by
    by_contra hne
    exact hi.idle (Nat.pos_of_ne_zero hne) h (.inr hc)
  obtain ⟨handles, hdeleted, heq⟩ := onClose_eq (s := s) h
  have hnone : ∀ k, ¬ (handles k).Live := by
    intro k hlive
    rcases hdeleted k with ⟨-, hsocket, hsame⟩ | ⟨-, hdead⟩
    · rw [hsame] at hlive
      exact hsocket (hi.socket k hlive)
    · exact hdead hlive
  rw [heq]
  refine ⟨oneSocket_reconnect ?_, ?_, ?_⟩
  · exact
      { lookups := by dsimp only; omega
        idle := fun _ => hnone
        socket := fun k hlive => absurd hlive (hnone k) }
  · obtain ⟨state, expire, failures, f, hre⟩ := reconnect_eq
      (s := { s with handles, socket := none, state := .UnconnectedState, tls := none })
    rw [hre]
    exact hzero
  · intro k
    rw [frame_reconnect.live]
    exact hnone k

theorem socket_onClose : (s.onClose h).socket = none := by
  obtain ⟨handles, -, heq⟩ := onClose_eq (s := s) h
  rw [heq, frame_reconnect.socket]

/-- A new socket is the result of a lookup. -/
theorem OneSocket.not_live_of_step (hi : s.OneSocket) {e : Event} (hp : Calls P s e)
    (hs : machine.step s e = some s') (hsocket : s'.socket ≠ s.socket) (hnew : s'.socket ≠ none)
    (k : Nat) : ¬ s.Live k := by
  rcases step_cases hp hs with he | ⟨records, started, hl, -, -⟩ | ⟨j, -, -, -, rfl⟩
  · exact absurd he.frame.socket hsocket
  · exact hi.idle hl k
  · exact absurd socket_onClose hnew

/-! ## What belongs to a socket -/

/-- `connect` is called without a lookup or a socket, unless the request is not taken;
a `Tls` is not created over a socket either. -/
def Exclusive (s : Connection) : Call → Prop
  | .connect pool ok => (ok = true → s.lookups = 0 ∧ s.Idle) ∧
      (pool.proxy.isValid = false ∧ pool.isTLS = true → s.Idle)
  | .disconnect => True

instance (s : Connection) : (c : Call) → Decidable (s.Exclusive c)
  | .connect _ _ => inferInstanceAs (Decidable (_ ∧ _))
  | .disconnect => inferInstanceAs (Decidable True)

/-- The handles are sound, and the `Tls` is that of the socket, or of the next one. -/
structure Owned (s : Connection) : Prop extends s.OneSocket where
  sound : ∀ h < s.next, (s.handles h).Sound
  owner : ∀ t, s.tls = some t → t.owner = s.socket.getD s.next

theorem owned_init (pool : Pool) (retryPause now : Nat) : (init pool retryPause now).Owned where
  toOneSocket := oneSocket_init pool retryPause now
  sound := fun _ h => absurd h (Nat.not_lt_zero _)
  owner := nofun

/-- An update of a handle that keeps it sound. -/
theorem Owned.update (hi : s.Owned) {x : Handle} (hx : (s.handles h).Sound → x.Sound) :
    ∀ k < s.next, (Function.update s.handles h x k).Sound := by
  intro k hk
  by_cases hkh : k = h
  · subst hkh
    simpa using hx (hi.sound k hk)
  · simpa [hkh] using hi.sound k hk

/-- The `Tls` that `connect` creates belongs to the next socket, so there is none. -/
theorem owned_connect {ok : Bool} (hone : (s.connect ok).OneSocket)
    (hsound : ∀ h < s.next, (s.handles h).Sound)
    (howner : ∀ t, s.tls = some t → t.owner = s.socket.getD s.next)
    (hnone : s.pool.proxy.isValid = false ∧ s.pool.isTLS = true → s.socket = none) :
    (s.connect ok).Owned := by
  obtain ⟨expire, host, records, socks5, tls, hprepared, heq⟩ := connect_eq (s := s) ok
  rw [heq] at hone ⊢
  have htls : ∀ t, tls = some t → t.owner = s.socket.getD s.next := by
    intro t ht
    rcases hprepared with ⟨-, -, rfl⟩ | ⟨hproxy, hpool, -, rfl⟩ | ⟨-, -, rfl⟩
    · exact howner t ht
    · obtain rfl := Option.some.inj ht
      rw [hnone ⟨hproxy, hpool⟩]
      rfl
    · exact howner t ht
  exact { hone with sound := hsound, owner := htls }

theorem Owned.effect (hi : s.Owned) (hw : s.Wired) (he : Effect Exclusive s s') : s'.Owned := by
  have hone : s'.OneSocket :=
    hi.toOneSocket.effect hw he fun pool _ hp => hp.1 rfl
  cases he with
  | pool | elapse | keepAlive | sent | login | socks5 | received | line | job
  | loginJob | loginSuccess =>
      exact { hone with sound := hi.sound, owner := hi.owner }
  | close =>
      rcases close_cases (s := s) with ⟨heq, -⟩ | ⟨k, -, heq⟩
      · rw [heq]
        exact hi
      · rw [heq] at hone ⊢
        exact { hone with sound := hi.update Handle.Sound.close, owner := hi.owner }
  | disconnect =>
      obtain ⟨state, handles, heq, ⟨-, rfl, -⟩ | ⟨k, -, -, rfl⟩⟩ := disconnect_cases (s := s)
      · rw [heq] at hone ⊢
        exact { hone with sound := hi.sound, owner := hi.owner }
      · rw [heq] at hone ⊢
        exact { hone with sound := hi.update Handle.Sound.close, owner := hi.owner }
  | called k => exact { hone with sound := hi.update id, owner := hi.owner }
  | connected =>
      exact { hone with sound := hi.update Handle.Sound.readStart, owner := hi.owner }
  | @tls _ t t' ho ht howner =>
      have htls : ∀ u, some t' = some u → u.owner = s.socket.getD s.next := by
        intro u heq
        obtain rfl := Option.some.inj heq
        exact howner.trans (hi.owner t ht)
      exact { hone with sound := hi.sound, owner := htls }
  | socks5Ready =>
      refine { hone with sound := hi.sound, owner := ?_ }
      intro t ht
      dsimp only at ht
      split at ht
      · obtain rfl := Option.some.inj ht
        rfl
      · exact hi.owner t ht
  | @connect ok hp =>
      exact owned_connect hone hi.sound hi.owner fun htls => hw.socket_eq_none (hp.2 htls)
  | @redirect _ _ ok todo pool ht ms hp htls =>
      obtain ⟨state, handles, heq, hcase⟩ :=
        disconnect_cases (s := { s with todo, expire := 0, keepAlive := ms })
      have hsound : ∀ h < s.next, (handles h).Sound := by
        rcases hcase with ⟨-, rfl, -⟩ | ⟨k, -, -, rfl⟩
        · exact hi.sound
        · exact hi.update Handle.Sound.close
      rw [heq] at hone ⊢
      exact owned_connect hone hsound hi.owner fun htls => hw.socket_eq_none (hp.2 htls)

theorem owned_reconnect (hi : s.Owned) : s.reconnect.Owned := by
  have hone : s.reconnect.OneSocket := oneSocket_reconnect hi.toOneSocket
  obtain ⟨state, expire, failures, f, heq⟩ := reconnect_eq (s := s)
  rw [heq] at hone ⊢
  exact { hone with sound := hi.sound, owner := hi.owner }

theorem Owned.onResolved (hi : s.Owned) (hw : s.Wired) (hl : 0 < s.lookups)
    (records : Option Bool) (started : Bool) : (s.onResolved records started).Owned := by
  have hone : (s.onResolved records started).OneSocket :=
    hi.toOneSocket.onResolved hl records started
  obtain ⟨records', heq | heq⟩ := onResolved_cases (s := s) records started
  · obtain ⟨expire, hto⟩ := connectTo_eq
      (s := { s with lookups := s.lookups - 1, records := records' }) started
    have hnone : s.socket = none := hw.socket_eq_none fun h _ => hi.idle hl h
    rw [heq, hto] at hone ⊢
    refine { hone with sound := ?_, owner := ?_ }
    · intro h hh
      by_cases hnew : h = s.next
      · subst hnew
        exact .inl (by simp)
      · dsimp only at hh ⊢
        rw [Function.update_of_ne hnew]
        exact hi.sound h (by omega)
    · intro t ht
      have howner : t.owner = s.socket.getD s.next := hi.owner t ht
      rw [hnone] at howner
      exact howner
  · rw [heq]
    refine owned_reconnect ?_
    exact
      { lookups := (Nat.sub_le _ _).trans hi.lookups
        idle := fun _ => hi.idle hl
        socket := hi.socket
        sound := hi.sound
        owner := hi.owner }

/-- What the close callback of the socket does. -/
theorem onClose_of_socket (hs : s.socket = some h) : s.onClose h = { s with
    handles := Function.update s.handles h { s.handles h with state := .closed }
    socket := none
    state := .UnconnectedState
    tls := none }.reconnect := by
  unfold onClose
  rw [setState_plain (by decide) (by decide) (by decide)]
  simp only [deleteSocket, hs, if_true]

theorem Owned.onClose (hi : s.Owned) (hc : (s.handles h).state = .closing) :
    (s.onClose h).Owned := by
  have hone : (s.onClose h).OneSocket := (hi.toOneSocket.onClose hc).1
  have hsocket : s.socket = some h := hi.socket h (.inr hc)
  have hsound : ∀ k < s.next,
      (Function.update s.handles h { s.handles h with state := .closed } k).Sound := by
    refine hi.update ?_
    rintro (⟨ho, -⟩ | ⟨-, hcloses⟩)
    · exact nomatch ho.symm.trans hc
    · exact .inr ⟨.inr rfl, hcloses⟩
  rw [onClose_of_socket hsocket] at hone ⊢
  obtain ⟨state, expire, failures, f, heq⟩ := reconnect_eq (s := { s with
    handles := Function.update s.handles h { s.handles h with state := .closed }
    socket := none
    state := .UnconnectedState
    tls := none })
  rw [heq] at hone ⊢
  exact { hone with sound := hsound, owner := nofun }

/-- **One socket at a time**, where `connect` finds no lookup and no socket.  A socket is
only replaced when no handle is open or closing; a handle that was created is the socket,
or it was closed once; and the close callback of a handle deletes that handle, and a `Tls`
that belongs to it. -/
theorem one_socket (h : machine.ReachableIf (Calls Exclusive) s) :
    (∀ e s', Calls Exclusive s e → machine.step s e = some s' → s'.socket ≠ s.socket →
      s'.socket ≠ none → ∀ k, ¬ s.Live k) ∧
    (∀ k < s.next, s.Open k ∧ s.socket = some k ∧ (s.handles k).closes = 0 ∨
      (s.handles k).state = .closing ∧ s.socket = some k ∧ (s.handles k).closes = 1 ∨
      (s.handles k).state = .closed ∧ (s.handles k).closes = 1) ∧
    ∀ k s', machine.step s (.closed k) = some s' → s.socket = some k ∧
      (∀ t, s.tls = some t → t.owner = k) ∧ (s'.handles k).state = .closed ∧
      s'.socket = none ∧ s'.tls = none ∧ ∀ j ≠ k, s'.handles j = s.handles j := by
  obtain ⟨-, hi⟩ : s.Wired ∧ s.Owned := invariant h (fun pool r n _ => owned_init pool r n)
    (fun _ _ hw hi he => hi.effect hw he)
    (fun _ records started hw hi hl => hi.onResolved hw hl records started)
    (fun _ _ _ hi hc => hi.onClose hc)
  refine ⟨fun e s' hp hs hsocket hnew => hi.not_live_of_step hp hs hsocket hnew, ?_, ?_⟩
  · intro k hk
    rcases hi.sound k hk with ⟨ho, hcloses⟩ | ⟨hc | hc, hcloses⟩
    · exact .inl ⟨ho, hi.socket k (.inl ho), hcloses⟩
    · exact .inr (.inl ⟨hc, hi.socket k (.inr hc), hcloses⟩)
    · exact .inr (.inr ⟨hc, hcloses⟩)
  · intro k s' hs
    obtain ⟨⟨-, hc, -⟩, hs⟩ := Option.ite_none_right_eq_some.mp hs
    obtain rfl := Option.some.inj hs
    have hsocket : s.socket = some k := hi.socket k (.inr hc)
    obtain ⟨state, expire, failures, f, heq⟩ := reconnect_eq (s := { s with
      handles := Function.update s.handles k { s.handles k with state := .closed }
      socket := none
      state := .UnconnectedState
      tls := none })
    rw [onClose_of_socket hsocket, heq]
    refine ⟨hsocket, ?_, by simp, rfl, rfl, fun j hj => by simp [hj]⟩
    intro t ht
    rw [hi.owner t ht, hsocket]
    rfl

/-- A socket is closed before the client connects again. -/
theorem one_socket_again : ∃ s, machine.ReachableIf (Calls Exclusive) s ∧ s.socket = some 1 ∧
    (s.handles 0).state = .closed ∧ (s.handles 0).closes = 1 := by
  let events : List Event :=
    [.connect true, .resolved (some true) true, .connected 0 false .accepted, .closed 0,
      .elapse 6000, .tick true .accepted, .resolved (some true) true]
  have hm : machine.Meets (Calls Exclusive) (sample true) events := by decide +kernel
  have hrun : (machine.run (sample true) events).any (fun s => decide
      (s.next = 2 ∧ s.socket = some 1)) = true := by decide +kernel
  obtain ⟨s, hs, hp⟩ := Machine.ReachableIf.exists_of_run (init_sample true) hm hrun
  obtain ⟨hnext, hsocket⟩ := of_decide_eq_true hp
  rcases (one_socket hs).2.1 0 (by omega) with ⟨-, h0, -⟩ | ⟨-, h0, -⟩ | ⟨hclosed, hcloses⟩
  · rw [hsocket] at h0
    exact absurd h0 (by decide)
  · rw [hsocket] at h0
    exact absurd h0 (by decide)
  · exact ⟨s, hs, hsocket, hclosed, hcloses⟩

/-- **A redirect leaves two sockets.**  The lookup completes while the old socket is
closing, and the close callback of the old socket deletes the new one while it is open,
and the `Tls` of the new one. -/
theorem two_sockets : ∃ s, machine.Reachable s ∧ s.socket = some 1 ∧
    (s.handles 0).state = .closing ∧ s.Open 1 ∧ s.tls = some ⟨false, false, false, 1⟩ ∧
    ∃ s', machine.step s (.closed 0) = some s' ∧ (s'.handles 1).state = .freed ∧
      (s'.handles 1).closes = 0 ∧ s'.tls = none := by
  let events : List Event :=
    [.connect true, .resolved (some true) true, .connected 0 true .accepted,
      .received 0 (some ⟨.short, .finished true, []⟩) .accepted,
      .received 0 (some ⟨.short, .wantRead, [.redirect (bytes "b") 4444 true]⟩) .accepted,
      .proceed, .resolved (some true) true]
  have hrun : (machine.run (sample true) events).any (fun s => decide
      ((s.socket = some 1 ∧ (s.handles 0).state = .closing ∧ s.Open 1 ∧
        s.tls = some ⟨false, false, false, 1⟩) ∧
      (machine.step s (.closed 0)).any (fun s' => decide
        ((s'.handles 1).state = .freed ∧ (s'.handles 1).closes = 0 ∧ s'.tls = none)) = true)) =
      true := by decide +kernel
  obtain ⟨s, hs, hp⟩ := Machine.Reachable.exists_of_run (init_sample true) hrun
  obtain ⟨⟨hsocket, hclosing, hopen, htls⟩, hstep⟩ := of_decide_eq_true hp
  cases hs' : machine.step s (.closed 0) with
  | none =>
      rw [hs'] at hstep
      contradiction
  | some s' =>
      rw [hs'] at hstep
      exact ⟨s, hs, hsocket, hclosing, hopen, htls, s', hs', of_decide_eq_true hstep⟩

/-! ## The login -/

/-- With TLS, `connect` is called without a lookup or a socket, unless the request is not
taken. -/
def Fresh (s : Connection) : Call → Prop
  | .connect pool ok => pool.isTLS = true → ok = true → s.lookups = 0 ∧ s.Idle
  | .disconnect => True

instance (s : Connection) : (c : Call) → Decidable (s.Fresh c)
  | .connect _ _ => inferInstanceAs (Decidable (_ → _))
  | .disconnect => inferInstanceAs (Decidable True)

/-- There is a layer to be passed before the login. -/
def Layer (s : Connection) : Prop := s.socks5 ≠ none ∨ s.tls ≠ none

/-- A lookup and a socket have a layer. -/
structure Layered (s : Connection) : Prop extends s.OneSocket where
  layer : 0 < s.lookups ∨ (∃ h, s.Live h) → s.Layer

/-- The login was never sent in the clear when the pool has TLS. -/
def Encrypted (log : List (Intent × Entry)) : Prop :=
  ∀ entry ∈ log, ∀ secure, entry.2 = .login true secure → secure = true

/-- What keeps the login from being sent in the clear. -/
structure Covered (s : Connection) : Prop where
  log : Encrypted s.log
  layered : s.pool.isTLS = true → s.Layered

theorem Encrypted.cons {log : List (Intent × Entry)} {intent : Intent} {e : Entry}
    (hl : Encrypted log) (he : ∀ secure, e = .login true secure → secure = true) :
    Encrypted ((intent, e) :: log) := by
  intro entry hm secure heq
  rcases List.mem_cons.mp hm with rfl | hm
  · exact he secure heq
  · exact hl entry hm secure heq

theorem covered_init (pool : Pool) (retryPause now : Nat) : (init pool retryPause now).Covered where
  log := fun _ h => absurd h List.not_mem_nil
  layered := fun _ =>
    { oneSocket_init pool retryPause now with
      layer := by
        rintro (hl | ⟨h, hl | hl⟩)
        · exact absurd hl (Nat.lt_irrefl 0)
        · exact nomatch hl
        · exact nomatch hl }

theorem Effect.isTLS (he : Effect P s s') : s'.pool.isTLS = s.pool.isTLS := by
  have hconnect : ∀ (t : Connection) ok, (t.connect ok).pool = t.pool := by
    intro t ok
    obtain ⟨expire, host, records, socks5, tls, -, heq⟩ := connect_eq (s := t) ok
    rw [heq]
  cases he with
  | pool htls => exact htls
  | elapse | keepAlive | sent | login | socks5 | socks5Ready | tls | received | line | job
  | loginJob | loginSuccess | called | connected => rfl
  | close =>
      rcases close_cases (s := s) with ⟨heq, -⟩ | ⟨k, -, heq⟩ <;> rw [heq]
  | disconnect => rw [pool_disconnect]
  | connect => rw [hconnect]
  | redirect ht ms hp htls => rw [hconnect]; exact htls

theorem layer_connect (ok : Bool) (htls : s.pool.isTLS = true) : (s.connect ok).Layer := by
  obtain ⟨expire, host, records, socks5, tls, hprepared, heq⟩ := connect_eq (s := s) ok
  rw [heq]
  rcases hprepared with ⟨-, rfl, -⟩ | ⟨-, -, -, rfl⟩ | ⟨hnone, -, -⟩
  · exact .inl (Option.some_ne_none _)
  · exact .inr (Option.some_ne_none _)
  · exact absurd htls (ne_true_of_eq_false hnone)

/-- Effects keep a layer, and `connect` creates one. -/
theorem Effect.layer (he : Effect P s s') (htls : s.pool.isTLS = true)
    (h : s'.lookups = s.lookups → s.Layer) : s'.Layer := by
  cases he with
  | pool | elapse | keepAlive | sent | login | received | line | job | loginJob | loginSuccess
  | called | connected => exact h rfl
  | close =>
      rcases close_cases (s := s) with ⟨heq, -⟩ | ⟨k, -, heq⟩
      · rw [heq] at h ⊢
        exact h rfl
      · rw [heq] at h ⊢
        exact h rfl
  | disconnect =>
      obtain ⟨state, handles, heq, -⟩ := disconnect_cases (s := s)
      rw [heq] at h ⊢
      exact h rfl
  | connect => exact layer_connect _ htls
  | socks5 => exact .inl (Option.some_ne_none _)
  | socks5Ready =>
      refine .inr ?_
      cases ht : s.tls <;> simp [htls]
  | tls => exact .inr (Option.some_ne_none _)
  | redirect ht ms hp hpool => exact layer_connect _ (hpool.trans htls)

theorem Layered.effect (hi : s.Layered) (hw : s.Wired) (htls : s.pool.isTLS = true)
    (he : Effect Fresh s s') : s'.Layered where
  toOneSocket := hi.toOneSocket.effect hw he fun pool hpool hp => hp (hpool.trans htls) rfl
  layer := by
    intro hneeds
    refine he.layer htls ?_
    intro hl
    refine hi.layer ?_
    rw [hl] at hneeds
    exact hneeds.imp_right (Exists.imp fun h => (he.frame.live h).mp)

/-- A login is sent over a socket, which has passed the `Socks5` but for a `Tls`. -/
theorem Layered.secure (hi : s.Layered) (hw : s.Wired) (htls : s.pool.isTLS = true)
    (hc : s.state = .ConnectedState) (h5 : s.socks5 = none)
    (hs : s.isTLS = true → s.secure = true) : s.secure = true := by
  obtain ⟨h, hsocket⟩ := Option.ne_none_iff_exists'.mp (hw.connected (.inr hc))
  have hlayer : s.Layer := hi.layer (.inr ⟨h, hw.socket h hsocket⟩)
  have hsome : s.tls ≠ none := hlayer.resolve_left (not_not_intro h5)
  refine hs ?_
  simp [isTLS, htls, Option.isSome_iff_ne_none.mpr hsome]

theorem log_connect (ok : Bool) : (s.connect ok).log = s.log := by
  obtain ⟨expire, host, records, socks5, tls, -, heq⟩ := connect_eq (s := s) ok
  rw [heq]

theorem Covered.log_effect (hi : s.Covered) (hw : s.Wired) (he : Effect Fresh s s') :
    Encrypted s'.log := by
  cases he with
  | pool | elapse | keepAlive | sent | socks5 | socks5Ready | tls | received | line | called =>
      exact hi.log
  | connected | job | loginJob | loginSuccess => exact hi.log.cons nofun
  | login hc h5 hs =>
      refine hi.log.cons ?_
      intro secure heq
      obtain ⟨htls, hsecure⟩ := Entry.login.inj heq
      rw [← hsecure]
      exact (hi.layered htls).secure hw htls hc h5 hs
  | close =>
      rcases close_cases (s := s) with ⟨heq, -⟩ | ⟨k, -, heq⟩ <;> rw [heq] <;> exact hi.log
  | disconnect =>
      obtain ⟨state, handles, heq, -⟩ := disconnect_cases (s := s)
      rw [heq]
      exact hi.log
  | connect =>
      rw [log_connect]
      exact hi.log
  | @redirect _ _ _ todo pool ht ms hp htls =>
      obtain ⟨state, handles, heq, -⟩ :=
        disconnect_cases (s := { s with todo, expire := 0, keepAlive := ms })
      rw [heq, log_connect]
      exact hi.log

theorem Covered.effect (hi : s.Covered) (hw : s.Wired) (he : Effect Fresh s s') : s'.Covered where
  log := hi.log_effect hw he
  layered := by
    intro htls
    have htls' : s.pool.isTLS = true := he.isTLS ▸ htls
    exact (hi.layered htls').effect hw htls' he

theorem covered_reconnect (hl : Encrypted s.log) (hi : s.pool.isTLS = true → s.Layered) :
    s.reconnect.Covered := by
  obtain ⟨state, expire, failures, f, heq⟩ := reconnect_eq (s := s)
  rw [heq]
  refine ⟨hl.cons nofun, fun htls => ?_⟩
  exact { hi htls with }

theorem Covered.onResolved (hi : s.Covered) (hl : 0 < s.lookups) (records : Option Bool)
    (started : Bool) : (s.onResolved records started).Covered := by
  have hone : s.pool.isTLS = true → (s.onResolved records started).OneSocket :=
    fun htls => (hi.layered htls).toOneSocket.onResolved hl records started
  obtain ⟨records', heq | heq⟩ := onResolved_cases (s := s) records started
  · obtain ⟨expire, hto⟩ := connectTo_eq
      (s := { s with lookups := s.lookups - 1, records := records' }) started
    rw [heq, hto] at hone ⊢
    exact ⟨hi.log, fun htls =>
      { hone htls with layer := fun _ => (hi.layered htls).layer (.inl hl) }⟩
  · rw [heq]
    refine covered_reconnect hi.log fun htls => ?_
    have hlayered : s.Layered := hi.layered htls
    exact
      { lookups := (Nat.sub_le _ _).trans hlayered.lookups
        idle := fun _ => hlayered.idle hl
        socket := hlayered.socket
        layer := fun _ => hlayered.layer (.inl hl) }

theorem Covered.onClose (hi : s.Covered) (hc : (s.handles h).state = .closing) :
    (s.onClose h).Covered := by
  have hone : s.pool.isTLS = true → (s.onClose h).OneSocket ∧ (s.onClose h).lookups = 0 ∧
      ∀ k, ¬ (s.onClose h).Live k := fun htls => (hi.layered htls).toOneSocket.onClose hc
  obtain ⟨handles, -, heq⟩ := onClose_eq (s := s) h
  obtain ⟨state, expire, failures, f, hre⟩ := reconnect_eq
    (s := { s with handles, socket := none, state := .UnconnectedState, tls := none })
  rw [heq, hre] at hone ⊢
  refine ⟨hi.log.cons nofun, fun htls => ?_⟩
  obtain ⟨hsocket, hlookups, hnone⟩ := hone htls
  exact { hsocket with
    layer := by
      rintro (hl | ⟨k, hk⟩)
      · exact absurd hlookups hl.ne'
      · exact absurd hk (hnone k) }

/-- **The login is not sent in the clear** to a pool with TLS, where `connect` finds no
lookup and no socket: it goes through a `Tls` that has finished and was verified. -/
theorem login_secure (h : machine.ReachableIf (Calls Fresh) s) :
    ∀ entry ∈ s.log, ∀ secure, entry.2 = .login true secure → secure = true := by
  obtain ⟨-, hi⟩ : s.Wired ∧ s.Covered := invariant h (fun pool r n _ => covered_init pool r n)
    (fun _ _ hw hi he => hi.effect hw he)
    (fun _ records started _ hi hl => hi.onResolved hl records started)
    (fun _ _ _ hi hc => hi.onClose hc)
  exact hi.log

/-- A login over TLS. -/
theorem login_secure_once : ∃ s, machine.ReachableIf (Calls Fresh) s ∧ ∃ secure,
    s.log = [(.connect, .login true secure), (.connect, .connected)] ∧ secure = true := by
  let events : List Event :=
    [.connect true, .resolved (some true) true, .connected 0 true .accepted,
      .received 0 (some ⟨.short, .finished true, []⟩) .accepted]
  have hm : machine.Meets (Calls Fresh) (sample true) events := by decide +kernel
  have hrun : (machine.run (sample true) events).any (fun s => decide
      (∃ secure, s.log = [(.connect, .login true secure), (.connect, .connected)])) = true := by
    decide +kernel
  obtain ⟨s, hs, hp⟩ := Machine.ReachableIf.exists_of_run (init_sample true) hm hrun
  obtain ⟨secure, hlog⟩ := of_decide_eq_true hp
  have hm : (Intent.connect, Entry.login true secure) ∈ s.log := by
    rw [hlog]
    exact List.mem_cons_self
  exact ⟨s, hs, secure, hlog, login_secure hs _ hm secure rfl⟩

/-- **A redirect sends the login in the clear.**  The close callback of the old socket
deletes the new `Tls`, and the handshake of the new socket goes without one. -/
theorem login_clear : ∃ s, machine.Reachable s ∧ s.pool.isTLS = true ∧
    (.connect, .login true false) ∈ s.log := by
  let events : List Event :=
    [.connect true, .resolved (some true) true, .connected 0 true .accepted,
      .received 0 (some ⟨.short, .finished true, []⟩) .accepted,
      .received 0 (some ⟨.short, .wantRead, [.redirect (bytes "b") 4444 true]⟩) .accepted,
      .proceed, .closed 0, .resolved (some true) true, .connected 1 true .accepted]
  have hrun : (machine.run (sample true) events).any (fun s => decide
      (s.pool.isTLS = true ∧ (.connect, .login true false) ∈ s.log)) = true := by decide +kernel
  obtain ⟨s, hs, hp⟩ := Machine.Reachable.exists_of_run (init_sample true) hrun
  exact ⟨s, hs, of_decide_eq_true hp⟩

end Connection

end Client

end XLArig
