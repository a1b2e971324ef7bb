import XLArig.Client.Connection

/-!
# XLArig.Client.Socks5

`base/net/stratum/Socks5` and the reads of a `Client` that is behind a proxy, byte by byte.

A server answers twice: with two bytes that choose a method, and with a reply to the connect
request whose length depends on an address.  `Socks5::read` looks at one read at a time: it drops
a read that is too short, and of the others it looks at the first two bytes and drops the rest.
`meets_iff_cut` says for which ways of cutting what the server sends this comes to the same as reading
the answers.
-/

namespace XLArig

/-- `Socks5::State`. -/
inductive Socks5.State
  | Created
  | SentInitialHandshake
  | SentFinalHandshake
  | Ready
  deriving DecidableEq, Repr

/-- `Client::Socks5`. -/
structure Socks5 where
  nextSize : Nat
  state : Socks5.State
  deriving DecidableEq, Repr

namespace Socks5

/-! ## The client -/

/-- What `uv_ip4_addr` and `uv_ip6_addr` make of the host of the pool. -/
inductive Target
  | ipv4 (addr : List UInt8)
  | ipv6 (addr : List UInt8)
  | name

/-- The part of a `Client` with a proxy that reads.  `m_tls` is there or not; what was written,
passed to `Tls::read` and passed to `LineReader::parse` is kept, and how often `handshake` was
called for what is behind the proxy: it logs in, after a handshake of TLS if the pool wants it. -/
structure Proxied where
  pool : Pool
  target : Target
  socks5 : Option Socks5
  tls : Bool
  closed : Bool
  handshakes : Nat
  written : List (List UInt8)
  tlsInput : List UInt8
  lineInput : List UInt8

namespace Proxied

/-- `Client::close`; nothing is read after it. -/
def close (c : Proxied) : Proxied := { c with closed := true }

/-- `Client::write`, where it succeeds. -/
def write (c : Proxied) (buf : List UInt8) : Proxied := { c with written := c.written ++ [buf] }

end Proxied

/-- The buffer of `Socks5::connect`. -/
def request (target : Target) (host : List UInt8) (port : UInt16) : List UInt8 :=
  let port := [.ofNat (port.toNat / 256), .ofNat (port.toNat % 256)]
  match target with
  | .ipv4 addr => [0x05, 0x01, 0x00, 0x01] ++ addr ++ port
  | .ipv6 addr => [0x05, 0x01, 0x00, 0x04] ++ addr ++ port
  | .name => [0x05, 0x01, 0x00, 0x03, .ofNat host.length] ++ host ++ port

/-- `Socks5::connect`. -/
def connect (c : Proxied) : Proxied :=
  { c with socks5 := some ⟨5, .SentFinalHandshake⟩ }.write
    (request c.target (c.pool.url.host.getD []) c.pool.url.port)

/-- `Socks5::handshake`. -/
def handshake (c : Proxied) : Proxied :=
  { c with socks5 := some ⟨2, .SentInitialHandshake⟩ }.write [0x05, 0x01, 0x00]

/-- The first two bytes say that the version is right and there is no error. -/
def accepts : List UInt8 → Bool
  | 0x05 :: 0x00 :: _ => true
  | _ => false

/-- `Socks5::read`. -/
def read (s : Socks5) (c : Proxied) (data : List UInt8) : Proxied :=
  if data.length < s.nextSize then c
  else if accepts data then
    if s.state = .SentInitialHandshake then connect c
    else { c with socks5 := some { s with state := .Ready } }
  else c.close

namespace Proxied

/-- The data goes to `Tls::read` or to `LineReader::parse`. -/
def pass (c : Proxied) (data : List UInt8) : Proxied :=
  if c.pool.isTLS && c.tls then { c with tlsInput := c.tlsInput ++ data }
  else { c with lineInput := c.lineInput ++ data }

/-- `Client::read`. -/
def read (c : Proxied) (data : List UInt8) : Proxied :=
  if c.closed then c
  else
    match c.socks5 with
    | some s =>
        let c := s.read c data
        if c.socks5.any fun s => s.state = .Ready then
          { c with
            socks5 := none
            tls := c.tls || c.pool.isTLS
            handshakes := c.handshakes + 1 }
        else c
    | none => c.pass data

def run (c : Proxied) (reads : List (List UInt8)) : Proxied := reads.foldl read c

/-- The connection to the proxy was made, and `handshake` was called. -/
def start (pool : Pool) (target : Target) : Proxied :=
  handshake ⟨pool, target, some ⟨0, .Created⟩, false, false, 0, [], [], []⟩

end Proxied

/-! ## Servers -/

/-- The address in a reply: of four bytes, a name with its length, or of sixteen bytes. -/
inductive Address
  | ipv4 (addr : Fin 4 → UInt8)
  | domain (name : List UInt8) (length : name.length < 256)
  | ipv6 (addr : Fin 16 → UInt8)

def Address.bytes : Address → List UInt8
  | .ipv4 addr => 0x01 :: .ofFn addr
  | .domain name _ => 0x03 :: .ofNat name.length :: name
  | .ipv6 addr => 0x04 :: .ofFn addr

/-- A reply to the connect request. -/
structure Reply where
  version : UInt8
  status : UInt8
  address : Address
  port : UInt8 × UInt8

def Reply.bytes (r : Reply) : List UInt8 :=
  [r.version, r.status, 0x00] ++ r.address.bytes ++ [r.port.1, r.port.2]

/-- What a server does: it grants the connection, and the bytes of the pool follow; it answers the
choice of a method with another version or method; or it refuses to connect.  Whatever it sends
after a refusal is `rest`. -/
inductive Server
  | grants (address : Address) (port : UInt8 × UInt8) (pool : List UInt8)
  | noMethod (version method : UInt8) (bad : version ≠ 0x05 ∨ method ≠ 0x00) (rest : List UInt8)
  | refuses (reply : Reply) (bad : reply.version ≠ 0x05 ∨ reply.status ≠ 0x00) (rest : List UInt8)

/-- What a server that grants the connection sends before the bytes of the pool. -/
def granted (address : Address) (port : UInt8 × UInt8) : List UInt8 :=
  [0x05, 0x00] ++ Reply.bytes ⟨0x05, 0x00, address, port⟩

def Server.stream : Server → List UInt8
  | .grants address port pool => granted address port ++ pool
  | .noMethod version method _ rest => [version, method] ++ rest
  | .refuses reply _ rest => [0x05, 0x00] ++ reply.bytes ++ rest

/-- The client has called `handshake` once if all of `answers` was delivered, and else never; what
was delivered after it, and nothing else, was passed to the layer that the pool wants. -/
def Follows (c : Proxied) (answers delivered : List UInt8) : Prop :=
  c.handshakes = (if answers.length ≤ delivered.length then 1 else 0) ∧
    (if c.pool.isTLS then c.tlsInput else c.lineInput) = delivered.drop answers.length ∧
    (if c.pool.isTLS then c.lineInput else c.tlsInput) = []

/-- What the reads of a server should come to: after each of them the client follows a server that
grants the connection, and at last it has closed a connection that another refused. -/
def Server.Meets (c : Proxied) (reads : List (List UInt8)) : Server → Prop
  | .grants address port _ => ∀ before after, reads = before ++ after →
      Follows (c.run before) (granted address port) before.flatten
  | .noMethod .. | .refuses .. => (c.run reads).closed = true

/-- The first read of at least `n` bytes, and those after it. -/
def firstLong (n : Nat) : List (List UInt8) → Option (List UInt8 × List (List UInt8))
  | [] => none
  | data :: reads => if data.length < n then firstLong n reads else some (data, reads)

/-- How the stream of a server must be cut.  There is a first read of two bytes or more, and after
it a first one of five bytes or more.  If the connection is granted both begin with `05 00`, and
what comes after the second is what the pool sent; else one of them does not. -/
def Server.Cut (reads : List (List UInt8)) : Server → Prop
  | .grants _ _ pool => ∃ x after y rest, firstLong 2 reads = some (x, after) ∧ accepts x = true ∧
      firstLong 5 after = some (y, rest) ∧ accepts y = true ∧ rest.flatten = pool
  | .noMethod .. | .refuses .. => ∃ x after, firstLong 2 reads = some (x, after) ∧
      (accepts x = false ∨ ∃ y rest, firstLong 5 after = some (y, rest) ∧ accepts y = false)

/-! ## Reads that are long enough -/

section

variable {n : Nat} {x : List UInt8} {l l' rest : List (List UInt8)}

theorem firstLong_append_none (h : firstLong n l = none) (l' : List (List UInt8)) :
    firstLong n (l ++ l') = firstLong n l' := by
  induction l with
  | nil => rfl
  | cons data l ih =>
      unfold firstLong at h
      split at h
      · next hlt => rw [List.cons_append, firstLong, if_pos hlt, ih h]
      · contradiction

theorem firstLong_append_some (h : firstLong n l = some (x, rest)) (l' : List (List UInt8)) :
    firstLong n (l ++ l') = some (x, rest ++ l') := by
  induction l with
  | nil => contradiction
  | cons data l ih =>
      unfold firstLong at h
      split at h
      · next hlt => rw [List.cons_append, firstLong, if_pos hlt, ih h]
      · next hge =>
          obtain ⟨rfl, rfl⟩ := Prod.mk.inj (Option.some.inj h)
          rw [List.cons_append, firstLong, if_neg hge]

/-- The read is as long as it should be, and it stands before what follows. -/
theorem firstLong_length (h : firstLong n l = some (x, rest)) :
    n + rest.flatten.length ≤ l.flatten.length := by
  induction l with
  | nil => contradiction
  | cons data l ih =>
      unfold firstLong at h
      rw [List.flatten_cons, List.length_append]
      split at h
      · have hle := ih h
        omega
      · next hge =>
          obtain ⟨rfl, rfl⟩ := Prod.mk.inj (Option.some.inj h)
          omega

end

/-! ## Runs -/

section

variable {c : Proxied} {s : Socks5} {x : List UInt8} {reads rest : List (List UInt8)}

theorem run_append (l l' : List (List UInt8)) : c.run (l ++ l') = (c.run l).run l' :=
  List.foldl_append

theorem run_closed (h : c.closed = true) (reads : List (List UInt8)) : c.run reads = c := by
  induction reads with
  | nil => rfl
  | cons data reads ih =>
      have hread : c.read data = c := if_pos h
      rw [Proxied.run, List.foldl_cons, hread]
      exact ih

/-- Reads that are too short change nothing. -/
theorem read_short (hopen : c.closed = false) (hs : c.socks5 = some s) (hstate : s.state ≠ .Ready)
    (h : x.length < s.nextSize) : c.read x = c := by
  have hnot : ¬ s.state = .Ready := hstate
  simp [Proxied.read, hopen, hs, read, h, hnot]

theorem run_none (hopen : c.closed = false) (hs : c.socks5 = some s) (hstate : s.state ≠ .Ready)
    (h : firstLong s.nextSize reads = none) : c.run reads = c := by
  induction reads with
  | nil => rfl
  | cons data reads ih =>
      unfold firstLong at h
      split at h
      · next hlt =>
          rw [Proxied.run, List.foldl_cons, read_short hopen hs hstate hlt]
          exact ih h
      · contradiction

theorem run_some (hopen : c.closed = false) (hs : c.socks5 = some s) (hstate : s.state ≠ .Ready)
    (h : firstLong s.nextSize reads = some (x, rest)) :
    s.nextSize ≤ x.length ∧ c.run reads = (c.read x).run rest := by
  induction reads with
  | nil => contradiction
  | cons data reads ih =>
      unfold firstLong at h
      split at h
      · next hlt =>
          rw [Proxied.run, List.foldl_cons, read_short hopen hs hstate hlt]
          exact ih h
      · next hge =>
          obtain ⟨rfl, rfl⟩ := Prod.mk.inj (Option.some.inj h)
          exact ⟨Nat.le_of_not_lt hge, rfl⟩

/-- What is long enough is looked at. -/
theorem read_long (hopen : c.closed = false) (hs : c.socks5 = some s) (hstate : s.state ≠ .Ready)
    (h : s.nextSize ≤ x.length) : c.read x =
      if accepts x then
        if s.state = .SentInitialHandshake then connect c
        else { c with
          socks5 := none
          tls := c.tls || c.pool.isTLS
          handshakes := c.handshakes + 1 }
      else c.close := by
  have hlong : ¬ x.length < s.nextSize := Nat.not_lt_of_le h
  have hnot : ¬ s.state = .Ready := hstate
  cases hx : accepts x with
  | false => simp [Proxied.read, hopen, hs, read, hlong, hx, hnot, Proxied.close]
  | true =>
      by_cases hinitial : s.state = .SentInitialHandshake
      · simp [Proxied.read, hopen, hs, read, hlong, hx, hinitial, connect, Proxied.write]
      · simp [Proxied.read, hopen, hs, read, hlong, hx, hinitial]

theorem pass_nil : c.pass [] = c := by
  unfold Proxied.pass
  split <;> simp

theorem pass_pass (data data' : List UInt8) :
    (c.pass data).pass data' = c.pass (data ++ data') := by
  unfold Proxied.pass
  split <;> simp

/-- Behind the proxy all that is read is passed on. -/
theorem run_behind (hopen : c.closed = false) (hs : c.socks5 = none)
    (reads : List (List UInt8)) : c.run reads = c.pass reads.flatten := by
  induction reads generalizing c with
  | nil => exact pass_nil.symm
  | cons data reads ih =>
      have hread : c.read data = c.pass data := by simp [Proxied.read, hopen, hs]
      have hkeeps : (c.pass data).closed = c.closed ∧ (c.pass data).socks5 = c.socks5 := by
        unfold Proxied.pass
        split <;> exact ⟨rfl, rfl⟩
      rw [Proxied.run, List.foldl_cons, hread, List.flatten_cons, ← pass_pass]
      exact ih (hkeeps.1.trans hopen) (hkeeps.2.trans hs)

end

/-! ## The reads of a server -/

variable (pool : Pool) (target : Target) {x y : List UInt8} {reads after rest : List (List UInt8)}

theorem socks5_start : (Proxied.start pool target).socks5 = some ⟨2, .SentInitialHandshake⟩ := rfl

/-- The method is chosen, and the request was sent. -/
def asked : Proxied := connect (.start pool target)

/-- The proxy has connected. -/
def behind : Proxied :=
  { asked pool target with
    socks5 := none
    tls := pool.isTLS
    handshakes := 1 }

/-- Where no read is long enough for the answer that is waited for, nothing comes of it. -/
theorem run_start_none (h : firstLong 2 reads = none) :
    (Proxied.start pool target).run reads = .start pool target :=
  run_none rfl (socks5_start pool target) (by decide) h

theorem run_start_denied (h : firstLong 2 reads = some (x, after)) (hx : accepts x = false) :
    ((Proxied.start pool target).run reads).closed = true ∧
      ((Proxied.start pool target).run reads).handshakes = 0 := by
  obtain ⟨hlong, hrun⟩ := run_some rfl (socks5_start pool target) (by decide) h
  rw [hrun, read_long rfl (socks5_start pool target) (by decide) hlong, hx,
    if_neg Bool.false_ne_true, run_closed rfl]
  exact ⟨rfl, rfl⟩

theorem run_start_some (h : firstLong 2 reads = some (x, after)) (hx : accepts x = true) :
    (Proxied.start pool target).run reads = (asked pool target).run after := by
  obtain ⟨hlong, hrun⟩ := run_some rfl (socks5_start pool target) (by decide) h
  rw [hrun, read_long rfl (socks5_start pool target) (by decide) hlong, hx, if_pos rfl, if_pos rfl]
  rfl

theorem run_asked_none (h : firstLong 5 after = none) :
    (asked pool target).run after = asked pool target :=
  run_none (c := asked pool target) rfl rfl (by decide) h

theorem run_asked_denied (h : firstLong 5 after = some (y, rest)) (hy : accepts y = false) :
    ((asked pool target).run after).closed = true ∧
      ((asked pool target).run after).handshakes = 0 := by
  obtain ⟨hlong, hrun⟩ := run_some (c := asked pool target) rfl rfl (by decide) h
  rw [hrun, read_long rfl rfl (by decide) hlong, hy, if_neg Bool.false_ne_true, run_closed rfl]
  exact ⟨rfl, rfl⟩

theorem run_asked_some (h : firstLong 5 after = some (y, rest)) (hy : accepts y = true) :
    (asked pool target).run after = (behind pool target).run rest := by
  obtain ⟨hlong, hrun⟩ := run_some (c := asked pool target) rfl rfl (by decide) h
  rw [hrun, read_long rfl rfl (by decide) hlong, hy, if_pos rfl, if_neg (by decide)]
  rfl

/-- A client that is not behind the proxy follows the server as long as an answer is missing. -/
theorem follows_before {c : Proxied} {answers delivered : List UInt8} (hhandshakes : c.handshakes = 0)
    (hinput : c.tlsInput = [] ∧ c.lineInput = []) (h : delivered.length < answers.length) :
    Follows c answers delivered := by
  unfold Follows
  rw [hhandshakes, hinput.1, hinput.2, if_neg (Nat.not_le_of_lt h), ite_self,
    List.drop_eq_nil_of_le h.le]
  exact ⟨rfl, rfl, rfl⟩

theorem follows_behind_iff {answers delivered : List UInt8} :
    Follows ((behind pool target).run rest) answers delivered ↔
      answers.length ≤ delivered.length ∧ rest.flatten = delivered.drop answers.length := by
  have hpool : (behind pool target).pool = pool := rfl
  have htls : (behind pool target).tls = pool.isTLS := rfl
  have hinput : (behind pool target).tlsInput = [] ∧ (behind pool target).lineInput = [] :=
    ⟨rfl, rfl⟩
  have hhandshakes : (behind pool target).handshakes = 1 := rfl
  rw [run_behind rfl rfl]
  unfold Follows Proxied.pass
  rw [hpool, htls, Bool.and_self]
  cases hlayer : pool.isTLS <;> simp [hlayer, hinput, hhandshakes]

theorem closed_behind : ((behind pool target).run rest).closed = false := by
  rw [run_behind rfl rfl]
  unfold Proxied.pass
  split <;> rfl

/-- What reads come to: an answer is missing, or one of them was denied, or both were accepted. -/
theorem run_cases (reads : List (List UInt8)) :
    let c := (Proxied.start pool target).run reads
    (c.closed = false ∧ c.handshakes = 0 ∧ ∀ x after, firstLong 2 reads = some (x, after) →
        accepts x = true ∧ firstLong 5 after = none) ∨
      (c.closed = true ∧ c.handshakes = 0 ∧ ∃ x after, firstLong 2 reads = some (x, after) ∧
        (accepts x = false ∨ ∃ y rest, firstLong 5 after = some (y, rest) ∧ accepts y = false)) ∨
      ∃ x after y rest, firstLong 2 reads = some (x, after) ∧ accepts x = true ∧
        firstLong 5 after = some (y, rest) ∧ accepts y = true ∧ c = (behind pool target).run rest := by
  intro c
  cases hfirst : firstLong 2 reads with
  | none =>
      have hrun : c = .start pool target := run_start_none pool target hfirst
      exact .inl ⟨congrArg Proxied.closed hrun, congrArg Proxied.handshakes hrun, nofun⟩
  | some found =>
      obtain ⟨x, after⟩ := found
      cases hx : accepts x with
      | false =>
          obtain ⟨hclosed, hnone⟩ := run_start_denied pool target hfirst hx
          exact .inr (.inl ⟨hclosed, hnone, x, after, rfl, .inl hx⟩)
      | true =>
          have hrun : c = (asked pool target).run after := run_start_some pool target hfirst hx
          rw [hrun]
          cases hsecond : firstLong 5 after with
          | none =>
              rw [run_asked_none pool target hsecond]
              refine .inl ⟨rfl, rfl, fun x' after' h => ?_⟩
              obtain ⟨rfl, rfl⟩ := Prod.mk.inj (Option.some.inj h)
              exact ⟨hx, hsecond⟩
          | some found =>
              obtain ⟨y, rest⟩ := found
              cases hy : accepts y with
              | false =>
                  obtain ⟨hclosed, hnone⟩ := run_asked_denied pool target hsecond hy
                  exact .inr (.inl ⟨hclosed, hnone, x, after, rfl, .inr ⟨y, rest, hsecond, hy⟩⟩)
              | true =>
                  exact .inr (.inr ⟨x, after, y, rest, rfl, hx, hsecond, hy,
                    run_asked_some pool target hsecond hy⟩)

variable {pool target}

/-- A server that grants the connection: what is long enough ends where its answers do. -/
theorem meets_grants_iff {answers sent : List UInt8} (hreads : reads.flatten = answers ++ sent) :
    (∀ before after, reads = before ++ after →
      Follows ((Proxied.start pool target).run before) answers before.flatten) ↔
    ∃ x after y rest, firstLong 2 reads = some (x, after) ∧ accepts x = true ∧
      firstLong 5 after = some (y, rest) ∧ accepts y = true ∧ rest.flatten = sent := by
  have hlength := congrArg List.length hreads
  rw [List.length_append] at hlength
  constructor
  · intro h
    have hall := h reads [] (List.append_nil _).symm
    have hone : ((Proxied.start pool target).run reads).handshakes = 1 :=
      hall.1.trans (if_pos (by omega))
    obtain ⟨-, hnone, -⟩ | ⟨-, hnone, -⟩ | ⟨x, after, y, rest, hfirst, hx, hsecond, hy, hrun⟩ :=
      run_cases pool target reads
    · exact absurd (hnone.symm.trans hone) (by decide)
    · exact absurd (hnone.symm.trans hone) (by decide)
    · rw [hrun, follows_behind_iff, hreads, List.drop_left] at hall
      exact ⟨x, after, y, rest, hfirst, hx, hsecond, hy, hall.2⟩
  · rintro ⟨x, after, y, rest, hfirst, hx, hsecond, hy, hrest⟩ before later rfl
    have hafter := firstLong_length hsecond
    rw [List.flatten_append, List.length_append] at hlength
    rw [← hrest] at hlength
    cases hbefore : firstLong 2 before with
    | none =>
        rw [firstLong_append_none hbefore] at hfirst
        have hlater := firstLong_length hfirst
        rw [run_start_none pool target hbefore]
        exact follows_before rfl ⟨rfl, rfl⟩ (by omega)
    | some found =>
        obtain ⟨x', after'⟩ := found
        rw [firstLong_append_some hbefore] at hfirst
        obtain ⟨rfl, rfl⟩ := Prod.mk.inj (Option.some.inj hfirst)
        rw [run_start_some pool target hbefore hx]
        cases hsecond' : firstLong 5 after' with
        | none =>
            rw [firstLong_append_none hsecond'] at hsecond
            have hlater := firstLong_length hsecond
            rw [run_asked_none pool target hsecond']
            exact follows_before rfl ⟨rfl, rfl⟩ (by omega)
        | some found =>
            obtain ⟨y', rest'⟩ := found
            rw [firstLong_append_some hsecond'] at hsecond
            obtain ⟨rfl, rfl⟩ := Prod.mk.inj (Option.some.inj hsecond)
            rw [run_asked_some pool target hsecond' hy, follows_behind_iff]
            rw [List.flatten_append] at hreads hrest
            rw [← hrest, ← List.append_assoc] at hreads
            have hdelivered := List.append_cancel_right hreads
            rw [hdelivered, List.length_append, List.drop_left]
            exact ⟨Nat.le_add_right _ _, rfl⟩

/-- A server that refuses: the connection is closed just when what is long enough says so. -/
theorem closed_iff : ((Proxied.start pool target).run reads).closed = true ↔
    ∃ x after, firstLong 2 reads = some (x, after) ∧
      (accepts x = false ∨ ∃ y rest, firstLong 5 after = some (y, rest) ∧ accepts y = false) := by
  obtain ⟨hopen, -, hmissing⟩ | ⟨hclosed, -, hdenied⟩ |
    ⟨x, after, y, rest, hfirst, hx, hsecond, hy, hrun⟩ := run_cases pool target reads
  · refine iff_of_false (by simp [hopen]) ?_
    rintro ⟨x, after, hfirst, hdenied⟩
    obtain ⟨hx, hnone⟩ := hmissing x after hfirst
    obtain hx' | ⟨y, rest, hsecond, -⟩ := hdenied
    · exact Bool.false_ne_true (hx'.symm.trans hx)
    · exact Option.some_ne_none _ (hsecond.symm.trans hnone)
  · exact iff_of_true hclosed hdenied
  · refine iff_of_false ?_ ?_
    · rw [hrun, closed_behind]
      exact Bool.false_ne_true
    · rintro ⟨x', after', hfirst', hdenied⟩
      obtain ⟨rfl, rfl⟩ := Prod.mk.inj (Option.some.inj (hfirst.symm.trans hfirst'))
      obtain hx' | ⟨y', rest', hsecond', hy'⟩ := hdenied
      · exact Bool.false_ne_true (hx'.symm.trans hx)
      · obtain ⟨rfl, rfl⟩ := Prod.mk.inj (Option.some.inj (hsecond.symm.trans hsecond'))
        exact Bool.false_ne_true (hy'.symm.trans hy)

/-- **The handshake and how it is cut.**  The client follows a server that grants the connection,
and closes the connection of one that refuses it, just for those ways of cutting what the server
sends. -/
theorem meets_iff_cut (pool : Pool) (target : Target) (server : Server) (reads : List (List UInt8))
    (h : reads.flatten = server.stream) :
    server.Meets (.start pool target) reads ↔ server.Cut reads := by
  cases server with
  | grants address port sent => exact meets_grants_iff h
  | noMethod version method bad rest => exact closed_iff
  | refuses reply bad rest => exact closed_iff

/-! ### Two ways of cutting -/

/-- A server that connects to an address of four bytes; the pool greets with one byte. -/
def plainServer : Server := .grants (.ipv4 fun _ => 0x0A) (0x0D, 0x05) [0x7B]

def plainPool : Pool := .ofHost (bytes "pool") 3333 none none 0 false false .POOL

/-- Each answer in a read of its own. -/
theorem meets_iff_separate :
    plainServer.Meets (.start plainPool .name)
      [[0x05, 0x00], [0x05, 0x00, 0x00, 0x01, 0x0A, 0x0A, 0x0A, 0x0A, 0x0D, 0x05], [0x7B]] := by
  refine (meets_iff_cut plainPool .name plainServer _ rfl).mpr ?_
  exact ⟨_, _, _, _, rfl, rfl, rfl, rfl, rfl⟩

/-- **One byte at a time.**  If the first answer comes in two reads both are dropped, and the reply
is taken for it; the client goes no further. -/
theorem drops_method : ¬ ∀ (pool : Pool) (target : Target) (server : Server)
    (reads : List (List UInt8)), reads.flatten = server.stream →
      server.Meets (.start pool target) reads := by
  intro h
  have hmeets := h plainPool .name plainServer
    [[0x05], [0x00], [0x05, 0x00, 0x00, 0x01, 0x0A, 0x0A, 0x0A, 0x0A, 0x0D, 0x05], [0x7B]] rfl
  have hall := hmeets _ [] (List.append_nil _).symm
  exact absurd hall.1 (by decide +kernel)

/-! ## The connection -/

/-- What a read is to the machine of `Client.Connection`. -/
def answer (s : Socks5) (data : List UInt8) : Client.Reply :=
  if data.length < s.nextSize then .short else if accepts data then .granted else .denied

/-- The state for it; one that is ready is deleted. -/
def state? (s : Socks5) : Option Client.Socks5 :=
  match s.state with
  | .Created => some .Created
  | .SentInitialHandshake => some .SentInitialHandshake
  | .SentFinalHandshake => some .SentFinalHandshake
  | .Ready => none

theorem socks5_close (s : Client.Connection) : s.close.socks5 = s.socks5 := by
  unfold Client.Connection.close
  split
  · rfl
  · split
    · rfl
    · unfold Client.Connection.setState
      split <;> rfl

theorem socks5_write (s : Client.Connection) (w : Client.Write) :
    (s.write w).1.socks5 = s.socks5 := by
  unfold Client.Connection.write
  split
  · rfl
  · cases w with
    | failed => exact socks5_close s
    | refused | accepted => rfl

theorem socks5_login (s : Client.Connection) (w : Client.Write) :
    (s.login w).socks5 = s.socks5 := by
  have hwrite := socks5_write s w
  unfold Client.Connection.login
  generalize s.write w = written at *
  obtain ⟨s', done⟩ := written
  cases done <;> exact hwrite

theorem socks5_handshake {s : Client.Connection} (h : s.socks5 = none) (w : Client.Write) :
    (s.handshake w).socks5 = none := by
  unfold Client.Connection.handshake
  rw [h]
  split
  · contradiction
  · split
    · exact socks5_write _ w
    · exact (socks5_login _ w).trans h
  · exact (socks5_login _ w).trans h

/-- Both go from state to state alike, where the write of the request succeeds. -/
theorem read_agrees {c : Proxied} {s : Socks5} {conn : Client.Connection} {p : Client.Socks5}
    (hopen : c.closed = false) (hs : c.socks5 = some s) (hp : s.state? = some p)
    (hconn : conn.socks5 = some p) (data : List UInt8) :
    (conn.readSocks5 p (s.answer data) .accepted).socks5 = (c.read data).socks5.bind state? := by
  have hstate : s.state ≠ .Ready := by
    intro h
    simp [state?, h] at hp
  by_cases hshort : data.length < s.nextSize
  · rw [read_short hopen hs hstate hshort, answer, if_pos hshort, hs, Option.bind_some, hp, ← hconn]
    rfl
  · rw [read_long hopen hs hstate (Nat.le_of_not_lt hshort), answer, if_neg hshort]
    cases haccepts : accepts data with
    | false =>
        have hclose := socks5_close conn
        simp only [Bool.false_eq_true, if_false, Client.Connection.readSocks5]
        rw [hclose, hconn, ← hp]
        simp [Proxied.close, hs]
    | true =>
        rw [if_pos rfl, if_pos rfl]
        obtain ⟨nextSize, state⟩ := s
        cases state with
        | Created | SentFinalHandshake =>
            obtain rfl := Option.some.inj hp
            exact socks5_handshake rfl _
        | SentInitialHandshake =>
            obtain rfl := Option.some.inj hp
            rfl
        | Ready => contradiction

end Socks5

end XLArig
