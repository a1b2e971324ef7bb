import XLArig.Client.Requests

/-!
# XLArig.Client.Buffer

What a client hands to the socket or the TLS layer.

Documents and submitted results go through `send(obj)`, which makes the send buffer
large enough before it copies the text.  The keepalive is printed into the buffer as
it is, and `snprintf` returns the length of the whole text: `passed_iff` says when
that is the text that was written.
-/

namespace XLArig

namespace Client

variable {buf data : List UInt8} {offset n : Nat}

/-! ## Buffers -/

theorem length_put (h : offset + data.length ≤ buf.length) :
    (put buf offset data).length = buf.length := by
  simp only [put, List.length_append, List.length_take, List.length_drop]
  omega

/-- What was put at the front of a buffer is read back from there. -/
theorem take_put (h : n ≤ data.length) : (put buf 0 data).take n = data.take n := by
  simp [put, List.take_append, Nat.sub_eq_zero_of_le h]

theorem take_put_of_le (hn : n ≤ offset) (hb : offset ≤ buf.length) :
    (put buf offset data).take n = buf.take n := by
  rw [put, List.append_assoc, List.take_append_of_le_length (by simp; omega), List.take_take,
    Nat.min_eq_left hn]

theorem length_resize : (resize buf n).length = n := by
  simp only [resize, List.length_append, List.length_take, List.length_replicate]
  omega

/-- A C string ends at the first terminator after it. -/
theorem stringAt_append {rest : List UInt8} (h : ∀ c ∈ data, c ≠ 0) :
    stringAt (data ++ 0 :: rest) 0 = data := by
  rw [stringAt, List.drop_zero, List.takeWhile_append_of_pos (by simpa using h)]
  simp

theorem stringAt_put (h : ∀ c ∈ data, c ≠ 0) (ho : offset ≤ buf.length) :
    stringAt (put buf offset (data ++ [0])) offset = data := by
  have hdrop : (put buf offset (data ++ [0])).drop offset =
      data ++ 0 :: buf.drop (offset + (data ++ [0]).length) := by
    rw [put, List.append_assoc, List.drop_append_of_le_length (by simp; omega),
      List.drop_take, Nat.sub_self, List.take_zero]
    simp
  have hread : stringAt (data ++ 0 :: buf.drop (offset + (data ++ [0]).length)) 0 = data :=
    stringAt_append h
  rw [stringAt, List.drop_zero] at hread
  rw [stringAt, hdrop, hread]

/-! ## Hex digits -/

theorem hexDigit_ne_zero : ∀ n < 16, hexDigit (UInt32.ofNat n) ≠ 0 := by decide

theorem hexDigit_toUInt32_ne_zero {b : UInt8} (h : b.toNat < 16) : hexDigit b.toUInt32 ≠ 0 := by
  have := hexDigit_ne_zero b.toNat h
  rwa [UInt32.ofNat_uInt8ToNat] at this

theorem toHex_ne_zero (bin : List UInt8) : ∀ c ∈ toHex bin, c ≠ 0 := by
  intro c hc
  simp only [toHex, List.mem_flatMap, List.mem_cons, List.not_mem_nil, or_false] at hc
  obtain ⟨b, -, rfl | rfl⟩ := hc
  · apply hexDigit_toUInt32_ne_zero
    have := b.toNat_lt
    simp only [UInt8.toNat_shiftRight, Nat.shiftRight_eq_div_pow]
    simp
    omega
  · apply hexDigit_toUInt32_ne_zero
    have : b.toNat &&& 0xF ≤ 0xF := Nat.and_le_right
    simp only [UInt8.toNat_and]
    simp
    omega

theorem length_toHex (bin : List UInt8) : (toHex bin).length = 2 * bin.length := by
  induction bin with
  | nil => rfl
  | cons b bin ih =>
      simp only [toHex, List.flatMap_cons, List.length_append, List.length_cons,
        List.length_nil] at ih ⊢
      omega

/-! ## What is passed -/

namespace Requests

variable {s s' : Requests} {r : Request} {result : JobResult} {layer : Layer} {p : Passed} {doc : List UInt8}
  {size : Nat} {id : Int} {owner : Option Owner}

/-- The text of a request that a client makes in a state. -/
def text [Features] (s : Requests) : Request → List UInt8
  | .call method params => (Json.request s.sequence method params).write
  | .submit result =>
      (s.submitDoc result (toHex (nonceBytes result)) (toHex (resultBytes result))).write
  | .login added => (s.loginDoc added).write
  | .ping => s.keepalive

theorem transmit_sendBuf : (s.transmit size id owner layer).1.sendBuf = s.sendBuf := by
  cases layer <;> rfl

theorem eq_of_transmit (h : (s.transmit size id owner layer).2 = some p) :
    p = ⟨size, s.sendBuf.take size⟩ := by
  cases layer with
  | refused => exact nomatch h
  | failed => exact (Option.some.inj h).symm
  | accepted => exact (Option.some.inj h).symm

theorem length_grown (size : Nat) (h : 1024 ≤ buf.length) :
    size + 2 ≤ (grown buf size).length ∧ 1024 ≤ (grown buf size).length := by
  unfold grown
  split
  · rw [length_resize]; omega
  · omega

/-- The buffer is large enough for the text that `send(obj)` copies. -/
theorem sendText_sendBuf (h : 1024 ≤ s.sendBuf.length) :
    1024 ≤ (s.sendText doc id owner layer).1.sendBuf.length := by
  unfold sendText
  split
  · exact h
  · obtain ⟨hsize, hlen⟩ := length_grown doc.length h
    rw [transmit_sendBuf, length_put (by simp; omega)]
    exact hlen

theorem eq_of_sendText (h : 1024 ≤ s.sendBuf.length)
    (hp : (s.sendText doc id owner layer).2 = some p) :
    p = ⟨doc.length + 1, doc ++ [0x0A]⟩ ∧ doc.length ≤ kMaxSendBufferSize ∧
      p.size ≤ (s.sendText doc id owner layer).1.sendBuf.length := by
  obtain ⟨hsize, -⟩ := length_grown doc.length h
  unfold sendText at hp ⊢
  split at hp
  · exact nomatch hp
  · next hmax =>
      have hdata : (put (grown s.sendBuf doc.length) 0 (doc ++ [0x0A, 0])).take
          (doc.length + 1) = doc ++ [0x0A] := by
        rw [take_put (by simp)]
        simp [List.take_append]
      obtain rfl := eq_of_transmit hp
      refine ⟨by rw [hdata], by omega, ?_⟩
      rw [if_neg hmax, transmit_sendBuf, length_put (by simp; omega)]
      dsimp only
      omega

/-! ### Submitted results -/

/-- The send buffer after `submit` has written its digits. -/
def digits (buf : List UInt8) (result : JobResult) : List UInt8 :=
  put (put buf 0 (toHex (nonceBytes result) ++ [0])) 16 (toHex (resultBytes result) ++ [0])

theorem length_digits (h : 1024 ≤ buf.length) (result : JobResult) :
    (digits buf result).length = buf.length := by
  have h0 : (toHex (nonceBytes result) ++ [0]).length = 9 := by
    simp [length_toHex, nonceBytes]
  have h1 : (toHex (resultBytes result) ++ [0]).length = 65 := by
    simp [length_toHex, resultBytes]
  rw [digits, length_put (by rw [length_put (by omega)]; omega), length_put (by omega)]

theorem stringAt_digits (h : 1024 ≤ buf.length) (result : JobResult) :
    stringAt (digits buf result) 0 = toHex (nonceBytes result) ∧
      stringAt (digits buf result) 16 = toHex (resultBytes result) := by
  have h0 : (toHex (nonceBytes result)).length = 8 := by simp [length_toHex, nonceBytes]
  have hlen : (put buf 0 (toHex (nonceBytes result) ++ [0])).length = buf.length :=
    length_put (by simp; omega)
  constructor
  · -- the second string starts behind the terminator of the first one
    have htake : (digits buf result).take 9 = toHex (nonceBytes result) ++ [0] := by
      rw [digits, take_put_of_le (by omega) (by omega), take_put (by simp; omega),
        List.take_of_length_le (by simp; omega)]
    have hread : stringAt (toHex (nonceBytes result) ++ 0 :: (digits buf result).drop 9) 0 =
        toHex (nonceBytes result) := stringAt_append (toHex_ne_zero _)
    rwa [← List.singleton_append, ← List.append_assoc, ← htake, List.take_append_drop] at hread
  · exact stringAt_put (toHex_ne_zero _) (by omega)

variable [Features]

theorem request_submit (h : 1024 ≤ s.sendBuf.length)
    (ht : s.takes result = true) : s.request layer (.submit result) = sendText
      { s with
        next := s.next + 1
        sendBuf := digits s.sendBuf result
        results := Function.update s.results s.sequence (some s.next) }
      (s.text (.submit result)) s.sequence (some .result) layer := by
  obtain ⟨h0, h1⟩ := stringAt_digits h result
  have hdoc : s.text (.submit result) = (s.submitDoc result (stringAt (digits s.sendBuf result) 0)
      (stringAt (digits s.sendBuf result) 16)).write := by
    rw [h0, h1, text]
  rw [hdoc]
  exact if_pos ht

theorem request_submit_of_not (ht : s.takes result = false) :
    s.request layer (.submit result) = ({ s with next := s.next + 1 }, none) :=
  if_neg (ne_true_of_eq_false ht)

/-! ### Keepalives -/

/-- What `snprintf` leaves in the send buffer. -/
def printed (s : Requests) : List UInt8 :=
  put s.sendBuf 0 ((s.keepalive ++ [0x0A]).take (s.sendBuf.length - 1) ++ [0])

omit [Features] in
theorem length_printed (h : 1024 ≤ s.sendBuf.length) :
    s.printed.length = s.sendBuf.length :=
  length_put (by simp; omega)

theorem request_ping : s.request layer .ping =
    transmit { s with next := s.next + 1, sendBuf := s.printed } (s.keepalive.length + 1)
      s.sequence none layer := by
  have hsize : (s.keepalive ++ [0x0A]).length = s.keepalive.length + 1 := by simp
  rw [← hsize]
  rfl

omit [Features] in
/-- A text that is too long for the buffer has lost its line feed. -/
theorem take_printed (h : 1024 ≤ s.sendBuf.length)
    (hle : s.keepalive.length + 1 ≤ s.sendBuf.length) :
    s.printed.take (s.keepalive.length + 1) = s.keepalive ++ [0x0A] ↔
      s.keepalive.length + 1 < s.sendBuf.length := by
  constructor
  · intro heq
    by_contra hge
    have hlen : s.sendBuf.length - 1 = s.keepalive.length := by omega
    have hzero : s.printed.take (s.keepalive.length + 1) = s.keepalive ++ [0] := by
      rw [printed, hlen, List.take_append_of_le_length (Nat.le_refl _), List.take_length,
        take_put (by simp), List.take_of_length_le (by simp)]
    rw [hzero, List.append_cancel_left_eq] at heq
    exact absurd heq (by decide)
  · intro hlt
    have hall : (s.keepalive ++ [0x0A]).take (s.sendBuf.length - 1) = s.keepalive ++ [0x0A] :=
      List.take_of_length_le (by simp; omega)
    rw [printed, hall, take_put (by simp)]
    simp [List.take_append]

/-! ### Runs -/

theorem request_sendBuf (h : 1024 ≤ s.sendBuf.length) :
    1024 ≤ (s.request layer r).1.sendBuf.length := by
  cases r with
  | call method params => exact sendText_sendBuf h
  | submit result =>
      cases ht : s.takes result with
      | true =>
          rw [request_submit h ht]
          exact sendText_sendBuf (by rw [length_digits h]; exact h)
      | false =>
          rw [request_submit_of_not ht]
          exact h
  | login added => exact sendText_sendBuf h
  | ping =>
      rw [request_ping, transmit_sendBuf, length_printed h]
      exact h

omit [Features] in
theorem parseResponse_sendBuf (response : Response) :
    (s.parseResponse id response).sendBuf = s.sendBuf := by
  have hsubmit : (s.handleSubmitResponse id).sendBuf = s.sendBuf := by
    unfold handleSubmitResponse
    split <;> rfl
  unfold parseResponse
  split
  · rfl
  · cases response with
    | error => exact hsubmit
    | redirect => rfl
    | other => rfl
    | object rpcId algo =>
        dsimp only
        split
        · rfl
        · exact hsubmit

theorem sendBuf_of_reachable (h : machine.Reachable s) : 1024 ≤ s.sendBuf.length := by
  induction h with
  | init h0 =>
      obtain ⟨base, agent, brand, sequence, rfl⟩ := h0
      exact List.length_replicate.ge
  | @step s s' e _ _ hs hlen =>
      cases e with
      | request layer r =>
          obtain rfl := Option.some.inj hs
          exact request_sendBuf hlen
      | response id response =>
          obtain rfl := Option.some.inj hs
          rwa [parseResponse_sendBuf]
      | connected connected =>
          obtain rfl := Option.some.inj hs
          exact hlen
      | other =>
          obtain rfl := Option.some.inj hs
          exact hlen

/-- **What is passed is what was written**, for every request but a keepalive that is
too long.  After any run, the bytes that a request hands over lie in the send buffer,
are no more than the limit allows, and are its text and a line feed; for a keepalive
just when its text fits in the buffer and within the limit. -/
theorem passed_iff (h : machine.Reachable s) (hp : (s.request layer r).2 = some p) :
    (p.size ≤ (s.request layer r).1.sendBuf.length ∧ p.size ≤ kMaxSendBufferSize + 1 ∧
      p.data = s.text r ++ [0x0A]) ↔
    (r = .ping → s.keepalive.length + 1 < s.sendBuf.length ∧
      s.keepalive.length ≤ kMaxSendBufferSize) := by
  have hlen := sendBuf_of_reachable h
  have hdoc : ∀ {t : Requests} {doc : List UInt8} {id owner}, 1024 ≤ t.sendBuf.length →
      (t.sendText doc id owner layer).2 = some p →
      p.size ≤ (t.sendText doc id owner layer).1.sendBuf.length ∧
        p.size ≤ kMaxSendBufferSize + 1 ∧ p.data = doc ++ [0x0A] := by
    intro t doc id owner ht hp
    obtain ⟨hp, hmax, hbuf⟩ := eq_of_sendText ht hp
    subst hp
    exact ⟨hbuf, by dsimp only; omega, rfl⟩
  cases r with
  | call method params =>
      exact iff_of_true (hdoc hlen hp) nofun
  | submit result =>
      refine iff_of_true ?_ nofun
      cases ht : s.takes result with
      | true =>
          rw [request_submit hlen ht] at hp ⊢
          exact hdoc (by rw [length_digits hlen]; exact hlen) hp
      | false =>
          rw [request_submit_of_not ht] at hp
          exact nomatch hp
  | login added => exact iff_of_true (hdoc hlen hp) nofun
  | ping =>
      rw [request_ping] at hp ⊢
      rw [transmit_sendBuf, length_printed hlen]
      obtain rfl := eq_of_transmit hp
      dsimp only [text]
      constructor
      · rintro ⟨hsize, hmax, hdata⟩ -
        exact ⟨(take_printed hlen hsize).mp hdata, by omega⟩
      · intro hfits
        obtain ⟨hlt, hmax⟩ := hfits rfl
        exact ⟨by omega, by omega, (take_printed hlen (by omega)).mpr hlt⟩

end Requests

end Client

end XLArig

namespace XLArig.Client.Requests

/-! ## Keepalives of two lengths -/

/-- A client without a pool that was told an rpc id. -/
def withRpcId (rpcId : List UInt8) : Requests :=
  { init ⟨.ofHost [] 0 none none 0 false false .POOL, none, none, none⟩ [] [] 0 with
    rpcId := some rpcId }

theorem reachable_withRpcId (rpcId : List UInt8) : machine.Reachable (withRpcId rpcId) :=
  .step (.init ⟨_, _, _, _, rfl⟩) trivial
    (rfl : machine.step _ (.response 1 (.object (some rpcId) false)) = _)

theorem ping_accepted (s : Requests) : (s.request .accepted .ping).2 =
    some ⟨s.keepalive.length + 1, s.printed.take (s.keepalive.length + 1)⟩ := by
  rw [request_ping]
  rfl

/-- The keepalive for a short rpc id. -/
theorem passed_short : ∃ s p, machine.Reachable s ∧ (s.request .accepted .ping).2 = some p ∧
    p.data = s.keepalive ++ [0x0A] := by
  have hlen : (withRpcId (bytes "1")).sendBuf.length = 1024 := List.length_replicate
  have hfits : (withRpcId (bytes "1")).keepalive.length + 1 < 1024 := by decide
  have hiff := passed_iff (reachable_withRpcId (bytes "1")) (ping_accepted _)
  refine ⟨_, _, reachable_withRpcId (bytes "1"), ping_accepted _, (hiff.mpr ?_).2.2⟩
  intro _
  rw [hlen, kMaxSendBufferSize]
  omega

/-- **A keepalive reads beyond the send buffer**: a long rpc id makes its text longer
than the buffer it was printed into. -/
theorem passed_long : ∃ s p, machine.Reachable s ∧ (s.request .accepted .ping).2 = some p ∧
    (s.request .accepted .ping).1.sendBuf.length < p.size := by
  let rpcId := List.replicate 1024 (0x61 : UInt8)
  have hlen : (withRpcId rpcId).sendBuf.length = 1024 := List.length_replicate
  have hprinted : (CString.printed (withRpcId rpcId).rpcId).length = 1024 := List.length_replicate
  refine ⟨_, _, reachable_withRpcId rpcId, ping_accepted _, ?_⟩
  rw [request_ping, transmit_sendBuf]
  dsimp only
  rw [length_printed hlen.ge, hlen]
  simp only [keepalive, List.length_append, hprinted]
  omega

end XLArig.Client.Requests
