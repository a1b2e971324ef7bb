import XLArig.Client.Buffer

/-!
# XLArig.Client.Answers

Which request a response is handled for.

An entry is put under the next sequence number before the request is transmitted,
and the number is only used up when that succeeds.  `answered` holds as long as no
request that is kept under its number fails; the entry of one that does stays behind
and takes the response to the next request with that number.
-/

namespace XLArig

namespace Client

namespace Requests

variable {s s' : Requests} {r : Request} {layer : Layer} {id : Int} {owner : Option Owner}
  {n size : Nat} {doc buf : List UInt8}

/-- The request transmitted most recently under an id. -/
def lastSent (s : Requests) (id : Int) : Option Sent := s.sent.find? fun sent => sent.id = id

/-- The map a response with that id would be looked up in, and what it finds. -/
def Open (s : Requests) (id : Int) (n : Nat) : Owner → Prop
  | .callback => s.callbacks id = some n ∧ id ≠ 1
  | .result => s.results id = some n

/-- A request that is kept for its response is transmitted. -/
def Delivered [Features] (s : Requests) : Event → Prop
  | .request layer (.call method params) =>
      layer = .accepted ∧ (s.text (.call method params)).length ≤ kMaxSendBufferSize
  | .request layer (.submit result) => s.takes result = true →
      layer = .accepted ∧ (s.text (.submit result)).length ≤ kMaxSendBufferSize
  | _ => True

instance [Features] (s : Requests) : (e : Event) → Decidable (s.Delivered e)
  | .request _ (.call _ _) => inferInstanceAs (Decidable (_ ∧ _))
  | .request _ (.submit _) => inferInstanceAs (Decidable (_ → _))
  | .request _ (.login _) | .request _ .ping | .response _ _ | .connected _ | .other =>
      inferInstanceAs (Decidable True)

/-- Open entries are those of the request transmitted last under their id, and no
response was handled for them yet. -/
structure Inv (s : Requests) : Prop where
  buffer : 1024 ≤ s.sendBuf.length
  sequence : 1 ≤ s.sequence
  sent_lt : ∀ sent ∈ s.sent, sent.number < s.next ∧ sent.id < s.sequence
  callbacks_lt : ∀ id n, s.callbacks id = some n → id < s.sequence
  last : ∀ id n owner, s.Open id n owner → s.lastSent id = some ⟨n, id, some owner⟩
  fresh : ∀ id n owner, s.Open id n owner → ∀ h ∈ s.handled, h.number ≠ n
  unique : (s.sent.map Sent.number).Nodup
  transmitted : ∀ h ∈ s.handled, ⟨h.number, h.id, some h.owner⟩ ∈ s.sent
  nodup : (s.handled.map Handled.number).Nodup

theorem inv_init (base : BaseClient) (agent brand : List UInt8) (sequence : Nat) :
    (init base agent brand sequence).Inv where
  buffer := List.length_replicate.ge
  sequence := by simp only [init]; omega
  sent_lt := fun _ h => absurd h List.not_mem_nil
  callbacks_lt := nofun
  last := fun _ _ owner h => by
    cases owner with
    | callback => exact nomatch h.1
    | result => exact nomatch h
  fresh := fun _ _ _ _ _ h => absurd h List.not_mem_nil
  unique := .nil
  transmitted := fun _ h => absurd h List.not_mem_nil
  nodup := .nil

theorem Inv.mem_sent (h : s.Inv) {id : Int} {n : Nat} {owner : Owner} (ho : s.Open id n owner) :
    ⟨n, id, some owner⟩ ∈ s.sent :=
  List.mem_of_find?_eq_some (h.last id n owner ho)

/-! ## Requests -/

/-- The next request is made and not transmitted; no entry is opened. -/
theorem Inv.skip (h : s.Inv) {callbacks results : Int → Option Nat} (hbuf : 1024 ≤ buf.length)
    (hopen : ∀ id n owner, ({ s with callbacks, results } : Requests).Open id n owner →
      s.Open id n owner)
    (hlt : ∀ id n, callbacks id = some n → id < s.sequence) :
    ({ s with callbacks, results, sendBuf := buf, next := s.next + 1 } : Requests).Inv where
  buffer := hbuf
  sequence := h.sequence
  sent_lt := fun sent hm => ⟨Nat.lt_succ_of_lt (h.sent_lt sent hm).1, (h.sent_lt sent hm).2⟩
  callbacks_lt := hlt
  last := fun id n owner ho => h.last id n owner (hopen id n owner ho)
  fresh := fun id n owner ho => h.fresh id n owner (hopen id n owner ho)
  unique := h.unique
  transmitted := h.transmitted
  nodup := h.nodup

/-- The next request is made and transmitted; an entry opened is its own. -/
theorem Inv.push (h : s.Inv) {callbacks results : Int → Option Nat} (hbuf : 1024 ≤ buf.length)
    (hid : id < s.sequence + 1)
    (hopen : ∀ id' n owner', ({ s with callbacks, results } : Requests).Open id' n owner' →
      (s.Open id' n owner' ∧ id' ≠ id) ∨ (id' = id ∧ n = s.next ∧ owner = some owner'))
    (hlt : ∀ id n, callbacks id = some n → id < s.sequence + 1) :
    ({ s with
      callbacks, results
      sendBuf := buf
      next := s.next + 1
      sequence := s.sequence + 1
      sent := ⟨s.next, id, owner⟩ :: s.sent } : Requests).Inv where
  buffer := hbuf
  sequence := by have := h.sequence; dsimp only; omega
  sent_lt := by
    intro sent hm
    rcases List.mem_cons.mp hm with rfl | hm
    · exact ⟨Nat.lt_succ_self _, hid⟩
    · have := h.sent_lt sent hm
      exact ⟨by dsimp only; omega, by dsimp only; omega⟩
  callbacks_lt := hlt
  last := by
    intro id' n owner' ho
    rcases hopen id' n owner' ho with ⟨ho, hne⟩ | ⟨rfl, rfl, rfl⟩
    · rw [lastSent, List.find?_cons_of_neg (by simpa using hne.symm)]
      exact h.last id' n owner' ho
    · exact List.find?_cons_of_pos (by simp)
  fresh := by
    intro id' n owner' ho handled hm
    rcases hopen id' n owner' ho with ⟨ho, -⟩ | ⟨-, rfl, -⟩
    · exact h.fresh id' n owner' ho handled hm
    · exact Nat.ne_of_lt (h.sent_lt _ (h.transmitted handled hm)).1
  unique := by
    refine List.nodup_cons.mpr ⟨?_, h.unique⟩
    intro hm
    obtain ⟨sent, hm, heq⟩ := List.mem_map.mp hm
    exact absurd heq (Nat.ne_of_lt (h.sent_lt sent hm).1)
  transmitted := fun handled hm => List.mem_cons_of_mem _ (h.transmitted handled hm)
  nodup := h.nodup

/-- What `send(obj)` leaves: a larger buffer, and the request as sent if it was. -/
theorem sendText_cases (h : 1024 ≤ s.sendBuf.length) : ∃ buf, 1024 ≤ buf.length ∧
    ((s.sendText doc id owner layer).1 = { s with sendBuf := buf } ∨
      (s.sendText doc id owner layer).1 = { s with
        sendBuf := buf
        sequence := s.sequence + 1
        sent := ⟨s.next - 1, id, owner⟩ :: s.sent }) := by
  obtain ⟨hsize, hlen⟩ := length_grown doc.length h
  unfold sendText
  split
  · exact ⟨_, h, .inl rfl⟩
  · refine ⟨put (grown s.sendBuf doc.length) 0 (doc ++ [0x0A, 0]), ?_, ?_⟩
    · rw [length_put (by simp; omega)]
      exact hlen
    · cases layer with
      | refused => exact .inl rfl
      | failed => exact .inl rfl
      | accepted => exact .inr rfl

theorem sendText_accepted (h : 1024 ≤ s.sendBuf.length) (hfits : doc.length ≤ kMaxSendBufferSize) :
    ∃ buf, 1024 ≤ buf.length ∧ (s.sendText doc id owner .accepted).1 = { s with
      sendBuf := buf
      sequence := s.sequence + 1
      sent := ⟨s.next - 1, id, owner⟩ :: s.sent } := by
  obtain ⟨hsize, hlen⟩ := length_grown doc.length h
  refine ⟨put (grown s.sendBuf doc.length) 0 (doc ++ [0x0A, 0]), ?_, ?_⟩
  · rw [length_put (by simp; omega)]
    exact hlen
  · rw [sendText, if_neg (by omega)]
    rfl

/-- What is kept under an id in a map that was updated. -/
theorem update_eq_some {f : Int → Option Nat} {k k' : Int} {m n : Nat} :
    Function.update f k (some m) k' = some n ↔ (k' = k ∧ n = m) ∨ (k' ≠ k ∧ f k' = some n) := by
  by_cases hk : k' = k
  · subst hk
    simp [eq_comm]
  · simp [hk]

theorem update_none_eq_some {f : Int → Option Nat} {k k' : Int} {n : Nat} :
    Function.update f k none k' = some n ↔ k' ≠ k ∧ f k' = some n := by
  by_cases hk : k' = k
  · subst hk
    simp
  · simp [hk]

variable [Features]

/-- A call that is transmitted: nothing was kept under its number before. -/
theorem Inv.call (h : s.Inv) {method : List UInt8} {params : Json}
    (hfits : (s.text (.call method params)).length ≤ kMaxSendBufferSize) :
    (s.request .accepted (.call method params)).1.Inv := by
  have hnone : s.callbacks s.sequence = none := by
    cases hc : s.callbacks s.sequence with
    | none => rfl
    | some n => exact absurd (h.callbacks_lt _ _ hc) (Int.lt_irrefl _)
  let t : Requests := { s with
    next := s.next + 1
    callbacks := Function.update s.callbacks s.sequence (some s.next) }
  obtain ⟨buf, hbuf, hsent⟩ : ∃ buf, _ ∧ (t.sendText (s.text (.call method params)) s.sequence
      (some .callback) .accepted).1 = _ := sendText_accepted h.buffer hfits
  have hreq : s.request .accepted (.call method params) =
      t.sendText (s.text (.call method params)) s.sequence (some .callback) .accepted := by
    simp only [request, hnone, Option.getD_none]
    rfl
  rw [hreq, hsent]
  refine h.push hbuf (by omega) ?_ ?_
  · intro id n owner ho
    cases owner with
    | callback =>
        rcases update_eq_some.mp ho.1 with ⟨hid, hn⟩ | ⟨hid, hc⟩
        · exact .inr ⟨hid, hn, rfl⟩
        · exact .inl ⟨⟨hc, ho.2⟩, hid⟩
    | result =>
        have hold : s.Open id n .result := ho
        have hlt := (h.sent_lt _ (h.mem_sent hold)).2
        exact .inl ⟨ho, by dsimp only at hlt; omega⟩
  · intro id n hc
    rcases update_eq_some.mp hc with ⟨hid, -⟩ | ⟨-, hc⟩
    · omega
    · have := h.callbacks_lt id n hc
      omega

/-- A submitted result that is transmitted replaces what its number may stand for. -/
theorem Inv.submit (h : s.Inv) {result : JobResult} (ht : s.takes result = true)
    (hfits : (s.text (.submit result)).length ≤ kMaxSendBufferSize) :
    (s.request .accepted (.submit result)).1.Inv := by
  have hdigits : 1024 ≤ (digits s.sendBuf result).length := by
    rw [length_digits h.buffer]
    exact h.buffer
  rw [request_submit h.buffer ht]
  let t : Requests := { s with
    next := s.next + 1
    sendBuf := digits s.sendBuf result
    results := Function.update s.results s.sequence (some s.next) }
  obtain ⟨buf, hbuf, hsent⟩ : ∃ buf, _ ∧ (t.sendText (s.text (.submit result)) s.sequence
      (some .result) .accepted).1 = _ := sendText_accepted hdigits hfits
  rw [hsent]
  refine h.push hbuf (by omega) ?_ ?_
  · intro id n owner ho
    cases owner with
    | callback =>
        have hlt := h.callbacks_lt _ _ ho.1
        exact .inl ⟨ho, by omega⟩
    | result =>
        rcases update_eq_some.mp ho with ⟨hid, hn⟩ | ⟨hid, hc⟩
        · exact .inr ⟨hid, hn, rfl⟩
        · exact .inl ⟨hc, hid⟩
  · intro id n hc
    have := h.callbacks_lt id n hc
    omega

/-- A login uses the number 1 again, and has cleared the submitted results. -/
theorem Inv.login (h : s.Inv) (added : List (List UInt8 × Json)) :
    (s.request layer (.login added)).1.Inv := by
  have hopen : ∀ id n owner, ({ s with results := fun _ => none } : Requests).Open id n owner →
      s.Open id n owner ∧ id ≠ 1 := by
    intro id n owner ho
    cases owner with
    | callback => exact ⟨ho, ho.2⟩
    | result => exact nomatch ho
  let t : Requests := { s with next := s.next + 1, results := fun _ => none }
  obtain ⟨buf, hbuf, hsent | hsent⟩ : ∃ buf, _ ∧ ((t.sendText (s.text (.login added)) 1 none layer).1
      = _ ∨ (t.sendText (s.text (.login added)) 1 none layer).1 = _) := sendText_cases h.buffer
  · have hskip : ({ t with sendBuf := buf } : Requests).Inv :=
      h.skip hbuf (fun id n owner ho => (hopen id n owner ho).1) h.callbacks_lt
    have hreq : (s.request layer (.login added)).1 = _ := hsent
    rw [hreq]
    exact hskip
  · have hpush : ({ t with
        sendBuf := buf
        sequence := s.sequence + 1
        sent := ⟨s.next, 1, none⟩ :: s.sent } : Requests).Inv := by
      refine h.push hbuf ?_ (fun id n owner ho => .inl (hopen id n owner ho)) ?_
      · have := h.sequence
        omega
      · intro id n hc
        have := h.callbacks_lt id n hc
        omega
    have hreq : (s.request layer (.login added)).1 = _ := hsent
    rw [hreq]
    exact hpush

/-- A keepalive is kept nowhere. -/
theorem Inv.ping (h : s.Inv) : (s.request layer .ping).1.Inv := by
  have hbuf : 1024 ≤ s.printed.length := by
    rw [length_printed h.buffer]
    exact h.buffer
  have hskip : ({ s with next := s.next + 1, sendBuf := s.printed } : Requests).Inv :=
    h.skip hbuf (fun _ _ _ ho => ho) h.callbacks_lt
  rw [request_ping]
  cases layer with
  | refused => exact hskip
  | failed => exact hskip
  | accepted =>
      refine h.push hbuf (by omega) ?_ ?_
      · intro id n owner ho
        have hlt := (h.sent_lt _ (h.mem_sent ho)).2
        exact .inl ⟨ho, by dsimp only at hlt; omega⟩
      · intro id n hc
        have := h.callbacks_lt id n hc
        omega

theorem Inv.request (h : s.Inv) (hd : s.Delivered (.request layer r)) :
    (s.request layer r).1.Inv := by
  cases r with
  | call method params =>
      obtain ⟨rfl, hfits⟩ := hd
      exact h.call hfits
  | submit result =>
      cases ht : s.takes result with
      | true =>
          obtain ⟨rfl, hfits⟩ := hd ht
          exact h.submit ht hfits
      | false =>
          rw [request_submit_of_not ht]
          exact h.skip h.buffer (fun _ _ _ ho => ho) h.callbacks_lt
  | login added => exact h.login added
  | ping => exact h.ping

/-! ## Responses -/

omit [Features]

/-- A request is kept once. -/
theorem Inv.open_unique (h : s.Inv) {id' : Int} {o o' : Owner} (ho : s.Open id n o)
    (ho' : s.Open id' n o') : id = id' ∧ o = o' := by
  have hsame : (⟨n, id, some o⟩ : Sent) = ⟨n, id', some o'⟩ :=
    List.inj_on_of_nodup_map h.unique (h.mem_sent ho) (h.mem_sent ho') rfl
  simpa using hsame

/-- An entry is taken out for its response. -/
theorem Inv.handle (h : s.Inv) {o : Owner} {callbacks results : Int → Option Nat}
    (ho : s.Open id n o)
    (hopen : ∀ id' n' o', ({ s with callbacks, results } : Requests).Open id' n' o' →
      s.Open id' n' o' ∧ ¬ (id' = id ∧ o' = o))
    (hlt : ∀ id n, callbacks id = some n → id < s.sequence) :
    ({ s with callbacks, results, handled := ⟨n, id, o⟩ :: s.handled } : Requests).Inv where
  buffer := h.buffer
  sequence := h.sequence
  sent_lt := h.sent_lt
  callbacks_lt := hlt
  last := fun id' n' o' ho' => h.last id' n' o' (hopen id' n' o' ho').1
  fresh := by
    intro id' n' o' ho' handled hm
    obtain ⟨ho', hne⟩ := hopen id' n' o' ho'
    rcases List.mem_cons.mp hm with rfl | hm
    · rintro rfl
      obtain ⟨hid, ho⟩ := h.open_unique ho ho'
      exact hne ⟨hid.symm, ho.symm⟩
    · exact h.fresh id' n' o' ho' handled hm
  unique := h.unique
  transmitted := by
    intro handled hm
    rcases List.mem_cons.mp hm with rfl | hm
    · exact h.mem_sent ho
    · exact h.transmitted handled hm
  nodup := by
    refine List.nodup_cons.mpr ⟨?_, h.nodup⟩
    intro hm
    obtain ⟨handled, hm, heq⟩ := List.mem_map.mp hm
    exact h.fresh id n o ho handled hm heq

theorem Inv.handleSubmitResponse (h : s.Inv) : (s.handleSubmitResponse id).Inv := by
  unfold Requests.handleSubmitResponse
  split
  · next n hr =>
      refine h.handle (o := .result) hr ?_ h.callbacks_lt
      intro id' n' o' ho
      cases o' with
      | callback => exact ⟨ho, by simp⟩
      | result =>
          obtain ⟨hne, hr'⟩ := update_none_eq_some.mp ho
          exact ⟨hr', by simp [hne]⟩
  · exact h

theorem Inv.parseResponse (h : s.Inv) (response : Response) :
    (s.parseResponse id response).Inv := by
  unfold Requests.parseResponse
  split
  · next n hc =>
      split at hc
      · exact nomatch hc
      · next hid =>
          refine h.handle (o := .callback) ⟨hc, hid⟩ ?_ fun id' n' hc' =>
            h.callbacks_lt id' n' (update_none_eq_some.mp hc').2
          intro id' n' o' ho
          cases o' with
          | callback =>
              obtain ⟨hne, hc'⟩ := update_none_eq_some.mp ho.1
              exact ⟨⟨hc', ho.2⟩, by simp [hne]⟩
          | result => exact ⟨ho, by simp⟩
  · cases response with
    | error => exact h.handleSubmitResponse
    | redirect => exact h
    | other => exact h
    | object rpcId algo =>
        dsimp only
        split
        · exact ⟨h.buffer, h.sequence, h.sent_lt, h.callbacks_lt, fun id n o ho => h.last id n o ho,
            fun id n o ho => h.fresh id n o ho, h.unique, h.transmitted, h.nodup⟩
        · exact h.handleSubmitResponse

variable [Features]

theorem inv_of_reachable (h : machine.ReachableIf Delivered s) : s.Inv := by
  refine h.invariant ?_ ?_
  · rintro _ ⟨base, agent, brand, sequence, rfl⟩
    exact inv_init base agent brand sequence
  · intro s e s' hinv hd hs
    cases e with
    | request layer r =>
        obtain rfl := Option.some.inj hs
        exact hinv.request hd
    | response id response =>
        obtain rfl := Option.some.inj hs
        exact hinv.parseResponse response
    | connected connected =>
        obtain rfl := Option.some.inj hs
        exact ⟨hinv.buffer, hinv.sequence, hinv.sent_lt, hinv.callbacks_lt,
          fun id n o ho => hinv.last id n o ho, fun id n o ho => hinv.fresh id n o ho,
          hinv.unique, hinv.transmitted, hinv.nodup⟩
    | other =>
        obtain rfl := Option.some.inj hs
        refine ⟨hinv.buffer, ?_, ?_, ?_, fun id n o ho => hinv.last id n o ho,
          fun id n o ho => hinv.fresh id n o ho, hinv.unique, hinv.transmitted, hinv.nodup⟩
        · have := hinv.sequence
          dsimp only
          omega
        · intro sent hm
          have := hinv.sent_lt sent hm
          exact ⟨this.1, by dsimp only; omega⟩
        · intro id n hc
          have := hinv.callbacks_lt id n hc
          dsimp only
          omega

omit [Features] in
/-- A response is handled for what is found under its id, or for nothing. -/
theorem parseResponse_handled (response : Response) :
    (s.parseResponse id response).handled = s.handled ∨
      ∃ n o, s.Open id n o ∧ (s.parseResponse id response).handled = ⟨n, id, o⟩ :: s.handled := by
  have hsubmit : (s.handleSubmitResponse id).handled = s.handled ∨
      ∃ n o, s.Open id n o ∧ (s.handleSubmitResponse id).handled = ⟨n, id, o⟩ :: s.handled := by
    unfold handleSubmitResponse
    split
    · next n hr => exact .inr ⟨n, .result, hr, rfl⟩
    · exact .inl rfl
  unfold parseResponse
  split
  · next n hc =>
      split at hc
      · exact nomatch hc
      · next hid => exact .inr ⟨n, .callback, ⟨hc, hid⟩, rfl⟩
  · cases response with
    | error => exact hsubmit
    | redirect => exact .inl rfl
    | other => exact .inl rfl
    | object rpcId algo =>
        dsimp only
        split
        · exact .inl rfl
        · exact hsubmit

/-- **A response is handled for the request it answers**, in every run in which the
requests that are kept for a response are transmitted.  What a response is handled
for is the request transmitted last under its id; no other was ever answered, and
none was answered twice. -/
theorem answered (h : machine.ReachableIf Delivered s) :
    (∀ id response handled, (s.parseResponse id response).handled = handled :: s.handled →
      s.lastSent id = some ⟨handled.number, id, some handled.owner⟩) ∧
    (∀ handled ∈ s.handled, ⟨handled.number, handled.id, some handled.owner⟩ ∈ s.sent) ∧
    (s.handled.map Handled.number).Nodup := by
  have hinv := inv_of_reachable h
  refine ⟨?_, hinv.transmitted, hinv.nodup⟩
  intro id response handled heq
  rcases parseResponse_handled response with hsame | ⟨n, o, ho, hcons⟩
  · rw [hsame] at heq
    exact absurd heq.symm (List.cons_ne_self handled s.handled)
  · obtain ⟨rfl, -⟩ := List.cons.inj (hcons.symm.trans heq)
    exact hinv.last id n o ho

end Requests

end Client

end XLArig

namespace XLArig.Client.Requests

/-! ## A call and a submitted result -/

/-- A result for a client without a job. -/
def sampleResult : JobResult := { JobResult.ofJob .empty 0 (fun _ => 0) with
  clientId := some (bytes "1")
  diff := 1 }

/-- A client without a pool, the second one to be created. -/
def sample : Requests :=
  init ⟨.ofHost [] 0 none none 0 false false .POOL, none, none, none⟩ [] [] 1

/-- A call and a result are transmitted and answered. -/
theorem answered_both : ∃ s, machine.ReachableIf Delivered s ∧
    s.handled = [⟨1, 3, .result⟩, ⟨0, 2, .callback⟩] ∧
    ∀ handled ∈ s.handled, ⟨handled.number, handled.id, some handled.owner⟩ ∈ s.sent := by
  let events : List Event :=
    [.connected true, .response 1 (.object (some (bytes "1")) false),
      .request .accepted (.call [] .null), .request .accepted (.submit sampleResult),
      .response 2 .other, .response 3 .error]
  have h0 : machine.init sample := ⟨_, _, _, _, rfl⟩
  have hm : machine.Meets Delivered sample events := by decide +kernel
  have hrun : (machine.run sample events).any (fun s => decide
      (s.handled = [⟨1, 3, .result⟩, ⟨0, 2, .callback⟩])) = true := by decide +kernel
  obtain ⟨s, hs, hp⟩ := Machine.ReachableIf.exists_of_run h0 hm hrun
  exact ⟨s, hs, of_decide_eq_true hp, (answered hs).2.1⟩

/-- **A response goes to the wrong request**: a call is refused, the result submitted
next is transmitted under the same number, and its response is taken by the call. -/
theorem answered_wrong : ∃ s, machine.Reachable s ∧
    s.lastSent 2 = some ⟨1, 2, some .result⟩ ∧
    (s.parseResponse 2 .other).handled = [⟨0, 2, .callback⟩] := by
  let events : List Event :=
    [.connected true, .response 1 (.object (some (bytes "1")) false),
      .request .refused (.call [] .null), .request .accepted (.submit sampleResult)]
  have h0 : machine.init sample := ⟨_, _, _, _, rfl⟩
  have hrun : (machine.run sample events).any (fun s => decide
      (s.lastSent 2 = some ⟨1, 2, some .result⟩ ∧
        (s.parseResponse 2 .other).handled = [⟨0, 2, .callback⟩])) = true := by decide +kernel
  obtain ⟨s, hs, hp⟩ := Machine.Reachable.exists_of_run h0 hrun
  obtain ⟨hlast, hwrong⟩ := of_decide_eq_true hp
  exact ⟨s, hs, hlast, hwrong⟩

end XLArig.Client.Requests
