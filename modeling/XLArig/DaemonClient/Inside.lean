import XLArig.Client.Buffer
import XLArig.DaemonClient

/-!
# XLArig.DaemonClient.Inside

Which templates keep a daemon client inside of its strings.

A template is only taken with a hashing blob that is one, but neither its own length is
looked at nor the offset of the reserved bytes.  `inside_iff` says which runs use no byte
outside: those whose templates fit, and whose submits find room for the nonce.
-/

namespace XLArig

open Client (toHex hexDigit length_toHex)

namespace DaemonClient

variable [Features] {s s' : DaemonClient} {request : Request} {data : HttpData}
variable {params : Json} {random : Memory} {leaves : Bool}

/-- A response that brings a template. -/
def Brings (id : Int) (result error : Json) : Prop :=
  id ≠ -1 ∧ error.isObject = false ∧ result.isObject = true ∧
    result.hasMember (bytes "top_block_hash") = false ∧
    result.hasMember (bytes "blocktemplate_blob") = true

instance (id : Int) (result error : Json) : Decidable (Brings id result error) :=
  inferInstanceAs (Decidable (_ ∧ _))

/-- The id of a document. -/
def idOf (doc : Json) : Int := ((doc.getValue (bytes "id")).int64?).getD (-1)

/-- The template that a reply brings. -/
def template (request : Request) (data : HttpData) : Option Json :=
  match data.document, request with
  | some doc, .post _ =>
      if data.status = 200 ∧
          Brings (idOf doc) (doc.getObject (bytes "result")) (doc.getObject (bytes "error")) then
        some (doc.getObject (bytes "result"))
      else none
  | _, _ => none

/-- The hashing blob is one once the reserved bytes are filled in. -/
def Taken (s : DaemonClient) (params : Json) : Prop :=
  ∃ blob ∈ params.getString (bytes "blockhashing_blob"),
    blob.length % 2 = 0 ∧ s.newJob.TakesSize (blob.length / 2) ∧
    ∀ i, (h : i < blob.length) → Cvt.IsHex blob[i] ∨
      (s.apiVersion = .DERO ∧ reserved params ≤ i ∧ i < reserved params + kBlobReserveSize * 2)

/-- The reserved bytes are in the hashing blob, and a template that is taken with it has
room for the id. -/
def TemplateFits (s : DaemonClient) (params : Json) : Prop :=
  (s.apiVersion = .DERO → (reservedAccess params).Inside) ∧
    ∀ text ∈ params.getString (bytes "blocktemplate_blob"), s.Taken params → 32 ≤ text.length

/-- A template fits; a submit is for one that has room for the id, and for the nonce if
it is the one that was solved. -/
def Fits (s : DaemonClient) : Event → Prop
  | .reply request data _ _ => ∀ params ∈ template request data, s.TemplateFits params
  | .submit result => 32 ≤ s.blocktemplate.size ∧
      (result.jobId = templateId s.blocktemplate → kNonceOffset + 8 ≤ s.mined.size)
  | .connect | .disconnect | .timer | .elsewhere => True

instance (s : DaemonClient) (params : Json) : Decidable (s.Taken params) := by
  unfold Taken
  infer_instance

instance (s : DaemonClient) (params : Json) : Decidable (s.TemplateFits params) :=
  inferInstanceAs (Decidable (_ ∧ _))

instance (s : DaemonClient) : (e : Event) → Decidable (s.Fits e)
  | .reply .. => inferInstanceAs (Decidable (∀ params ∈ _, _))
  | .submit _ => inferInstanceAs (Decidable (_ ∧ _))
  | .connect | .disconnect | .timer | .elsewhere => inferInstanceAs (Decidable True)

/-! ## Templates -/

omit [Features] in
/-- What `toHex` writes can be read again. -/
theorem isHex_toHex (bin : List UInt8) : ∀ c ∈ toHex bin, Cvt.IsHex c := by
  have hdigit : ∀ b : UInt8, Cvt.IsHex (hexDigit (b >>> 4).toUInt32) ∧
      Cvt.IsHex (hexDigit (b &&& 0xF).toUInt32) := by
    decide +kernel
  intro c hc
  simp only [toHex, List.mem_flatMap, List.mem_cons, List.not_mem_nil, or_false] at hc
  obtain ⟨b, -, rfl | rfl⟩ := hc
  · exact (hdigit b).1
  · exact (hdigit b).2

omit [Features] in
/-- Hexadecimal text over a part of a string: it is left to look at the rest. -/
theorem isHex_overwrite {blob text : List UInt8} {start : Nat}
    (hroom : start + text.length ≤ blob.length) (htext : ∀ c ∈ text, Cvt.IsHex c) :
    (∀ c ∈ blob.take start ++ text ++ blob.drop (start + text.length), Cvt.IsHex c) ↔
      ∀ i, (h : i < blob.length) →
        Cvt.IsHex blob[i] ∨ (start ≤ i ∧ i < start + text.length) := by
  simp only [List.mem_append, or_imp, forall_and, List.forall_mem_iff_forall_getElem,
    List.length_take, List.length_drop, List.getElem_take, List.getElem_drop]
  constructor
  · rintro ⟨⟨hbefore, -⟩, hafter⟩ i hi
    by_cases hlow : i < start
    · exact .inl (hbefore i (by omega))
    · by_cases hhigh : i < start + text.length
      · exact .inr ⟨by omega, hhigh⟩
      · have h := hafter (i - (start + text.length)) (by omega)
        simp only [Nat.add_sub_cancel' (Nat.le_of_not_lt hhigh)] at h
        exact .inl h
  · intro h
    refine ⟨⟨fun i hi => ?_, List.forall_mem_iff_forall_getElem.mp htext⟩, fun i hi => ?_⟩
    · exact (h i (by omega)).resolve_right (by omega)
    · exact (h (start + text.length + i) (by omega)).resolve_right (by omega)

/-- What `setBlob` makes of the hashing blob, whatever is filled in. -/
theorem setBlob_hashingBlob (hinside : s.apiVersion = .DERO → (reservedAccess params).Inside) :
    (s.newJob.setBlob (s.hashingBlob params random)).isSome = true ↔ s.Taken params := by
  rw [Job.setBlob_isSome]
  unfold hashingBlob Taken Job.TakesBlob
  cases hblob : params.getString (bytes "blockhashing_blob") with
  | none => simp [overwrite]
  | some blob =>
      by_cases hdero : s.apiVersion = .DERO
      · have hroom : reserved params + kBlobReserveSize * 2 ≤ blob.length := by
          have h := (hinside hdero).2
          simp only [reservedAccess, hblob, CString.size] at h
          omega
        generalize htext : toHex (random.slice 0 kBlobReserveSize) = text
        have hhex : ∀ c ∈ text, Cvt.IsHex c := htext ▸ isHex_toHex _
        have hlen : text.length = kBlobReserveSize * 2 := by
          rw [← htext, length_toHex, Memory.slice, List.length_map, List.length_range, Nat.mul_comm]
        have hover : overwrite (some blob) (reserved params) text =
            some (blob.take (reserved params) ++ text ++ blob.drop (reserved params + text.length)) := by
          simp only [overwrite, Option.map_some, hlen, if_pos hroom]
        have hsize : (blob.take (reserved params) ++ text ++
            blob.drop (reserved params + text.length)).length = blob.length := by
          simp only [List.length_append, List.length_take, List.length_drop]
          omega
        dsimp only
        rw [if_pos hdero, hover]
        simp only [Option.some.injEq, exists_eq_left', Option.mem_def]
        rw [isHex_overwrite (hlen ▸ hroom) hhex, hsize, hlen]
        simp only [hdero, true_and]
        tauto
      · simp [hdero, List.forall_mem_iff_forall_getElem]
        tauto

/-! ## What a step reaches -/

/-- Every access that was made is inside. -/
def Contained (s : DaemonClient) : Prop := ∀ a ∈ s.accesses, a.Inside

omit [Features] in
theorem contained_use {a : Access} : (s.use a).Contained ↔ a.Inside ∧ s.Contained :=
  List.forall_mem_cons

omit [Features] in
theorem contained_congr (h : s'.accesses = s.accesses) : s'.Contained ↔ s.Contained := by
  unfold Contained
  rw [h]

omit [Features] in
theorem inside_idAccess {text : List UInt8} : (idAccess (some text)).Inside ↔ 32 ≤ text.length := by
  simp only [idAccess, Access.Inside, CString.size]
  omega

omit [Features] in
theorem contained_takeTemplate {text : List UInt8} {job : Job} :
    (s.takeTemplate params (some text) job leaves).Contained ↔ 32 ≤ text.length ∧ s.Contained := by
  have haccesses : (s.takeTemplate params (some text) job leaves).accesses =
      (s.use (idAccess (some text))).accesses := by
    unfold takeTemplate
    dsimp only
    split
    · simp only [accesses_report, accesses_setConnected]
    · rfl
  rw [contained_congr haccesses, contained_use, inside_idAccess]

/-- What the templates of a reply reach. -/
theorem contained_parseJob :
    (s.parseJob params random leaves).1.Contained ↔ s.TemplateFits params ∧ s.Contained := by
  unfold parseJob
  dsimp only
  generalize ht : ite (s.apiVersion = ApiVersion.DERO) _ _ = t
  have hreserved : t.Contained ↔
      (s.apiVersion = .DERO → (reservedAccess params).Inside) ∧ s.Contained := by
    rw [← ht]
    by_cases hdero : s.apiVersion = .DERO
    · simp only [hdero, if_true, contained_use, forall_const]
      exact Iff.rfl
    · simp only [hdero, if_false, false_imp_iff, true_and]
      exact Iff.rfl
  have hjob : t.newJob = s.newJob := by
    rw [← ht]
    split <;> rfl
  unfold TemplateFits
  cases htemplate : params.getString (bytes "blocktemplate_blob") with
  | none => simpa using hreserved
  | some text =>
      simp only [Option.isNone_some, Bool.false_eq_true, if_false, Option.mem_def, Option.some.injEq,
        forall_eq', hjob]
      by_cases hinside : s.apiVersion = .DERO → (reservedAccess params).Inside
      · have htaken : (s.newJob.setBlob (s.hashingBlob params random)).isSome = true ↔ _ :=
          setBlob_hashingBlob hinside
        rw [and_iff_right hinside] at hreserved ⊢
        cases hblob : s.newJob.setBlob (s.hashingBlob params random) with
        | none =>
            rw [hblob, Option.isSome_none] at htaken
            simp [← htaken, hreserved]
        | some job =>
            rw [hblob, Option.isSome_some] at htaken
            simp only [← htaken, forall_const, contained_takeTemplate, hreserved]
      · have hlost : ¬ t.Contained := fun h => hinside (hreserved.mp h).1
        simp only [hinside, false_and, iff_false]
        cases s.newJob.setBlob (s.hashingBlob params random) with
        | none => exact hlost
        | some job => exact fun h => hlost (contained_takeTemplate.mp h).2

omit [Features] in
theorem contained_handleSubmitResponse {id : Int} :
    (s.handleSubmitResponse id).1.Contained ↔ s.Contained := by
  unfold handleSubmitResponse
  split <;> exact Iff.rfl

omit [Features] in
theorem contained_getNewer {height : UInt64} {hash : CString} :
    (s.getNewer height hash).Contained ↔ s.Contained := by
  unfold getNewer
  split <;> exact Iff.rfl

omit [Features] in
theorem contained_onGet {path : Path} {doc : Json} (h : s.onGet path doc = .ok s') :
    s'.Contained ↔ s.Contained := by
  cases path with
  | getHeight =>
      simp only [onGet] at h
      split at h
      · contradiction
      · split at h <;> obtain rfl := Except.ok.inj h
        · exact Iff.rfl
        · exact contained_getNewer
  | getInfo =>
      obtain rfl := Except.ok.inj h
      exact contained_getNewer

theorem contained_parseResponse {id : Int} {result error : Json} {done : Bool}
    (h : s.parseResponse id result error random leaves = .ok (s', done)) :
    s'.Contained ↔ (Brings id result error → s.TemplateFits result) ∧ s.Contained := by
  unfold Brings
  simp only [parseResponse] at h
  split at h
  · next hid =>
    obtain ⟨rfl, -⟩ := Prod.mk.inj (Except.ok.inj h)
    simp [hid]
  split at h
  · next hid herror =>
    obtain ⟨_, -, h⟩ := bind_ok.mp h
    obtain ⟨rfl, -⟩ := Prod.mk.inj (Except.ok.inj h)
    simp [herror, contained_handleSubmitResponse]
  split at h
  · next hid herror hresult =>
    obtain ⟨rfl, -⟩ := Prod.mk.inj (Except.ok.inj h)
    simp_all
  split at h
  · next hid herror hresult hhash =>
    obtain ⟨rfl, -⟩ := Prod.mk.inj (Except.ok.inj h)
    simp only [hhash, Bool.true_eq_false, false_and, and_false, false_imp_iff, true_and]
    split <;> exact Iff.rfl
  next hid herror hresult hhash =>
    generalize hparsed : ite (result.hasMember (bytes "blocktemplate_blob") = true) _ _ = parsed at h
    obtain ⟨t, taken⟩ := parsed
    have ht : t.Contained ↔ (Brings id result error → s.TemplateFits result) ∧ s.Contained := by
      unfold Brings
      split at hparsed
      · next htemplate =>
        have hjob : (s.parseJob result random leaves).1.Contained ↔ _ := contained_parseJob
        rw [hparsed] at hjob
        simp_all
      · next htemplate =>
        obtain ⟨rfl, -⟩ := Prod.mk.inj hparsed
        simp [htemplate]
    cases taken with
    | true =>
        obtain ⟨rfl, -⟩ := Prod.mk.inj (Except.ok.inj h)
        exact ht
    | false =>
        have hsubmit : (t.handleSubmitResponse id).1.Contained ↔ t.Contained :=
          contained_handleSubmitResponse
        simp only [Bool.false_eq_true, if_false] at h
        generalize t.handleSubmitResponse id = submitted at h hsubmit
        obtain ⟨u, handled⟩ := submitted
        cases handled with
        | true | false =>
            obtain ⟨rfl, -⟩ := Prod.mk.inj (Except.ok.inj h)
            exact hsubmit.trans ht

theorem contained_onHttpData (h : s.onHttpData request data random leaves = .ok s') :
    s'.Contained ↔ (∀ params ∈ template request data, s.TemplateFits params) ∧ s.Contained := by
  have hretry : ∀ s : DaemonClient, (s.retry leaves).Contained ↔ s.Contained :=
    fun s => contained_congr (accesses_retry s leaves)
  unfold template
  simp only [onHttpData] at h
  split at h
  · next hstatus =>
    obtain rfl := Except.ok.inj h
    cases data.document <;> cases request <;> simp_all
  · next hstatus =>
    cases hdoc : data.document with
    | none =>
        simp only [hdoc] at h
        obtain rfl := Except.ok.inj h
        simp [hretry]
    | some doc =>
        cases request with
        | get path =>
            simp only [hdoc] at h
            simp [contained_onGet h]
        | post id =>
            simp only [hdoc] at h
            obtain ⟨⟨t, done⟩, hparse, h⟩ := bind_ok.mp h
            obtain rfl := Except.ok.inj h
            have ht := contained_parseResponse hparse
            have hkept : (if done = true then t else t.retry leaves).Contained ↔ t.Contained := by
              split
              · exact Iff.rfl
              · exact hretry t
            dsimp only
            rw [hkept, ht]
            simp_all [idOf]

omit [Features] in
theorem contained_submit {result : JobResult} : (s.submit result).Contained ↔
    (32 ≤ s.blocktemplate.size ∧
      (result.jobId = templateId s.blocktemplate → kNonceOffset + 8 ≤ s.mined.size)) ∧
    s.Contained := by
  have hid : (idAccess s.blocktemplate).Inside ↔ 32 ≤ s.blocktemplate.size := by
    cases s.blocktemplate with
    | none => simp [idAccess, Access.Inside, CString.size]
    | some text => exact inside_idAccess
  have hnonce : s.nonceAccess.Inside ↔ kNonceOffset + 8 ≤ s.mined.size := by
    simp only [nonceAccess, Access.Inside, kNonceOffset]
    omega
  rw [← hid, ← hnonce]
  simp only [submit]
  split
  · next hjob =>
    rw [contained_use]
    rcases hjob with hnone | hjob
    · have hempty : s.blocktemplate = none := Option.isNone_iff_eq_none.mp hnone
      simp [hempty, idAccess, Access.Inside, CString.size]
    · have hjob : result.jobId ≠ templateId s.blocktemplate := hjob
      simp [hjob]
  · next hjob =>
    have hmade : ∀ t : DaemonClient,
        t.accesses = ((s.use (idAccess s.blocktemplate)).use s.nonceAccess).accesses →
        (t.Contained ↔ s.nonceAccess.Inside ∧ (idAccess s.blocktemplate).Inside ∧ s.Contained) := by
      intro t ht
      rw [contained_congr ht, contained_use, contained_use]
    rw [hmade]
    · simp_all [use]
      tauto
    · split <;> rfl

/-- A step keeps all accesses inside just when what it uses fits. -/
theorem contained_step {e : Event} (h : machine.step s e = some s') :
    s'.Contained ↔ s.Fits e ∧ s.Contained := by
  have hafter : s.after e = some s' := (Option.ite_none_right_eq_some.mp h).2
  cases e with
  | connect =>
      obtain rfl := Option.some.inj hafter
      simp [Fits, contained_congr s.accesses_connect]
  | disconnect =>
      obtain rfl := Option.some.inj hafter
      simp [Fits, contained_congr s.accesses_disconnect]
  | submit result =>
      obtain rfl := Option.some.inj hafter
      exact contained_submit
  | reply request data random leaves =>
      rw [after, toOption_eq_some] at hafter
      have hreply := contained_onHttpData hafter
      exact hreply
  | timer =>
      obtain rfl := Option.some.inj hafter
      simp [Fits, contained_congr s.accesses_onTimer]
  | elsewhere =>
      obtain rfl := Option.some.inj hafter
      simp [Fits, Contained]

/-- **What stays inside.**  All that a run reads and writes in the strings of the client is
inside of them, just when its templates fit and its submits find room. -/
theorem inside_iff {es : List Event} (h0 : machine.init s) (hr : machine.run s es = some s') :
    (∀ a ∈ s'.accesses, a.Inside) ↔ machine.Meets Fits s es := by
  obtain ⟨pool, sequence, rfl⟩ := h0
  exact Machine.meets_iff (P := Contained) (fun _ _ _ => contained_step) hr nofun

end DaemonClient

end XLArig

namespace XLArig.DaemonClient

/-! ## Two templates -/

/-- A pool that is a daemon. -/
def samplePool : Pool := .ofHost (bytes "a") 18081 none none 0 false false .DAEMON

/-- A reply with a template and a hashing blob of zeros. -/
def templateReply (template : List UInt8) : HttpData where
  status := 200
  document := some (.object [(bytes "id", .int 1), (bytes "result", .object
    [(bytes "blocktemplate_blob", .string template),
      (bytes "blockhashing_blob", .string (List.replicate 152 0x30))])])

/-- A template of 118 characters, for which a nonce is submitted. -/
theorem inside_iff_submit :
    let reply := templateReply (List.replicate 118 0x30)
    let result := JobResult.ofJob { Job.empty with id := some (List.replicate 32 0x30) } 0 (fun _ => 0)
    ∃ s, machine.run (init samplePool 1)
        [.connect, .reply (.post 1) reply (fun _ => 0) false, .submit result] = some s ∧
      ∀ a ∈ s.accesses, a.Inside := by
  intro reply result
  have hsome : (machine.run (init samplePool 1)
      [.connect, .reply (.post 1) reply (fun _ => 0) false, .submit result]).isSome = true := by
    decide +kernel
  obtain ⟨s, hr⟩ := Option.isSome_iff_exists.mp hsome
  exact ⟨s, hr, (inside_iff ⟨_, _, rfl⟩ hr).mpr (by decide +kernel)⟩

/-- **A short template is read before its first character**, and with the DERO daemon the
reserved bytes are written past the end of the hashing blob. -/
theorem reaches_outside :
    ((machine.run (init samplePool 1)
        [.connect, .reply (.post 1) (templateReply (bytes "00")) (fun _ => 0) false]).any fun s =>
      s.accesses = [⟨2, -30, 2⟩] ∧ ¬ ∀ a ∈ s.accesses, a.Inside) = true ∧
    ((machine.run (init { samplePool with coin := .DERO } 1)
        [.connect, .reply (.post 1) ⟨200, some (.object [(bytes "id", .int 1), (bytes "result", .object
          [(bytes "blocktemplate_blob", .string []), (bytes "blockhashing_blob", .string []),
            (bytes "reserved_offset", .int 1000000)])])⟩ (fun _ => 0) false]).any fun s =>
      s.accesses = [⟨0, 2000000, 2000016⟩] ∧ ¬ ∀ a ∈ s.accesses, a.Inside) = true := by
  decide +kernel

end XLArig.DaemonClient
