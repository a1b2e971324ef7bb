import XLArig.Nonce.Requests
import XLArig.WorkerJob

/-!
# XLArig.WorkerJob.Lanes

The loops of `WorkerJob` seen lane by lane: the blobs stand side by side and the
nonce of a lane lies inside its blob, so what one turn writes stays in its lane.
-/

namespace XLArig

namespace WorkerJob

open Nonce (FieldFits put truncMask requests requestsWhile)

variable {mem : Memory} {i j n size : Nat}

/-! ## Lanes do not overlap -/

private theorem lane_stop_le (h : i < j) : i * size + size ≤ j * size := by
  rw [← Nat.succ_mul]
  exact Nat.mul_le_mul_right size h

/-- The nonce of another lane is outside this lane. -/
private theorem field_outside {off : Nat} {mask : UInt64} (hij : i ≠ j)
    (hfit : FieldFits mask off size) :
    j * size + off + 8 ≤ i * size ∨ i * size + size ≤ j * size + off ∨
      (j * size + off + 4 ≤ i * size ∧ mask.toNat < 2 ^ 32) := by
  unfold FieldFits at hfit
  cases Nat.lt_or_gt_of_ne hij with
  | inl h =>
      have : i * size + size ≤ j * size := lane_stop_le h
      omega
  | inr h =>
      have : j * size + size ≤ i * size := lane_stop_le h
      omega

theorem part_put {off : Nat} {mask : UInt64} (hfit : FieldFits (truncMask mask) off size)
    (r : Option UInt64) :
    (put mem (i * size + off) mask r).part (i * size) size =
      put (mem.part (i * size) size) off mask r := by
  cases r with
  | none => rfl
  | some c => exact Nonce.part_writeNonce hfit

theorem part_put_of_ne {off : Nat} {mask : UInt64} (hij : i ≠ j)
    (hfit : FieldFits (truncMask mask) off size) (r : Option UInt64) :
    (put mem (j * size + off) mask r).part (i * size) size = mem.part (i * size) size := by
  cases r with
  | none => rfl
  | some c => exact Nonce.part_writeNonce_of_disjoint (field_outside hij hfit)

/-! ## The loop of `save` -/

variable [Features] {N : Nat} {w : WorkerJob N} {job : Job}

/-- The loop makes `n` calls, whatever the blobs hold. -/
theorem saveLanes_requests (reserveCount : UInt32) (σ : Nonce) (mem : Memory) (n : Nat) :
    (saveLanes job reserveCount n σ mem).1 =
        (requests job.index reserveCount job.nonceMask n σ).1 ∧
      (saveLanes job reserveCount n σ mem).2.2 =
        (requests job.index reserveCount job.nonceMask n σ).2 := by
  induction n with
  | zero => exact ⟨rfl, rfl⟩
  | succ n ih =>
      simp only [saveLanes, requests, Nonce.next_eq, ih.1, ih.2, and_self]

/-- Every lane holds the job's blob, with the nonce it was granted, if any. -/
theorem saveLanes_lane (hfit : FieldFits (truncMask job.nonceMask) job.nonceOffset job.size)
    (reserveCount : UInt32) (σ : Nonce) (mem : Memory) (n : Nat) :
    ∀ i < n, (saveLanes job reserveCount n σ mem).2.1.part (i * job.size) job.size =
      put (job.blob.part 0 job.size) job.nonceOffset job.nonceMask
        (requests job.index reserveCount job.nonceMask n σ).2[i]?.join := by
  induction n with
  | zero => exact fun i hi => absurd hi (Nat.not_lt_zero i)
  | succ n ih =>
      intro i hi
      simp only [saveLanes, requests, Nonce.next_eq]
      rw [(saveLanes_requests reserveCount σ mem n).1]
      by_cases hin : i = n
      · subst hin
        rw [part_put hfit, Memory.part_copy, List.getElem?_append_right (by simp)]
        simp
      · have hlt : i < n := by omega
        have hstop : i * job.size + job.size ≤ n * job.size := lane_stop_le hlt
        rw [part_put_of_ne hin hfit, Memory.part_copy_of_disjoint (.inr hstop), ih i hlt,
          List.getElem?_append_left (by simpa using hlt)]

/-! ## The loops of `nextRound` -/

/-- The loop makes calls until one is refused, whatever the blobs hold. -/
theorem nextLanes_requests (reserveCount : UInt32) (σ : Nonce) (mem : Memory) (n : Nat) :
    (w.nextLanes reserveCount n σ mem).1 =
        (requestsWhile w.index reserveCount w.nonceMask n σ).1 ∧
      (w.nextLanes reserveCount n σ mem).2.2 =
        (requestsWhile w.index reserveCount w.nonceMask n σ).2 := by
  induction n with
  | zero => exact ⟨rfl, rfl⟩
  | succ n ih =>
      obtain ⟨hσ, hcs⟩ := ih
      simp only [nextLanes, requestsWhile, Nonce.next_eq]
      generalize w.nextLanes reserveCount n σ mem = x at hσ hcs ⊢
      generalize requestsWhile w.index reserveCount w.nonceMask n σ = y at hσ hcs ⊢
      obtain ⟨σ₁, mem₁, cs, ok⟩ := x
      obtain ⟨σ₂, cs₂, ok₂⟩ := y
      simp only [Prod.mk.injEq] at hσ hcs
      obtain ⟨rfl, rfl⟩ := hcs
      subst hσ
      cases ok with
      | false => exact ⟨rfl, rfl⟩
      | true =>
          simp only
          generalize σ₁.request w.index reserveCount w.nonceMask = z
          obtain ⟨σ₃, _ | c⟩ := z <;> exact ⟨rfl, rfl⟩

theorem nextLanes_lane (hfit : FieldFits (truncMask w.nonceMask) w.currentJob.nonceOffset
      w.currentJob.size) (reserveCount : UInt32) (σ : Nonce) (mem : Memory) (n : Nat) (i : Nat) :
    (w.nextLanes reserveCount n σ mem).2.1.part (i * w.currentJob.size) w.currentJob.size =
      put (mem.part (i * w.currentJob.size) w.currentJob.size) w.currentJob.nonceOffset
        w.nonceMask (requestsWhile w.index reserveCount w.nonceMask n σ).2.1[i]? := by
  induction n with
  | zero => simp [nextLanes, requestsWhile, put]
  | succ n ih =>
      have hlen := Nonce.length_requestsWhile w.index reserveCount w.nonceMask n σ
      have hreq := nextLanes_requests (w := w) reserveCount σ mem n
      simp only [nextLanes, requestsWhile, Nonce.next_eq]
      generalize w.nextLanes reserveCount n σ mem = x at hreq ih ⊢
      generalize requestsWhile w.index reserveCount w.nonceMask n σ = y at hreq hlen ih ⊢
      obtain ⟨σ₁, mem₁, cs, ok⟩ := x
      obtain ⟨σ₂, cs₂, ok₂⟩ := y
      simp only [Prod.mk.injEq] at hreq hlen ih ⊢
      obtain ⟨rfl, rfl, rfl⟩ := hreq
      cases ok with
      | false => exact ih
      | true =>
          have hn := hlen.2 rfl
          simp only
          generalize σ₁.request w.index reserveCount w.nonceMask = z
          obtain ⟨σ₃, _ | c⟩ := z
          · exact ih
          · simp only
            by_cases hin : i = n
            · subst hin
              simp only [nonce]
              rw [part_put hfit, ih, ← hn, List.getElem?_eq_none (Nat.le_refl _)]
              simp [put]
            · simp only [nonce]
              rw [part_put_of_ne hin hfit, ih]
              by_cases hlt : i < n
              · rw [List.getElem?_append_left (by omega)]
              · rw [List.getElem?_eq_none (by omega), List.getElem?_eq_none (by simp; omega)]

theorem walkLanes_spec {roundSize : UInt32}
    (hfit : w.currentJob.nonceOffset + 4 ≤ w.currentJob.size) (n : Nat) :
    ∀ i, (w.walkLanes roundSize n mem).part (i * w.currentJob.size) w.currentJob.size =
      if i < n then
        (mem.part (i * w.currentJob.size) w.currentJob.size).write32 w.currentJob.nonceOffset
          ((mem.part (i * w.currentJob.size) w.currentJob.size).read32 w.currentJob.nonceOffset +
            roundSize)
      else mem.part (i * w.currentJob.size) w.currentJob.size := by
  induction n with
  | zero => intro i; rw [if_neg (Nat.not_lt_zero i)]; rfl
  | succ n ih =>
      intro i
      simp only [walkLanes, nonce]
      by_cases hin : i = n
      · subst hin
        have hi := ih i
        rw [if_neg (Nat.lt_irrefl i)] at hi
        rw [if_pos (Nat.lt_succ_self i), Memory.part_write32 hfit, hi, ← Memory.read32_part hfit, hi]
      · have hout : n * w.currentJob.size + w.currentJob.nonceOffset + 4 ≤ i * w.currentJob.size ∨
            i * w.currentJob.size + w.currentJob.size ≤
              n * w.currentJob.size + w.currentJob.nonceOffset := by
          cases Nat.lt_or_gt_of_ne hin with
          | inl h =>
              have : i * w.currentJob.size + w.currentJob.size ≤ n * w.currentJob.size :=
                lane_stop_le h
              omega
          | inr h =>
              have : n * w.currentJob.size + w.currentJob.size ≤ i * w.currentJob.size :=
                lane_stop_le h
              omega
        rw [Memory.part_write32_of_disjoint hout, ih i]
        by_cases hlt : i < n
        · rw [if_pos hlt, if_pos (Nat.lt_succ_of_lt hlt)]
        · rw [if_neg hlt, if_neg (by omega)]

/-! ## The loaded job -/

variable {backend : Backend}

@[simp] theorem load_index : (w.load job mem backend).index = job.index := rfl

@[simp] theorem load_sequence : (w.load job mem backend).sequence = w.sequence := rfl

@[simp] theorem load_currentJob :
    (w.load job mem backend).currentJob = job.setBackend backend.toUInt32 := Function.update_self ..

@[simp] theorem load_round : (w.load job mem backend).round = 0 := Function.update_self ..

@[simp] theorem load_nonceMask : (w.load job mem backend).nonceMask = job.nonceMask :=
  Function.update_self ..

@[simp] theorem load_blob : (w.load job mem backend).blob = mem := Function.update_self ..

end WorkerJob

/-- A sized job has its nonce field inside its blob. -/
theorem Job.Sized.fits [Features] {job : Job} (h : job.Sized) :
    Nonce.FieldFits (Nonce.truncMask job.nonceMask) job.nonceOffset job.size := by
  have hle : (Nonce.truncMask job.nonceMask).toNat ≤ job.nonceMask.toNat := by
    rw [Nonce.truncMask, UInt64.toNat_and]
    exact Nat.and_le_left
  obtain ⟨hsize, -⟩ := h
  unfold Nonce.FieldFits
  cases job.nonceSize_cases with
  | inl h4 =>
      have := Job.nonceMask_le h4
      omega
  | inr h8 => omega

namespace WorkerJob

open Nonce (FieldFits put truncMask requests requestsWhile)

variable {N : Nat} {σ : Nonce} {w w' : WorkerJob N} {job : Job}
variable {reserveCount rounds roundSize : UInt32} {backend : Backend} {i : Nat}

/-! ## The same job -/

/-- What `nextRound` leaves alone: everything but the blobs, the round counter
and, with an 8-byte nonce, a word of the job's blob. -/
structure SameJob (w w' : WorkerJob N) : Prop where
  index : w'.index = w.index
  sequence : w'.sequence = w.sequence
  nonceMasks : w'.nonceMasks = w.nonceMasks
  currentJob : ∃ blob, w'.currentJob = { w.currentJob with blob }
  jobs : ∀ k, k ≠ w.index → w'.jobs k = w.jobs k
  blobs : ∀ k, k ≠ w.index → w'.blobs k = w.blobs k
  rounds : ∀ k, k ≠ w.index → w'.rounds k = w.rounds k

theorem SameJob.nonceMask (h : SameJob w w') : w'.nonceMask = w.nonceMask := by
  rw [WorkerJob.nonceMask, h.nonceMasks, h.index, WorkerJob.nonceMask]

theorem SameJob.size (h : SameJob w w') : w'.currentJob.size = w.currentJob.size := by
  obtain ⟨blob, hjob⟩ := h.currentJob
  rw [hjob]

theorem SameJob.algorithm (h : SameJob w w') :
    w'.currentJob.algorithm = w.currentJob.algorithm := by
  obtain ⟨blob, hjob⟩ := h.currentJob
  rw [hjob]

private theorem sameJob_setBlob (mem : Memory) : SameJob w (w.countRound.setBlob mem) where
  index := rfl
  sequence := rfl
  nonceMasks := rfl
  currentJob := ⟨w.currentJob.blob, rfl⟩
  jobs := fun _ _ => rfl
  blobs := fun _ hk => Function.update_of_ne hk ..
  rounds := fun _ hk => Function.update_of_ne hk ..

private theorem setBlob_blob (mem : Memory) : (w.countRound.setBlob mem).blob = mem :=
  Function.update_self ..

private theorem setBlob_round (mem : Memory) : (w.countRound.setBlob mem).round = w.round + 1 :=
  Function.update_self ..

/-- The lanes of a worker whose blob is known. -/
private theorem lane_of_blob {mem : Memory} (hsame : SameJob w w') (hblob : w'.blob = mem) :
    w'.lane i = mem.part (i * w.currentJob.size) w.currentJob.size := by
  rw [lane, hblob, hsame.size]

/-! ## `save` -/

variable [Features]

theorem save_fst : (w.save σ job reserveCount backend).1 =
    (requests job.index reserveCount job.nonceMask N σ).1 :=
  (saveLanes_requests _ _ _ N).1

theorem save_results : (w.save σ job reserveCount backend).2.2 =
    (requests job.index reserveCount job.nonceMask N σ).2 :=
  (saveLanes_requests _ _ _ N).2

theorem save_load (σ : Nonce) (w : WorkerJob N) (job : Job) (reserveCount : UInt32)
    (backend : Backend) : ∃ mem, (w.save σ job reserveCount backend).2.1 = w.load job mem backend :=
  ⟨_, rfl⟩

/-- After `save` a lane holds the job's blob with the nonce it was granted. -/
theorem save_lane (σ : Nonce) (w : WorkerJob N) (reserveCount : UInt32) (backend : Backend)
    (h : job.Sized) (hi : i < N) :
    (w.save σ job reserveCount backend).2.1.lane i =
      put (job.blob.part 0 job.size) job.nonceOffset job.nonceMask
        (requests job.index reserveCount job.nonceMask N σ).2[i]?.join := by
  have hlane := saveLanes_lane h.fits reserveCount σ (w.blobs job.index) N i hi
  unfold save lane
  rw [load_blob, load_currentJob]
  exact hlane

/-! ## `add` -/

theorem add_saves (h : w.saves job = true) (σ : Nonce) (reserveCount : UInt32)
    (backend : Backend) : w.add σ job reserveCount backend =
      save σ { w with sequence := σ.sequence backend } job reserveCount backend := by
  simp only [saves, Bool.and_eq_true, Bool.not_eq_true'] at h
  have heq : ({ w with sequence := σ.sequence backend } : WorkerJob N).currentJob.isEqual job = false :=
    h.1
  have hret : ({ w with sequence := σ.sequence backend } : WorkerJob N).returns job = false := h.2
  simp only [add, heq, hret, Bool.false_eq_true, if_false]

/-- A job that a slot holds is asked no windows for. -/
theorem add_keeps (h : w.saves job = false) (σ : Nonce) (reserveCount : UInt32)
    (backend : Backend) : (w.add σ job reserveCount backend).1 = σ ∧
      (w.add σ job reserveCount backend).2.2 = [] := by
  simp only [saves, Bool.and_eq_false_iff, Bool.not_eq_false'] at h
  unfold add
  dsimp only
  split
  · exact ⟨rfl, rfl⟩
  · next heq =>
    have hret : ({ w with sequence := σ.sequence backend } : WorkerJob N).returns job = true :=
      h.resolve_left heq
    rw [if_pos hret]
    exact ⟨rfl, rfl⟩

theorem add_sequence (σ : Nonce) (w : WorkerJob N) (job : Job) (reserveCount : UInt32)
    (backend : Backend) :
    (w.add σ job reserveCount backend).2.1.sequence = σ.sequence backend := by
  unfold add
  dsimp only
  split
  · rfl
  · split <;> rfl

/-- After `add` the worker has the job. -/
theorem isEqual_add (σ : Nonce) (w : WorkerJob N) (job : Job) (reserveCount : UInt32)
    (backend : Backend) : (w.add σ job reserveCount backend).2.1.currentJob.isEqual job = true := by
  unfold add
  dsimp only
  split
  · next heq => exact heq
  · split
    · next hret =>
      simp only [returns, Bool.and_eq_true] at hret
      exact Job.isEqual_symm hret.2
    · obtain ⟨mem, hload⟩ :=
        save_load σ { w with sequence := σ.sequence backend } job reserveCount backend
      rw [hload, load_currentJob]
      exact job.isEqual_refl

/-- `add` writes the slot of the job it saves only. -/
theorem jobs_add (σ : Nonce) (w : WorkerJob N) (job : Job) (reserveCount : UInt32)
    (backend : Backend) {k : Fin 2} (h : w.saves job = true → k ≠ job.index) :
    (w.add σ job reserveCount backend).2.1.jobs k = w.jobs k := by
  cases hsaves : w.saves job with
  | false =>
      simp only [saves, Bool.and_eq_false_iff, Bool.not_eq_false'] at hsaves
      unfold add
      dsimp only
      split
      · rfl
      · next heq =>
        have hret : ({ w with sequence := σ.sequence backend } : WorkerJob N).returns job = true :=
          hsaves.resolve_left heq
        rw [if_pos hret]
  | true =>
      obtain ⟨mem, hload⟩ :=
        save_load σ { w with sequence := σ.sequence backend } job reserveCount backend
      rw [add_saves hsaves, hload]
      exact Function.update_of_ne (h hsaves) ..

/-! ## `nextRound` -/

/-- A round at a boundary calls `next`, whatever the blobs hold. -/
theorem nextRound_requests (σ : Nonce) (roundSize : UInt32) (hb : w.atBoundary rounds) :
    (w.nextRound σ rounds roundSize).1 =
        (requestsWhile w.index (rounds * roundSize) w.nonceMask N σ).1 ∧
      (w.nextRound σ rounds roundSize).2.2 =
        (requestsWhile w.index (rounds * roundSize) w.nonceMask N σ).2 := by
  obtain ⟨hσ, hcs⟩ := nextLanes_requests (w := w) (rounds * roundSize) σ w.blob N
  unfold nextRound
  rw [if_pos hb]
  generalize w.nextLanes (rounds * roundSize) N σ w.blob = x at hσ hcs ⊢
  obtain ⟨σ₁, mem, cs, ok⟩ := x
  cases ok <;> exact ⟨hσ, hcs⟩

theorem nextRound_walks (σ : Nonce) (roundSize : UInt32) (hb : ¬ w.atBoundary rounds) :
    (w.nextRound σ rounds roundSize).1 = σ ∧
      (w.nextRound σ rounds roundSize).2.2 = ([], true) := by
  unfold nextRound
  rw [if_neg hb]
  exact ⟨rfl, rfl⟩

theorem SameJob.nonceOffset (h : SameJob w w') :
    w'.currentJob.nonceOffset = w.currentJob.nonceOffset := by
  rw [Job.nonceOffset, h.algorithm, Job.nonceOffset]

private theorem sameJob_keepHighWord (h : SameJob w w') : SameJob w w'.keepHighWord := by
  unfold keepHighWord
  split
  · obtain ⟨blob, hjob⟩ := h.currentJob
    constructor
    · exact h.index
    · exact h.sequence
    · exact h.nonceMasks
    · refine ⟨w'.currentJob.blob.write32 (w'.currentJob.nonceOffset + 4)
        (w'.blob.read32 (w'.currentJob.nonceOffset + 4)), ?_⟩
      show Function.update w'.jobs w'.index _ w'.index = _
      rw [Function.update_self, hjob]
    · intro k hk
      show Function.update w'.jobs w'.index _ k = _
      rw [Function.update_of_ne (by rw [h.index]; exact hk)]
      exact h.jobs k hk
    · exact h.blobs
    · exact h.rounds
  · exact h

@[simp] private theorem keepHighWord_blob : w.keepHighWord.blob = w.blob := by
  unfold keepHighWord
  split <;> rfl

@[simp] private theorem keepHighWord_round : w.keepHighWord.round = w.round := by
  unfold keepHighWord
  split <;> rfl

/-- Every round keeps the job. -/
theorem sameJob_nextRound (σ : Nonce) (w : WorkerJob N) (rounds roundSize : UInt32) :
    SameJob w (w.nextRound σ rounds roundSize).2.1 := by
  unfold nextRound
  dsimp only
  split
  · generalize w.nextLanes (rounds * roundSize) N σ w.blob = x
    obtain ⟨σ₁, mem, cs, _ | _⟩ := x
    · exact sameJob_setBlob mem
    · exact sameJob_keepHighWord (sameJob_setBlob mem)
  · exact sameJob_setBlob _

theorem round_nextRound (σ : Nonce) (w : WorkerJob N) (rounds roundSize : UInt32) :
    (w.nextRound σ rounds roundSize).2.1.round = w.round + 1 := by
  unfold nextRound
  dsimp only
  split
  · generalize w.nextLanes (rounds * roundSize) N σ w.blob = x
    obtain ⟨σ₁, mem, cs, _ | _⟩ := x
    · exact setBlob_round mem
    · exact keepHighWord_round.trans (setBlob_round mem)
  · exact setBlob_round _

/-- The job itself is kept, but for an 8-byte nonce. -/
theorem currentJob_nextRound (σ : Nonce) (w : WorkerJob N) (rounds roundSize : UInt32)
    (h : w.currentJob.nonceSize ≠ 8) : (w.nextRound σ rounds roundSize).2.1.jobs = w.jobs := by
  have hkeep : ∀ mem, (w.countRound.setBlob mem).keepHighWord.jobs = w.jobs := by
    intro mem
    rw [keepHighWord, if_neg fun hn => h hn.2]
    rfl
  unfold nextRound
  dsimp only
  split
  · generalize w.nextLanes (rounds * roundSize) N σ w.blob = x
    obtain ⟨σ₁, mem, cs, _ | _⟩ := x
    · rfl
    · exact hkeep mem
  · rfl

/-- A round that asks for new windows. -/
theorem nextRound_boundary (σ : Nonce) (roundSize : UInt32) (hb : w.atBoundary rounds)
    (hfit : FieldFits (truncMask w.nonceMask) w.currentJob.nonceOffset w.currentJob.size) :
    (w.nextRound σ rounds roundSize).1 =
        (requestsWhile w.index (rounds * roundSize) w.nonceMask N σ).1 ∧
      (w.nextRound σ rounds roundSize).2.2 =
        (requestsWhile w.index (rounds * roundSize) w.nonceMask N σ).2 ∧
      SameJob w (w.nextRound σ rounds roundSize).2.1 ∧
      (w.nextRound σ rounds roundSize).2.1.round = w.round + 1 ∧
      ∀ i, (w.nextRound σ rounds roundSize).2.1.lane i =
        put (w.lane i) w.currentJob.nonceOffset w.nonceMask
          (requestsWhile w.index (rounds * roundSize) w.nonceMask N σ).2.1[i]? := by
  obtain ⟨hσ, hcs⟩ := nextLanes_requests (w := w) (rounds * roundSize) σ w.blob N
  have hlane := nextLanes_lane hfit (rounds * roundSize) σ w.blob N
  unfold nextRound
  rw [if_pos hb]
  generalize w.nextLanes (rounds * roundSize) N σ w.blob = x at hσ hcs hlane ⊢
  obtain ⟨σ₁, mem, cs, ok⟩ := x
  simp only at hσ hcs hlane ⊢
  cases ok with
  | false =>
      have hsame := sameJob_setBlob (w := w) mem
      exact ⟨hσ, hcs, hsame, setBlob_round mem,
        fun i => (lane_of_blob hsame (setBlob_blob mem)).trans (hlane i)⟩
  | true =>
      have hsame := sameJob_keepHighWord (sameJob_setBlob (w := w) mem)
      refine ⟨hσ, hcs, hsame, ?_, fun i => ?_⟩
      · rw [keepHighWord_round, setBlob_round]
      · rw [lane_of_blob hsame ((keepHighWord_blob).trans (setBlob_blob mem))]
        exact hlane i

/-- A round inside the windows. -/
theorem nextRound_inside (σ : Nonce) (roundSize : UInt32) (hb : ¬ w.atBoundary rounds)
    (hfit : w.currentJob.nonceOffset + 4 ≤ w.currentJob.size) :
    (w.nextRound σ rounds roundSize).1 = σ ∧
      (w.nextRound σ rounds roundSize).2.2 = ([], true) ∧
      SameJob w (w.nextRound σ rounds roundSize).2.1 ∧
      (w.nextRound σ rounds roundSize).2.1.round = w.round + 1 ∧
      ∀ i < N, (w.nextRound σ rounds roundSize).2.1.lane i =
        (w.lane i).write32 w.currentJob.nonceOffset
          ((w.lane i).read32 w.currentJob.nonceOffset + roundSize) := by
  unfold nextRound
  rw [if_neg hb]
  have hsame := sameJob_setBlob (w := w) (w.walkLanes roundSize N w.blob)
  refine ⟨rfl, rfl, hsame, setBlob_round _, fun i hi => ?_⟩
  rw [lane_of_blob hsame (setBlob_blob _), walkLanes_spec hfit N i, if_pos hi]
  rfl

end WorkerJob

end XLArig
