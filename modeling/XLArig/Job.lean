import XLArig.Algorithm
import XLArig.Nonce

/-!
# XLArig.Job

`base/net/stratum/Job`: what a pool gives the miner to work on.  The fields that
only the proxy build or the benchmark reads are left out.
-/

namespace XLArig

/-- `Job`. -/
structure Job where
  algorithm : Algorithm
  nicehash : Bool
  seed : List UInt8
  size : Nat
  clientId : CString
  extraNonce : CString
  id : CString
  poolWallet : CString
  backend : UInt32
  diff : UInt64
  height : UInt64
  target : UInt64
  blob : Memory
  index : Fin 2

namespace Job

/-- `kMaxBlobSize`. -/
def maxBlobSize : Nat := 408

/-- A default-constructed job. -/
def empty : Job where
  algorithm := .INVALID
  nicehash := false
  seed := []
  size := 0
  clientId := none
  extraNonce := none
  id := none
  poolWallet := none
  backend := 0
  diff := 0
  height := 0
  target := 0
  blob := fun _ => 0
  index := userIndex

def isValid (job : Job) : Bool := (job.size > 0 && job.diff > 0) || !job.poolWallet.isEmpty

def setBackend (job : Job) (backend : UInt32) : Job := { job with backend }

/-- A NiceHash job with a given id, whose pool fixed the last byte of the nonce:
the runs on concrete inputs use it. -/
def sample (id : String) : Job :=
  { empty with
    algorithm := .CN_0
    nicehash := true
    size := 76
    id := some (bytes id)
    blob := fun i => if i = 42 then 0xAA else 0 }

/-- The id, the client id and all bytes of the blob agree. -/
def isEqual (job other : Job) : Bool :=
  job.id == other.id && job.clientId == other.clientId &&
    job.blob.slice 0 maxBlobSize == other.blob.slice 0 maxBlobSize

@[simp] theorem isEqual_refl (job : Job) : job.isEqual job = true := by simp [isEqual]

theorem isEqual_iff {job other : Job} :
    job.isEqual other = true ↔ job.id = other.id ∧ job.clientId = other.clientId ∧
      job.blob.slice 0 maxBlobSize = other.blob.slice 0 maxBlobSize := by
  simp [isEqual, and_assoc]

theorem isEqual_symm {job other : Job} (h : job.isEqual other = true) :
    other.isEqual job = true := by
  rw [isEqual_iff] at h ⊢
  exact ⟨h.1.symm, h.2.1.symm, h.2.2.symm⟩

theorem isEqual_trans {job other third : Job} (h : job.isEqual other = true)
    (h' : other.isEqual third = true) : job.isEqual third = true := by
  rw [isEqual_iff] at h h' ⊢
  exact ⟨h.1.trans h'.1, h.2.1.trans h'.2.1, h.2.2.trans h'.2.2⟩

/-! ## The nonce -/

variable [Features]

def nonceOffset (job : Job) : Nat := if job.algorithm.family = .KAWPOW then 32 else 39

def nonceSize (job : Job) : Nat := if job.algorithm.family = .KAWPOW then 8 else 4

/-- The shift is by the count modulo 64, as the machine does it. -/
def nonceMask (job : Job) : UInt64 :=
  if job.nicehash then 0xFFFFFF
  else if job.nonceSize = 8 then 0xFFFFFFFFFFFFFFFF >>> UInt64.ofNat (job.extraNonce.size * 4)
  else 0xFFFFFFFF

/-- What `setBlob` accepted: the nonce is inside the blob. -/
def Sized (job : Job) : Prop :=
  job.nonceOffset + job.nonceSize ≤ job.size ∧ job.size < maxBlobSize

instance (job : Job) : Decidable job.Sized := inferInstanceAs (Decidable (_ ∧ _))

theorem nonceMask_isMask (job : Job) : Nonce.IsMask job.nonceMask := by
  unfold nonceMask
  split
  · exact ⟨24, by omega, rfl⟩
  · split
    · refine ⟨64 - job.extraNonce.size * 4 % 64, by omega, ?_⟩
      have hlt : job.extraNonce.size * 4 % 64 < 64 := Nat.mod_lt _ (by decide)
      rw [UInt64.toNat_shiftRight, UInt64.toNat_ofNat', Nat.mod_mod_of_dvd _ (by decide),
        Nat.shiftRight_eq_div_pow]
      generalize job.extraNonce.size * 4 % 64 = j at hlt
      show (2 ^ 64 - 1) / 2 ^ j = 2 ^ (64 - j) - 1
      have hsplit : 2 ^ 64 = 2 ^ j * 2 ^ (64 - j) := by
        rw [← Nat.pow_add, Nat.add_sub_cancel' hlt.le]
      have hpos : 0 < 2 ^ j := Nat.two_pow_pos j
      have hpos' : 0 < 2 ^ (64 - j) := Nat.two_pow_pos _
      rw [hsplit, Nat.div_eq_iff hpos, Nat.mul_comm, Nat.mul_sub]
      omega
    · exact ⟨32, by omega, rfl⟩

/-- A 4-byte nonce has a mask of at most 32 bits. -/
theorem nonceMask_le {job : Job} (h : job.nonceSize = 4) : job.nonceMask.toNat < 2 ^ 32 := by
  unfold nonceMask
  split
  · decide
  · rw [if_neg (by rw [h]; decide)]
    decide

theorem nonceSize_cases (job : Job) : job.nonceSize = 4 ∨ job.nonceSize = 8 := by
  unfold nonceSize
  split
  · exact .inr rfl
  · exact .inl rfl

/-- `other` is `job` as a worker keeps it: only the backend and the blob may differ. -/
def Like (job other : Job) : Prop := ∃ backend blob, other = { job with backend, blob }

omit [Features] in
theorem Like.refl (job : Job) : job.Like job := ⟨job.backend, job.blob, rfl⟩

variable {job other : Job}

omit [Features] in
theorem Like.size (h : job.Like other) : other.size = job.size := by
  obtain ⟨_, _, rfl⟩ := h
  rfl

omit [Features] in
theorem Like.algorithm (h : job.Like other) : other.algorithm = job.algorithm := by
  obtain ⟨_, _, rfl⟩ := h
  rfl

theorem Like.nonceOffset (h : job.Like other) : other.nonceOffset = job.nonceOffset := by
  obtain ⟨_, _, rfl⟩ := h
  rfl

theorem Like.nonceMask (h : job.Like other) : other.nonceMask = job.nonceMask := by
  obtain ⟨_, _, rfl⟩ := h
  rfl

end Job

/-- `JobResult`. -/
structure JobResult where
  algorithm : Algorithm
  clientId : CString
  jobId : CString
  backend : UInt32
  nonce : UInt64
  diff : UInt64
  index : Fin 2
  result : Memory

/-- The result of hashing `job` with `nonce`: the first 32 bytes of `result`. -/
def JobResult.ofJob (job : Job) (nonce : UInt64) (result : Memory) : JobResult where
  algorithm := job.algorithm
  clientId := job.clientId
  jobId := job.id
  backend := job.backend
  nonce := nonce
  diff := job.diff
  index := job.index
  result := result.part 0 32

end XLArig
