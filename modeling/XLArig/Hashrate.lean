import XLArig.RingBuffer

/-!
# XLArig.Hashrate

`backend/common/Hashrate`: a ring of samples for each thread and one for all of them, and the rate
over the last milliseconds.

The ring is read backwards from the newest sample, up to the first slot with a timestamp below the
limit.  A slot that was never written has the timestamp 0.
-/

namespace XLArig

/-- A `double`, with the exact value of what was computed. -/
inductive Double
  | nan
  | number (q : ℚ)
  deriving DecidableEq

/-- What `addData` is given. -/
structure Sample where
  count : UInt64
  timestamp : UInt64
  deriving DecidableEq, Repr

/-- The rings of `threads` threads, the one for all of them first. -/
structure Hashrate (threads : Nat) where
  top : Fin (threads + 1) → UInt32
  counts : Fin (threads + 1) → Nat → UInt64
  timestamps : Fin (threads + 1) → Nat → UInt64

namespace Hashrate

variable {threads : Nat}

def kBucketSize : Nat := 2 <<< 11

def kBucketMask : UInt64 := .ofNat (kBucketSize - 1)

/-- The constructor. -/
def new (threads : Nat) : Hashrate threads where
  top := fun _ => 0
  counts := fun _ _ => 0
  timestamps := fun _ _ => 0

def addData (h : Hashrate threads) (index : Fin (threads + 1)) (count timestamp : UInt64) :
    Hashrate threads :=
  let top := (h.top index).toUInt64
  { top := Function.update h.top index ((top + 1) &&& kBucketMask).toUInt32
    counts := Function.update h.counts index
      (Function.update (h.counts index) top.toNat count)
    timestamps := Function.update h.timestamps index
      (Function.update (h.timestamps index) top.toNat timestamp) }

/-- What the loop of `hashrate` leaves. -/
structure Found where
  haveFullSet : Bool
  earliestStamp : UInt64
  earliestHashCount : UInt64

/-- The loop of `hashrate`, which is given up after some turns. -/
def walk (timestamps counts : Nat → UInt64) (timeStampLimit idxStart : UInt64) :
    Nat → UInt64 → Option Found
  | 0, _ => none
  | n + 1, idx =>
      if timestamps idx.toNat < timeStampLimit then
        let haveFullSet := timestamps idx.toNat != 0
        if idx ≠ idxStart then
          let idx := (idx + 1) &&& kBucketMask
          some ⟨haveFullSet, timestamps idx.toNat, counts idx.toNat⟩
        else some ⟨haveFullSet, 0, 0⟩
      else
        let idx := (idx - 1) &&& kBucketMask
        if idx ≠ idxStart then walk timestamps counts timeStampLimit idxStart n idx
        else some ⟨false, 0, 0⟩

/-- What follows the loop. -/
def rate (found : Found) (lastestStamp lastestHashCnt : UInt64) : Double :=
  if !found.haveFullSet || found.earliestStamp == 0 || lastestStamp == 0 then .nan
  else if lastestStamp - found.earliestStamp == 0 then .nan
  else
    let hashes : ℚ := (lastestHashCnt - found.earliestHashCount).toNat
    let time : ℚ := (lastestStamp - found.earliestStamp).toNat / 1000
    .number (hashes / time)

/-- `hashrate` at the time `now`, or `none` if its loop goes on and on. -/
def hashrate (h : Hashrate threads) (index : Nat) (ms now : UInt64) : Option Double :=
  if hindex : index < threads + 1 then
    let timeStampLimit := now - ms
    let timestamps := h.timestamps ⟨index, hindex⟩
    let counts := h.counts ⟨index, hindex⟩
    let idxStart := (h.top ⟨index, hindex⟩ - 1).toUInt64 &&& kBucketMask
    let lastestStamp := timestamps idxStart.toNat
    let lastestHashCnt := counts idxStart.toNat
    (walk timestamps counts timeStampLimit idxStart kBucketSize idxStart).map fun found =>
      rate found lastestStamp lastestHashCnt
  else some .nan

/-- A call of `addData`. -/
structure Call (threads : Nat) where
  index : Fin (threads + 1)
  sample : Sample

/-- The calls one after the other. -/
def run (calls : List (Call threads)) : Hashrate threads :=
  calls.foldl (fun h call => h.addData call.index call.sample.count call.sample.timestamp)
    (new threads)

/-- The samples of one ring, the oldest first. -/
def samples (i : Fin (threads + 1)) (calls : List (Call threads)) : List Sample :=
  (calls.filter fun call => call.index = i).map Call.sample

/-- The last samples of one ring, the newest first. -/
def recent (i : Fin (threads + 1)) (calls : List (Call threads)) : List Sample :=
  (samples i calls).reverse.take kBucketSize

/-! ## The rings -/

/-- A ring with its samples. -/
def ring (h : Hashrate threads) (i : Fin (threads + 1)) : RingBuffer Sample :=
  ⟨fun k => ⟨h.counts i k, h.timestamps i k⟩, (h.top i).toNat⟩

/-- A slot that was never written. -/
def unused : Sample := ⟨0, 0⟩

theorem toNat_and_kBucketMask (x : UInt64) : (x &&& kBucketMask).toNat = x.toNat % kBucketSize := by
  have hmask : kBucketMask.toNat = 2 ^ 12 - 1 := rfl
  have hsize : kBucketSize = 2 ^ 12 := rfl
  rw [UInt64.toNat_and, hmask, hsize, Nat.and_two_pow_sub_one_eq_mod]

theorem ring_addData_self (h : Hashrate threads) (i : Fin (threads + 1)) (s : Sample) :
    (h.addData i s.count s.timestamp).ring i = (h.ring i).push kBucketSize s := by
  have hsize : kBucketSize = 4096 := rfl
  simp only [ring, addData, Function.update_self, RingBuffer.push, UInt32.toNat_toUInt64]
  congr 1
  · funext k
    by_cases hk : k = (h.top i).toNat
    · simp [hk]
    · simp [Function.update_of_ne hk]
  · rw [UInt64.toNat_toUInt32, toNat_and_kBucketMask, UInt64.toNat_add, UInt32.toNat_toUInt64]
    have hlt := (h.top i).toNat_lt
    rw [hsize]
    simp only [UInt64.toNat_one]
    omega

theorem ring_addData_of_ne {h : Hashrate threads} {i k : Fin (threads + 1)} {count timestamp : UInt64}
    (hne : i ≠ k) : (h.addData k count timestamp).ring i = h.ring i := by
  simp [ring, addData, Function.update_of_ne hne]

/-- After a run, a ring holds its samples. -/
theorem holds_run (i : Fin (threads + 1)) (calls : List (Call threads)) :
    RingBuffer.Holds kBucketSize unused ((run calls).ring i) (samples i calls).reverse := by
  induction calls using List.reverseRecOn with
  | nil => exact RingBuffer.holds_nil (by decide)
  | append_singleton calls call ih =>
      have hrun : run (calls ++ [call]) =
          (run calls).addData call.index call.sample.count call.sample.timestamp := by
        simp [run]
      by_cases hi : call.index = i
      · subst hi
        have hsamples : samples call.index (calls ++ [call]) =
            samples call.index calls ++ [call.sample] := by
          simp [samples]
        rw [hrun, hsamples, List.reverse_append, ring_addData_self]
        exact ih.push call.sample
      · have hsamples : samples i (calls ++ [call]) = samples i calls := by
          simp [samples, hi]
        rw [hrun, hsamples, ring_addData_of_ne (Ne.symm hi)]
        exact ih

/-! ## The loop -/

section Walk

open RingBuffer (index)

variable {timestamps counts : Nat → UInt64} {limit idxStart idx : UInt64} {top j k n : Nat}

theorem toNat_next : ((idx + 1) &&& kBucketMask).toNat = (idx.toNat + 1) % kBucketSize := by
  have hsize : kBucketSize = 4096 := rfl
  rw [toNat_and_kBucketMask, UInt64.toNat_add, UInt64.toNat_one, hsize]
  omega

theorem toNat_prev :
    ((idx - 1) &&& kBucketMask).toNat = (idx.toNat + (kBucketSize - 1)) % kBucketSize := by
  have hsize : kBucketSize = 4096 := rfl
  have hidx := idx.toNat_lt
  rw [toNat_and_kBucketMask, UInt64.toNat_sub, UInt64.toNat_one, hsize]
  omega

/-- What is found if slot `k` on the way back is the first one below the limit. -/
def foundAt (timestamps counts : Nat → UInt64) (top k : Nat) : Found :=
  let stamp := timestamps (index kBucketSize top k)
  if k = 0 then ⟨stamp != 0, 0, 0⟩
  else ⟨stamp != 0, timestamps (index kBucketSize top (k - 1)),
    counts (index kBucketSize top (k - 1))⟩

/-- The loop is back at its start, or at the next slot. -/
theorem prev_index (hidx : idx.toNat = index kBucketSize top j)
    (hstart : idxStart.toNat = index kBucketSize top 0) (hj : j < kBucketSize) :
    (((idx - 1) &&& kBucketMask) ≠ idxStart ↔ j + 1 < kBucketSize) ∧
      (j + 1 < kBucketSize →
        ((idx - 1) &&& kBucketMask).toNat = index kBucketSize top (j + 1)) := by
  have hprev : ((idx - 1) &&& kBucketMask).toNat =
      (index kBucketSize top j + (kBucketSize - 1)) % kBucketSize := by rw [toNat_prev, hidx]
  by_cases hlast : j + 1 < kBucketSize
  · have hnext : ((idx - 1) &&& kBucketMask).toNat = index kBucketSize top (j + 1) := by
      rw [hprev, RingBuffer.index_succ hlast]
    refine ⟨⟨fun _ => hlast, fun _ heq => ?_⟩, fun _ => hnext⟩
    rw [heq, hstart] at hnext
    have := RingBuffer.index_inj (by omega) hlast hnext
    omega
  · have hj : j = kBucketSize - 1 := by omega
    subst hj
    have heq : ((idx - 1) &&& kBucketMask) = idxStart := by
      apply UInt64.toNat_inj.mp
      rw [hprev, RingBuffer.index_wrap (by decide), hstart]
    exact ⟨⟨fun hne => absurd heq hne, fun h => absurd h hlast⟩, fun h => absurd h hlast⟩

/-- The loop ends at the first slot below the limit. -/
theorem walk_foundAt (hidx : idx.toNat = index kBucketSize top j)
    (hstart : idxStart.toNat = index kBucketSize top 0) (hn : n + j = kBucketSize)
    (hjk : j ≤ k) (hk : k < kBucketSize)
    (habove : ∀ m, j ≤ m → m < k → ¬ timestamps (index kBucketSize top m) < limit)
    (hbelow : timestamps (index kBucketSize top k) < limit) :
    walk timestamps counts limit idxStart n idx = some (foundAt timestamps counts top k) := by
  induction n generalizing j idx with
  | zero => omega
  | succ n ih =>
      have hj : j < kBucketSize := by omega
      rw [walk, hidx]
      by_cases hjk' : j = k
      · subst hjk'
        rw [if_pos hbelow]
        by_cases hzero : j = 0
        · subst hzero
          have heq : idx = idxStart := UInt64.toNat_inj.mp (hidx.trans hstart.symm)
          simp [heq, foundAt]
        · have hne : idx ≠ idxStart := by
            intro heq
            rw [heq, hstart] at hidx
            exact hzero (RingBuffer.index_inj (by omega) hj hidx).symm
          obtain ⟨j, rfl⟩ := Nat.exists_eq_succ_of_ne_zero hzero
          have hnext : ((idx + 1) &&& kBucketMask).toNat = index kBucketSize top j := by
            rw [toNat_next, hidx, RingBuffer.index_pred hj]
          simp [hne, foundAt, hnext]
      · have hlt : j < k := by omega
        obtain ⟨hgo, hnext⟩ := prev_index hidx hstart hj
        have hj' : j + 1 < kBucketSize := by omega
        simp only [if_neg (habove j le_rfl hlt), if_pos (hgo.mpr hj')]
        exact ih (hnext hj') (by omega) (by omega) fun m hm hmk => habove m (by omega) hmk

/-- The loop goes around once if no slot is below the limit. -/
theorem walk_around (hidx : idx.toNat = index kBucketSize top j)
    (hstart : idxStart.toNat = index kBucketSize top 0) (hn : n + j = kBucketSize)
    (hj : j < kBucketSize)
    (habove : ∀ m, j ≤ m → m < kBucketSize → ¬ timestamps (index kBucketSize top m) < limit) :
    walk timestamps counts limit idxStart n idx = some ⟨false, 0, 0⟩ := by
  induction n generalizing j idx with
  | zero => omega
  | succ n ih =>
      obtain ⟨hgo, hnext⟩ := prev_index hidx hstart hj
      have hidx' := habove j le_rfl hj
      rw [← hidx] at hidx'
      rw [walk, if_neg hidx']
      by_cases hj' : j + 1 < kBucketSize
      · simp only [if_pos (hgo.mpr hj')]
        exact ih (hnext hj') (by omega) hj' fun m hm hmk => habove m (by omega) hmk
      · simp only [if_neg (hgo.not.mpr hj')]

end Walk

/-! ## The window -/

/-- Without fewer than `kBucketSize` samples, the slots further back are unused. -/
def stamp (l : List Sample) (j : Nat) : UInt64 := (l.getD j unused).timestamp

def hashCount (l : List Sample) (j : Nat) : UInt64 := (l.getD j unused).count

/-- Of the samples `recent`, the newest first, `e` is the oldest such that it and the later ones
have been taken at most `ms` before `now`. -/
structure Oldest (now ms : UInt64) (recent later : List Sample) (e : Sample)
    (before : List Sample) : Prop where
  split : recent = later ++ e :: before
  inside : ∀ s ∈ later ++ [e], now.toNat ≤ s.timestamp.toNat + ms.toNat
  outside : ∀ b ∈ before.head?, b.timestamp.toNat + ms.toNat < now.toNat

section

variable {now ms : UInt64} {l later before : List Sample} {e : Sample} {j k : Nat}

theorem toNat_limit (h : ms ≤ now) : (now - ms).toNat = now.toNat - ms.toNat :=
  UInt64.toNat_sub_of_le _ _ h

/-- The limit wraps around soon after the start of the machine. -/
theorem lt_limit (h : ¬ ms ≤ now) (hms : ms.toNat < 2 ^ 63) : now < now - ms := by
  rw [UInt64.le_iff_toNat_le] at h
  rw [UInt64.lt_iff_toNat_lt, UInt64.toNat_sub]
  omega

theorem below_iff (h : ms ≤ now) (x : UInt64) :
    x < now - ms ↔ x.toNat + ms.toNat < now.toNat := by
  have hle := UInt64.le_iff_toNat_le.mp h
  rw [UInt64.lt_iff_toNat_lt, toNat_limit h]
  omega

/-- Everything up to the oldest sample of the window lies above the limit. -/
theorem Oldest.above (h : Oldest now ms l later e before) (hms : ms ≤ now)
    (hj : j ≤ later.length) : ¬ stamp l j < now - ms := by
  have hsplit : l = (later ++ [e]) ++ before := by simp [h.split]
  have hlt : j < (later ++ [e]).length := by simp; omega
  have hget : l.getD j unused = (later ++ [e])[j] := by
    rw [hsplit, List.getD_append _ _ _ _ hlt, List.getD_eq_getElem _ _ hlt]
  have hin := h.inside _ (List.getElem_mem hlt)
  rw [stamp, hget, below_iff hms]
  omega

/-- What is before it lies below. -/
theorem Oldest.below (h : Oldest now ms l later e before) (hms : ms ≤ now) (hne : before ≠ []) :
    later.length + 1 < l.length ∧ stamp l (later.length + 1) < now - ms := by
  obtain ⟨b, rest, rfl⟩ := List.exists_cons_of_ne_nil hne
  have hsplit : l = (later ++ [e]) ++ b :: rest := by simp [h.split]
  have hlen : later.length + 1 = (later ++ [e]).length := by simp
  have hget : l.getD (later.length + 1) unused = b := by
    rw [hsplit, hlen, List.getD_append_right _ _ _ _ le_rfl]
    simp
  constructor
  · rw [hsplit, hlen, List.length_append]
    simp
  · rw [stamp, hget, below_iff hms]
    exact h.outside b rfl

/-- The sample before the first one below the limit is the oldest of the window. -/
theorem Oldest.length_eq (h : Oldest now ms l later e before) (hms : ms ≤ now)
    (hk : k + 1 < l.length) (habove : ∀ j < k + 1, ¬ stamp l j < now - ms)
    (hbelow : stamp l (k + 1) < now - ms) : later.length = k := by
  have hle : later.length ≤ k := by
    by_contra hlt
    exact h.above hms (by omega) hbelow
  have hne : before ≠ [] := by
    rintro rfl
    have hlen : l.length = later.length + 1 := by simp [h.split]
    omega
  have hlt : ¬ later.length + 1 < k + 1 := fun hlt => habove _ hlt (h.below hms hne).2
  omega

theorem oldest_of_first (hms : ms ≤ now) (hk : k + 1 < l.length)
    (habove : ∀ j < k + 1, ¬ stamp l j < now - ms) (hbelow : stamp l (k + 1) < now - ms) :
    Oldest now ms l (l.take k) (l.getD k unused) (l.drop (k + 1)) where
  split := by
    rw [List.getD_eq_getElem _ _ (by omega), ← List.drop_eq_getElem_cons, List.take_append_drop]
  inside := by
    intro s hs
    rw [List.getD_eq_getElem _ _ (by omega), List.take_append_getElem] at hs
    obtain ⟨j, hj, rfl⟩ := List.mem_iff_getElem.mp hs
    rw [List.length_take] at hj
    have hnot := habove j (by omega)
    rw [stamp, List.getD_eq_getElem _ _ (by omega), below_iff hms] at hnot
    rw [List.getElem_take]
    omega
  outside := by
    intro b hb
    rw [List.head?_drop, List.getElem?_eq_getElem hk] at hb
    obtain rfl := Option.some.inj hb
    rwa [stamp, List.getD_eq_getElem _ _ hk, below_iff hms] at hbelow

end

/-! ## The rate -/

section

variable {l : List Sample} {k : Nat} {q : ℚ}

/-- Behind the newest sample and an older one, with another sample before that. -/
theorem rate_foundAt (hzero : ∀ s ∈ l, s.timestamp ≠ 0) (hk : k + 1 < l.length) :
    rate ⟨stamp l (k + 1) != 0, stamp l k, hashCount l k⟩ (stamp l 0) (hashCount l 0) =
      if stamp l 0 = stamp l k then .nan
      else .number (((hashCount l 0 - hashCount l k).toNat : ℚ) /
        ((stamp l 0 - stamp l k).toNat / 1000)) := by
  have hstamp : ∀ j < l.length, stamp l j ≠ 0 := by
    intro j hj
    rw [stamp, List.getD_eq_getElem _ _ hj]
    exact hzero _ (List.getElem_mem hj)
  have h0 := hstamp 0 (by omega)
  have h1 := hstamp k (by omega)
  have h2 := hstamp (k + 1) hk
  by_cases heq : stamp l 0 = stamp l k
  · simp [rate, heq, h1, h2]
  · simp [rate, heq, h0, h1, h2, sub_eq_zero]

/-- What was never written is no full set. -/
theorem rate_unused (hk : l.length ≤ k) (x y : UInt64) (found : Found)
    (hfound : found.haveFullSet = (stamp l k != 0)) : rate found x y = .nan := by
  have hstamp : stamp l k = 0 := by
    rw [stamp, List.getD_eq_default _ _ hk]
    rfl
  simp [rate, hfound, hstamp]

end

section

variable {i : Fin (threads + 1)} {calls : List (Call threads)} {now ms : UInt64} {k : Nat}

/-- What the slots hold, among the last samples. -/
theorem slot_run (i : Fin (threads + 1)) (calls : List (Call threads)) {j : Nat}
    (hj : j < kBucketSize) :
    ((run calls).ring i).slots (RingBuffer.index kBucketSize ((run calls).top i).toNat j) =
      (recent i calls).getD j unused := by
  have hslot := (holds_run i calls).slot j hj
  rw [recent, List.getD_eq_getElem?_getD, List.getElem?_take, if_pos hj,
    ← List.getD_eq_getElem?_getD]
  exact hslot

theorem toNat_idxStart (h : Hashrate threads) (i : Fin (threads + 1)) :
    ((h.top i - 1).toUInt64 &&& kBucketMask).toNat =
      RingBuffer.index kBucketSize (h.top i).toNat 0 := by
  have hsize : kBucketSize = 4096 := rfl
  have htop := (h.top i).toNat_lt
  rw [toNat_and_kBucketMask, UInt32.toNat_toUInt64, UInt32.toNat_sub, UInt32.toNat_one,
    RingBuffer.index, hsize]
  omega

/-- The rate, when slot `k` on the way back is the first one below the limit. -/
theorem hashrate_below (hk : k < kBucketSize)
    (habove : ∀ j < k, ¬ stamp (recent i calls) j < now - ms)
    (hbelow : stamp (recent i calls) k < now - ms) :
    (run calls).hashrate i ms now =
      some (rate
        (if k = 0 then ⟨stamp (recent i calls) k != 0, 0, 0⟩
          else ⟨stamp (recent i calls) k != 0, stamp (recent i calls) (k - 1),
            hashCount (recent i calls) (k - 1)⟩)
        (stamp (recent i calls) 0) (hashCount (recent i calls) 0)) := by
  have hstart := toNat_idxStart (run calls) i
  have hstamp : ∀ j < kBucketSize,
      (run calls).timestamps i (RingBuffer.index kBucketSize ((run calls).top i).toNat j) =
        stamp (recent i calls) j :=
    fun j hj => congrArg Sample.timestamp (slot_run i calls hj)
  have hcount : ∀ j < kBucketSize,
      (run calls).counts i (RingBuffer.index kBucketSize ((run calls).top i).toNat j) =
        hashCount (recent i calls) j :=
    fun j hj => congrArg Sample.count (slot_run i calls hj)
  have hwalk := @walk_foundAt ((run calls).timestamps i) ((run calls).counts i) (now - ms) _ _ _ 0 k
    kBucketSize hstart hstart rfl (Nat.zero_le k) hk
    (fun m _ hm => by rw [hstamp m (by omega)]; exact habove m hm) (by rwa [hstamp k hk])
  have hpos : 0 < kBucketSize := by decide
  rw [hashrate, dif_pos i.isLt]
  simp only [Fin.eta, hwalk, hstart, hstamp 0 hpos, hcount 0 hpos, Option.map_some, foundAt,
    hstamp k hk, hstamp (k - 1) (by omega), hcount (k - 1) (by omega)]

/-- There is no rate when no slot is below the limit. -/
theorem hashrate_above (habove : ∀ j < kBucketSize, ¬ stamp (recent i calls) j < now - ms) :
    (run calls).hashrate i ms now = some .nan := by
  have hstart := toNat_idxStart (run calls) i
  have hwalk := @walk_around ((run calls).timestamps i) ((run calls).counts i) (now - ms) _ _ _ 0
    kBucketSize hstart hstart rfl (by decide) fun m _ hm => by
      have hstamp : (run calls).timestamps i
          (RingBuffer.index kBucketSize ((run calls).top i).toNat m) = stamp (recent i calls) m :=
        congrArg Sample.timestamp (slot_run i calls hm)
      rw [hstamp]
      exact habove m hm
  rw [hashrate, dif_pos i.isLt]
  simp only [Fin.eta, hwalk, Option.map_some]
  simp [rate]

end

/-! ## The slope -/

/-- The newest sample and the oldest one of the window are apart, and the ring still has a sample
from before the window. -/
structure Measurable (now ms : UInt64) (recent later : List Sample) (e : Sample)
    (before : List Sample) (newest : Sample) : Prop where
  oldest : Oldest now ms recent later e before
  head : recent.head? = some newest
  apart : e.timestamp < newest.timestamp
  full : before ≠ []

/-- `r` is the rate over the window: a number just if there is something to measure, and then the
slope between the oldest sample of the window and the newest. -/
structure IsRate (now ms : UInt64) (recent : List Sample) (r : Double) : Prop where
  number_iff : (∃ q, r = .number q) ↔
    ms ≤ now ∧ ∃ later e before newest, Measurable now ms recent later e before newest
  slope : ∀ q later e before newest, r = .number q → Oldest now ms recent later e before →
    recent.head? = some newest →
      (q : ℝ) = ((newest.count.toNat : ℝ) - e.count.toNat) /
          ((newest.timestamp.toNat : ℝ) - e.timestamp.toNat) * 1000 ∧
        (0 : ℝ) ≤ (newest.count.toNat : ℝ) - e.count.toNat ∧
        (0 : ℝ) < (newest.timestamp.toNat : ℝ) - e.timestamp.toNat ∧
        ∃ b ∈ before.head?, b.timestamp.toNat + ms.toNat < now.toNat

section

variable {now ms : UInt64} {l later before : List Sample} {e newest : Sample} {k : Nat}

theorem isRate_nan (h : ms ≤ now → ∀ later e before newest,
    ¬ Measurable now ms l later e before newest) : IsRate now ms l .nan where
  number_iff := by
    constructor
    · rintro ⟨q, hq⟩
      cases hq
    · rintro ⟨hms, later, e, before, newest, hm⟩
      exact absurd hm (h hms later e before newest)
  slope := by
    intro q _ _ _ _ hq
    cases hq

theorem head_eq (hk : k < l.length) (h : l.head? = some newest) : l.getD 0 unused = newest := by
  cases l with
  | nil => simp at hk
  | cons s l => simpa using h

/-- The sample that the window is measured from. -/
theorem Oldest.eq_getD (h : Oldest now ms l later e before) (hms : ms ≤ now)
    (hk : k + 1 < l.length) (habove : ∀ j < k + 1, ¬ stamp l j < now - ms)
    (hbelow : stamp l (k + 1) < now - ms) : l.getD k unused = e := by
  have hlen := h.length_eq hms hk habove hbelow
  rw [h.split, ← hlen, List.getD_append_right _ _ _ _ le_rfl, Nat.sub_self, List.getD_cons_zero]

/-- The quotient of the code is the slope. -/
theorem slope_eq (hcount : e.count ≤ newest.count) (hstamp : e.timestamp ≤ newest.timestamp) :
    ((((newest.count - e.count).toNat : ℚ) /
        ((newest.timestamp - e.timestamp).toNat / 1000) : ℚ) : ℝ) =
      ((newest.count.toNat : ℝ) - e.count.toNat) /
        ((newest.timestamp.toNat : ℝ) - e.timestamp.toNat) * 1000 := by
  have hcount' := UInt64.le_iff_toNat_le.mp hcount
  have hstamp' := UInt64.le_iff_toNat_le.mp hstamp
  rw [UInt64.toNat_sub_of_le _ _ hcount, UInt64.toNat_sub_of_le _ _ hstamp]
  push_cast [Nat.cast_sub hcount', Nat.cast_sub hstamp']
  rw [div_div_eq_mul_div, mul_div_right_comm]

/-- The rate when slot `k + 1` is the first one below the limit. -/
theorem isRate_foundAt (hms : ms ≤ now) (hzero : ∀ s ∈ l, s.timestamp ≠ 0)
    (hstamps : l.Pairwise fun s t => t.timestamp ≤ s.timestamp)
    (hcounts : l.Pairwise fun s t => t.count ≤ s.count) (hk : k + 1 < l.length)
    (habove : ∀ j < k + 1, ¬ stamp l j < now - ms) (hbelow : stamp l (k + 1) < now - ms) :
    IsRate now ms l
      (rate ⟨stamp l (k + 1) != 0, stamp l k, hashCount l k⟩ (stamp l 0) (hashCount l 0)) := by
  have hfirst : ∀ later e before newest, Oldest now ms l later e before → l.head? = some newest →
      stamp l k = e.timestamp ∧ hashCount l k = e.count ∧ stamp l 0 = newest.timestamp ∧
        hashCount l 0 = newest.count := by
    intro later e before newest ho hhead
    have he := ho.eq_getD hms hk habove hbelow
    have hnewest := head_eq hk hhead
    exact ⟨congrArg _ he, congrArg _ he, congrArg _ hnewest, congrArg _ hnewest⟩
  have hsorted : ∀ later e before newest, Oldest now ms l later e before → l.head? = some newest →
      e.timestamp ≤ newest.timestamp ∧ e.count ≤ newest.count := by
    intro later e before newest ho hhead
    cases later with
    | nil =>
        rw [ho.split] at hhead
        obtain rfl := Option.some.inj hhead
        exact ⟨UInt64.le_refl _, UInt64.le_refl _⟩
    | cons s later =>
        rw [ho.split] at hhead hstamps hcounts
        obtain rfl := Option.some.inj hhead
        have hin : e ∈ later ++ e :: before := by simp
        exact ⟨List.rel_of_pairwise_cons hstamps hin, List.rel_of_pairwise_cons hcounts hin⟩
  rw [rate_foundAt hzero hk]
  by_cases heq : stamp l 0 = stamp l k
  · rw [if_pos heq]
    refine isRate_nan fun _ later e before newest hm => ?_
    obtain ⟨he, -, hnewest, -⟩ := hfirst later e before newest hm.oldest hm.head
    have hapart := hm.apart
    rw [← he, ← hnewest, heq] at hapart
    exact UInt64.lt_irrefl _ hapart
  · rw [if_neg heq]
    have holdest := oldest_of_first hms hk habove hbelow
    constructor
    · refine ⟨fun _ => ⟨hms, ?_⟩, fun _ => ⟨_, rfl⟩⟩
      obtain ⟨newest, hhead⟩ : ∃ newest, l.head? = some newest := by
        cases l with
        | nil => simp at hk
        | cons s l => exact ⟨s, rfl⟩
      refine ⟨_, _, _, newest, holdest, hhead, ?_, ?_⟩
      · obtain ⟨he, -, hnewest, -⟩ := hfirst _ _ _ newest holdest hhead
        have hle := (hsorted _ _ _ newest holdest hhead).1
        rw [← he, ← hnewest] at hle ⊢
        exact UInt64.lt_of_le_of_ne hle (Ne.symm heq)
      · rw [Ne, List.drop_eq_nil_iff]
        omega
    · intro q later e before newest hq ho hhead
      obtain ⟨he, hce, hnewest, hcn⟩ := hfirst later e before newest ho hhead
      obtain ⟨hstamp, hcount⟩ := hsorted later e before newest ho hhead
      rw [he, hnewest, hce, hcn] at hq
      rw [he, hnewest] at heq
      obtain rfl := Double.number.inj hq
      have hlt : e.timestamp.toNat < newest.timestamp.toNat :=
        UInt64.lt_iff_toNat_lt.mp (UInt64.lt_of_le_of_ne hstamp (Ne.symm heq))
      refine ⟨slope_eq hcount hstamp, ?_, ?_, ?_⟩
      · exact sub_nonneg.mpr (Nat.cast_le.mpr (UInt64.le_iff_toNat_le.mp hcount))
      · exact sub_pos.mpr (Nat.cast_lt.mpr hlt)
      · have hlen := ho.length_eq hms hk habove hbelow
        cases before with
        | nil =>
            have hl : l.length = later.length + 1 := by simp [ho.split]
            omega
        | cons b before => exact ⟨b, rfl, ho.outside b rfl⟩

end

/-- **The rate is the slope over the window**, for all samples that a ring was ever given. -/
theorem hashrate_window (i : Fin (threads + 1)) (calls : List (Call threads)) (now ms : UInt64)
    (hzero : ∀ s ∈ samples i calls, s.timestamp ≠ 0)
    (hstamps : (samples i calls).Pairwise fun s t => s.timestamp ≤ t.timestamp)
    (hcounts : (samples i calls).Pairwise fun s t => s.count ≤ t.count)
    (hnow : ∀ s ∈ (samples i calls).getLast?, s.timestamp ≤ now) (hms : ms.toNat < 2 ^ 63) :
    ∃ r, (run calls).hashrate i ms now = some r ∧ IsRate now ms (recent i calls) r := by
  have hsub : (recent i calls).Sublist (samples i calls).reverse := List.take_sublist _ _
  have hlen : (recent i calls).length ≤ kBucketSize := List.length_take_le _ _
  by_cases hfirst : ∃ k, k < kBucketSize ∧ stamp (recent i calls) k < now - ms
  · -- the first slot below the limit, on the way back
    classical
    obtain ⟨hk, hbelow⟩ := Nat.find_spec hfirst
    have habove : ∀ j < Nat.find hfirst, ¬ stamp (recent i calls) j < now - ms :=
      fun j hj hlt => Nat.find_min hfirst hj ⟨hj.trans hk, hlt⟩
    have hr := hashrate_below hk habove hbelow
    generalize Nat.find hfirst = k at hk hbelow habove hr
    refine ⟨_, hr, ?_⟩
    cases k with
    | zero =>
        have hnan : ∀ x y z, rate ⟨x, 0, 0⟩ y z = .nan := fun x y z => by simp [rate]
        rw [if_pos rfl, hnan]
        refine isRate_nan fun hle later e before newest hm => ?_
        exact hm.oldest.above hle (Nat.zero_le _) hbelow
    | succ k =>
        have hle : ms ≤ now := by
          by_contra hnot
          have hlast : stamp (recent i calls) 0 ≤ now := by
            cases hsamples : (samples i calls).reverse with
            | nil => simp [stamp, recent, hsamples, unused]
            | cons s l =>
                have hs : (samples i calls).getLast? = some s := by
                  rw [← List.head?_reverse, hsamples, List.head?_cons]
                have htake : (recent i calls).getD 0 unused = s := by simp [recent, hsamples, kBucketSize]
                rw [stamp, htake]
                exact hnow s hs
          exact habove 0 (by omega) (UInt64.lt_of_le_of_lt hlast (lt_limit hnot hms))
        simp only [Nat.succ_ne_zero, if_false, Nat.add_sub_cancel]
        by_cases hin : k + 1 < (recent i calls).length
        · exact isRate_foundAt hle (fun s hs => hzero s (List.mem_reverse.mp (hsub.subset hs)))
            ((List.pairwise_reverse.mpr hstamps).sublist hsub)
            ((List.pairwise_reverse.mpr hcounts).sublist hsub) hin habove hbelow
        · rw [rate_unused (not_lt.mp hin) _ _ _ rfl]
          refine isRate_nan fun _ later e before newest hm => ?_
          obtain ⟨hlt, hbefore⟩ := hm.oldest.below hle hm.full
          exact habove _ (by omega) hbefore
  · have habove : ∀ j < kBucketSize, ¬ stamp (recent i calls) j < now - ms :=
      fun j hj hlt => hfirst ⟨j, hj, hlt⟩
    refine ⟨.nan, hashrate_above habove, isRate_nan fun hle later e before newest hm => ?_⟩
    obtain ⟨hlt, hbefore⟩ := hm.oldest.below hle hm.full
    exact habove _ (by omega) hbefore

/-- Three samples of the first thread, and one of all threads in between. -/
def threeSamples : List (Call 1) :=
  [⟨.last 1, 100, 1000⟩, ⟨.last 1, 600, 2000⟩, ⟨Fin.castSucc 0, 700, 2500⟩, ⟨.last 1, 2600, 3000⟩]

theorem hashrate_threeSamples :
    (∃ r, (run threeSamples).hashrate 1 1000 3000 = some r ∧
      IsRate 3000 1000 (recent 1 threeSamples) r) ∧
    (run threeSamples).hashrate 1 1000 3000 = some (.number 2000) :=
  ⟨hashrate_window 1 threeSamples 3000 1000 (by decide) (by decide) (by decide) (by decide)
    (by decide), by decide +kernel⟩

end Hashrate

end XLArig
