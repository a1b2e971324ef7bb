import XLArig.Keccak.Sha3

/-!
# XLArig.Keccak.KangarooTwelve

`crypto/randomx/panthera/KangarooTwelve` and the sponge it is made of, with the reference
permutation of 12 rounds.

A message that is longer than a chunk is hashed as a tree: each further chunk is a leaf of its own,
and the final node takes the first chunk and the hashes of the leaves.  The instance takes the
message in pieces, with one node for the leaf that is not complete and one for the final node.

A function that returns 1 is `.error .returned`; a loop that does not come to an end would be
`.error .diverges`.
-/

namespace XLArig

namespace Keccak

inductive Failure
  | returned
  | diverges
  deriving DecidableEq

/-- `KeccakP1600_AddBytes`. -/
def addBytes : List UInt8 → (offset : Nat) → Lanes → Lanes
  | [], _, st => st
  | b :: data, offset, st => addBytes data (offset + 1) (addByte b offset st)

/-- `KeccakP1600_ExtractBytes`. -/
def extractBytes (st : Lanes) (offset length : Nat) : List UInt8 :=
  (List.range' offset length).map (byte st)

/-- `KeccakP1600_Permute_12rounds`. -/
def permute12 (st : Lanes) : Lanes := KeccakP1600OnWords st 12

/-- `KeccakWidth1600_12rounds_SpongeInstance`; the rate is in bits. -/
structure SpongeInstance where
  state : Lanes
  rate : Nat
  byteIOIndex : Nat
  squeezing : Bool

namespace SpongeInstance

/-- `SpongeInitialize`. -/
def spongeInitialize (rate capacity : Nat) : Except Failure SpongeInstance :=
  if rate + capacity ≠ 1600 then .error .returned
  else if rate = 0 ∨ 1600 < rate ∨ rate % 8 ≠ 0 then .error .returned
  else .ok ⟨fun _ => 0, rate, 0, false⟩

/-- The loop over full blocks. -/
def addBlocks (rateInBytes : Nat) : (fuel : Nat) → List UInt8 → Lanes → Lanes × List UInt8
  | 0, data, st => (st, data)
  | fuel + 1, data, st =>
      if rateInBytes ≤ data.length then
        addBlocks rateInBytes fuel (data.drop rateInBytes)
          (permute12 (addBytes (data.take rateInBytes) 0 st))
      else
        (st, data)

/-- The loop of `SpongeAbsorb`. -/
def absorbLoop (inst : SpongeInstance) : (fuel : Nat) → List UInt8 → Lanes → (byteIOIndex : Nat) →
    Except Failure SpongeInstance
  | _, [], state, byteIOIndex => .ok { inst with state, byteIOIndex }
  | 0, _ :: _, _, _ => .error .diverges
  | fuel + 1, b :: bytes, state, byteIOIndex =>
      let data := b :: bytes
      let rateInBytes := inst.rate / 8
      if byteIOIndex = 0 ∧ rateInBytes ≤ data.length then
        let (state, data) := addBlocks rateInBytes data.length data state
        absorbLoop inst fuel data state byteIOIndex
      else
        let partialBlock :=
          if rateInBytes < data.length + byteIOIndex then rateInBytes - byteIOIndex else data.length
        let state := addBytes (data.take partialBlock) byteIOIndex state
        let data := data.drop partialBlock
        if byteIOIndex + partialBlock = rateInBytes then
          absorbLoop inst fuel data (permute12 state) 0
        else
          absorbLoop inst fuel data state (byteIOIndex + partialBlock)

/-- `SpongeAbsorb`. -/
def absorb (inst : SpongeInstance) (data : List UInt8) : Except Failure SpongeInstance :=
  if inst.squeezing then .error .returned
  else absorbLoop inst data.length data inst.state inst.byteIOIndex

/-- `SpongeAbsorbLastFewBits`. -/
def absorbLastFewBits (inst : SpongeInstance) (delimitedData : UInt8) :
    Except Failure SpongeInstance :=
  let rateInBytes := inst.rate / 8
  if delimitedData = 0 then .error .returned
  else if inst.squeezing then .error .returned
  else
    let state := addByte delimitedData inst.byteIOIndex inst.state
    let state :=
      if 0x80 ≤ delimitedData ∧ inst.byteIOIndex = rateInBytes - 1 then permute12 state else state
    let state := permute12 (addByte 0x80 (rateInBytes - 1) state)
    .ok { inst with state, byteIOIndex := 0, squeezing := true }

/-- The loop over full blocks, each of which is permuted first. -/
def extractBlocks (rateInBytes : Nat) : (fuel : Nat) → (length : Nat) → Lanes →
    List UInt8 × Nat × Lanes
  | 0, length, st => ([], length, st)
  | fuel + 1, length, st =>
      if rateInBytes ≤ length then
        let st := permute12 st
        let (data, length, st') := extractBlocks rateInBytes fuel (length - rateInBytes) st
        (extractBytes st 0 rateInBytes ++ data, length, st')
      else
        ([], length, st)

/-- The loop of `SpongeSqueeze`. -/
def squeezeLoop (inst : SpongeInstance) : (fuel : Nat) → (length : Nat) → Lanes →
    (byteIOIndex : Nat) → Except Failure (List UInt8 × SpongeInstance)
  | _, 0, state, byteIOIndex => .ok ([], { inst with state, byteIOIndex })
  | 0, _ + 1, _, _ => .error .diverges
  | fuel + 1, length + 1, state, byteIOIndex => do
      let length := length + 1
      let rateInBytes := inst.rate / 8
      if byteIOIndex = rateInBytes ∧ rateInBytes ≤ length then
        let (data, length, state) := extractBlocks rateInBytes length length state
        let (rest, inst) ← squeezeLoop inst fuel length state byteIOIndex
        .ok (data ++ rest, inst)
      else
        let (state, byteIOIndex) :=
          if byteIOIndex = rateInBytes then (permute12 state, 0) else (state, byteIOIndex)
        let partialBlock :=
          if rateInBytes < length + byteIOIndex then rateInBytes - byteIOIndex else length
        let data := extractBytes state byteIOIndex partialBlock
        let (rest, inst) ← squeezeLoop inst fuel (length - partialBlock) state (byteIOIndex + partialBlock)
        .ok (data ++ rest, inst)

/-- `SpongeSqueeze`. -/
def squeeze (inst : SpongeInstance) (length : Nat) : Except Failure (List UInt8 × SpongeInstance) :=
  let inst :=
    if inst.squeezing then inst
    else match inst.absorbLastFewBits 0x01 with
      | .ok inst => inst
      | .error _ => inst
  squeezeLoop inst length length inst.state inst.byteIOIndex

/-! ## It is the sponge -/

section

variable {rate : Nat} (hrate : 0 < rate) {data : List UInt8} {st : Lanes} {i : Nat}

/-- The sponge with 12 rounds. -/
abbrev sponge12 (hrate : 0 < rate) : Sponge Lanes := sponge permute12 rate hrate

theorem addBytes_eq : addBytes data i st = (sponge12 hrate).addBytes data i st := by
  induction data generalizing i st with
  | nil => rfl
  | cons b data ih => exact ih

theorem addBlocks_eq (st : Lanes) {fuel : Nat} (hfuel : data.length ≤ fuel) :
    (addBlocks rate fuel data st).2.length < rate ∧
      (sponge12 hrate).absorb (st, 0) data =
        (sponge12 hrate).absorb ((addBlocks rate fuel data st).1, 0) (addBlocks rate fuel data st).2 := by
  induction fuel generalizing data st with
  | zero => exact ⟨by simp only [addBlocks]; omega, rfl⟩
  | succ fuel ih =>
      rw [addBlocks]
      split_ifs with h
      · have htake : (data.take rate).length = rate := by
          rw [List.length_take]
          omega
        have hne : data.take rate ≠ [] := fun h => by
          rw [h, List.length_nil] at htake
          omega
        have hblock : (sponge12 hrate).absorb (st, 0) (data.take rate) =
            (permute12 (addBytes (data.take rate) 0 st), 0) := by
          rw [Sponge.absorb_of_eq hne (by rw [sponge_rate]; omega), addBytes_eq hrate]
          rfl
        have hdrop : (data.drop rate).length ≤ fuel := by
          rw [List.length_drop]
          omega
        obtain ⟨hlt, heq⟩ := ih _ hdrop
        refine ⟨hlt, ?_⟩
        rw [← heq, ← hblock, ← Sponge.absorb_append, List.take_append_drop]
      · exact ⟨by simp only; omega, rfl⟩

/-- Each round of the loop takes a byte at least. -/
theorem absorbLoop_eq {inst : SpongeInstance} (hinst : inst.rate / 8 = rate) {fuel : Nat}
    (hfuel : data.length ≤ fuel) (hi : i < rate) :
    absorbLoop inst fuel data st i =
      .ok { inst with
        state := ((sponge12 hrate).absorb (st, i) data).1
        byteIOIndex := ((sponge12 hrate).absorb (st, i) data).2 } := by
  induction fuel generalizing data st i with
  | zero =>
      obtain rfl : data = [] := List.length_eq_zero_iff.mp (by omega)
      rfl
  | succ fuel ih =>
      obtain _ | ⟨b, bytes⟩ := data
      · rfl
      rw [absorbLoop]
      simp only [hinst]
      generalize hdata : b :: bytes = data at *
      have hpos : 0 < data.length := by
        rw [← hdata]
        exact Nat.succ_pos _
      by_cases hblocks : i = 0 ∧ rate ≤ data.length
      · rw [if_pos hblocks]
        obtain ⟨rfl, hle⟩ := hblocks
        obtain ⟨hlt, heq⟩ := addBlocks_eq hrate st (le_refl data.length)
        rw [ih (by omega) hrate, ← heq]
      · rw [if_neg hblocks]
        by_cases hfull : rate < data.length + i
        · have hpart : (data.take (rate - i)).length = rate - i := by
            rw [List.length_take]
            omega
          have hne : data.take (rate - i) ≠ [] := fun h => by
            rw [h, List.length_nil] at hpart
            omega
          have hpiece : (sponge12 hrate).absorb (st, i) (data.take (rate - i)) =
              (permute12 (addBytes (data.take (rate - i)) i st), 0) := by
            rw [Sponge.absorb_of_eq hne (by rw [sponge_rate]; omega), addBytes_eq hrate]
            rfl
          have hdrop : (data.drop (rate - i)).length ≤ fuel := by
            rw [List.length_drop]
            omega
          rw [if_pos hfull, if_pos (by omega), ih hdrop hrate, ← hpiece, ← Sponge.absorb_append,
            List.take_append_drop]
        · rw [if_neg hfull, List.take_length, List.drop_length]
          have hne : data ≠ [] := List.ne_nil_of_length_pos hpos
          by_cases hlast : i + data.length = rate
          · rw [if_pos hlast, ih (Nat.zero_le _) hrate, Sponge.absorb_of_eq hne hlast,
              addBytes_eq hrate]
            rfl
          · have hlt : i + data.length < (sponge12 hrate).rate := by
              rw [sponge_rate]
              omega
            rw [if_neg hlast, ih (Nat.zero_le _) (by omega), Sponge.absorb_of_lt hlt, addBytes_eq hrate]
            rfl

theorem absorb_eq {inst : SpongeInstance} (hinst : inst.rate / 8 = rate)
    (hsqueezing : inst.squeezing = false) (hi : inst.byteIOIndex < rate) (data : List UInt8) :
    inst.absorb data =
      .ok { inst with
        state := ((sponge12 hrate).absorb (inst.state, inst.byteIOIndex) data).1
        byteIOIndex := ((sponge12 hrate).absorb (inst.state, inst.byteIOIndex) data).2 } := by
  have hnot : ¬ inst.squeezing = true := by rw [hsqueezing]; decide
  rw [absorb, if_neg hnot, absorbLoop_eq hrate hinst le_rfl hi]

theorem absorbLastFewBits_eq {inst : SpongeInstance} (hinst : inst.rate / 8 = rate)
    (hsqueezing : inst.squeezing = false) {suffix : UInt8} (hsuffix : suffix ≠ 0) :
    inst.absorbLastFewBits suffix =
      .ok { inst with
        state := (sponge12 hrate).finish suffix (inst.state, inst.byteIOIndex)
        byteIOIndex := 0
        squeezing := true } := by
  rw [absorbLastFewBits, if_neg hsuffix, hsqueezing, hinst]
  rfl

theorem extractBlocks_eq (st : Lanes) {fuel length : Nat} (hfuel : length ≤ fuel) :
    (extractBlocks rate fuel length st).2.1 < rate ∧
      (sponge12 hrate).squeeze length (st, rate) =
        ((extractBlocks rate fuel length st).1 ++
          ((sponge12 hrate).squeeze (extractBlocks rate fuel length st).2.1
            ((extractBlocks rate fuel length st).2.2, rate)).1,
          ((sponge12 hrate).squeeze (extractBlocks rate fuel length st).2.1
            ((extractBlocks rate fuel length st).2.2, rate)).2) := by
  induction fuel generalizing length st with
  | zero => exact ⟨by simp only [extractBlocks]; omega, rfl⟩
  | succ fuel ih =>
      rw [extractBlocks]
      split_ifs with h
      · obtain ⟨m, rfl⟩ := Nat.exists_eq_add_of_le h
        have hm : m ≤ fuel := by omega
        obtain ⟨hlt, heq⟩ := ih (permute12 st) hm
        have hblock : (sponge12 hrate).squeeze rate (st, rate) =
            (extractBytes (permute12 st) 0 rate, (permute12 st, rate)) := by
          have hfull := Sponge.squeeze_full (P := sponge12 hrate) (s := st) hrate
          rw [sponge_rate] at hfull
          rw [hfull, Sponge.squeeze_of_le (by rw [sponge_rate]; omega), Nat.zero_add]
          rfl
        simp only [Nat.add_sub_cancel_left]
        refine ⟨hlt, ?_⟩
        rw [Sponge.squeeze_add, hblock, heq, List.append_assoc]
      · exact ⟨by simp only; omega, rfl⟩

theorem squeezeLoop_eq {inst : SpongeInstance} (hinst : inst.rate / 8 = rate) {fuel length : Nat}
    (hfuel : length ≤ fuel) (hi : i ≤ rate) :
    squeezeLoop inst fuel length st i =
      .ok (((sponge12 hrate).squeeze length (st, i)).1, { inst with
        state := ((sponge12 hrate).squeeze length (st, i)).2.1
        byteIOIndex := ((sponge12 hrate).squeeze length (st, i)).2.2 }) := by
  induction fuel generalizing length st i with
  | zero =>
      obtain rfl : length = 0 := by omega
      rfl
  | succ fuel ih =>
      obtain _ | length := length
      · rfl
      rw [squeezeLoop]
      simp only [hinst]
      generalize hlength : length + 1 = n at *
      by_cases hblocks : i = rate ∧ rate ≤ n
      · rw [if_pos hblocks]
        obtain ⟨rfl, hle⟩ := hblocks
        obtain ⟨hlt, heq⟩ := extractBlocks_eq hrate st (le_refl n)
        generalize extractBlocks i n n st = blocks at *
        obtain ⟨bytes, m, st'⟩ := blocks
        simp only at hlt heq ⊢
        rw [ih (by omega) le_rfl, heq]
        rfl
      · rw [if_neg hblocks]
        -- the state is permuted first, as the sponge does it with the next byte
        obtain ⟨st', i', hstart, hi', hsame⟩ : ∃ st' i',
            (if i = rate then (permute12 st, 0) else (st, i)) = (st', i') ∧ i' < rate ∧
              (sponge12 hrate).squeeze n (st, i) = (sponge12 hrate).squeeze n (st', i') := by
          by_cases hfull : i = rate
          · subst hfull
            exact ⟨permute12 st, 0, if_pos rfl, hrate,
              Sponge.squeeze_full (P := sponge12 hrate) (by omega)⟩
          · exact ⟨st, i, if_neg hfull, by omega, rfl⟩
        rw [hstart, hsame]
        simp only
        by_cases hlong : rate < n + i'
        · obtain ⟨m, rfl⟩ : ∃ m, n = rate - i' + m := ⟨n - (rate - i'), by omega⟩
          have hpiece : (sponge12 hrate).squeeze (rate - i') (st', i') =
              (extractBytes st' i' (rate - i'), (st', i' + (rate - i'))) :=
            Sponge.squeeze_of_le (by rw [sponge_rate]; omega)
          rw [if_pos hlong, Nat.add_sub_cancel_left, ih (by omega) (by omega), Sponge.squeeze_add, hpiece]
          rfl
        · have hpiece : (sponge12 hrate).squeeze n (st', i') =
              (extractBytes st' i' n, (st', i' + n)) :=
            Sponge.squeeze_of_le (by rw [sponge_rate]; omega)
          rw [if_neg hlong, Nat.sub_self, ih (Nat.zero_le _) (by omega), hpiece]
          simp [Sponge.squeeze, bind, Except.bind]

theorem squeeze_eq {inst : SpongeInstance} (hinst : inst.rate / 8 = rate)
    (hsqueezing : inst.squeezing = true) (hi : inst.byteIOIndex ≤ rate) (length : Nat) :
    inst.squeeze length =
      .ok (((sponge12 hrate).squeeze length (inst.state, inst.byteIOIndex)).1, { inst with
        state := ((sponge12 hrate).squeeze length (inst.state, inst.byteIOIndex)).2.1
        byteIOIndex := ((sponge12 hrate).squeeze length (inst.state, inst.byteIOIndex)).2.2 }) := by
  rw [squeeze]
  simp only [if_pos hsqueezing]
  exact squeezeLoop_eq hrate hinst le_rfl hi

end

end SpongeInstance

/-! ## The tree -/

inductive Phase
  | notInitialized
  | absorbing
  | final
  | squeezing
  deriving DecidableEq

/-- `KangarooTwelve_Instance`. -/
structure KangarooTwelve where
  queueNode : SpongeInstance
  finalNode : SpongeInstance
  fixedOutputLength : Nat
  blockNumber : Nat
  queueAbsorbedLen : Nat
  phase : Phase

/-- The first loop of `right_encode`: how many bytes a number has. -/
def encodedBytes : (fuel : Nat) → (v : Nat) → Nat
  | 0, _ => 0
  | fuel + 1, v => if v ≠ 0 then encodedBytes fuel (v >>> 8) + 1 else 0

/-- `right_encode`. -/
def rightEncode (value : Nat) : List UInt8 :=
  let n := encodedBytes 8 value
  (List.range n).map (fun i => .ofNat (value >>> (8 * (n - (i + 1))))) ++ [.ofNat n]

namespace KangarooTwelve

abbrev chunkSize : Nat := 8192

/-- `KangarooTwelve_Initialize`; the queue is not touched. -/
def kangarooTwelveInitialize (queueNode : SpongeInstance) (outputLen : Nat) :
    Except Failure KangarooTwelve := do
  let finalNode ← SpongeInstance.spongeInitialize 1344 256
  .ok ⟨queueNode, finalNode, outputLen, 0, 0, .absorbing⟩

/-- The hash of the queue goes to the final node. -/
def finishQueue (kt : KangarooTwelve) : Except Failure KangarooTwelve := do
  let queueNode ← kt.queueNode.absorbLastFewBits 0x0B
  let (intermediate, queueNode) ← queueNode.squeeze 32
  let finalNode ← kt.finalNode.absorb intermediate
  .ok { kt with queueNode, finalNode }

/-- The first chunk, which is a part of the final node. -/
def updateFirst (kt : KangarooTwelve) (input : List UInt8) :
    Except Failure (KangarooTwelve × List UInt8) := do
  let len := min input.length (chunkSize - kt.queueAbsorbedLen)
  let finalNode ← kt.finalNode.absorb (input.take len)
  let input := input.drop len
  let queueAbsorbedLen := kt.queueAbsorbedLen + len
  if queueAbsorbedLen = chunkSize ∧ input ≠ [] then
    let finalNode ← finalNode.absorb [0x03]
    -- zeros up to the next word
    let finalNode := { finalNode with byteIOIndex := (finalNode.byteIOIndex + 7) / 8 * 8 }
    .ok ({ kt with finalNode, queueAbsorbedLen := 0, blockNumber := 1 }, input)
  else
    .ok ({ kt with finalNode, queueAbsorbedLen }, input)

/-- More of the chunk that is in the queue. -/
def updateQueue (kt : KangarooTwelve) (input : List UInt8) :
    Except Failure (KangarooTwelve × List UInt8) := do
  let len := min input.length (chunkSize - kt.queueAbsorbedLen)
  let queueNode ← kt.queueNode.absorb (input.take len)
  let input := input.drop len
  let queueAbsorbedLen := kt.queueAbsorbedLen + len
  if queueAbsorbedLen = chunkSize then
    let kt ← finishQueue { kt with
      queueNode
      queueAbsorbedLen := 0
      blockNumber := kt.blockNumber + 1 }
    .ok (kt, input)
  else
    .ok ({ kt with queueNode, queueAbsorbedLen }, input)

/-- The loop over further chunks. -/
def updateLoop : (fuel : Nat) → KangarooTwelve → List UInt8 → Except Failure KangarooTwelve
  | _, kt, [] => .ok kt
  | 0, _, _ :: _ => .error .diverges
  | fuel + 1, kt, b :: bytes => do
      let input := b :: bytes
      let len := min input.length chunkSize
      let queueNode ← SpongeInstance.spongeInitialize 1344 256
      let queueNode ← queueNode.absorb (input.take len)
      let input := input.drop len
      if len = chunkSize then
        let kt ← finishQueue { kt with queueNode, blockNumber := kt.blockNumber + 1 }
        updateLoop fuel kt input
      else
        updateLoop fuel { kt with queueNode, queueAbsorbedLen := len } input

/-- `KangarooTwelve_Update`. -/
def update (kt : KangarooTwelve) (input : List UInt8) : Except Failure KangarooTwelve :=
  if kt.phase ≠ .absorbing then .error .returned
  else do
    let (kt, input) ←
      if kt.blockNumber = 0 then updateFirst kt input
      else if kt.queueAbsorbedLen ≠ 0 then updateQueue kt input
      else .ok (kt, input)
    updateLoop input.length kt input

/-- The part of `KangarooTwelve_Final` that makes the final node complete. -/
def closeTree (kt : KangarooTwelve) : Except Failure (KangarooTwelve × UInt8) :=
  if kt.blockNumber = 0 then .ok (kt, 0x07)
  else do
    let kt ←
      if kt.queueAbsorbedLen ≠ 0 then finishQueue { kt with blockNumber := kt.blockNumber + 1 }
      else .ok kt
    let kt := { kt with blockNumber := kt.blockNumber - 1 }
    let finalNode ← kt.finalNode.absorb (rightEncode kt.blockNumber ++ [0xFF, 0xFF])
    .ok ({ kt with finalNode }, 0x06)

/-- The first update of `KangarooTwelve_Final`. -/
def updateCustomization (kt : KangarooTwelve) (customization : List UInt8) :
    Except Failure KangarooTwelve :=
  if customization ≠ [] then update kt customization else .ok kt

/-- `KangarooTwelve_Final`, and the output, if its length was given. -/
def final (kt : KangarooTwelve) (customization : List UInt8) :
    Except Failure (List UInt8 × KangarooTwelve) :=
  if kt.phase ≠ .absorbing then .error .returned
  else do
    let kt ← updateCustomization kt customization
    let kt ← update kt (rightEncode customization.length)
    let (kt, padding) ← closeTree kt
    let finalNode ← kt.finalNode.absorbLastFewBits padding
    if kt.fixedOutputLength ≠ 0 then
      let (output, finalNode) ← finalNode.squeeze kt.fixedOutputLength
      .ok (output, { kt with finalNode, phase := .final })
    else
      .ok ([], { kt with finalNode, phase := .squeezing })

/-- `KangarooTwelve_Squeeze`. -/
def squeeze (kt : KangarooTwelve) (outputLen : Nat) : Except Failure (List UInt8 × KangarooTwelve) :=
  if kt.phase ≠ .squeezing then .error .returned
  else do
    let (output, finalNode) ← kt.finalNode.squeeze outputLen
    .ok (output, { kt with finalNode })

/-- `KangarooTwelve`; the instance is not set up before. -/
def kangarooTwelve (queueNode : SpongeInstance) (input : List UInt8) (outLen : Nat)
    (customization : List UInt8) : Except Failure (List UInt8) :=
  if outLen = 0 then .error .returned
  else do
    let kt ← kangarooTwelveInitialize queueNode outLen
    let kt ← kt.update input
    let (output, _) ← kt.final customization
    .ok output

/-! ## The hash of the tree -/

/-- The sponge of all nodes. -/
abbrev node : Sponge Lanes := SpongeInstance.sponge12 (show 0 < 168 by decide)

def leafHash (chunk : List UInt8) : List UInt8 := node.hash 0x0B 32 chunk

/-- The chunks of a message; the last one may be shorter. -/
def chunks (message : List UInt8) : List (List UInt8) :=
  (List.range ((message.length + 8191) / 8192)).map fun i => (message.drop (i * 8192)).take 8192

/-- What the final node of a tree is given: the first chunk, the hashes of the others, and how many
these are. -/
def treeMessage (first : List UInt8) (leaves : List (List UInt8)) : List UInt8 :=
  first ++ [0x03, 0, 0, 0, 0, 0, 0, 0] ++ leaves.flatMap leafHash ++
    (rightEncode leaves.length ++ [0xFF, 0xFF])

/-- The hash of a message and its customization. -/
def k12 (message customization : List UInt8) (n : Nat) : List UInt8 :=
  let message := message ++ customization ++ rightEncode customization.length
  if message.length ≤ 8192 then node.hash 0x07 n message
  else node.hash 0x06 n (treeMessage (message.take 8192) (chunks (message.drop 8192)))

theorem chunks_append {c message : List UInt8} (h : c.length = 8192) :
    chunks (c ++ message) = c :: chunks message := by
  have hcount : ((c ++ message).length + 8191) / 8192 = (message.length + 8191) / 8192 + 1 := by
    rw [List.length_append, h]
    omega
  rw [chunks, hcount, List.range_succ_eq_map, List.map_cons, List.map_map, chunks, Nat.zero_mul,
    List.drop_zero, List.take_left' h]
  refine congrArg _ (List.map_congr_left fun i _ => ?_)
  rw [Function.comp_apply, Nat.succ_mul, Nat.add_comm, ← List.drop_drop, List.drop_left' h]

theorem chunks_of_le {q : List UInt8} (hne : q ≠ []) (h : q.length ≤ 8192) : chunks q = [q] := by
  have hpos : 0 < q.length := List.length_pos_of_ne_nil hne
  have hcount : (q.length + 8191) / 8192 = 1 := by omega
  rw [chunks, hcount]
  simp [List.take_of_length_le h]

theorem chunks_flatten {cs : List (List UInt8)} (hcs : ∀ c ∈ cs, c.length = 8192) (q : List UInt8) :
    chunks (cs.flatten ++ q) = cs ++ chunks q := by
  induction cs with
  | nil => rfl
  | cons c cs ih =>
      rw [List.flatten_cons, List.append_assoc, chunks_append (hcs c (by simp)),
        ih fun c hc => hcs c (by simp [hc]), List.cons_append]

/-! ## The nodes -/

/-- A node that was given some bytes. -/
def absorbed (bytes : List UInt8) : SpongeInstance :=
  ⟨(node.absorb (node.zero, 0) bytes).1, 1344, (node.absorb (node.zero, 0) bytes).2, false⟩

theorem absorb_absorbed (bytes data : List UInt8) :
    (absorbed bytes).absorb data = .ok (absorbed (bytes ++ data)) := by
  have hrate : (absorbed bytes).rate / 8 = 168 := by simp only [absorbed]
  rw [SpongeInstance.absorb_eq (show 0 < 168 by decide) hrate rfl
    (Sponge.absorb_snd_lt (show 0 < 168 by decide))]
  simp only [absorbed, Sponge.absorb_append]

theorem spongeInitialize_eq : SpongeInstance.spongeInitialize 1344 256 = .ok (absorbed []) := rfl

/-- A node that bytes are read from. -/
def finished (x : Lanes × Nat) : SpongeInstance := ⟨x.1, 1344, x.2, true⟩

theorem squeeze_finished {x : Lanes × Nat} (h : x.2 ≤ 168) (n : Nat) :
    (finished x).squeeze n = .ok ((node.squeeze n x).1, finished (node.squeeze n x).2) := by
  have hrate : (finished x).rate / 8 = 168 := by simp only [finished]
  exact SpongeInstance.squeeze_eq (show 0 < 168 by decide) hrate rfl h n

theorem absorbLastFewBits_absorbed {suffix : UInt8} (hne : suffix ≠ 0) (bytes : List UInt8) :
    (absorbed bytes).absorbLastFewBits suffix =
      .ok (finished (node.finish suffix (node.absorb (node.zero, 0) bytes), 0)) := by
  have hrate : (absorbed bytes).rate / 8 = 168 := by simp only [absorbed]
  exact SpongeInstance.absorbLastFewBits_eq (show 0 < 168 by decide) hrate rfl hne

/-- The byte after the first chunk is followed by zeros up to the next word. -/
theorem absorbed_align {first : List UInt8} (h : first.length = 8192) :
    { absorbed (first ++ [0x03]) with
      byteIOIndex := ((absorbed (first ++ [0x03])).byteIOIndex + 7) / 8 * 8 } =
      absorbed (first ++ [0x03, 0, 0, 0, 0, 0, 0, 0]) := by
  have hindex : (node.absorb (node.zero, 0) (first ++ [0x03])).2 = 129 := by
    rw [Sponge.absorb_snd (show 0 < 168 by decide), List.length_append, h]
    rfl
  have hzeros : first ++ [0x03, 0, 0, 0, 0, 0, 0, 0] = first ++ [0x03] ++ List.replicate 7 0 := by
    simp [List.replicate]
  generalize first ++ [0x03] = bytes at *
  have hfits : 129 + (List.replicate 7 (0 : UInt8)).length < node.rate := by decide
  have hall : node.absorb (node.zero, 0) (bytes ++ List.replicate 7 0) =
      ((node.absorb (node.zero, 0) bytes).1, 136) := by
    have hsplit : node.absorb (node.zero, 0) bytes = ((node.absorb (node.zero, 0) bytes).1, 129) := by
      rw [← hindex]
    rw [Sponge.absorb_append, hsplit, Sponge.absorb_of_lt hfits, Sponge.addBytes_zeros]
    rfl
  rw [hzeros, absorbed, absorbed, hall, hindex]
  simp

/-- The queue goes to the final node as the hash of a leaf. -/
theorem finishQueue_eq (kt : KangarooTwelve) {q bytes : List UInt8} (hq : kt.queueNode = absorbed q)
    (hfinal : kt.finalNode = absorbed bytes) :
    ∃ queueNode, finishQueue kt =
      .ok { kt with queueNode, finalNode := absorbed (bytes ++ leafHash q) } := by
  have hlast := absorbLastFewBits_absorbed (show (0x0B : UInt8) ≠ 0 by decide) q
  have hsqueeze := squeeze_finished (x := (node.finish 0x0B (node.absorb (node.zero, 0) q), 0))
    (Nat.zero_le _) 32
  rw [Sponge.hash_eq (by decide)] at hsqueeze
  refine ⟨finished (node.squeeze 32 (node.finish 0x0B (node.absorb (node.zero, 0) q), 0)).2, ?_⟩
  simp only [finishQueue, hq, hfinal, hlast, hsqueeze, bind, Except.bind, absorb_absorbed]
  rfl

/-! ## The instance -/

/-- An instance that has begun a tree: which leaves are complete, and what is in the queue. -/
structure Tree (kt : KangarooTwelve) (first : List UInt8) (leaves : List (List UInt8))
    (queue : List UInt8) : Prop where
  length_first : first.length = chunkSize
  length_leaves : ∀ leaf ∈ leaves, leaf.length = chunkSize
  length_queue : queue.length < chunkSize
  blockNumber : kt.blockNumber = leaves.length + 1
  queueAbsorbedLen : kt.queueAbsorbedLen = queue.length
  finalNode : kt.finalNode =
    absorbed (first ++ [0x03, 0, 0, 0, 0, 0, 0, 0] ++ leaves.flatMap leafHash)
  queueNode : queue ≠ [] → kt.queueNode = absorbed queue
  phase : kt.phase = .absorbing

/-- An instance after a message. -/
def Absorbed (kt : KangarooTwelve) (message : List UInt8) : Prop :=
  (message.length ≤ chunkSize ∧ kt.blockNumber = 0 ∧ kt.queueAbsorbedLen = message.length ∧
      kt.finalNode = absorbed message ∧ kt.phase = .absorbing) ∨
    (chunkSize < message.length ∧
      ∃ first leaves queue, Tree kt first leaves queue ∧ message = first ++ leaves.flatten ++ queue)

section Instance

variable {kt : KangarooTwelve} {first queue message input : List UInt8} {leaves : List (List UInt8)}

/-- A leaf that is complete. -/
theorem Tree.leaf (h : Tree kt first leaves []) {leaf : List UInt8} (hleaf : leaf.length = chunkSize) :
    ∃ kt', finishQueue { kt with
        queueNode := absorbed leaf
        queueAbsorbedLen := 0
        blockNumber := kt.blockNumber + 1 } = .ok kt' ∧
      Tree kt' first (leaves ++ [leaf]) [] ∧ kt'.fixedOutputLength = kt.fixedOutputLength := by
  obtain ⟨queueNode, hfinish⟩ := finishQueue_eq { kt with
      queueNode := absorbed leaf
      queueAbsorbedLen := 0
      blockNumber := kt.blockNumber + 1 } rfl h.finalNode
  refine ⟨_, hfinish, ⟨h.length_first, fun c hc => ?_, by decide, ?_, rfl, ?_, fun hne => absurd rfl hne,
    h.phase⟩, rfl⟩
  · obtain hc | hc := List.mem_append.mp hc
    · exact h.length_leaves c hc
    · exact (List.mem_singleton.mp hc) ▸ hleaf
  · simp only [h.blockNumber, List.length_append, List.length_singleton]
  · simp only [List.flatMap_append, List.flatMap_singleton, List.append_assoc]

/-- The loop over further chunks. -/
theorem Tree.updateLoop {fuel : Nat} (h : Tree kt first leaves []) (hfuel : input.length ≤ fuel) :
    ∃ kt' more queue, updateLoop fuel kt input = .ok kt' ∧ Tree kt' first (leaves ++ more) queue ∧
      more.flatten ++ queue = input ∧ kt'.fixedOutputLength = kt.fixedOutputLength := by
  induction fuel generalizing kt leaves input with
  | zero =>
      obtain rfl : input = [] := List.length_eq_zero_iff.mp (by omega)
      exact ⟨kt, [], [], rfl, by simpa using h, rfl, rfl⟩
  | succ fuel ih =>
      obtain _ | ⟨b, bytes⟩ := input
      · exact ⟨kt, [], [], rfl, by simpa using h, rfl, rfl⟩
      rw [KangarooTwelve.updateLoop]
      generalize hinput : b :: bytes = input at *
      simp only [spongeInitialize_eq, absorb_absorbed, List.nil_append, bind, Except.bind]
      by_cases hlen : min input.length chunkSize = chunkSize
      · have hleaf : (input.take chunkSize).length = chunkSize := by
          rw [List.length_take]
          omega
        have hdrop : (input.drop chunkSize).length ≤ fuel := by
          have hpos : 0 < chunkSize := by decide
          rw [List.length_drop]
          omega
        obtain ⟨kt', hfinish, htree, hfixed⟩ := h.leaf hleaf
        have hsame : { kt with
            queueNode := absorbed (input.take chunkSize)
            queueAbsorbedLen := 0
            blockNumber := kt.blockNumber + 1 } = { kt with
            queueNode := absorbed (input.take chunkSize)
            blockNumber := kt.blockNumber + 1 } := by
          have hzero := h.queueAbsorbedLen
          rw [List.length_nil] at hzero
          rw [hzero]
        rw [hsame] at hfinish
        obtain ⟨kt'', more, queue, hloop, htree', hmore, hfixed'⟩ := ih htree hdrop
        rw [hlen, if_pos rfl, hfinish]
        refine ⟨kt'', input.take chunkSize :: more, queue, hloop, ?_, ?_, hfixed'.trans hfixed⟩
        · rwa [List.append_assoc, List.singleton_append] at htree'
        · rw [List.flatten_cons, List.append_assoc, hmore, List.take_append_drop]
      · have hmin : min input.length chunkSize = input.length := by omega
        rw [hmin, List.take_length, List.drop_length, if_neg (by omega)]
        refine ⟨{ kt with queueNode := absorbed input, queueAbsorbedLen := input.length }, [], input,
          by cases fuel <;> rfl, ?_, rfl, rfl⟩
        rw [List.append_nil]
        exact ⟨h.length_first, h.length_leaves, by omega, h.blockNumber, rfl, h.finalNode, fun _ => rfl,
          h.phase⟩

/-- The first chunk. -/
theorem Absorbed.updateFirst (h : Absorbed kt message) (input : List UInt8)
    (hnumber : kt.blockNumber = 0) :
    ∃ kt' rest, updateFirst kt input = .ok (kt', rest) ∧
      kt'.fixedOutputLength = kt.fixedOutputLength ∧ kt'.phase = .absorbing ∧
      ((rest = [] ∧ Absorbed kt' (message ++ input)) ∨
        rest ≠ [] ∧ ∃ first, Tree kt' first [] [] ∧ message ++ input = first ++ rest) := by
  obtain ⟨hlen, -, hqueue, hfinal, hphase⟩ | ⟨-, first, leaves, queue, htree, -⟩ := h
  · rw [KangarooTwelve.updateFirst]
    simp only [hfinal, hqueue, absorb_absorbed, bind, Except.bind]
    by_cases hfull : message.length + min input.length (chunkSize - message.length) = chunkSize ∧
        input.drop (min input.length (chunkSize - message.length)) ≠ []
    · rw [if_pos hfull]
      obtain ⟨hfull, hrest⟩ := hfull
      generalize hcut : min input.length (chunkSize - message.length) = cut at *
      have hfirst : (message ++ input.take cut).length = 8192 := by
        rw [List.length_append, List.length_take, Nat.min_eq_left (by omega)]
        exact hfull
      refine ⟨_, input.drop cut, rfl, rfl, hphase, .inr ⟨hrest, message ++ input.take cut, ?_, ?_⟩⟩
      · refine ⟨hfirst, by simp, by decide, rfl, rfl, ?_, fun hne => absurd rfl hne, hphase⟩
        rw [absorbed_align hfirst]
        simp
      · rw [List.append_assoc, List.take_append_drop]
    · rw [if_neg hfull]
      have hrest : input.drop (min input.length (chunkSize - message.length)) = [] := by
        by_contra hne
        have hlt : min input.length (chunkSize - message.length) < input.length := by
          by_contra hge
          exact hne (List.drop_eq_nil_of_le (by omega))
        exact hfull ⟨by omega, hne⟩
      have hall : input.take (min input.length (chunkSize - message.length)) = input :=
        List.take_of_length_le (List.drop_eq_nil_iff.mp hrest)
      have hle : input.length ≤ chunkSize - message.length := by
        have := List.drop_eq_nil_iff.mp hrest
        omega
      rw [hall, hrest]
      refine ⟨_, [], rfl, rfl, hphase, .inl ⟨rfl, .inl ⟨?_, hnumber, ?_, rfl, hphase⟩⟩⟩
      · rw [List.length_append]
        omega
      · rw [List.length_append]
        simp only
        omega
  · rw [htree.blockNumber] at hnumber
    omega

/-- More of the chunk in the queue. -/
theorem Tree.updateQueue (h : Tree kt first leaves queue) (input : List UInt8) (hne : queue ≠ []) :
    ∃ kt' rest more queue', updateQueue kt input = .ok (kt', rest) ∧
      kt'.fixedOutputLength = kt.fixedOutputLength ∧ Tree kt' first (leaves ++ more) queue' ∧
      (rest ≠ [] → queue' = []) ∧ queue ++ input = more.flatten ++ queue' ++ rest := by
  have hlt := h.length_queue
  rw [KangarooTwelve.updateQueue]
  simp only [h.queueNode hne, h.queueAbsorbedLen, absorb_absorbed, bind, Except.bind]
  generalize hcut : min input.length (chunkSize - queue.length) = cut
  have htake : (queue ++ input.take cut).length = queue.length + cut := by
    rw [List.length_append, List.length_take, Nat.min_eq_left (by omega)]
  by_cases hfull : queue.length + cut = chunkSize
  · rw [if_pos hfull]
    have hempty : Tree { kt with queueAbsorbedLen := 0 } first leaves [] :=
      ⟨h.length_first, h.length_leaves, by decide, h.blockNumber, rfl, h.finalNode,
        fun hne => absurd rfl hne, h.phase⟩
    obtain ⟨kt', hfinish, htree, hfixed⟩ := hempty.leaf (htake.trans hfull)
    rw [hfinish]
    refine ⟨kt', input.drop cut, [queue ++ input.take cut], [], rfl, hfixed, htree, fun _ => rfl, ?_⟩
    simp
  · rw [if_neg hfull]
    have hall : input.take cut = input := List.take_of_length_le (by omega)
    have hrest : input.drop cut = [] := List.drop_eq_nil_of_le (by omega)
    rw [hrest, hall]
    refine ⟨_, [], [], queue ++ input, rfl, rfl, ?_, fun h => absurd rfl h, by simp⟩
    rw [hall] at htake
    rw [List.append_nil]
    exact ⟨h.length_first, h.length_leaves, by omega, h.blockNumber, htake.symm, h.finalNode,
      fun _ => rfl, h.phase⟩

theorem Absorbed.phase (h : Absorbed kt message) : kt.phase = .absorbing := by
  obtain ⟨-, -, -, -, hphase⟩ | ⟨-, first, leaves, queue, htree, -⟩ := h
  · exact hphase
  · exact htree.phase

/-- A message with at least one more byte after the first chunk. -/
theorem Tree.absorbed (h : Tree kt first leaves queue) (hmessage : message = first ++ leaves.flatten ++ queue)
    (hmore : leaves.flatten ++ queue ≠ []) : Absorbed kt message := by
  refine .inr ⟨?_, first, leaves, queue, h, hmessage⟩
  have hpos : 0 < (leaves.flatten ++ queue).length := List.length_pos_of_ne_nil hmore
  rw [hmessage, List.append_assoc, List.length_append, h.length_first]
  omega

/-- **A piece of a message is taken**, wherever it is cut. -/
theorem Absorbed.update (h : Absorbed kt message) (input : List UInt8) :
    ∃ kt', update kt input = .ok kt' ∧ Absorbed kt' (message ++ input) ∧
      kt'.fixedOutputLength = kt.fixedOutputLength := by
  have hphase := h.phase
  rw [KangarooTwelve.update, if_neg (not_not.mpr hphase)]
  by_cases hnumber : kt.blockNumber = 0
  · obtain ⟨kt', rest, hfirst, hfixed, hphase', hcases⟩ := h.updateFirst input hnumber
    simp only [if_pos hnumber, hfirst, bind, Except.bind]
    obtain ⟨rfl, habsorbed⟩ | ⟨hrest, first, htree, hmessage⟩ := hcases
    · exact ⟨kt', rfl, habsorbed, hfixed⟩
    · obtain ⟨kt'', more, queue, hloop, htree', hmore, hfixed'⟩ := htree.updateLoop (le_refl rest.length)
      refine ⟨kt'', hloop, htree'.absorbed ?_ ?_, hfixed'.trans hfixed⟩
      · rw [hmessage, List.nil_append, List.append_assoc, hmore]
      · rwa [List.nil_append, hmore]
  · obtain ⟨-, hzero, -⟩ | ⟨hlong, first, leaves, queue, htree, rfl⟩ := h
    · exact absurd hzero hnumber
    have hmore : leaves.flatten ++ queue ≠ [] := fun hempty => by
      rw [List.append_assoc, hempty, List.append_nil, htree.length_first] at hlong
      exact absurd hlong (lt_irrefl _)
    by_cases hqueue : queue = []
    · subst hqueue
      have hzero : ¬ kt.queueAbsorbedLen ≠ 0 := not_not.mpr htree.queueAbsorbedLen
      obtain ⟨kt', more, queue, hloop, htree', hmore', hfixed⟩ := htree.updateLoop (le_refl input.length)
      simp only [if_neg hnumber, if_neg hzero, bind, Except.bind, hloop]
      refine ⟨kt', rfl, htree'.absorbed ?_ ?_, hfixed⟩
      · rw [← hmore']
        simp
      · intro hempty
        apply hmore
        simp only [List.flatten_append, List.append_eq_nil_iff] at hempty ⊢
        exact ⟨hempty.1.1, trivial⟩
    · have hlen : kt.queueAbsorbedLen ≠ 0 := by
        rw [htree.queueAbsorbedLen]
        exact (List.length_pos_of_ne_nil hqueue).ne'
      obtain ⟨kt', rest, more, queue', hupdate, hfixed, htree', hrest, hall⟩ :=
        htree.updateQueue input hqueue
      simp only [if_neg hnumber, if_pos hlen, hupdate, bind, Except.bind]
      have hne : ∀ (more' : List (List UInt8)) (q : List UInt8),
          queue ++ input = more.flatten ++ more'.flatten ++ q →
            (leaves ++ more ++ more').flatten ++ q ≠ [] := by
        intro more' q heq hempty
        have hboth : leaves.flatten ++ (queue ++ input) = [] := by
          rw [heq]
          simpa using hempty
        exact hqueue (List.append_eq_nil_iff.mp (List.append_eq_nil_iff.mp hboth).2).1
      by_cases hnil : rest = []
      · subst hnil
        refine ⟨kt', rfl, htree'.absorbed ?_ ?_, hfixed⟩
        · rw [List.append_assoc, hall]
          simp
        · have hnotEmpty := hne [] queue' (by simpa using hall)
          simpa using hnotEmpty
      · obtain rfl := hrest hnil
        obtain ⟨kt'', more', queue'', hloop, htree'', hmore', hfixed'⟩ := htree'.updateLoop (le_refl rest.length)
        have hall' : queue ++ input = more.flatten ++ more'.flatten ++ queue'' := by
          rw [hall, ← hmore']
          simp
        refine ⟨kt'', hloop, htree''.absorbed ?_ (hne _ _ hall'), hfixed'.trans hfixed⟩
        rw [List.append_assoc, hall']
        simp

theorem Absorbed.updates (h : Absorbed kt message) (pieces : List (List UInt8)) :
    ∃ kt', pieces.foldlM KangarooTwelve.update kt = .ok kt' ∧ Absorbed kt' (message ++ pieces.flatten) ∧
      kt'.fixedOutputLength = kt.fixedOutputLength := by
  induction pieces generalizing kt message with
  | nil => exact ⟨kt, rfl, by simpa using h, rfl⟩
  | cons input pieces ih =>
      obtain ⟨kt', hupdate, habsorbed, hfixed⟩ := h.update input
      obtain ⟨kt'', hupdates, habsorbed', hfixed'⟩ := ih habsorbed
      refine ⟨kt'', ?_, by simpa using habsorbed', hfixed'.trans hfixed⟩
      rw [List.foldlM_cons, hupdate]
      exact hupdates

/-- What the final node was given, and its padding. -/
theorem Absorbed.closeTree (h : Absorbed kt message) :
    ∃ kt' bytes padding, closeTree kt = .ok (kt', padding) ∧ kt'.finalNode = KangarooTwelve.absorbed bytes ∧
      kt'.fixedOutputLength = kt.fixedOutputLength ∧ padding ≠ 0 ∧ padding < 0x80 ∧
      ∀ n, node.hash padding n bytes =
        if message.length ≤ 8192 then node.hash 0x07 n message
        else node.hash 0x06 n (treeMessage (message.take 8192) (chunks (message.drop 8192))) := by
  obtain ⟨hshort, hnumber, -, hfinal, -⟩ | ⟨hlong, first, leaves, queue, htree, rfl⟩ := h
  · exact ⟨kt, message, 0x07, if_pos hnumber, hfinal, rfl, by decide, by decide,
      fun n => (if_pos hshort).symm⟩
  · have hnumber : kt.blockNumber ≠ 0 := by
      rw [htree.blockNumber]
      omega
    have hfirst : (first ++ leaves.flatten ++ queue).take 8192 = first := by
      rw [List.append_assoc, List.take_left' htree.length_first]
    have hrest : (first ++ leaves.flatten ++ queue).drop 8192 = leaves.flatten ++ queue := by
      rw [List.append_assoc, List.drop_left' htree.length_first]
    have hnot : ¬ (first ++ leaves.flatten ++ queue).length ≤ 8192 := Nat.not_le.mpr hlong
    rw [KangarooTwelve.closeTree, if_neg hnumber]
    simp only [if_neg hnot, hfirst, hrest, chunks_flatten htree.length_leaves]
    by_cases hqueue : queue = []
    · subst hqueue
      have hzero : ¬ kt.queueAbsorbedLen ≠ 0 := not_not.mpr htree.queueAbsorbedLen
      have hchunks : chunks [] = [] := rfl
      simp only [if_neg hzero, bind, Except.bind, htree.finalNode, absorb_absorbed, htree.blockNumber,
        Nat.add_sub_cancel, hchunks, List.append_nil]
      exact ⟨_, _, 0x06, rfl, rfl, rfl, by decide, by decide, fun n => rfl⟩
    · have hlen : kt.queueAbsorbedLen ≠ 0 := by
        rw [htree.queueAbsorbedLen]
        exact (List.length_pos_of_ne_nil hqueue).ne'
      obtain ⟨queueNode, hfinish⟩ := finishQueue_eq { kt with blockNumber := kt.blockNumber + 1 }
        (htree.queueNode hqueue) htree.finalNode
      have hcount : kt.blockNumber + 1 - 1 = (leaves ++ [queue]).length := by
        rw [htree.blockNumber, List.length_append, List.length_singleton]
        omega
      simp only [if_pos hlen, hfinish, bind, Except.bind, absorb_absorbed, hcount,
        chunks_of_le hqueue htree.length_queue.le]
      refine ⟨_, _, 0x06, rfl, rfl, rfl, by decide, by decide, fun n => ?_⟩
      simp only [treeMessage, List.flatMap_append, List.flatMap_singleton, List.append_assoc]

end Instance

/-! ## The hash in pieces -/

/-- The outputs of some calls of `KangarooTwelve_Squeeze`. -/
def squeezes (kt : KangarooTwelve) : List Nat → Except Failure (List UInt8)
  | [] => .ok []
  | n :: lengths => do
      let (output, kt) ← kt.squeeze n
      let rest ← squeezes kt lengths
      .ok (output ++ rest)

/-- A message that is given in pieces, and an output that is taken in pieces. -/
def hashPieces (queueNode : SpongeInstance) (pieces : List (List UInt8)) (customization : List UInt8)
    (outLen : Nat) (lengths : List Nat) : Except Failure (List UInt8) := do
  let kt ← kangarooTwelveInitialize queueNode outLen
  let kt ← pieces.foldlM update kt
  let (output, kt) ← kt.final customization
  let rest ← kt.squeezes lengths
  .ok (output ++ rest)

/-- Outputs that are taken one after the other are one output. -/
theorem squeezes_eq {kt : KangarooTwelve} (hphase : kt.phase = .squeezing) {x : Lanes × Nat}
    (hfinal : kt.finalNode = finished x) (hx : x.2 ≤ 168) (lengths : List Nat) :
    kt.squeezes lengths = .ok (node.squeeze lengths.sum x).1 := by
  induction lengths generalizing kt x with
  | nil => rfl
  | cons n lengths ih =>
      have hsqueeze : kt.squeeze n =
          .ok ((node.squeeze n x).1, { kt with finalNode := finished (node.squeeze n x).2 }) := by
        rw [squeeze, if_neg (not_not.mpr hphase), hfinal, squeeze_finished hx]
        rfl
      rw [squeezes, hsqueeze, List.sum_cons, Sponge.squeeze_add]
      simp only [bind, Except.bind]
      have hrest : ({ kt with finalNode := finished (node.squeeze n x).2 } : KangarooTwelve).squeezes
          lengths = .ok (node.squeeze lengths.sum (node.squeeze n x).2).1 := by
        refine ih ?_ rfl ?_
        · exact hphase
        · exact Sponge.squeeze_snd_le hx
      rw [hrest]

section Pieces

variable (queueNode : SpongeInstance) (pieces : List (List UInt8)) (customization : List UInt8)

/-- The node that the output is taken from. -/
theorem final_spec {kt : KangarooTwelve} {message : List UInt8} (h : Absorbed kt message) :
    ∃ x, (∀ n, (node.squeeze n (x, 0)).1 = k12 message customization n) ∧
      ∃ kt', kt.final customization = .ok ((node.squeeze kt.fixedOutputLength (x, 0)).1, kt') ∧
        (kt.fixedOutputLength = 0 → kt'.finalNode = finished (x, 0) ∧ kt'.phase = .squeezing) := by
  obtain ⟨kt₁, hcustom, habsorbed, hfixed⟩ : ∃ kt', updateCustomization kt customization = .ok kt' ∧
      Absorbed kt' (message ++ customization) ∧ kt'.fixedOutputLength = kt.fixedOutputLength := by
    by_cases hempty : customization = []
    · subst hempty
      exact ⟨kt, rfl, by simpa using h, rfl⟩
    · rw [updateCustomization, if_pos hempty]
      exact h.update customization
  obtain ⟨kt₂, hupdate, habsorbed, hfixed'⟩ := habsorbed.update (rightEncode customization.length)
  obtain ⟨kt₃, bytes, padding, hclose, hfinal, hfixed'', hne, hlt, hhash⟩ := habsorbed.closeTree
  refine ⟨node.finish padding (node.absorb (node.zero, 0) bytes), fun n => ?_, ?_⟩
  · rw [Sponge.hash_eq hlt, hhash]
    rfl
  · rw [final, if_neg (not_not.mpr h.phase)]
    simp only [bind, Except.bind, hcustom, hupdate, hclose, hfinal, absorbLastFewBits_absorbed hne]
    have hall : kt₃.fixedOutputLength = kt.fixedOutputLength := hfixed''.trans (hfixed'.trans hfixed)
    rw [hall]
    by_cases hzero : kt.fixedOutputLength = 0
    · rw [if_neg (not_not.mpr hzero), hzero]
      exact ⟨_, rfl, fun _ => ⟨rfl, rfl⟩⟩
    · rw [if_pos hzero, squeeze_finished (Nat.zero_le _)]
      exact ⟨_, rfl, fun h => absurd h hzero⟩

theorem absorbed_initialize (outLen : Nat) :
    ∃ kt, kangarooTwelveInitialize queueNode outLen = .ok kt ∧ Absorbed kt [] ∧
      kt.fixedOutputLength = outLen := by
  refine ⟨⟨queueNode, absorbed [], outLen, 0, 0, .absorbing⟩, ?_, .inl ⟨Nat.zero_le _, rfl, rfl, rfl, rfl⟩,
    rfl⟩
  rw [kangarooTwelveInitialize, spongeInitialize_eq]
  rfl

end Pieces

end KangarooTwelve

end Keccak

end XLArig
