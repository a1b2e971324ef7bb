import XLArig.CryptoNight.Alone

/-!
# XLArig.CryptoNight.Together

A round of several lanes is a round of each.

On the same store, the lines for two lanes and the macros do what the phases do, one lane after
the other (`doubleRound_follows`, `cnStep1_follows`, …), and the phases that the macros make up
are those of the single hash (`stepRound_follows`).  So each lane goes on as it does alone
(`cnRound_turns`, `doubleRound_turns`).
-/

namespace XLArig

open Traced CnAlgo Algorithm

/-! ## The macros -/

namespace StepLane

variable {a : Algorithm}

/-- The registers of the macros are those of a lane, and `ptr` is where its index points. -/
def Points (a : Algorithm) (s : StepLane) (c : CnLane) : Prop :=
  s.regs = c ∧ s.mc.lo = 0 ∧ s.ptr = c.ptr a 0

section

variable [CnUnit] {s : StepLane}

theorem cnStep1_follows (h : s.mc.lo = 0) :
    Follows (Points a) (s.cnStep1 a) (s.regs.loadCx a 0) := by
  intro m
  unfold cnStep1 CnLane.loadCx
  by_cases hccx : a = CN_CCX
  · simp only [if_pos hccx]
    exact ⟨⟨rfl, h, rfl⟩, rfl⟩
  · simp only [if_neg hccx]
    exact ⟨⟨rfl, h, rfl⟩, rfl⟩

theorem cnStep2_follows {soft : Bool} (h : Points a s s.regs) :
    Follows (Points a) (s.cnStep2 a soft)
      (CnLane.tweakPhase a 0 { s.regs with
        cx := if a = CN_HEAVY_TUBE then CnUnit.aesRoundTweakDiv s.cx s.ax
          else CnUnit.aesenc soft s.cx s.ax }) := by
  obtain ⟨-, hmc, hptr⟩ := h
  intro m
  unfold cnStep2 CnLane.tweakPhase
  by_cases hbase : base a = CN_1 ∨ base a = CN_2
  · simp only [if_pos hbase]
    unfold moneroTweak CnLane.cryptonightMoneroTweak
    by_cases hbase2 : base a = CN_2
    · simp only [if_pos hbase2, hptr]
      exact ⟨⟨rfl, hmc, rfl⟩, rfl⟩
    · simp only [if_neg hbase2, hptr]
      exact ⟨⟨rfl, hmc, rfl⟩, rfl⟩
  · simp only [if_neg hbase, hptr]
    exact ⟨⟨rfl, hmc, rfl⟩, rfl⟩

omit [CnUnit] in
theorem cnStep3_follows (h : s.mc.lo = 0) :
    Follows (Points a) (s.cnStep3 a) (s.regs.followPhase a 0) :=
  fun _ => ⟨⟨rfl, h, rfl⟩, rfl⟩

theorem cnMath_follows (height : UInt64) (h : Points a s s.regs) :
    Follows (Points a) (s.cnMath a height) (s.regs.mathPhase a height) := by
  obtain ⟨-, hmc, hptr⟩ := h
  intro m
  unfold cnMath CnLane.mathPhase
  by_cases hbase : base a = CN_2
  · simp only [if_pos hbase]
    by_cases hR : a = CN_R
    · subst hR
      exact ⟨⟨rfl, hmc, hptr⟩, rfl⟩
    · have hnotR : isR a = false := by simpa [isR] using hR
      simp only [if_neg hR, hnotR]
      exact ⟨⟨rfl, hmc, hptr⟩, rfl⟩
  · simp only [if_neg hbase]
    have hR : a ≠ CN_R := by
      rintro rfl
      exact hbase rfl
    simp only [if_neg hR]
    exact ⟨⟨rfl, hmc, hptr⟩, rfl⟩

omit [CnUnit] in
/-- The store through `ptr`, with the tweak in `mc`. -/
theorem cnStore_follows (h : Points a s s.regs) :
    Follows (fun _ c => c = s.regs) (s.cnStore a) (s.regs.storeVector a 0) := by
  obtain ⟨-, hmc, hptr⟩ := h
  have htweak : s.mc = ⟨0, s.mc.hi⟩ := M128i.ext hmc rfl
  intro m
  unfold cnStore CnLane.storeVector
  by_cases hbase : base a = CN_1
  · simp only [if_pos hbase, hptr]
    rw [htweak]
    split_ifs
    · exact ⟨rfl, rfl⟩
    · exact ⟨rfl, rfl⟩
  · simp only [if_neg hbase, hptr]
    exact ⟨rfl, rfl⟩

omit [CnUnit] in
theorem cnDivide_follows :
    Follows (fun t c => t.regs = c ∧ t.mc = s.mc) (s.cnDivide a) (s.regs.heavyPhase a 0) := by
  intro m
  unfold cnDivide CnLane.heavyPhase
  by_cases hheavy : isHeavy a
  · rw [if_pos hheavy, if_pos hheavy]
    exact ⟨⟨rfl, rfl⟩, rfl⟩
  · rw [if_neg hheavy, if_neg hheavy]
    exact ⟨⟨rfl, rfl⟩, rfl⟩

theorem cnStep4_follows (height : UInt64) (h : Points a s s.regs) :
    Follows (fun t c => t.regs = c ∧ t.mc.lo = 0) (s.cnStep4 a height)
      (do
        let c ← s.regs.mathPhase a height
        let c ← c.storeVector a 0
        c.turnPhase a 0) := by
  refine follows_bind (cnMath_follows height h) ?_
  rintro s _ ⟨rfl, hmc, hptr⟩
  refine follows_bind (cnStore_follows ⟨rfl, hmc, hptr⟩) ?_
  rintro _ _ rfl
  refine follows_bind cnDivide_follows ?_
  rintro t _ ⟨rfl, ht⟩ m
  exact ⟨⟨rfl, (congrArg M128i.lo ht).trans hmc⟩, rfl⟩

end

end StepLane

/-! ## A round alone -/

namespace CnLane

variable {a : Algorithm}

/-- The store of one vector is the store of its two words. -/
theorem storeVector_follows (c : CnLane) :
    Follows Eq (c.storeVector a 0) (c.storeWords a 0) := by
  intro m
  unfold storeVector storeWords
  by_cases hbase : base a = CN_1
  · simp only [if_pos hbase]
    by_cases htube : a = CN_HEAVY_TUBE ∨ a = CN_RTO
    · simp only [if_pos htube]
      refine ⟨rfl, funext fun q => ?_⟩
      change (if q = c.ptr a 0 + 8 then
          (if c.ptr a 0 + 8 = c.ptr a 0 then c.al ^^^ 0
            else if c.ptr a 0 + 8 = c.ptr a 0 + 8 then c.ah ^^^ c.tweak1_2 else m (c.ptr a 0 + 8)) ^^^
          (if c.ptr a 0 = c.ptr a 0 then c.al ^^^ 0 else _)
        else if q = c.ptr a 0 then c.al ^^^ 0 else if q = c.ptr a 0 + 8 then _ else m q) =
        if q = c.ptr a 0 + 8 then c.ah ^^^ c.tweak1_2 ^^^ c.al
        else if q = c.ptr a 0 then c.al else m q
      by_cases hq : q = c.ptr a 0 + 8
      · simp [hq]
      · simp [hq]
    · simp only [if_neg htube]
      refine ⟨rfl, funext fun q => ?_⟩
      change (if q = c.ptr a 0 then c.al ^^^ 0
        else if q = c.ptr a 0 + 8 then c.ah ^^^ c.tweak1_2 else m q) =
        if q = c.ptr a 0 + 8 then c.ah ^^^ c.tweak1_2 else if q = c.ptr a 0 then c.al else m q
      by_cases hq : q = c.ptr a 0
      · simp [hq]
      · simp [hq]
  · have htube : ¬ (a = CN_HEAVY_TUBE ∨ a = CN_RTO) := by
      rintro (rfl | rfl)
      · exact hbase rfl
      · exact hbase rfl
    simp only [if_neg hbase, if_neg htube]
    refine ⟨rfl, funext fun q => ?_⟩
    change (if q = c.ptr a 0 then c.al else if q = c.ptr a 0 + 8 then c.ah else m q) =
      if q = c.ptr a 0 + 8 then c.ah else if q = c.ptr a 0 then c.al else m q
    by_cases hq : q = c.ptr a 0
    · simp [hq]
    · simp [hq]

variable [CnUnit] {soft : Bool}

/-- The loads of the single hash, before the AES round or in it. -/
theorem loadCx_follows (c : CnLane) :
    Follows (fun d d' => d' = { d with
        cx := if a = CN_HEAVY_TUBE then CnUnit.aesRoundTweakDiv d.cx d.ax
          else CnUnit.aesenc soft d.cx d.ax })
      (c.loadCx a 0) (c.loadPhase a soft 0 >>= fun c => c.aesPhase a soft 0) := by
  intro m
  unfold loadPhase aesPhase
  by_cases htube : a = CN_HEAVY_TUBE
  · simp only [if_pos htube, if_pos (Or.inl htube : a = CN_HEAVY_TUBE ∨ soft = false)]
    exact ⟨rfl, rfl⟩
  · cases soft with
    | true =>
        simp only [htube, if_false, if_true, reduceCtorEq, or_self]
        exact ⟨rfl, rfl⟩
    | false =>
        simp only [htube, if_false, if_true, reduceCtorEq, or_true]
        exact ⟨rfl, rfl⟩

theorem stepRound_follows (height : UInt64) (c : CnLane) :
    Follows Eq (inTurn (stepPhases a soft height) c) (Lanes.singleRound a soft height c) := by
  unfold Lanes.singleRound stepPhases wordPhases
  simp only [inTurn]
  refine follows_assoc.mp (follows_bind (loadCx_follows c) ?_)
  rintro d _ rfl
  refine follows_same _ fun d => ?_
  refine follows_assoc.mpr (follows_same _ fun d => ?_)
  refine follows_bind (Q := Eq) ?_ ?_
  · refine follows_same _ fun d => ?_
    refine follows_bind (storeVector_follows d) ?_
    rintro d _ rfl
    exact follows_refl _
  · rintro d _ rfl
    exact follows_refl _

end CnLane

/-! ## A round of all lanes -/

namespace StepLane

variable [CnUnit] {a : Algorithm} {soft : Bool} {r : Set Nat} {s : StepLane} {c : CnLane}

/-- The registers of the macros are those of the single hash, apart from what `CnLane.Alike`
leaves open. -/
def Alike (a : Algorithm) (r : Set Nat) (s : StepLane) (c : CnLane) : Prop :=
  s.mc.lo = 0 ∧ CnLane.Alike a r s.regs c

/-- Inside a round, `ptr` is where the index points. -/
def Pointed (a : Algorithm) (r : Set Nat) (s : StepLane) (c : CnLane) : Prop :=
  Points a s s.regs ∧ CnLane.Alike a r s.regs c

theorem cnStep1_sim (h : Alike a r s c) : Sim r (s.cnStep1 a) (c.loadCx a 0) (Pointed a r) := by
  refine ((CnLane.loadCx_sim h.2).of_follows (cnStep1_follows h.1)).mono ?_
  rintro s c ⟨_, ⟨rfl, hpoints⟩, hlike⟩
  exact ⟨⟨rfl, hpoints⟩, hlike⟩

variable (soft) in
theorem cnStep2_sim (h : Pointed a r s c) :
    Sim r (s.cnStep2 a soft)
      (CnLane.tweakPhase a 0 { c with
        cx := if a = CN_HEAVY_TUBE then CnUnit.aesRoundTweakDiv c.cx c.ax
          else CnUnit.aesenc soft c.cx c.ax })
      (Pointed a r) := by
  have haes := h.2.aes (f := fun cx ax =>
    if a = CN_HEAVY_TUBE then CnUnit.aesRoundTweakDiv cx ax else CnUnit.aesenc soft cx ax)
  refine ((CnLane.tweakPhase_sim haes).of_follows (cnStep2_follows h.1)).mono ?_
  rintro s c ⟨_, ⟨rfl, hpoints⟩, hlike⟩
  exact ⟨⟨rfl, hpoints⟩, hlike⟩

omit [CnUnit] in
theorem cnStep3_sim (h : Pointed a r s c) :
    Sim r (s.cnStep3 a) (c.followPhase a 0) (Pointed a r) := by
  refine ((CnLane.followPhase_sim h.2).of_follows (cnStep3_follows h.1.2.1)).mono ?_
  rintro s c ⟨_, ⟨rfl, hpoints⟩, hlike⟩
  exact ⟨⟨rfl, hpoints⟩, hlike⟩

theorem cnStep4_sim (height : UInt64) (h : Pointed a r s c) :
    Sim r (s.cnStep4 a height)
      (do
        let c ← c.mathPhase a height
        let c ← c.storeVector a 0
        c.turnPhase a 0)
      (Alike a r) := by
  refine ((CnLane.step4_sim height h.2).of_follows (cnStep4_follows height h.1)).mono ?_
  rintro s c ⟨_, ⟨rfl, hmc⟩, hlike⟩
  exact ⟨hmc, hlike⟩

/-- The macros make a round of each lane. -/
theorem cnRound_turns (soft : Bool) (height : UInt64) :
    Turns id (Alike a) (Alike a) (cnRound a soft height) (Lanes.singleRound a soft height) := by
  have h1 : Turns id (Alike a) (Pointed a) _ _ := turns_each fun _ _ _ => cnStep1_sim
  have h2 : Turns id (Pointed a) (Pointed a) _ _ :=
    turns_each fun _ _ _ => cnStep2_sim soft
  have h3 : Turns id (Pointed a) (Pointed a) _ _ := turns_each fun _ _ _ => cnStep3_sim
  have h4 : Turns id (Pointed a) (Alike a) _ _ := turns_each fun _ _ _ => cnStep4_sim height
  have hround := turns_cons h1 (turns_cons h2 (turns_cons h3 (turns_cons h4 turns_nil)))
  exact hround.congr (fun _ => follows_refl _) (CnLane.stepRound_follows height)

end StepLane

section

variable [CnUnit] {a : Algorithm} {soft : Bool}

theorem doubleLoad_follows (c0 c1 : CnLane) :
    Follows Eq (doubleLoad a soft c0 c1) (both (fun c => c.loadPhase a soft 0) (c0, c1)) := by
  intro m
  unfold doubleLoad both CnLane.loadPhase CnLane.loadCx
  by_cases hload : a = CN_HEAVY_TUBE ∨ soft = false
  · simp only [if_pos hload]
    by_cases hccx : a = CN_CCX
    · simp only [if_pos hccx]
      exact ⟨rfl, rfl⟩
    · simp only [if_neg hccx]
      exact ⟨rfl, rfl⟩
  · simp only [if_neg hload]
    exact ⟨rfl, rfl⟩

theorem doubleAes_follows (c0 c1 : CnLane) :
    Follows Eq (doubleAes a soft c0 c1) (both (fun c => c.aesPhase a soft 0) (c0, c1)) := by
  intro m
  unfold doubleAes both CnLane.aesPhase CnLane.loadCx
  by_cases htube : a = CN_HEAVY_TUBE
  · simp only [if_pos htube]
    exact ⟨rfl, rfl⟩
  · simp only [if_neg htube]
    by_cases hsoft : soft
    · simp only [if_pos hsoft]
      by_cases hccx : a = CN_CCX
      · simp only [if_pos hccx]
        exact ⟨rfl, rfl⟩
      · simp only [if_neg hccx]
        exact ⟨rfl, rfl⟩
    · simp only [if_neg hsoft]
      exact ⟨rfl, rfl⟩

omit [CnUnit] in
theorem doubleTweak_follows (c0 c1 : CnLane) :
    Follows Eq (doubleTweak a c0 c1) (both (fun c => c.tweakPhase a 0) (c0, c1)) := by
  intro m
  unfold doubleTweak both CnLane.tweakPhase
  by_cases hbase : base a = CN_1 ∨ base a = CN_2
  · simp only [if_pos hbase, and_self]
  · simp only [if_neg hbase]
    exact ⟨rfl, rfl⟩

/-- The round that is written out takes each phase for the one lane and then for the other. -/
theorem doubleRound_follows (height : UInt64) (lanes : CnLane × CnLane) :
    Follows Eq (doubleRound a soft height lanes)
      (inTurn ((wordPhases a soft 0 height).map both) lanes) := by
  unfold doubleRound wordPhases
  simp only [List.map_cons, List.map_nil, inTurn]
  refine follows_bind (doubleLoad_follows _ _) ?_
  rintro ⟨c0, c1⟩ _ rfl
  refine follows_bind (doubleAes_follows _ _) ?_
  rintro ⟨c0, c1⟩ _ rfl
  refine follows_bind (doubleTweak_follows _ _) ?_
  rintro ⟨c0, c1⟩ _ rfl m
  exact ⟨rfl, rfl⟩

theorem doubleRound_turns (soft : Bool) (height : UInt64) :
    Turns (fun p => [p.1, p.2]) (CnLane.Alike a) (CnLane.Alike a) (doubleRound a soft height)
      (Lanes.singleRound a soft height) :=
  (turns_map_both (CnLane.wordPhases_sim height)).congr (doubleRound_follows height)
    fun _ => follows_refl _

end

end XLArig
