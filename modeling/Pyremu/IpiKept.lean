import Pyremu.IpiSteps

/-!
# No IPI is lost

The edge of a complete write waits in the slot until a call of `sync_msip` has
merged it into `mip.MSIP`. In AIA mode `mip.MSIP` stays set as long as the level
bit does, so that the only danger is a delivery that clears the level bit of a
write which began after the trap.
-/

namespace Pyremu

/-! ## Deliveries -/

theorem imsicClearIpiOnTrap_mip (s : HartState) (cause : Word) : (imsicClearIpiOnTrap s cause).mip = s.mip := by
  simp only [imsicClearIpiOnTrap]
  split_ifs <;> rfl

/-- A trap for another cause leaves `mip.MSIP` alone. -/
theorem deliverTrapMmode_msip {s : HartState} {code : Word} (h : excCode code ≠ 3) (tval : Word) :
    (deliverTrapMmode s code tval).mip.getLsbD 3 = s.mip.getLsbD 3 := by
  simp only [deliverTrapMmode]
  rw [if_neg fun hc => h hc.2.1]

theorem deliverTrapSmode_msip {s : HartState} {code : Word} (h : excCode code ≠ 3) (tval : Word) :
    (deliverTrapSmode s code tval).mip.getLsbD 3 = s.mip.getLsbD 3 := by
  simp only [deliverTrapSmode]
  split_ifs
  · rfl
  · rw [clearSoftOnTrap, imsicClearIpiOnTrap_mip, if_neg h]
    exact getLsbD_and_not_bit s.mip (by decide) (by decide)
  · rfl

theorem deliverInterrupt_msip (s : HartState) {cause : Nat} (hc : cause ∈ interruptCauses) (h : cause ≠ 3)
    (mmode : Bool) : (deliverInterrupt s cause mmode).mip.getLsbD 3 = s.mip.getLsbD 3 := by
  have hcode : excCode (mcauseVal (BitVec.ofNat 64 cause) true) ≠ 3 := by
    simp only [interruptCauses, List.mem_cons, List.not_mem_nil, or_false] at hc
    rcases hc with rfl | rfl | rfl | rfl | rfl | rfl
    · decide
    · exact absurd rfl h
    · decide
    · decide
    · decide
    · decide
  simp only [deliverInterrupt, deliverTrap]
  split_ifs
  · exact deliverTrapMmode_msip hcode 0
  · exact deliverTrapSmode_msip hcode 0
  · exact deliverTrapMmode_msip hcode 0

theorem cause_of_checkPendingInterrupts {s : HartState} {cause : Nat} {mmode : Bool}
    (h : checkPendingInterrupts s = some (cause, mmode)) : cause ∈ interruptCauses := by
  simp only [checkPendingInterrupts] at h
  split_ifs at h
  obtain ⟨c, hc, hsome⟩ := List.exists_of_findSome?_eq_some h
  split_ifs at hsome
  cases hsome
  exact hc

namespace IpiState

variable {s s' : IpiState}

/-! ## The invariant -/

theorem msip_keepMsip (s : IpiState) (post : HartState) : (s.keepMsip post).mip.getLsbD 3 = s.msip := by
  simp [keepMsip, msip, bit]

/-- The edge of a complete write is in the slot, or shows in `mip`. -/
def InSlot (s : IpiState) : Prop := s.slot.getLsbD 3 = true

/-- What holds of writer `i` where the target stands. -/
def AtPc (s : IpiState) (i : Nat) : Prop :=
  match s.pc with
  | .idle => s.stage i = .done → s.unmet i = true → s.InSlot ∨ s.msip = true
  | .swap _ =>
    (s.stage i = .done → s.unmet i = true → s.InSlot ∨ s.msip = true) ∧
      (s.stage i = .done → s.unmet i = true → s.seen i = false → s.InSlot)
  | .merge _ cross =>
    (s.stage i = .done → s.unmet i = true → s.InSlot ∨ cross.getLsbD 3 = true ∨ s.msip = true) ∧
      (s.seen i = true → s.unmet i = true → cross.getLsbD 3 = true ∨ s.msip = true)
  | .sample aia =>
    (s.stage i = .done → s.unmet i = true → s.InSlot ∨ s.msip = true) ∧
      (s.seen i = true → s.unmet i = true → s.msip = true) ∧
        (aia = true → s.stage i = .done → s.unmet i = true → s.seen i = false → s.InSlot)
  | .look raw =>
    (s.seen i = true → s.unmet i = true → s.msip = true) ∧
      (s.stage i = .done → s.unmet i = true → s.seen i = false → s.InSlot) ∧
        (raw &&& 1 = 0 → s.unmet i = true → s.wiped i = false → s.seen i = false)
  | .drop =>
    (s.seen i = true → s.unmet i = true → s.msip = true) ∧
      (s.stage i = .done → s.unmet i = true → s.seen i = false → s.InSlot) ∧
        (s.unmet i = true → s.wiped i = false → s.seen i = false)
  | .raise =>
    (s.stage i = .done → s.unmet i = true → s.InSlot ∨ s.msip = true) ∧
      (s.seen i = true → s.unmet i = true → s.msip = true)
  | .delivered => s.stage i = .done → s.unmet i = true → s.InSlot ∨ s.msip = true
  | .written => s.unmet i = true → s.calls i = 0 ∧ (s.stage i = .done → s.InSlot)

/-- Whether the target is inside a call of `sync_msip`. -/
def inCall : IpiPc → Bool
  | .idle | .delivered | .written => false
  | _ => true

structure Sound (s : IpiState) (i : Nat) : Prop where
  begun : s.unmet i = true → s.stage i ≠ .idle
  level : s.unmet i = true → s.wiped i = false → s.level.getLsbD 0 = true
  complete : s.seen i = true → s.stage i = .done
  outside : inCall s.pc = false → s.seen i = false
  counted : 1 ≤ s.calls i → s.stage i = .done ∧ (inCall s.pc = true → s.seen i = true)
  shown : 1 ≤ s.calls i → s.unmet i = true → s.msip = true
  place : s.AtPc i

theorem sound_of_fresh (h : s.Fresh) (i : Nat) : s.Sound i where
  begun hu := by rw [h.unmet] at hu; cases hu
  level hu := by rw [h.unmet] at hu; cases hu
  complete hs := by rw [h.seen] at hs; cases hs
  outside _ := h.seen i
  counted hc := by rw [h.calls] at hc; cases hc
  shown hc := by rw [h.calls] at hc; cases hc
  place := by
    simp only [AtPc, h.pc]
    intro _ hu
    rw [h.unmet] at hu
    cases hu

theorem kept_of_sound (h : ∀ i, s.Sound i) : s.Kept :=
  fun i _ hu hc => (h i).shown (by omega) hu

/-! ## The steps -/

/-- What the step does is not about writer `i`. -/
theorem Sound.of_same {i : Nat} (h : s.Sound i) (hpc : s'.pc = s.pc) (hstage : s'.stage i = s.stage i)
    (hunmet : s'.unmet i = s.unmet i) (hwiped : s'.wiped i = s.wiped i) (hseen : s'.seen i = s.seen i)
    (hcalls : s'.calls i = s.calls i) (hlevel : s.level.getLsbD 0 = true → s'.level.getLsbD 0 = true)
    (hslot : s.InSlot → s'.InSlot) (hmsip : s'.msip = s.msip) : s'.Sound i := by
  refine ⟨?_, ?_, ?_, ?_, ?_, ?_, ?_⟩
  · rw [hunmet, hstage]
    exact h.begun
  · rw [hunmet, hwiped]
    exact fun hu hw => hlevel (h.level hu hw)
  · rw [hseen, hstage]
    exact h.complete
  · rw [hpc, hseen]
    exact h.outside
  · rw [hcalls, hstage, hpc, hseen]
    exact h.counted
  · rw [hcalls, hunmet, hmsip]
    exact h.shown
  · have hplace := h.place
    simp only [AtPc, hpc, hstage, hunmet, hwiped, hseen, hcalls, hmsip] at hplace ⊢
    cases hp : s.pc <;> simp only [hp] at hplace ⊢ <;> grind

theorem Sound.send {i : Nat} (h : s.Sound i) (j : Nat) : (s.sendStep j).Sound i := by
  simp only [sendStep]
  cases hst : s.stage j with
  | idle =>
    dsimp only
    by_cases hij : i = j
    · subst hij
      have hseen : s.seen i = false :=
        Bool.eq_false_of_not_eq_true fun hs => by rw [h.complete hs] at hst; cases hst
      have hcalls : s.calls i = 0 :=
        Nat.eq_zero_of_not_pos fun hc => by rw [(h.counted hc).1] at hst; cases hst
      have hplace := h.place
      refine ⟨?_, ?_, ?_, h.outside, ?_, ?_, ?_⟩
      · simp
      · simp
      · simp [hseen]
      · simp [hcalls]
      · simp [hcalls]
      · simp only [AtPc] at hplace ⊢
        cases hp : s.pc <;> simp [hp, hseen, hcalls]
    · apply h.of_same
      · rfl
      · exact Function.update_of_ne hij ..
      · exact Function.update_of_ne hij ..
      · rfl
      · rfl
      · rfl
      · simp
      · exact id
      · rfl
  | marked =>
    have hslot : (s.slot ||| bit 3).getLsbD 3 = true := by simp [bit]
    dsimp only
    by_cases hij : i = j
    · subst hij
      have hplace := h.place
      refine ⟨?_, h.level, ?_, h.outside, ?_, h.shown, ?_⟩
      · simp
      · simp
      · exact fun hc => ⟨Function.update_self .., (h.counted hc).2⟩
      · simp only [AtPc, InSlot, msip, Function.update_self] at hplace ⊢
        cases hp : s.pc <;> simp only [hp, hslot] at hplace ⊢ <;> grind
    · apply h.of_same
      · rfl
      · exact Function.update_of_ne hij ..
      · rfl
      · rfl
      · rfl
      · rfl
      · exact id
      · exact fun _ => hslot
      · rfl
  | done => exact h

/-- Code of the target or of others that leaves `mip.MSIP` alone. -/
theorem Sound.hart {i : Nat} (h : s.Sound i) {post : HartState} (hm : post.mip.getLsbD 3 = s.msip) :
    Sound { s with hart := post } i :=
  h.of_same rfl rfl rfl rfl rfl rfl id id hm

/-- A call of `sync_msip` begins. -/
theorem Sound.sync {i : Nat} (h : s.Sound i) (hp : s.pc = .idle) :
    Sound { s with pc := if s.slot ≠ 0 then .swap s.aia else .sample s.aia
                   seen := fun i => decide (s.stage i = .done) } i := by
  have hplace := h.place
  simp only [AtPc, hp] at hplace
  refine ⟨h.begun, h.level, ?_, ?_, ?_, h.shown, ?_⟩
  · simp
  · dsimp only
    split_ifs
    · exact fun hc => Bool.noConfusion hc
    · exact fun hc => Bool.noConfusion hc
  · intro hc
    exact ⟨(h.counted hc).1, fun _ => decide_eq_true (h.counted hc).1⟩
  · by_cases hslot : s.slot = 0
    · have hempty : ¬ s.InSlot := by
        simp [InSlot, hslot]
      simp only [AtPc, InSlot, msip, hslot, ne_eq, not_true_eq_false, if_false] at hplace hempty ⊢
      grind
    · simp only [AtPc, InSlot, msip, if_pos hslot] at hplace ⊢
      grind

/-- An event leaves nothing to be shown. -/
theorem sound_of_met {i : Nat} (hs : s.Sound i) (hunmet : s'.unmet i = false) (hstage : s'.stage i = s.stage i)
    (hseen : s'.seen i = s.seen i) (hcalls : s'.calls i = s.calls i) (hp : s.pc = .idle)
    (hp' : inCall s'.pc = false) : s'.Sound i := by
  have hsi := hs.outside (by rw [hp]; rfl)
  refine ⟨?_, ?_, ?_, ?_, ?_, ?_, ?_⟩
  · simp [hunmet]
  · simp [hunmet]
  · simp [hseen, hsi]
  · simp [hseen, hsi]
  · rw [hcalls, hstage, hp']
    exact fun hc => ⟨(hs.counted hc).1, fun hc => Bool.noConfusion hc⟩
  · simp [hunmet]
  · simp only [AtPc, hunmet]
    cases hq : s'.pc <;> simp [hseen, hsi]

theorem Sound.deliver {i : Nat} (h : s.Sound i) (hp : s.pc = .idle) : s.deliverStep.Sound i := by
  simp only [deliverStep]
  split
  · exact h
  · rename_i cause mmode hcheck
    split_ifs with hc
    · apply sound_of_met h
      · rfl
      · rfl
      · rfl
      · rfl
      · exact hp
      · rfl
    · apply h.hart
      exact deliverInterrupt_msip s.hart (cause_of_checkPendingInterrupts hcheck) hc mmode

/-- A call of `sync_msip` ends with `mip.MSIP` set for every write that it counts. -/
theorem sound_ret {i : Nat} (hbegun : s.unmet i = true → s.stage i ≠ .idle)
    (hlevel : s.unmet i = true → s.wiped i = false → s.level.getLsbD 0 = true)
    (hcomplete : s.seen i = true → s.stage i = .done)
    (hcounted : 1 ≤ s.calls i → s.stage i = .done ∧ s.seen i = true)
    (hheld : s.stage i = .done → s.unmet i = true → s.InSlot ∨ s.msip = true)
    (hshown : s.seen i = true → s.unmet i = true → s.msip = true) : s.ret.Sound i := by
  refine ⟨hbegun, hlevel, fun hc => Bool.noConfusion hc, fun _ => rfl, ?_, ?_, ?_⟩
  · simp only [IpiState.ret]
    split_ifs with hseen
    · exact fun _ => ⟨hcomplete hseen, fun hc => Bool.noConfusion hc⟩
    · exact fun hc => absurd (hcounted hc).2 hseen
  · simp only [IpiState.ret, msip] at hshown ⊢
    split_ifs with hseen
    · exact fun _ hu => hshown hseen hu
    · exact fun hc => absurd (hcounted hc).2 hseen
  · simp only [AtPc, IpiState.ret, InSlot, msip] at hheld ⊢
    exact hheld

theorem Sound.counted_inside {i : Nat} (h : s.Sound i) (hp : inCall s.pc = true) (hc : 1 ≤ s.calls i) :
    s.stage i = .done ∧ s.seen i = true :=
  ⟨(h.counted hc).1, (h.counted hc).2 hp⟩

theorem Sound.swap {i : Nat} {aia : Bool} (h : s.Sound i) (hp : s.pc = .swap aia) : s.nextStep.Sound i := by
  have hplace := h.place
  have hcounted := h.counted_inside (by rw [hp]; rfl)
  simp only [AtPc, InSlot, hp] at hplace
  simp only [nextStep, hp]
  by_cases hslot : s.slot = 0
  · rw [if_neg (by simp [hslot])]
    refine ⟨h.begun, h.level, h.complete, fun hc => Bool.noConfusion hc, fun hc => ⟨(hcounted hc).1, fun _ => (hcounted hc).2⟩, h.shown, ?_⟩
    have hc := h.complete
    simp only [AtPc, InSlot, msip, hslot] at hplace ⊢
    grind
  · rw [if_pos hslot]
    refine ⟨h.begun, h.level, h.complete, fun hc => Bool.noConfusion hc, fun hc => ⟨(hcounted hc).1, fun _ => (hcounted hc).2⟩, h.shown, ?_⟩
    have hc := h.complete
    simp only [AtPc, InSlot, msip] at hplace ⊢
    grind

theorem Sound.merge {i : Nat} {aia : Bool} {cross : Word} (h : s.Sound i) (hp : s.pc = .merge aia cross) :
    s.nextStep.Sound i := by
  have hplace := h.place
  have hcounted := h.counted_inside (by rw [hp]; rfl)
  have hmsip : (s.hart.setMip cross).mip.getLsbD 3 = (s.msip || cross.getLsbD 3) := BitVec.getLsbD_or
  simp only [AtPc, InSlot, hp] at hplace
  simp only [nextStep, hp]
  cases aia with
  | true =>
    rw [if_pos rfl]
    refine sound_ret h.begun h.level h.complete ?_ ?_ ?_
    · exact hcounted
    · simp only [InSlot, msip, hmsip, Bool.or_eq_true] at hplace ⊢
      grind
    · simp only [msip, hmsip, Bool.or_eq_true] at hplace ⊢
      grind
  | false =>
    rw [if_neg (by decide)]
    refine ⟨h.begun, h.level, h.complete, fun hc => Bool.noConfusion hc,
      fun hc => ⟨(hcounted hc).1, fun _ => (hcounted hc).2⟩, ?_, ?_⟩
    · intro hc hu
      simp only [msip, hmsip, Bool.or_eq_true]
      exact .inl (h.shown hc hu)
    · simp only [AtPc, InSlot, msip, hmsip, Bool.or_eq_true] at hplace ⊢
      grind

theorem Sound.sample {i : Nat} {aia : Bool} (h : s.Sound i) (hp : s.pc = .sample aia) : s.nextStep.Sound i := by
  obtain ⟨hheld, hshown, hlate⟩ : (s.stage i = .done → s.unmet i = true → s.InSlot ∨ s.msip = true) ∧
      (s.seen i = true → s.unmet i = true → s.msip = true) ∧
        (aia = true → s.stage i = .done → s.unmet i = true → s.seen i = false → s.InSlot) := by
    have hplace := h.place
    simp only [AtPc, hp] at hplace
    exact hplace
  have hcounted := h.counted_inside (by rw [hp]; rfl)
  simp only [nextStep, hp]
  cases aia with
  | true =>
    rw [if_pos rfl]
    refine ⟨h.begun, h.level, h.complete, fun hc => Bool.noConfusion hc, fun hc => ⟨(hcounted hc).1, fun _ => (hcounted hc).2⟩, h.shown, ?_⟩
    refine ⟨hshown, hlate rfl, fun hraw hu hw => ?_⟩
    -- the level bit of a write that is not wiped is set, so the sample saw none
    have hlevel := h.level hu hw
    have hbit : (s.level &&& 1).getLsbD 0 = false := by
      rw [hraw]
      rfl
    rw [BitVec.getLsbD_and, hlevel] at hbit
    cases hbit
  | false =>
    rw [if_neg (by decide)]
    split_ifs
    · exact ⟨h.begun, h.level, h.complete, fun hc => Bool.noConfusion hc, fun hc => ⟨(hcounted hc).1, fun _ => (hcounted hc).2⟩, h.shown, hheld, hshown⟩
    · exact sound_ret h.begun h.level h.complete hcounted hheld hshown

theorem Sound.look {i : Nat} {raw : BitVec 8} (h : s.Sound i) (hp : s.pc = .look raw) : s.nextStep.Sound i := by
  obtain ⟨hshown, hlate, hsafe⟩ : (s.seen i = true → s.unmet i = true → s.msip = true) ∧
      (s.stage i = .done → s.unmet i = true → s.seen i = false → s.InSlot) ∧
        (raw &&& 1 = 0 → s.unmet i = true → s.wiped i = false → s.seen i = false) := by
    have hplace := h.place
    simp only [AtPc, hp] at hplace
    exact hplace
  have hcounted := h.counted_inside (by rw [hp]; rfl)
  have hheld : s.stage i = .done → s.unmet i = true → s.InSlot ∨ s.msip = true := by
    intro hd hu
    cases hseen : s.seen i with
    | true => exact .inr (hshown hseen hu)
    | false => exact .inl (hlate hd hu hseen)
  simp only [nextStep, hp]
  split_ifs with hc
  · exact ⟨h.begun, h.level, h.complete, fun hc => Bool.noConfusion hc, fun hc => ⟨(hcounted hc).1, fun _ => (hcounted hc).2⟩, h.shown, hshown, hlate, hsafe hc.1⟩
  · exact sound_ret h.begun h.level h.complete hcounted hheld hshown

/-- `mip.MSIP` is dropped for writes that ended after the call had begun, and these are in the slot. -/
theorem Sound.drop {i : Nat} (h : s.Sound i) (hp : s.pc = .drop)
    (hspared : s.unmet i = true → s.seen i = true → s.wiped i = false) : s.nextStep.Sound i := by
  obtain ⟨-, hlate, hsafe⟩ : (s.seen i = true → s.unmet i = true → s.msip = true) ∧
      (s.stage i = .done → s.unmet i = true → s.seen i = false → s.InSlot) ∧
        (s.unmet i = true → s.wiped i = false → s.seen i = false) := by
    have hplace := h.place
    simp only [AtPc, hp] at hplace
    exact hplace
  have hcounted := h.counted_inside (by rw [hp]; rfl)
  have hunseen : s.unmet i = true → s.seen i = false := by
    intro hu
    apply Bool.eq_false_of_not_eq_true
    intro hseen
    have hfalse := hsafe hu (hspared hu hseen)
    rw [hseen] at hfalse
    cases hfalse
  simp only [nextStep, hp]
  refine sound_ret h.begun h.level h.complete ?_ ?_ ?_
  · exact hcounted
  · exact fun hd hu => .inl (hlate hd hu (hunseen hu))
  · intro hseen hu
    rw [hunseen hu] at hseen
    cases hseen

theorem Sound.next {i : Nat} (h : s.Sound i) (hs : s.Spared .next) : s.nextStep.Sound i := by
  cases hp : s.pc with
  | idle =>
    simp only [nextStep, hp]
    exact h
  | swap aia => exact h.swap hp
  | merge aia cross => exact h.merge hp
  | sample aia => exact h.sample hp
  | look raw => exact h.look hp
  | drop => exact h.drop hp (hs hp i)
  | raise =>
    have hcounted := h.counted_inside (by rw [hp]; rfl)
    have hmsip : (s.hart.setMip (bit 3)).mip.getLsbD 3 = true := by
      simp [HartState.setMip, bit]
    simp only [nextStep, hp]
    refine sound_ret h.begun h.level h.complete ?_ ?_ ?_
    · exact hcounted
    · exact fun _ _ => .inr hmsip
    · exact fun _ _ => hmsip
  | delivered =>
    have hplace := h.place
    have hcounted : 1 ≤ s.calls i → s.stage i = .done := fun hc => (h.counted hc).1
    simp only [AtPc, hp] at hplace
    simp only [nextStep, hp]
    refine ⟨h.begun, ?_, h.complete, fun _ => h.outside (by rw [hp]; rfl),
      fun hc => ⟨hcounted hc, fun hc => Bool.noConfusion hc⟩, h.shown, hplace⟩
    intro hu hw
    dsimp only at hu hw
    rw [hu, Bool.or_true] at hw
    cases hw
  | written =>
    have hplace := h.place
    have hcounted : 1 ≤ s.calls i → s.stage i = .done := fun hc => (h.counted hc).1
    simp only [AtPc, hp] at hplace
    simp only [nextStep, hp]
    refine ⟨h.begun, h.level, h.complete, fun _ => h.outside (by rw [hp]; rfl),
      fun hc => ⟨hcounted hc, fun hc => Bool.noConfusion hc⟩, ?_, ?_⟩
    · intro hc hu
      dsimp only at hc hu
      rw [(hplace hu).1] at hc
      cases hc
    · exact fun hd hu => .inl ((hplace hu).2 hd)

theorem Sound.step {op : IpiOp} (h : ∀ i, s.Sound i) (hs : s.Spared op) (i : Nat) : (s.step op).Sound i := by
  cases op with
  | send j => exact (h i).send j
  | next => exact (h i).next hs
  | peer eipM eipS mip =>
    apply (h i).hart
    exact msip_keepMsip s _
  | run post =>
    simp only [IpiState.step]
    split_ifs
    · exact (h i).hart (msip_keepMsip s post)
    · exact h i
  | sync =>
    simp only [IpiState.step]
    by_cases hp : s.pc = .idle
    · rw [if_pos hp]
      exact (h i).sync hp
    · rw [if_neg hp]
      exact h i
  | deliver =>
    simp only [IpiState.step]
    split_ifs with hp
    · exact (h i).deliver hp
    · exact h i
  | write =>
    simp only [IpiState.step]
    split_ifs with hp
    · apply sound_of_met (h i)
      · rfl
      · rfl
      · rfl
      · rfl
      · exact hp
      · rfl
    · exact h i

/-- In a run that is spared no IPI is lost. -/
theorem ipis_kept {s : IpiState} (hs : s.Fresh) (run : List IpiOp) (hg : Run.Along step Spared s run) :
    Run.Always step Kept s run :=
  Run.always_of_invariant (I := fun s => ∀ i, s.Sound i) (fun _ _ h hg => Sound.step h hg)
    (fun _ h => kept_of_sound h) (sound_of_fresh hs) hg

/-- A hart in machine mode with software interrupts enabled and a delivering IMSIC; nobody writes. -/
def quiet : IpiState where
  hart := { HartState.zeroed with
    mie := bit 3, mstatus := mstatusMie
    imsicM := { HartState.zeroed.imsicM with present := true, eidelivery := 1 } }
  level := 0
  slot := 0
  pc := .idle
  stage := fun _ => .idle
  unmet := fun _ => false
  wiped := fun _ => false
  seen := fun _ => false
  calls := fun _ => 0

theorem fresh_quiet : quiet.Fresh := ⟨rfl, fun _ => rfl, fun _ => rfl, fun _ => rfl, fun _ => rfl, fun _ => rfl⟩

/-- Two calls, of which the first merges the edge and the second finds the level bit. -/
theorem ipi_kept_two_calls :
    Run.Always step Kept quiet [.send 0, .send 0, .sync, .next, .next, .sync, .next, .next] := by
  apply ipis_kept fresh_quiet
  refine ⟨trivial, trivial, trivial, fun hp => ?_, fun hp => ?_, trivial, fun hp => ?_, fun hp => ?_, trivial⟩
  · exact absurd hp (by decide +kernel)
  · exact absurd hp (by decide +kernel)
  · exact absurd hp (by decide +kernel)
  · exact absurd hp (by decide +kernel)

/-- The level bit of the second write is cleared with that of the first, which has just been taken:
the edge sets `mip.MSIP`, and the next call drops it. -/
theorem second_ipi_lost : ¬ ∀ s : IpiState, s.Fresh → ∀ run, Run.Always step Kept s run := by
  intro h
  have hlast := (h quiet fresh_quiet [.send 0, .send 0, .sync, .next, .next, .deliver, .send 1, .next, .send 1,
    .sync, .next, .next, .sync, .next, .next, .next]).last
  have hmsip := hlast 1 (by decide +kernel) (by decide +kernel) (by decide +kernel)
  exact absurd hmsip (by decide +kernel)

end IpiState

end Pyremu
