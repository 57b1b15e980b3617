import Pyremu.Trap

/-!
# Trap entry and return

A delivery stacks the interrupt enable and the mode of the interrupted context
in the fields of the level it enters, and the return instruction of that level
takes them off again.
-/

namespace Pyremu

/-- The return instruction of the level that a trap entered. -/
def returnFrom (toS : Bool) (s : HartState) (instr : BitVec 32) : HartState :=
  if toS then (privSret s instr).1 else (privMret s instr).1

/-- `SIE` or `MIE`. -/
def levelIe (toS : Bool) (s : HartState) : Bool := s.mstatus.getLsbD (if toS then 1 else 3)

/-- What a level records of a trap. -/
def levelRecord (ofS : Bool) (s : HartState) : Word × Word × Word :=
  if ofS then (s.sepc, s.scause, s.stval) else (s.mepc, s.mcause, s.mtval)

section Entry

variable {s : HartState} {code tval : Word}

theorem stackIe_pie (m : Word) {a b : Nat} (ha : a < 64) (hb : b < 64) (hab : b ≠ a) :
    (stackIe m (bit a) (bit b)).getLsbD b = m.getLsbD a := by
  rw [stackIe, getLsbD_and_not_bit _ ha hab]
  by_cases h : m &&& bit a ≠ 0
  · rw [if_pos h, BitVec.getLsbD_or, getLsbD_bit b b hb]
    have hset : m.getLsbD a = true := Bool.of_not_eq_false fun hf => h ((and_bit_eq_zero m ha).mpr hf)
    simp [hset]
  · rw [if_neg h, BitVec.getLsbD_and, BitVec.getLsbD_not, getLsbD_bit b b hb]
    have hclear : m.getLsbD a = false := (and_bit_eq_zero m ha).mp (not_not.mp h)
    simp [hclear]

/-- Clearing a software interrupt touches `mip` and the interrupt files. -/
theorem clearSoftOnTrap_frame (s : HartState) (cause : Word) : ∃ mip imsicM imsicS,
    clearSoftOnTrap s cause = { s with mip := mip, imsicM := imsicM, imsicS := imsicS } := by
  simp only [clearSoftOnTrap, imsicClearIpiOnTrap, HartState.clearMip]
  repeat' split
  all_goals exact ⟨_, _, _, rfl⟩

/-- `mstatus` in the S-mode handler. -/
def smodeStatus (s : HartState) : Word :=
  (stackIe s.mstatus mstatusSie mstatusSpie &&& ~~~mstatusSpp) ||| (modeToSpp s.mode <<< 8)

/-- `mstatus` in the M-mode handler. -/
def mmodeStatus (s : HartState) : Word :=
  ((stackIe s.mstatus mstatusMie mstatusMpie &&& ~~~mstatusMpp) ||| (modeToMpp s.mode <<< 11)) &&&
    ~~~mstatusMprv

/-- The state in which a handler in S mode starts. -/
theorem deliverTrapSmode_entry (s : HartState) (code tval : Word) : ∃ mip imsicM imsicS traps,
    deliverTrapSmode s code tval =
      { s with
        mip := mip, imsicM := imsicM, imsicS := imsicS, traps := traps
        reservationValid := false, reservationAddr := 0, waiting := false
        sepc := s.pc, scause := code, stval := tval, mstatus := smodeStatus s, mode := .S
        pc := trapTarget s.stvec code } := by
  simp only [deliverTrapSmode]
  split
  · exact ⟨_, _, _, _, rfl⟩
  · split
    · obtain ⟨_, _, _, h⟩ := clearSoftOnTrap_frame _ _
      rw [h]
      exact ⟨_, _, _, _, rfl⟩
    · exact ⟨_, _, _, _, rfl⟩

/-- The state in which a handler in M mode starts. -/
theorem deliverTrapMmode_entry (s : HartState) (code tval : Word) : ∃ mip imsicM imsicS traps,
    deliverTrapMmode s code tval =
      { s with
        mip := mip, imsicM := imsicM, imsicS := imsicS, traps := traps
        reservationValid := false, reservationAddr := 0, waiting := false
        mepc := s.pc, mcause := code, mtval := tval, mstatus := mmodeStatus s, mode := .M
        pc := trapTarget s.mtvec code } := by
  simp only [deliverTrapMmode]
  split
  · obtain ⟨_, _, _, h⟩ := clearSoftOnTrap_frame s 3
    rw [h]
    exact ⟨_, _, _, _, rfl⟩
  · exact ⟨_, _, _, _, rfl⟩

/-! ## The stacked fields -/

theorem smodeStatus_spie (s : HartState) : (smodeStatus s).getLsbD 5 = s.mstatus.getLsbD 1 := by
  rw [smodeStatus, BitVec.getLsbD_or, modeToSpp_getLsbD _ (by decide), Bool.or_false, mstatusSpp,
    getLsbD_and_not_bit _ (by decide) (by decide)]
  exact stackIe_pie _ (by decide) (by decide) (by decide)

theorem smodeStatus_spp (s : HartState) : (smodeStatus s).getLsbD 8 = decide (s.mode = .S) := by
  rw [smodeStatus, BitVec.getLsbD_or, BitVec.getLsbD_and, BitVec.getLsbD_not, mstatusSpp,
    getLsbD_bit 8 8 (by decide)]
  cases s.mode <;> simp [modeToSpp]

theorem mmodeStatus_mpie (s : HartState) : (mmodeStatus s).getLsbD 7 = s.mstatus.getLsbD 3 := by
  have hmpp : mstatusMpp = bit 11 ||| bit 12 := by decide
  rw [mmodeStatus, mstatusMprv, getLsbD_and_not_bit _ (by decide) (by decide), BitVec.getLsbD_or,
    modeToMpp_getLsbD _ (by decide) (by decide), Bool.or_false, hmpp, BitVec.not_or, ← BitVec.and_assoc,
    getLsbD_and_not_bit _ (by decide) (by decide), getLsbD_and_not_bit _ (by decide) (by decide)]
  exact stackIe_pie _ (by decide) (by decide) (by decide)

theorem mmodeStatus_mpp (s : HartState) : mpp (mmodeStatus s) = (modeToMpp s.mode).setWidth 2 := by
  have hmask : ∀ i < 2, mstatusMpp.getLsbD (11 + i) = true ∧ mstatusMprv.getLsbD (11 + i) = false := by decide
  apply BitVec.eq_of_getLsbD_eq
  intro i hi
  obtain ⟨hp, hv⟩ := hmask i hi
  rw [mpp, BitVec.getLsbD_extractLsb', mmodeStatus, BitVec.getLsbD_and, BitVec.getLsbD_or, BitVec.getLsbD_and,
    BitVec.getLsbD_not, BitVec.getLsbD_not, hp, hv, BitVec.getLsbD_shiftLeft, BitVec.getLsbD_setWidth]
  simp [hi, show 11 + i < 64 by omega, show 11 + i - 11 = i by omega]

/-! ## The returns -/

/-- SRET from a handler in S mode. -/
theorem sret_returns (h : HartState) (instr : BitVec 32) (hm : h.mode = .S) :
    (privSret h instr).1.pc = h.sepc ∧
      (privSret h instr).1.mode = (if h.mstatus.getLsbD 8 then Mode.S else .U) ∧
      (privSret h instr).1.mstatus.getLsbD 1 = h.mstatus.getLsbD 5 ∧ (privSret h instr).1.gprs = h.gprs := by
  have hrank : ¬ h.mode.rank < Mode.S.rank := by
    rw [hm]
    decide
  rw [privSret, if_neg hrank]
  refine ⟨rfl, rfl, ?_, rfl⟩
  simp only
  rw [getLsbD_and_not_bit _ (by decide) (by decide), getLsbD_or_bit _ (by decide) (by decide)]
  cases h.mstatus.getLsbD 5 with
  | true =>
    rw [if_pos rfl, BitVec.getLsbD_or, getLsbD_bit 1 1 (by decide)]
    simp
  | false =>
    rw [if_neg Bool.false_ne_true, BitVec.getLsbD_and, BitVec.getLsbD_not, getLsbD_bit 1 1 (by decide)]
    simp

/-- MRET from a handler in M mode. -/
theorem mret_returns (h : HartState) (instr : BitVec 32) (hm : h.mode = .M) :
    (privMret h instr).1.pc = h.mepc ∧
      (privMret h instr).1.mode =
        (if mpp h.mstatus = 0 then Mode.U else if mpp h.mstatus = 1 then .S else .M) ∧
      (privMret h instr).1.mstatus.getLsbD 3 = h.mstatus.getLsbD 7 ∧ (privMret h instr).1.gprs = h.gprs := by
  have hmpp : mstatusMpp = bit 11 ||| bit 12 := by decide
  have hguard : ¬ h.mode ≠ .M := not_not.mpr hm
  rw [privMret, if_neg hguard]
  refine ⟨rfl, rfl, ?_, rfl⟩
  simp only
  rw [hmpp, BitVec.not_or, ← BitVec.and_assoc, getLsbD_and_not_bit _ (by decide) (by decide),
    getLsbD_and_not_bit _ (by decide) (by decide), getLsbD_or_bit _ (by decide) (by decide)]
  cases h.mstatus.getLsbD 7 with
  | true =>
    rw [if_pos rfl, BitVec.getLsbD_or, getLsbD_bit 3 3 (by decide)]
    simp
  | false =>
    rw [if_neg Bool.false_ne_true, BitVec.getLsbD_and, BitVec.getLsbD_not, getLsbD_bit 3 3 (by decide)]
    simp

end Entry

/-- A trap and the return from its handler: where the return leads, and what the entry kept. -/
structure TrapRoundTrip (s entered back : HartState) (toS : Bool) : Prop where
  pc : back.pc = s.pc
  mode : back.mode = s.mode
  enable : levelIe toS back = levelIe toS s
  privilege : s.mode.rank ≤ entered.mode.rank
  origin : toS = true → s.mode = .U ∨ s.mode = .S
  otherLevel : levelRecord (!toS) entered = levelRecord (!toS) s
  registers : entered.gprs = s.gprs ∧ back.gprs = s.gprs

theorem smode_round_trip (s : HartState) (code tval : Word) (instr : BitVec 32)
    (hm : s.mode = .U ∨ s.mode = .S) :
    TrapRoundTrip s (deliverTrapSmode s code tval) (privSret (deliverTrapSmode s code tval) instr).1 true := by
  obtain ⟨_, _, _, _, hentry⟩ := deliverTrapSmode_entry s code tval
  have hret := sret_returns (deliverTrapSmode s code tval) instr (by rw [hentry])
  rw [hentry] at hret ⊢
  obtain ⟨hpc, hmode, hie, hregs⟩ := hret
  refine ⟨hpc, hmode.trans ?_, hie.trans (smodeStatus_spie s), ?_, fun _ => hm, rfl, ⟨rfl, hregs⟩⟩
  · simp only [smodeStatus_spp]
    rcases hm with h | h <;> rw [h] <;> rfl
  · show s.mode.rank ≤ Mode.S.rank
    rcases hm with h | h <;> rw [h] <;> decide

theorem mmode_round_trip (s : HartState) (code tval : Word) (instr : BitVec 32)
    (hm : s.mode = .U ∨ s.mode = .S ∨ s.mode = .M) :
    TrapRoundTrip s (deliverTrapMmode s code tval) (privMret (deliverTrapMmode s code tval) instr).1 false := by
  obtain ⟨_, _, _, _, hentry⟩ := deliverTrapMmode_entry s code tval
  have hret := mret_returns (deliverTrapMmode s code tval) instr (by rw [hentry])
  rw [hentry] at hret ⊢
  obtain ⟨hpc, hmode, hie, hregs⟩ := hret
  refine ⟨hpc, hmode.trans ?_, hie.trans (mmodeStatus_mpie s), ?_, fun h => Bool.noConfusion h, rfl, ⟨rfl, hregs⟩⟩
  · simp only [mmodeStatus_mpp]
    rcases hm with h | h | h <;> rw [h] <;> rfl
  · show s.mode.rank ≤ Mode.M.rank
    rcases hm with h | h | h <;> rw [h] <;> decide

/-- **Trap entry and return are inverse**, for every cause and every delegation. -/
theorem trap_return_inverse (s : HartState) (code tval : Word) (instr : BitVec 32)
    (hm : s.mode = .U ∨ s.mode = .S ∨ s.mode = .M) :
    TrapRoundTrip s (deliverTrap s code tval)
      (returnFrom (delegated s code) (deliverTrap s code tval) instr) (delegated s code) := by
  rw [deliverTrap]
  cases hd : delegated s code with
  | true =>
    have hne : s.mode ≠ .M := by
      rw [delegated, Bool.and_eq_true, decide_eq_true_iff] at hd
      exact hd.1
    have hus : s.mode = .U ∨ s.mode = .S := by
      rcases hm with h | h | h
      · exact .inl h
      · exact .inr h
      · exact absurd h hne
    exact smode_round_trip s code tval instr hus
  | false => exact mmode_round_trip s code tval instr hm

/-- A user program under a kernel that took over its page faults. -/
def userHart : HartState :=
  { HartState.zeroed with mode := .U, pc := 0x10234, medeleg := bit 13, mstatus := bit 1, mepc := 0x80000000 }

/-- A load page fault of the program returns to it. -/
theorem page_fault_returns :
    TrapRoundTrip userHart (deliverTrap userHart 13 0x5000)
      (returnFrom true (deliverTrap userHart 13 0x5000) 0x10200073) true := by
  have hd : delegated userHart 13 = true := by decide
  have h := trap_return_inverse userHart 13 0x5000 0x10200073 (.inl rfl)
  rw [hd] at h
  exact h

end Pyremu
