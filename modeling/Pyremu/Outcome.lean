import Pyremu.Walk

/-!
# How one instruction can end

After the dispatch and `advance_pc` a 32-bit instruction has moved on in
sequence, transferred control, delivered a trap, or asked the engine to stop.
The one exception is an atomic memory operation that passes all its checks and
then finds a reserved operation or no RAM behind its address.
-/

namespace Pyremu

/-! ## Traps -/

/-- One more trap was delivered, for the instruction at `s.pc`, and the registers
of its target level describe it. -/
def Trapped (s s' : HartState) : Prop :=
  ∃ t, s'.traps = s.traps ++ [t] ∧ t.epc = s.pc ∧
    ((t.level = .M ∧ s'.mode = .M ∧ s'.mepc = s.pc ∧ s'.mcause = t.code) ∨
      (t.level = .S ∧ s'.mode = .S ∧ s'.sepc = s.pc ∧ s'.scause = t.code))

theorem deliverTrapSmode_trapped (s : HartState) (code tval : Word) (h : isInterrupt code = false) :
    Trapped s (deliverTrapSmode s code tval) := by
  simp only [deliverTrapSmode, h, Bool.not_false, ↓reduceIte]
  exact ⟨_, rfl, rfl, .inr ⟨rfl, rfl, rfl, rfl⟩⟩

theorem deliverTrapMmode_trapped (s : HartState) (code tval : Word) (h : isInterrupt code = false) :
    Trapped s (deliverTrapMmode s code tval) := by
  simp only [deliverTrapMmode, h, Bool.false_eq_true, false_and, ↓reduceIte]
  exact ⟨_, rfl, rfl, .inl ⟨rfl, rfl, rfl, rfl⟩⟩

theorem deliverTrap_trapped (s : HartState) (code tval : Word) (h : isInterrupt code = false) :
    Trapped s (deliverTrap s code tval) := by
  simp only [deliverTrap]
  split
  · exact deliverTrapSmode_trapped s code tval h
  · exact deliverTrapMmode_trapped s code tval h

theorem illegal_trapped (s : HartState) (tval : Word) :
    Trapped s (deliverIllegalInstruction s tval) :=
  deliverTrap_trapped s _ tval (by decide)

/-- Steps before the trap that keep the control state do not matter. -/
theorem SameControl.trapped {s s' s'' : HartState} (h : SameControl s s') (ht : Trapped s' s'') :
    Trapped s s'' := by
  obtain ⟨t, h1, h2, h3⟩ := ht
  obtain ⟨hpc, _, htr⟩ := h
  rw [htr] at h1
  rw [hpc] at h2 h3
  exact ⟨t, h1, h2, h3⟩

/-- A synchronous trap was delivered after quiet work. -/
def Faulted (s s' : HartState) (code : Word) : Prop :=
  ∃ s₁ tval, QuietFrame s s₁ ∧ isInterrupt code = false ∧ s' = deliverTrap s₁ code tval

theorem Faulted.trapped {s s' : HartState} {code : Word} (h : Faulted s s' code) : Trapped s s' := by
  obtain ⟨s₁, tval, hq, hi, rfl⟩ := h
  exact hq.control.trapped (deliverTrap_trapped s₁ code tval hi)

theorem QuietFrame.faulted {s s' s'' : HartState} {code : Word} (h : QuietFrame s s')
    (hf : Faulted s' s'' code) : Faulted s s'' code := by
  obtain ⟨s₁, tval, hq, hi, rfl⟩ := hf
  exact ⟨s₁, tval, h.trans hq, hi, rfl⟩

theorem deliverTrap_faulted (s : HartState) (code tval : Word) (h : isInterrupt code = false) :
    Faulted s (deliverTrap s code tval) code :=
  ⟨s, tval, .refl s, h, rfl⟩

/-! ## Translation of an access -/

/-- A translation went before: TLBs, statistics and A/D bits may differ. -/
structure Translated (w w' : World) : Prop where
  hart : TlbFrame w.hart w'.hart
  mem : RamFrame w.mem w'.mem
  rest : w' = { w with hart := w'.hart, mem := w'.mem }

theorem World.translate_frame (cfg : Features) (w : World) (va : Word) (rwx : Rwx) :
    Translated w (w.translate cfg va rwx).1 :=
  ⟨.translateVa cfg w.hart w.mem va rwx w.pmp, .translateVa cfg w.hart w.mem va rwx w.pmp, rfl⟩

theorem World.translate_result (cfg : Features) (w : World) (va : Word) (rwx : Rwx) :
    TranslateOk va rwx (w.translate cfg va rwx).2 :=
  translateVa_result cfg w.hart w.mem va rwx w.pmp

/-- What a successful translation and PMP check of an access established. -/
theorem translateAccess_some {cfg : Features} {w w' : World} {va : Word} {rwx : Rwx} {n : Nat}
    {ac ft pt pa : Word} (h : translateAccess cfg w va rwx n ac ft pt = (w', some pa)) :
    Translated w w' ∧ pageOffset pa = pageOffset va ∧
      pmpOk w'.hart pa n (hasWrite rwx) false w'.pmp = true := by
  have hf := w.translate_frame cfg va rwx
  have hr := w.translate_result cfg va rwx
  simp only [translateAccess] at h
  split at h
  · cases h
  · rename_i heq
    rw [heq] at hf hr
    split at h
    · rename_i hp
      cases h
      exact ⟨hf, hr, hp⟩
    · cases h

/-- The cause reported for an access that translation or PMP rejects. -/
def accessFaultCode (cfg : Features) (w : World) (va : Word) (rwx : Rwx) (n : Nat) (ac : Word) :
    Option Word :=
  match translateVa cfg w.hart w.mem va rwx w.pmp with
  | (_, _, .error (.pageFault cause)) => some cause
  | (_, _, .error .accessFault) => some ac
  | (s, _, .ok t) => if pmpOk s t.pa n (hasWrite rwx) false w.pmp then none else some ac

/-- After an access that goes no further, a trap has been delivered. -/
theorem translateAccess_none {cfg : Features} {w w' : World} {va : Word} {rwx : Rwx} {n : Nat}
    {ac ft pt : Word} (hac : isInterrupt ac = false)
    (h : translateAccess cfg w va rwx n ac ft pt = (w', none)) :
    ∃ code, accessFaultCode cfg w va rwx n ac = some code ∧ Faulted w.hart w'.hart code := by
  have hf := (w.translate_frame cfg va rwx).hart
  have hr := w.translate_result cfg va rwx
  simp only [translateAccess, World.translate] at h
  simp only [accessFaultCode]
  simp only [World.translate] at hf hr
  generalize translateVa cfg w.hart w.mem va rwx w.pmp = r at h hf hr
  obtain ⟨s, c, res⟩ := r
  have hq : QuietFrame w.hart s := .of_tlb hf
  cases res with
  | error f =>
    cases h
    cases f with
    | pageFault cause =>
      simp only [TranslateOk] at hr
      subst hr
      refine ⟨_, rfl, hq.faulted (deliverTrap_faulted s _ ft ?_)⟩
      cases rwx <;> decide
    | accessFault => exact ⟨_, rfl, hq.faulted (deliverTrap_faulted s _ ft hac)⟩
  | ok t =>
    simp only at h ⊢
    split at h
    · cases h
    · rename_i hp
      cases h
      rw [if_neg hp]
      exact ⟨_, rfl, hq.faulted (deliverTrap_faulted s _ pt hac)⟩

theorem accessFaultCode_of_some {cfg : Features} {w w' : World} {va : Word} {rwx : Rwx} {n : Nat}
    {ac ft pt pa : Word} (h : translateAccess cfg w va rwx n ac ft pt = (w', some pa)) :
    accessFaultCode cfg w va rwx n ac = none := by
  simp only [translateAccess, World.translate] at h
  simp only [accessFaultCode]
  generalize translateVa cfg w.hart w.mem va rwx w.pmp = r at h
  obtain ⟨s, c, res⟩ := r
  cases res with
  | error f => cases h
  | ok t =>
    simp only at h ⊢
    split at h
    · rename_i hp
      rw [if_pos hp]
    · cases h

/-! ## Outcomes -/

/-- Where a jump, a taken branch or a permitted return goes. -/
def transferTarget (s : HartState) (f : DecodedFields) : Option Word :=
  match f.opcode with
  | 0b1101111 => some (s.pc + f.immJ)
  | 0b1100111 => some ((readGpr s f.rs1 + f.imm12Se) &&& ~~~1)
  | 0b1100011 =>
    if branchTaken f.func3 (readGpr s f.rs1) (readGpr s f.rs2) = some true then some (s.pc + f.immB)
    else none
  | 0b1110011 =>
    if f.func3 ≠ 0 then none
    else if f.func12 = 0x302 ∧ s.mode = .M then some s.mepc
    else if f.func12 = 0x102 ∧ Mode.S.rank ≤ s.mode.rank then some s.sepc
    else none
  | _ => none

/-- The ways in which a dispatched instruction may end, seen after `advance_pc`. -/
inductive StepOutcome (w : World) (f : DecodedFields) (r : World × Word) : Prop
  | sequential (h : r.2 = 4 ∨ r.2 = 8)
      (hpc : (advancePc r.1.hart r.2 w.hart.pc).pc = w.hart.pc + r.2)
  | transfer (h : r.2 = 0)
      (hpc : transferTarget w.hart f = some (advancePc r.1.hart r.2 w.hart.pc).pc)
  | trap (h : r.2 = 0) (ht : Trapped w.hart (advancePc r.1.hart r.2 w.hart.pc))
  | sentinel (h : r.2 = exitSentinel)
  | stopped (info : StopInfo) (h : r.1.module.requests = w.module.requests ++ [info])

namespace StepOutcome

variable {w w' : World} {f : DecodedFields}

theorem of_four (h : SameControl w.hart w'.hart) : StepOutcome w f (w', 4) :=
  .sequential (.inl rfl) (by simp [advancePc, h.1])

theorem of_trapped (h : Trapped w.hart w'.hart) : StepOutcome w f (w', 0) :=
  .trap rfl (by simpa [advancePc] using h)

theorem of_transfer (h : transferTarget w.hart f = some w'.hart.pc) : StepOutcome w f (w', 0) :=
  .transfer rfl (by simpa [advancePc] using h)

theorem of_illegal (w : World) (f : DecodedFields) (instr : BitVec 32) :
    StepOutcome w f (w.illegal instr, 0) :=
  of_trapped (illegal_trapped _ _)

theorem of_sentinel : StepOutcome w f (w', exitSentinel) := .sentinel rfl

end StepOutcome

/-! ### Instructions without memory access -/

theorem finishAlu_outcome (w : World) (f : DecodedFields) (rd : BitVec 5) (instr : BitVec 32)
    (v : Option Word) : StepOutcome w f (w.onHart (finishAlu w.hart rd instr v)) := by
  cases v with
  | none => exact .of_illegal w f instr
  | some v => exact .of_four (.writeGpr _ _ _)

theorem finishFp_outcome (w : World) (f : DecodedFields) (rd : BitVec 5) (instr : BitVec 32)
    (out : Option FpOut) : StepOutcome w f (w.onHart (finishFp w.hart rd instr out)) := by
  cases out with
  | none => exact .of_illegal w f instr
  | some o =>
    refine .of_four (@SameControl.trans _ (if o.toGpr then writeGpr w.hart rd o.value
      else writeFpr w.hart rd o.value) _ ?_ ⟨rfl, rfl, rfl⟩)
    split
    · exact .writeGpr _ _ _
    · exact ⟨rfl, rfl, rfl⟩

theorem handleFpOp_outcome (sf : SoftFloat) (w : World) (f : DecodedFields) (instr : BitVec 32) :
    StepOutcome w f (w.onHart (handleFpOp sf w.hart f instr)) := by
  simp only [handleFpOp]
  split
  · exact .of_illegal w f instr
  · exact finishFp_outcome w f _ instr _

theorem handleFpFma_outcome (sf : SoftFloat) (w : World) (f : DecodedFields) (instr : BitVec 32) :
    StepOutcome w f (w.onHart (handleFpFma sf w.hart f instr)) := by
  simp only [handleFpFma]
  split
  · exact .of_illegal w f instr
  · exact finishFp_outcome w f _ instr _

theorem handleBr_outcome (w : World) (f : DecodedFields) (instr : BitVec 32)
    (hop : f.opcode = 0b1100011) : StepOutcome w f (w.onHart (handleBr w.hart f instr)) := by
  simp only [handleBr]
  split
  · exact .of_illegal w f instr
  · rename_i htaken
    exact .of_transfer (by simp [transferTarget, hop, htaken]; rfl)
  · exact .of_four (.refl _)

theorem handleFence_outcome (w : World) (f : DecodedFields) (instr : BitVec 32) :
    StepOutcome w f (w.onHart (handleFence w.hart f instr)) := by
  simp only [handleFence]
  split
  · exact .of_illegal w f instr
  · exact .of_four (.refl _)

/-! ### Loads and stores -/

section LoadStore

variable {cfg : Features} {w w' : World} {f : DecodedFields} {va pa v : Word} {n : Nat}
  {instr : BitVec 32}

theorem ldAccessFault_not_interrupt : isInterrupt Exc.ldAccessFault = false := by
  decide

theorem stAccessFault_not_interrupt : isInterrupt Exc.stAccessFault = false := by
  decide

/-- A load from RAM fails only by a trap on its second page. -/
theorem loadRam_none (h : loadRam cfg w va pa n = (w', none)) :
    ∃ code, Faulted w.hart w'.hart code := by
  simp only [loadRam] at h
  split at h
  · simp only [readRamCrossPage] at h
    split at h <;> rename_i heq
    · cases h
      obtain ⟨code, _, hf⟩ := translateAccess_none ldAccessFault_not_interrupt heq
      exact ⟨code, hf⟩
    · cases h
  · split at h <;> cases h

theorem loadRam_some (h : loadRam cfg w va pa n = (w', some v)) : QuietFrame w.hart w'.hart := by
  simp only [loadRam] at h
  split at h
  · simp only [readRamCrossPage] at h
    split at h <;> rename_i heq
    · cases h
    · cases h
      exact .of_tlb (translateAccess_some heq).1.hart
  · split at h <;> cases h <;> exact .refl _

theorem storeRam_false (h : storeRam cfg w va pa v n = (w', false)) :
    ∃ code, Faulted w.hart w'.hart code := by
  simp only [storeRam] at h
  split at h
  · simp only [writeRamCrossPage] at h
    split at h <;> rename_i heq
    · cases h
      obtain ⟨code, _, hf⟩ := translateAccess_none stAccessFault_not_interrupt heq
      exact ⟨code, hf⟩
    · cases h
  · split at h <;> cases h

theorem storeRam_true (h : storeRam cfg w va pa v n = (w', true)) : QuietFrame w.hart w'.hart := by
  simp only [storeRam] at h
  split at h
  · simp only [writeRamCrossPage] at h
    split at h <;> rename_i heq
    · cases h
    · cases h
      have hf := (translateAccess_some heq).1.hart
      exact .of_tlb hf
  · split at h <;> cases h <;> exact .refl _

/-- A memory access either goes on (or leaves the round) or delivers one trap. -/
def AccessOutcome (s : HartState) (r : World × Word) : Prop :=
  ((r.2 = 4 ∨ r.2 = exitSentinel) ∧ SameControl s r.1.hart) ∨
    (r.2 = 0 ∧ ∃ code, Faulted s r.1.hart code)

theorem AccessOutcome.step (h : AccessOutcome w.hart (w', v)) : StepOutcome w f (w', v) := by
  obtain ⟨hv, hc⟩ | ⟨hv, code, hf⟩ := h
  · dsimp only at hv
    obtain rfl | rfl := hv
    · exact .of_four hc
    · exact .of_sentinel
  · dsimp only at hv
    subst hv
    exact .of_trapped hf.trapped

theorem loadTail_outcome {done : World → Word → World} (hq : QuietFrame w.hart w'.hart)
    (hdone : ∀ w v, SameControl w.hart (done w v).hart) :
    AccessOutcome w.hart (loadTail cfg w' va pa n instr done) := by
  simp only [loadTail]
  split
  · exact .inl ⟨.inr rfl, hq.control⟩
  · split
    · exact .inr ⟨rfl, _, hq.faulted (deliverTrap_faulted _ _ _ ldAccessFault_not_interrupt)⟩
    · split <;> rename_i heq
      · obtain ⟨code, hf⟩ := loadRam_none heq
        exact .inr ⟨rfl, code, hq.faulted hf⟩
      · exact .inl ⟨.inl rfl, (hq.trans (loadRam_some heq)).control.trans (hdone _ _)⟩

theorem storeTail_outcome (hq : QuietFrame w.hart w'.hart) :
    AccessOutcome w.hart (storeTail cfg w' va pa v n instr) := by
  simp only [storeTail]
  split
  · exact .inl ⟨.inr rfl, hq.control⟩
  · split
    · exact .inr ⟨rfl, _, hq.faulted (deliverTrap_faulted _ _ _ stAccessFault_not_interrupt)⟩
    · split <;> rename_i heq
      · obtain ⟨code, hf⟩ := storeRam_false heq
        exact .inr ⟨rfl, code, hq.faulted hf⟩
      · exact .inl ⟨.inl rfl, (hq.trans (storeRam_true heq)).control⟩

theorem writeFprLoad_control (w : World) (rd : BitVec 5) (n : Nat) (v : Word) :
    SameControl w.hart (w.writeFprLoad rd n v).hart := ⟨rfl, rfl, rfl⟩

theorem illegal_access_outcome (w : World) (instr : BitVec 32) :
    AccessOutcome w.hart (w.illegal instr, 0) :=
  .inr ⟨rfl, _, deliverTrap_faulted _ _ _ (by decide)⟩

theorem handleLoad_outcome (cfg : Features) (w : World) (f : DecodedFields) (instr : BitVec 32) :
    AccessOutcome w.hart (handleLoad cfg w f instr) := by
  simp only [handleLoad]
  split
  · exact illegal_access_outcome w instr
  · split <;> rename_i heq
    · obtain ⟨code, _, hf⟩ := translateAccess_none ldAccessFault_not_interrupt heq
      exact .inr ⟨rfl, code, hf⟩
    · rename_i w1 pa
      have hq := QuietFrame.of_tlb (translateAccess_some heq).1.hart
      have hd := hq.trans (.of_interrupt (DeviceFrame.deviceLoad cfg w1 pa ‹Nat›).hart)
      split <;> rename_i hdev <;> rw [hdev] at hd
      · exact .inl ⟨.inl rfl, hd.control.trans (.writeGpr _ _ _)⟩
      · exact loadTail_outcome hd fun w v => .writeGpr _ _ _

theorem handleStore_outcome (cfg : Features) (w : World) (f : DecodedFields) (instr : BitVec 32) :
    AccessOutcome w.hart (handleStore cfg w f instr) := by
  simp only [handleStore]
  split
  · exact illegal_access_outcome w instr
  · split <;> rename_i heq
    · obtain ⟨code, _, hf⟩ := translateAccess_none stAccessFault_not_interrupt heq
      exact .inr ⟨rfl, code, hf⟩
    · rename_i w1 pa
      have hq := QuietFrame.of_tlb (translateAccess_some heq).1.hart
      have hd := hq.trans
        (.of_interrupt (DeviceFrame.deviceStore cfg w1 pa (readGpr w1.hart f.rs2) ‹Nat›).hart)
      split <;> rename_i hdev <;> rw [hdev] at hd
      · exact .inl ⟨.inl rfl, hd.control⟩
      · exact storeTail_outcome hd

theorem handleFpLoad_outcome (cfg : Features) (w : World) (f : DecodedFields) (instr : BitVec 32) :
    AccessOutcome w.hart (handleFpLoad cfg w f instr) := by
  simp only [handleFpLoad]
  split
  · exact illegal_access_outcome w instr
  · split
    · exact illegal_access_outcome w instr
    · split <;> rename_i heq
      · obtain ⟨code, _, hf⟩ := translateAccess_none ldAccessFault_not_interrupt heq
        exact .inr ⟨rfl, code, hf⟩
      · rename_i w1 pa
        have hq := QuietFrame.of_tlb (translateAccess_some heq).1.hart
        have hd := hq.trans (.of_interrupt (DeviceFrame.tryVirtio w1 pa false 0).hart)
        split <;> rename_i hdev <;> rw [hdev] at hd
        · exact .inl ⟨.inl rfl, hd.control.trans (writeFprLoad_control _ _ _ _)⟩
        · exact loadTail_outcome hd fun w v => writeFprLoad_control _ _ _ _

theorem handleFpStore_outcome (cfg : Features) (w : World) (f : DecodedFields) (instr : BitVec 32) :
    AccessOutcome w.hart (handleFpStore cfg w f instr) := by
  simp only [handleFpStore]
  split
  · exact illegal_access_outcome w instr
  · split
    · exact illegal_access_outcome w instr
    · split <;> rename_i heq
      · obtain ⟨code, _, hf⟩ := translateAccess_none stAccessFault_not_interrupt heq
        exact .inr ⟨rfl, code, hf⟩
      · rename_i w1 pa
        have hq := QuietFrame.of_tlb (translateAccess_some heq).1.hart
        have hd := hq.trans
          (.of_interrupt (DeviceFrame.tryVirtio w1 pa true (w1.hart.fprs f.rs2)).hart)
        split <;> rename_i hdev <;> rw [hdev] at hd
        · exact .inl ⟨.inl rfl, hd.control⟩
        · exact storeTail_outcome hd

end LoadStore

/-! ### System instructions -/

theorem handleCsr_outcome (cfg : Features) (w : World) (f : DecodedFields) (instr : BitVec 32) :
    StepOutcome w f (handleCsrConcurrent cfg w f instr) := by
  obtain ⟨s, hs, hread⟩ := csrRead_frame cfg w.csrCtx f.func12
  simp only [handleCsrConcurrent, handleCsr]
  split <;> rename_i heq <;> rw [heq] at hread <;> subst hread
  · exact .of_trapped (hs.control.trapped (illegal_trapped _ _))
  · exact .of_sentinel
  · split
    · exact .of_trapped (hs.control.trapped (illegal_trapped _ _))
    · rename_i old _ new _
      split
      · exact .of_four ((hs.trans (topeiAck_frame (w.csrCtx.setState s) _ old).1).control.trans
          (.writeGpr _ _ _))
      · have hw := hs.control.trans (csrWrite_control cfg (w.csrCtx.setState s) f.func12 new)
        split <;> rename_i hwr <;> rw [hwr] at hw
        · exact .of_trapped (hw.trapped (illegal_trapped _ _))
        · exact .of_sentinel
        · exact .of_four (hw.trans (.writeGpr _ _ _))

/-- A CSR instruction leaves the control state alone or delivers a trap. -/
theorem handleCsr_control (cfg : Features) (c : CsrCtx) (rd rs1 : BitVec 5) (addr : BitVec 12)
    (funct3 : BitVec 3) (instr : BitVec 32) (g : InstrToBeExec) :
    SameControl c.state (handleCsr cfg c rd rs1 addr funct3 instr g).1.state ∨
      Trapped c.state (handleCsr cfg c rd rs1 addr funct3 instr g).1.state := by
  obtain ⟨s, hs, hread⟩ := csrRead_frame cfg c addr
  simp only [handleCsr]
  split <;> rename_i heq <;> rw [heq] at hread <;> subst hread
  · exact .inr (hs.control.trapped (illegal_trapped _ _))
  · exact .inl hs.control
  · split
    · exact .inr (hs.control.trapped (illegal_trapped _ _))
    · rename_i old _ new _
      split
      · exact .inl ((hs.trans (topeiAck_frame (c.setState s) _ old).1).control.trans
          (.writeGpr _ _ _))
      · have hw := hs.control.trans (csrWrite_control cfg (c.setState s) addr new)
        split <;> rename_i hwr <;> rw [hwr] at hw
        · exact .inr (hw.trapped (illegal_trapped _ _))
        · exact .inl hw
        · exact .inl (hw.trans (.writeGpr _ _ _))

theorem sbiSetTimer_control (w : World) : SameControl w.hart (sbiSetTimer w).hart := by
  simp only [sbiSetTimer]
  split <;> exact ⟨rfl, rfl, rfl⟩

theorem uartTryEcall_some {u u' : Uart} {s s' : HartState} {a b adv : Word}
    (h : uartTryEcall u s a b = (u', s', some adv)) :
    adv = 4 ∧ ∃ gprs, s' = { s with gprs := gprs } := by
  simp only [uartTryEcall] at h
  split at h
  · cases h
  · split at h
    · cases h
      exact ⟨rfl, _, rfl⟩
    · cases h

theorem privEcall_outcome (w : World) (f : DecodedFields) : StepOutcome w f (privEcall w) := by
  simp only [privEcall]
  split
  · refine .of_trapped (deliverTrap_trapped _ _ _ ?_)
    split <;> decide
  · split
    · rename_i heq
      obtain ⟨rfl, _, rfl⟩ := uartTryEcall_some heq
      exact .of_four ⟨rfl, rfl, rfl⟩
    · split
      · exact .of_four (sbiSetTimer_control w)
      · exact .of_trapped (deliverTrap_trapped _ _ _ (by decide))

/-- Every stop request is logged. -/
theorem requestStop_requests (m : ModuleState) (info : StopInfo) :
    (m.requestStop info).requests = m.requests ++ [info] := by
  simp only [ModuleState.requestStop]
  split <;> rfl

theorem handleEbreak_outcome (cfg : Features) (w : World) (f : DecodedFields) :
    StepOutcome w f (handleEbreak cfg w) := by
  simp only [handleEbreak]
  split
  · exact .of_trapped (deliverTrap_trapped _ _ _ (by decide))
  · split
    · exact .stopped _ (requestStop_requests _ _)
    · simp only [trySemihosting]
      split <;> rename_i heq
      · split at heq
        · cases heq
        · cases heq
          exact .sequential (.inr rfl) (by simp [advancePc, World.setHart])
      · split at heq
        · cases heq
          exact .of_four (.refl _)
        · cases heq

theorem handleSystem_outcome (cfg : Features) (w : World) (f : DecodedFields) (instr : BitVec 32)
    (hop : f.opcode = 0b1110011) : StepOutcome w f (handleSystem cfg w f instr) := by
  simp only [handleSystem]
  split
  · exact handleCsr_outcome cfg w f instr
  · rename_i h3
    split
    · exact privEcall_outcome w f
    · split
      · exact handleEbreak_outcome cfg w f
      · split
        · rename_i h12
          simp only [privMret]
          split
          · exact .of_illegal w f instr
          · rename_i hm
            exact .of_transfer (by
              simp only [transferTarget, hop]
              simp_all [World.setHart])
        · split
          · rename_i h12
            simp only [privSret]
            split
            · exact .of_illegal w f instr
            · rename_i hm
              exact .of_transfer (by
                simp only [transferTarget, hop]
                simp_all [World.setHart])
          · split
            · simp only [privWfi]
              split
              · exact .of_illegal w f instr
              · split
                · exact .of_four ⟨rfl, rfl, rfl⟩
                · split <;> exact .of_four ⟨rfl, rfl, rfl⟩
            · split
              · exact .of_four ⟨rfl, rfl, rfl⟩
              · split
                · exact .of_four ⟨rfl, rfl, rfl⟩
                · exact .of_illegal w f instr

/-! ### Atomic memory operations -/

/-- An aligned atomic operation whose address translates, passes PMP and belongs
to no device, but that is reserved or finds no RAM. -/
def AmoStuck (cfg : Features) (w : World) (f : DecodedFields) : Prop :=
  let va := readGpr w.hart f.rs1
  f.opcode = 0b0101111 ∧ ∃ width pa, amoWidth f.func3 = some width ∧ aligned va width = true ∧
    (translateAccess cfg w va .write width Exc.ldAccessFault va va).2 = some pa ∧
    (tryHandleVirtio w.dev pa true (readGpr w.hart f.rs2)).2 = none ∧
    isDeviceAddr pa w.dev = false ∧
    (HartSched.ramOffset w.mem.toLayout pa width = none ∨
      amoReserved (f.func7.extractLsb' 2 5) = true)

/-- An advance of zero with nothing to show for it. -/
theorem not_outcome_of_idle {w w' : World} {f : DecodedFields} (hc : SameControl w.hart w'.hart)
    (hm : w'.module = w.module) (hop : transferTarget w.hart f = none) :
    ¬ StepOutcome w f (w', 0) := by
  intro h
  cases h with
  | sequential h _ => simp at h
  | transfer _ hpc => simp [hop] at hpc
  | trap _ ht =>
    obtain ⟨t, htr, _⟩ := ht
    simp [advancePc, hc.2.2] at htr
  | sentinel h => simp [exitSentinel] at h
  | stopped info h => simp [hm] at h

theorem amoWidth_cases {func3 : BitVec 3} {width : Nat} (h : amoWidth func3 = some width) :
    width = 4 ∨ width = 8 := by
  simp only [amoWidth] at h
  split at h <;> simp_all

/-- Alignment is decided by the page offset. -/
theorem aligned_of_pageOffset {va pa : Word} {width : Nat} (hw : width = 4 ∨ width = 8)
    (h : pageOffset pa = pageOffset va) : aligned pa width = aligned va width := by
  simp only [pageOffset] at h
  simp only [aligned, decide_eq_decide]
  rcases hw with rfl | rfl <;> omega

theorem execAmoOp_control (s : HartState) (funct5 : BitVec 5) (width : Nat) (rs2Val : Word)
    (rd : BitVec 5) (pa : Word) (off : Nat) (c : WalkCtx) :
    SameControl s (execAmoOp s funct5 width rs2Val rd pa off c).1 := by
  have clear : SameControl s { s with reservationValid := false } := ⟨rfl, rfl, rfl⟩
  simp only [execAmoOp]
  split
  · exact ⟨rfl, rfl, rfl⟩
  · split
    · simp only [execSc]
      split <;> exact clear.trans (.writeGpr _ _ _)
    · split
      · simp only [execAmoRmw]
        split <;> exact .writeGpr _ _ _
      · exact .refl s

theorem execAmoOp_advance (s : HartState) (funct5 : BitVec 5) (width : Nat) (rs2Val : Word)
    (rd : BitVec 5) (pa : Word) (off : Nat) (c : WalkCtx) :
    (execAmoOp s funct5 width rs2Val rd pa off c).2.2 = if amoReserved funct5 then 0 else 4 := by
  simp only [execAmoOp, amoReserved]
  split
  · rename_i h; simp [h]
  · split
    · rename_i h; simp [h]
    · split <;> simp_all

/-- The inner handler, entered with every check already passed. -/
theorem handleAmoConcurrent_checked {w : World} {funct5 : BitVec 5} {func3 : BitVec 3}
    {rs2Val pa : Word} {rd : BitVec 5} {width : Nat} (hw : amoWidth func3 = some width)
    (ha : aligned pa width = true) (hp : pmpOk w.hart pa width true false w.pmp = true)
    (hd : isDeviceAddr pa w.dev = false) :
    handleAmoConcurrent w funct5 func3 rs2Val rd pa =
      match HartSched.ramOffset w.mem.toLayout pa width with
      | none => (w, 0)
      | some off =>
        ({ w with hart := (execAmoOp w.hart funct5 width rs2Val rd pa off.toNat w.mem).1
                  mem := (execAmoOp w.hart funct5 width rs2Val rd pa off.toNat w.mem).2.1 },
          if amoReserved funct5 then 0 else 4) := by
  cases ho : HartSched.ramOffset w.mem.toLayout pa width with
  | none =>
    simp only [handleAmoConcurrent, hw, ha, hp, hd, ho, Bool.not_true, Bool.false_eq_true, ↓reduceIte]
  | some off =>
    simp only [handleAmoConcurrent, hw, ha, hp, hd, ho, Bool.not_true, Bool.false_eq_true, ↓reduceIte,
      execAmoOp_advance]

theorem Translated.readGpr {w w' : World} (h : Translated w w') (r : BitVec 5) :
    readGpr w'.hart r = readGpr w.hart r := by
  simp only [Pyremu.readGpr, h.hart.gprs]

/-- Every witness of a stuck operation speaks about its one width and address. -/
theorem amoStuck_iff {cfg : Features} {w w1 : World} {f : DecodedFields} {width : Nat} {pa : Word}
    (hop : f.opcode = 0b0101111) (hw : amoWidth f.func3 = some width)
    (ha : aligned (readGpr w.hart f.rs1) width = true)
    (htr : translateAccess cfg w (readGpr w.hart f.rs1) .write width Exc.ldAccessFault
      (readGpr w.hart f.rs1) (readGpr w.hart f.rs1) = (w1, some pa)) :
    AmoStuck cfg w f ↔
      (tryHandleVirtio w.dev pa true (readGpr w.hart f.rs2)).2 = none ∧
        isDeviceAddr pa w.dev = false ∧
        (HartSched.ramOffset w.mem.toLayout pa width = none ∨
          amoReserved (f.func7.extractLsb' 2 5) = true) := by
  constructor
  · rintro ⟨_, width', pa', hw', _, ht, hrest⟩
    rw [hw] at hw'
    cases hw'
    rw [htr] at ht
    cases ht
    exact hrest
  · intro h
    exact ⟨hop, width, pa, hw, ha, by rw [htr], h⟩

theorem handleAmo_outcome_iff (cfg : Features) (w : World) (f : DecodedFields) (instr : BitVec 32)
    (hop : f.opcode = 0b0101111) :
    StepOutcome w f (handleAmoConcurrentDispatch cfg w f instr) ↔ ¬ AmoStuck cfg w f := by
  have hno : transferTarget w.hart f = none := by simp [transferTarget, hop]
  simp only [handleAmoConcurrentDispatch]
  split
  · rename_i hw
    exact iff_of_true (.of_illegal w f instr) (by simp [AmoStuck, hw])
  · rename_i width hw
    split
    · rename_i ha
      apply iff_of_true (.of_trapped (deliverTrap_trapped _ _ _ (by decide)))
      rintro ⟨_, width', _, hw', ha', _⟩
      rw [hw] at hw'
      cases hw'
      simp [ha'] at ha
    · rename_i ha
      have ha : aligned (readGpr w.hart f.rs1) width = true := by simpa using ha
      split <;> rename_i htr
      · obtain ⟨_, _, hf⟩ := translateAccess_none (by decide) htr
        apply iff_of_true (.of_trapped hf.trapped)
        rintro ⟨_, width', _, hw', _, ht, _⟩
        rw [hw] at hw'
        cases hw'
        simp [htr] at ht
      · rename_i w1 pa
        obtain ⟨hf, hoff, hpmp⟩ := translateAccess_some htr
        have hpa : aligned pa width = true :=
          (aligned_of_pageOffset (amoWidth_cases hw) hoff).trans ha
        have hrest := hf.rest
        have hdev : w1.dev = w.dev := by rw [hrest]
        rw [amoStuck_iff hop hw ha htr, hf.readGpr]
        have hvf := DeviceFrame.tryVirtio w1 pa true (readGpr w.hart f.rs2)
        have hv : (w1.tryVirtio pa true (readGpr w.hart f.rs2)).2 =
            (tryHandleVirtio w.dev pa true (readGpr w.hart f.rs2)).2 := by
          simp only [World.tryVirtio, hdev]
        split <;> rename_i hvirt <;> rw [hvirt] at hvf hv
        · apply iff_of_true (.of_four (hf.hart.control.trans hvf.hart.control))
          rintro ⟨hn, _⟩
          rw [← hv] at hn
          cases hn
        · rename_i w2
          replace hvf : DeviceFrame w1 w2 := hvf
          have hdev2 : isDeviceAddr pa w2.dev = isDeviceAddr pa w.dev := by
            simp only [isDeviceAddr, hvf.windows, hdev]
          have hlay : w2.mem.toLayout = w.mem.toLayout := by rw [hvf.mem, hf.mem.toLayout]
          have hctl := hf.hart.control.trans hvf.hart.control
          have hmod : w2.module = w.module := by rw [hvf.module, hrest]
          split
          · rename_i hd
            apply iff_of_true .of_sentinel
            rintro ⟨_, hd', _⟩
            rw [hdev2, hd'] at hd
            cases hd
          · rename_i hd
            have hd : isDeviceAddr pa w2.dev = false := by simpa using hd
            have hpmp2 : pmpOk w2.hart pa width true false w2.pmp = true := by
              rw [hvf.pmp, hvf.hart.pmpOk]
              exact hpmp
            rw [handleAmoConcurrent_checked hw hpa hpmp2 hd, hlay]
            simp only [← hv, ← hdev2, hd, true_and]
            cases HartSched.ramOffset w.mem.toLayout pa width with
            | none =>
              simp only [true_or, not_true, iff_false]
              exact not_outcome_of_idle hctl hmod hno
            | some off =>
              have hx := hctl.trans (execAmoOp_control w2.hart (f.func7.extractLsb' 2 5) width
                (readGpr w.hart f.rs2) f.rd pa off.toNat w2.mem)
              cases hr : amoReserved (f.func7.extractLsb' 2 5) with
              | true =>
                simp only [or_true, not_true, iff_false, ↓reduceIte]
                exact not_outcome_of_idle hx hmod hno
              | false =>
                simp only [reduceCtorEq, Bool.false_eq_true, or_self, not_false_eq_true, iff_true,
                  ↓reduceIte]
                exact .of_four hx

/-! ## The dispatch -/

/-- A step ends in one of the five ways unless it is a stuck atomic operation. -/
theorem dispatch_outcome_iff (cfg : Features) (sf : SoftFloat) (w : World) (instr : BitVec 32) :
    StepOutcome w (decodeFields instr)
        (dispatchConcurrent cfg sf w (decodeFields instr) instr) ↔
      ¬ AmoStuck cfg w (decodeFields instr) := by
  generalize decodeFields instr = f
  have other : ∀ {r : World × Word}, f.opcode ≠ 0b0101111 → StepOutcome w f r →
      (StepOutcome w f r ↔ ¬ AmoStuck cfg w f) :=
    fun hop hr => iff_of_true hr fun hs => hop hs.1
  simp only [dispatchConcurrent]
  split <;> rename_i hop
  · exact other (by simp [hop]) (finishAlu_outcome w f _ instr _)
  · exact other (by simp [hop]) (finishAlu_outcome w f _ instr _)
  · exact other (by simp [hop]) (finishAlu_outcome w f _ instr _)
  · exact other (by simp [hop]) (finishAlu_outcome w f _ instr _)
  · exact other (by simp [hop]) (.of_four (.writeGpr _ _ _))
  · exact other (by simp [hop]) (.of_four (.writeGpr _ _ _))
  · exact other (by simp [hop]) (.of_transfer (by simp [transferTarget, hop]; rfl))
  · exact other (by simp [hop]) (.of_transfer (by simp [transferTarget, hop]; rfl))
  · exact other (by simp [hop]) (handleBr_outcome w f instr hop)
  · exact other (by simp [hop]) (handleFence_outcome w f instr)
  · exact other (by simp [hop]) (handleLoad_outcome cfg w f instr).step
  · exact other (by simp [hop]) (handleStore_outcome cfg w f instr).step
  · exact other (by simp [hop]) (handleFpLoad_outcome cfg w f instr).step
  · exact other (by simp [hop]) (handleFpStore_outcome cfg w f instr).step
  · exact other (by simp [hop]) (handleSystem_outcome cfg w f instr hop)
  · exact handleAmo_outcome_iff cfg w f instr hop
  · exact other (by simp [hop]) (handleFpOp_outcome sf w f instr)
  · exact other (by simp [hop]) (handleFpFma_outcome sf w f instr)
  · exact other (by simp [hop]) (handleFpFma_outcome sf w f instr)
  · exact other (by simp [hop]) (handleFpFma_outcome sf w f instr)
  · exact other (by simp [hop]) (handleFpFma_outcome sf w f instr)
  · rename_i hne
    exact other (by assumption) (.of_illegal w f instr)

/-- `amoadd.w x0, x0, (x0)` in machine mode with RAM elsewhere: the program counter
stays, and nothing tells the guest or the host. -/
theorem amo_outside_ram_has_no_outcome :
    ¬ StepOutcome (.zeroed ⟨0x80000000, 0x10000, 0, 0⟩) (decodeFields 0x0000202F)
      (dispatchConcurrent ⟨false, false, false, 0⟩ default (.zeroed ⟨0x80000000, 0x10000, 0, 0⟩)
        (decodeFields 0x0000202F) 0x0000202F) := by
  have h : dispatchConcurrent ⟨false, false, false, 0⟩ default
      (.zeroed ⟨0x80000000, 0x10000, 0, 0⟩) (decodeFields 0x0000202F) 0x0000202F =
        (.zeroed ⟨0x80000000, 0x10000, 0, 0⟩, 0) := rfl
  rw [h]
  exact not_outcome_of_idle (.refl _) rfl rfl

end Pyremu
