import Pyremu.Lib.Bits
import Pyremu.DomainIsolation

/-!
# Machine-level state below machine mode

A SYSTEM instruction executed in S or U mode leaves the machine-level registers
alone or traps into M mode. Supervisor interrupt registers write `mip.SSIP`,
`mip.STIP` and `mip.SEIP` whatever `mideleg` says, and the timer call of the SBI
moves `mip.MTIP`; `mstatus.MPRV` is outside this module's statements.
-/

namespace Pyremu

/-! ## The protected state -/

/-- `MIE`, `MPIE`, `MPP`, `TVM`, `TW` and `TSR`. -/
def machineStatus : Word :=
  bit 3 ||| bit 7 ||| bit 11 ||| bit 12 ||| bit 20 ||| bit 21 ||| bit 22

/-- `SSIP`, `STIP` and `SEIP`. -/
def supervisorMip : Word := bit 1 ||| bit 5 ||| bit 9

/-- The machine-level state is the same, `mip` up to the bits of `m`. -/
structure SameMachine (m : Word) (s s' : HartState) : Prop where
  mstatus : s'.mstatus &&& machineStatus = s.mstatus &&& machineStatus
  medeleg : s'.medeleg = s.medeleg
  mideleg : s'.mideleg = s.mideleg
  mtvec : s'.mtvec = s.mtvec
  mepc : s'.mepc = s.mepc
  mcause : s'.mcause = s.mcause
  mtval : s'.mtval = s.mtval
  mscratch : s'.mscratch = s.mscratch
  mcounteren : s'.mcounteren = s.mcounteren
  mie : s'.mie &&& ~~~s.mideleg = s.mie &&& ~~~s.mideleg
  mip : s'.mip &&& ~~~m = s.mip &&& ~~~m
  imsicM : s'.imsicM = s.imsicM

namespace SameMachine

variable {m : Word} {s s' s'' : HartState}

theorem refl (m : Word) (s : HartState) : SameMachine m s s :=
  ⟨rfl, rfl, rfl, rfl, rfl, rfl, rfl, rfl, rfl, rfl, rfl, rfl⟩

theorem trans (h : SameMachine m s s') (h' : SameMachine m s' s'') : SameMachine m s s'' :=
  ⟨h'.mstatus.trans h.mstatus, h'.medeleg.trans h.medeleg, h'.mideleg.trans h.mideleg,
    h'.mtvec.trans h.mtvec, h'.mepc.trans h.mepc, h'.mcause.trans h.mcause,
    h'.mtval.trans h.mtval, h'.mscratch.trans h.mscratch, h'.mcounteren.trans h.mcounteren,
    (h.mideleg ▸ h'.mie).trans h.mie, h'.mip.trans h.mip, h'.imsicM.trans h.imsicM⟩

/-- Only `mstatus` moved, and outside the machine's bits. -/
theorem of_mstatus {v : Word} (m : Word)
    (h : ∀ i, machineStatus.getLsbD i = true → v.getLsbD i = s.mstatus.getLsbD i)
    (hs : s' = { s with mstatus := v, fcsr := s'.fcsr }) : SameMachine m s s' := by
  rw [hs]
  exact { refl m s with mstatus := BitFields.and_mask_congr h }

theorem writeGpr (m : Word) (s : HartState) (rd : BitVec 5) (v : Word) :
    SameMachine m s (writeGpr s rd v) := by
  simp only [Pyremu.writeGpr]
  split
  · exact refl m s
  · exact { refl m s with }

end SameMachine

theorem machineStatus_getLsbD {i : Nat} (h : machineStatus.getLsbD i = true) :
    i = 3 ∨ i = 7 ∨ i = 11 ∨ i = 12 ∨ i = 20 ∨ i = 21 ∨ i = 22 := by
  simp only [machineStatus, BitVec.getLsbD_or, getLsbD_bit 3 i (by decide),
    getLsbD_bit 7 i (by decide), getLsbD_bit 11 i (by decide), getLsbD_bit 12 i (by decide),
    getLsbD_bit 20 i (by decide), getLsbD_bit 21 i (by decide), getLsbD_bit 22 i (by decide),
    Bool.or_eq_true, decide_eq_true_eq] at h
  tauto

/-! ## Supervisor interrupt bookkeeping -/

/-- Only supervisor interrupt state differs, with `mip` in the bits of `supervisorMip`. -/
def SupervisorFrame (s s' : HartState) : Prop :=
  ∃ mip imsicS stimecmp stipDeadline,
    s' = { s with mip := mip, imsicS := imsicS, stimecmp := stimecmp, stipDeadline := stipDeadline } ∧
      mip &&& ~~~supervisorMip = s.mip &&& ~~~supervisorMip

/-- A line that belongs to the supervisor. -/
def isSupervisorBit (k : Nat) : Prop := k = 1 ∨ k = 5 ∨ k = 9

theorem mip_set_supervisor {k : Nat} (hk : isSupervisorBit k) (v : Word) :
    (v ||| bit k) &&& ~~~supervisorMip = v &&& ~~~supervisorMip := by
  have hz : bit k &&& ~~~supervisorMip = 0#64 := by
    rcases hk with rfl | rfl | rfl <;> decide
  rw [BitVec.and_or_distrib_right, hz, BitVec.or_zero]

theorem mip_clear_supervisor {k : Nat} (hk : isSupervisorBit k) (v : Word) :
    (v &&& ~~~(bit k)) &&& ~~~supervisorMip = v &&& ~~~supervisorMip := by
  have hz : ~~~(bit k) &&& ~~~supervisorMip = ~~~supervisorMip := by
    rcases hk with rfl | rfl | rfl <;> decide
  rw [BitVec.and_assoc, hz]

namespace SupervisorFrame

variable {s s' s'' : HartState}

theorem refl (s : HartState) : SupervisorFrame s s := ⟨_, _, _, _, rfl, rfl⟩

theorem trans (h : SupervisorFrame s s') (h' : SupervisorFrame s' s'') : SupervisorFrame s s'' := by
  obtain ⟨_, _, _, _, rfl, hm⟩ := h
  obtain ⟨_, _, _, _, rfl, hm'⟩ := h'
  exact ⟨_, _, _, _, rfl, hm'.trans hm⟩

theorem machine (h : SupervisorFrame s s') : SameMachine supervisorMip s s' := by
  obtain ⟨_, _, _, _, rfl, hm⟩ := h
  exact { SameMachine.refl supervisorMip s with mip := hm }

theorem setMip (s : HartState) {k : Nat} (hk : isSupervisorBit k) :
    SupervisorFrame s (s.setMip (bit k)) :=
  ⟨_, _, _, _, rfl, mip_set_supervisor hk _⟩

theorem clearMip (s : HartState) {k : Nat} (hk : isSupervisorBit k) :
    SupervisorFrame s (s.clearMip (bit k)) :=
  ⟨_, _, _, _, rfl, mip_clear_supervisor hk _⟩

theorem setImsicFile (s : HartState) (f : ImsicFile) :
    SupervisorFrame s (s.setImsicFile false f) :=
  ⟨_, _, _, _, rfl, rfl⟩

theorem syncImsicOne (s : HartState) : SupervisorFrame s (syncImsicOne s false) := by
  have hk : isSupervisorBit 9 := .inr (.inr rfl)
  simp only [Pyremu.syncImsicOne]
  split
  · exact refl s
  · split
    · split
      · exact setMip s hk
      · exact clearMip s hk
    · split
      · exact setMip s hk
      · exact refl s

theorem claimAndSync (s : HartState) (iid : BitVec 32) :
    SupervisorFrame s (claimAndSync s false iid) :=
  (setImsicFile s _).trans (syncImsicOne _)

theorem topeiRead (s : HartState) : SupervisorFrame s (topeiRead s false).1 := by
  simp only [Pyremu.topeiRead]
  split
  · exact claimAndSync s _
  · exact refl s

theorem topeiWrite (s : HartState) (v : Word) : SupervisorFrame s (topeiWrite s false v) := by
  simp only [Pyremu.topeiWrite]
  split
  · exact refl s
  · split
    · rename_i h; exact absurd h.1 (by decide)
    · split
      · exact (claimAndSync s _).trans (clearMip _ (.inl rfl))
      · exact claimAndSync s _

theorem computeStopi (s : HartState) (now : Word) : SupervisorFrame s (computeStopi s now).1 := by
  simp only [Pyremu.computeStopi]
  generalize (if s.stimecmp = 0 then _ else _ : Bool) = pending
  split
  · exact refl s
  · split
    · exact clearMip s (.inl rfl)
    · split <;> exact refl s

theorem writeStimecmp (s : HartState) (now v hz : Word) :
    SupervisorFrame s (writeStimecmp s now v hz) := by
  have hk : isSupervisorBit 5 := .inr (.inl rfl)
  refine ⟨_, _, _, _, rfl, ?_⟩
  simp only [writeTimecmp]
  split
  · exact mip_clear_supervisor hk _
  · split
    · exact mip_set_supervisor hk _
    · exact mip_clear_supervisor hk _

theorem ackSoft (s : HartState) (iid : BitVec 32) : SupervisorFrame s (ackSoft s false iid) := by
  simp only [Pyremu.ackSoft]
  split
  · rename_i h; exact absurd h.1 (by decide)
  · split
    · exact clearMip s (.inl rfl)
    · exact refl s

theorem ackStimer (s : HartState) (iid : BitVec 32) (now : Word) :
    SupervisorFrame s (ackStimer s false iid now) := by
  have hk : isSupervisorBit 5 := .inr (.inl rfl)
  simp only [Pyremu.ackStimer]
  split
  · split
    · exact (clearMip s hk).trans ⟨_, _, _, _, rfl, rfl⟩
    · exact clearMip s hk
  · exact refl s

theorem topeiAck (c : CsrCtx) (old : Word) : SupervisorFrame c.state (topeiAck c false old).state := by
  simp only [Pyremu.topeiAck]
  split
  · rename_i h; exact absurd h.1 (by decide)
  · exact (((setImsicFile c.state _).trans (ackSoft _ _)).trans (ackStimer _ _ _)).trans
      (syncImsicOne _)

theorem stopiWrite (c : CsrCtx) (v : Word) : SupervisorFrame c.state (stopiWrite c v).state := by
  simp only [Pyremu.stopiWrite]
  split
  · exact refl _
  · split
    · exact (claimAndSync _ _).trans (clearMip _ (.inl rfl))
    · split
      · split
        · refine ((clearMip _ (.inr (.inl rfl))).trans ?_).trans (writeStimecmp _ _ _ _)
          exact ⟨_, _, _, _, rfl, rfl⟩
        · exact clearMip _ (.inr (.inl rfl))
      · split
        · exact refl _
        · exact claimAndSync _ _

end SupervisorFrame

/-! ## CSR instructions -/

/-- Registers whose accesses reach machine-level state. -/
def CsrReg.isMachine : CsrReg → Bool
  | .mstatus | .medeleg | .mideleg | .mie | .mtvec | .mcounteren | .mscratch | .mepc | .mcause
  | .mtval | .mip | .miselect | .mireg | .mtopei | .mtopi => true
  | _ => false

/-- All of them carry numbers that ask for M mode. -/
theorem csrPrivReq_of_isMachine {addr : BitVec 12} (h : (csrDecode addr).isMachine = true) :
    csrPrivReq addr = 3 := by
  have htable : ∀ x ∈ csrTable, x.2.isMachine = true → csrPrivReq x.1 = 3 := by decide
  simp only [csrDecode] at h
  split at h
  · rename_i r hl
    exact htable (addr, r) (mem_of_lookup hl) h
  · repeat' split at h
    all_goals cases h

/-- The bits of `mip` that an access to this register may move. -/
def CsrReg.mipBits : CsrReg → Word
  | .sip | .stimecmp | .sireg | .stopei | .stopi => supervisorMip
  | _ => 0

theorem csrReadReg_machine (cfg : Features) (c : CsrCtx) (r : CsrReg) (hr : r.isMachine = false) :
    SameMachine r.mipBits c.state (csrReadReg cfg c r).1.state := by
  have keep : ∀ m, SameMachine m c.state c.state := fun m => .refl m _
  have aia : ∀ (m : Word) (s : HartState) (v : Word), SameMachine m c.state s → SameMachine m c.state
      (if cfg.aia then (c.setState s, v, CsrStatus.ok) else (c, 0, .ill)).1.state := by
    intro m s v h
    split
    · exact h
    · exact keep m
  cases r with
  | mtopei | mtopi | miselect | mireg => cases hr
  | stopei => exact aia _ _ _ (SupervisorFrame.topeiRead _).machine
  | stopi => exact aia _ _ _ (SupervisorFrame.computeStopi _ _).machine
  | siselect | sireg => exact aia _ _ _ (keep _)
  | fflags | frm | fcsr | stimecmp =>
    simp only [csrReadReg]
    split <;> exact keep _
  | _ => exact keep _

/-- The writable part of `sstatus` has no machine bit apart from `MPRV`. -/
theorem sstatus_write_machine (old v : Word) {i : Nat} (h : machineStatus.getLsbD i = true) :
    ((old &&& ~~~sstatusWriteMask) ||| (v &&& sstatusWriteMask)).getLsbD i = old.getLsbD i := by
  have hmask : sstatusWriteMask.getLsbD i = false := by
    rcases machineStatus_getLsbD h with rfl | rfl | rfl | rfl | rfl | rfl | rfl <;> decide
  have hi : i < 64 := by
    rcases machineStatus_getLsbD h with rfl | rfl | rfl | rfl | rfl | rfl | rfl <;> decide
  rw [BitFields.getLsbD_masked_write _ _ _ hi, hmask]
  rfl

theorem fs_write_machine (old : Word) {i : Nat} (h : machineStatus.getLsbD i = true) :
    (old ||| mstatusFs ||| mstatusSd).getLsbD i = old.getLsbD i := by
  have hfs : (mstatusFs ||| mstatusSd).getLsbD i = false := by
    rcases machineStatus_getLsbD h with rfl | rfl | rfl | rfl | rfl | rfl | rfl <;> decide
  rw [BitVec.or_assoc, BitVec.getLsbD_or, hfs, Bool.or_false]

theorem sie_write_machine (mie mideleg v : Word) :
    ((mie &&& ~~~mideleg) ||| (v &&& mideleg)) &&& ~~~mideleg = mie &&& ~~~mideleg := by
  apply BitVec.eq_of_getLsbD_eq
  intro i hi
  simp only [BitVec.getLsbD_and, BitVec.getLsbD_or, BitVec.getLsbD_not, hi]
  cases mideleg.getLsbD i <;> simp

theorem sip_write_machine (mip v : Word) :
    ((mip &&& ~~~(bit 1)) ||| (v &&& bit 1)) &&& ~~~supervisorMip = mip &&& ~~~supervisorMip := by
  have h1 : bit 1 &&& ~~~supervisorMip = 0#64 := by decide
  rw [BitVec.and_or_distrib_right, mip_clear_supervisor (.inl rfl), BitVec.and_assoc, h1,
    BitVec.and_zero, BitVec.or_zero]

theorem csrWriteReg_machine (cfg : Features) (c : CsrCtx) (r : CsrReg) (v : Word)
    (hr : r.isMachine = false) :
    SameMachine r.mipBits c.state (csrWriteReg cfg c r v).1.state := by
  have keep : ∀ m, SameMachine m c.state c.state := fun m => .refl m _
  have aia : ∀ (m : Word) (c' : CsrCtx), SameMachine m c.state c'.state → SameMachine m c.state
      (if cfg.aia then (c', CsrStatus.ok) else (c, .ill)).1.state := by
    intro m c' h
    split
    · exact h
    · exact keep m
  have fp : ∀ m fcsr, SameMachine m c.state
      (if fpOff c.state then (c, CsrStatus.ill)
        else (c.setState (fcsrWrite c.state fcsr), .ok)).1.state := by
    intro m fcsr
    split
    · exact keep m
    · exact .of_mstatus m (fun _ hi => fs_write_machine _ hi) rfl
  cases r with
  | mstatus | medeleg | mideleg | mie | mtvec | mcounteren | mscratch | mepc | mcause | mtval | mip
  | miselect | mireg | mtopei | mtopi => cases hr
  | sstatus => exact .of_mstatus _ (fun _ hi => sstatus_write_machine _ v hi) rfl
  | sie => exact { keep _ with mie := sie_write_machine _ _ v }
  | sip => exact { keep supervisorMip with mip := sip_write_machine _ v }
  | fflags | frm | fcsr => exact fp _ _
  | stimecmp =>
    simp only [csrWriteReg]
    split
    · exact keep _
    · exact ((@SupervisorFrame.trans _ { c.state with stimecmp := v } _ ⟨_, _, _, _, rfl, rfl⟩
        (.writeStimecmp _ _ _ _)).machine)
  | siselect => exact aia _ _ { keep _ with }
  | sireg =>
    exact aia _ _ ((SupervisorFrame.setImsicFile _ _).trans (.syncImsicOne _)).machine
  | stopei => exact aia _ _ (SupervisorFrame.topeiWrite _ _).machine
  | stopi => exact aia _ _ (SupervisorFrame.stopiWrite c v).machine
  | pmpaddr n =>
    simp only [csrWriteReg]
    split <;> exact keep _
  | _ => exact { keep _ with }

/-! ## Traps -/

/-- A trap into M mode was delivered. -/
def MachineTrap (s s' : HartState) : Prop :=
  ∃ t, s'.traps = s.traps ++ [t] ∧ t.level = .M

/-- A synchronous trap goes to M mode or leaves the machine-level state alone. -/
theorem deliverTrap_machine (m : Word) (s : HartState) (code tval : Word)
    (h : isInterrupt code = false) :
    MachineTrap s (deliverTrap s code tval) ∨ SameMachine m s (deliverTrap s code tval) := by
  simp only [deliverTrap]
  split
  · right
    have hst : ∀ i, machineStatus.getLsbD i = true →
        (deliverTrapSmode s code tval).mstatus.getLsbD i = s.mstatus.getLsbD i := by
      intro i hi
      have := machineStatus_getLsbD hi
      exact deliverTrapSmode_mstatus s code tval (by omega) (by omega) (by omega)
    have hm := BitFields.and_mask_congr hst
    simp only [deliverTrapSmode, h, Bool.not_false, ↓reduceIte] at hm ⊢
    exact { SameMachine.refl m s with mstatus := hm }
  · left
    simp only [deliverTrapMmode, h, Bool.false_eq_true, false_and, ↓reduceIte]
    exact ⟨_, rfl, rfl⟩

/-- What an instruction below M mode may do to the machine level. -/
def BelowMachine (m : Word) (s s' : HartState) : Prop := MachineTrap s s' ∨ SameMachine m s s'

theorem SameMachine.illegal {m : Word} {s s' : HartState} (h : SameMachine m s s')
    (htr : s'.traps = s.traps) (tval : Word) :
    BelowMachine m s (deliverIllegalInstruction s' tval) := by
  obtain ⟨t, ht, hl⟩ | h' := deliverTrap_machine m s' (mcauseVal Exc.illInstr false) tval (by decide)
  · exact .inl ⟨t, by rw [← htr]; exact ht, hl⟩
  · exact .inr (h.trans h')

theorem handleCsr_machine (cfg : Features) (c : CsrCtx) (rd rs1 : BitVec 5) (addr : BitVec 12)
    (funct3 : BitVec 3) (instr : BitVec 32) (g : InstrToBeExec)
    (hm : c.state.mode = .S ∨ c.state.mode = .U) :
    BelowMachine (csrDecode addr).mipBits c.state
      (handleCsr cfg c rd rs1 addr funct3 instr g).1.state := by
  by_cases hp : csrPrivOk c.state.mode (csrPrivReq addr) = true
  · have hreg : (csrDecode addr).isMachine = false := by
      cases hr : (csrDecode addr).isMachine with
      | false => rfl
      | true =>
        rw [csrPrivReq_of_isMachine hr] at hp
        obtain hm | hm := hm <;> rw [hm] at hp <;> revert hp <;> decide
    have hmr : SameMachine (csrDecode addr).mipBits c.state (csrRead cfg c addr).1.state := by
      simp only [csrRead]
      split
      · exact .refl _ _
      · split
        · exact .refl _ _
        · exact csrReadReg_machine cfg c _ hreg
    obtain ⟨s, hs, hread⟩ := csrRead_frame cfg c addr
    simp only [handleCsr]
    split <;> rename_i heq <;> rw [heq] at hread hmr <;> subst hread
    · exact hmr.illegal hs.traps _
    · exact .inr hmr
    · split
      · exact hmr.illegal hs.traps _
      · rename_i old _ new _
        split
        · rename_i htop
          have hst : csrDecode addr = .stopei := by
            obtain htop | htop := htop
            · rw [htop] at hreg; cases hreg
            · exact htop
          refine .inr ((hmr.trans ?_).trans (.writeGpr _ _ _ _))
          simp only [hst, reduceCtorEq, decide_false]
          exact (SupervisorFrame.topeiAck _ _).machine
        · have hctl := hs.control.trans (csrWrite_control cfg (c.setState s) addr new)
          have hw : SameMachine (csrDecode addr).mipBits c.state
              (csrWrite cfg (c.setState s) addr new).1.state := by
            simp only [csrWrite]
            split
            · exact hmr
            · exact hmr.trans (csrWriteReg_machine cfg _ _ new hreg)
          split <;> rename_i hwr <;> rw [hwr] at hw hctl
          · exact hw.illegal hctl.2.2 _
          · exact .inr hw
          · exact .inr (hw.trans (.writeGpr _ _ _ _))
  · have hread : csrRead cfg c addr = (c, 0, .ill) := by simp [csrRead, hp]
    simp only [handleCsr, hread]
    exact SameMachine.illegal (.refl _ _) rfl _

/-! ## System instructions -/

/-- The bits of `mip` that the instruction may move: those of the supervisor for its
interrupt registers, and `MTIP` for the timer call of the SBI. -/
def systemMipBits (s : HartState) (f : DecodedFields) : Word :=
  if f.func3 ≠ 0 then (csrDecode f.func12).mipBits
  else if f.func12 = 0 ∧ s.mode = .S ∧ readGpr s 17 = 0x54494d45 ∧ readGpr s 16 = 0 then bit 7
  else 0

/-- The machine level is safe, and without a trap the mode does not rise. -/
def Confined (m : Word) (s s' : HartState) : Prop :=
  BelowMachine m s s' ∧ (s'.traps = s.traps → s'.mode.rank ≤ s.mode.rank)

namespace Confined

variable {m : Word} {s s' : HartState}

theorem of_trap (code tval : Word) (h : isInterrupt code = false) :
    Confined m s (deliverTrap s code tval) := by
  refine ⟨deliverTrap_machine m s code tval h, fun htr => ?_⟩
  obtain ⟨t, ht, _⟩ := deliverTrap_trapped s code tval h
  simp [htr] at ht

theorem of_same (h : SameMachine m s s') (hm : s'.mode.rank ≤ s.mode.rank) : Confined m s s' :=
  ⟨.inr h, fun _ => hm⟩

end Confined

theorem sbiSetTimer_machine (w : World) : SameMachine (bit 7) w.hart (sbiSetTimer w).hart := by
  have hset : ∀ v : Word, (v ||| bit 7) &&& ~~~(bit 7) = v &&& ~~~(bit 7) := by
    intro v
    have h7 : bit 7 &&& ~~~(bit 7) = 0#64 := by decide
    rw [BitVec.and_or_distrib_right, h7, BitVec.or_zero]
  have hclear : ∀ v : Word, (v &&& ~~~(bit 7)) &&& ~~~(bit 7) = v &&& ~~~(bit 7) := by
    intro v
    rw [BitVec.and_assoc, BitVec.and_self]
  simp only [sbiSetTimer]
  split
  · refine { SameMachine.refl (bit 7) w.hart with mip := ?_ }
    simp only [World.setHart, writeMtimecmp, writeTimecmp]
    split
    · exact hclear _
    · split
      · exact hset _
      · exact hclear _
  · exact { SameMachine.refl (bit 7) w.hart with }

theorem privEcall_confined (w : World) {m : Word}
    (hbits : w.hart.mode = .S → readGpr w.hart 17 = 0x54494d45 ∧ readGpr w.hart 16 = 0 → m = bit 7) :
    Confined m w.hart (privEcall w).1.hart := by
  simp only [privEcall]
  split
  · refine .of_trap _ _ ?_
    split <;> decide
  · rename_i hS
    split
    · rename_i heq
      obtain ⟨_, _, rfl⟩ := uartTryEcall_some heq
      exact .of_same { SameMachine.refl m w.hart with } (Nat.le_refl _)
    · split
      · rename_i hcall
        rw [hbits (by simpa using hS) hcall]
        exact .of_same (sbiSetTimer_machine w) (Nat.le_of_eq (congrArg Mode.rank (sbiSetTimer_control w).2.1))
      · exact .of_trap _ _ (by decide)

theorem handleEbreak_confined (cfg : Features) (w : World) (m : Word) :
    Confined m w.hart (handleEbreak cfg w).1.hart := by
  have keep : Confined m w.hart w.hart := .of_same (.refl m _) (Nat.le_refl _)
  simp only [handleEbreak]
  split
  · exact .of_trap _ _ (by decide)
  · split
    · exact keep
    · simp only [trySemihosting]
      split <;> rename_i heq
      · split at heq
        · cases heq
        · cases heq
          exact .of_same { SameMachine.refl m w.hart with } (Nat.le_refl _)
      · split at heq
        · cases heq
          exact keep
        · cases heq

theorem privSret_confined (s : HartState) (instr : BitVec 32) (m : Word) :
    Confined m s (privSret s instr).1 := by
  by_cases hrank : s.mode.rank < Mode.S.rank
  · simp only [privSret, if_pos hrank]
    exact .of_trap _ _ (by decide)
  · have hst : ∀ i, machineStatus.getLsbD i = true →
        (privSret s instr).1.mstatus.getLsbD i = s.mstatus.getLsbD i := by
      intro i hi
      have := machineStatus_getLsbD hi
      exact privSret_mstatus s instr hrank (by omega) (by omega) (by omega)
    have hm := BitFields.and_mask_congr hst
    have hle : (if s.mstatus.getLsbD 8 then Mode.S else Mode.U).rank ≤ Mode.S.rank := by
      split <;> decide
    simp only [privSret, if_neg hrank] at hm ⊢
    exact .of_same { SameMachine.refl m s with mstatus := hm }
      (Nat.le_trans hle (Nat.not_lt.mp hrank))

theorem privWfi_confined (s : HartState) (instr : BitVec 32) (m : Word) :
    Confined m s (privWfi s instr).1 := by
  simp only [privWfi]
  split
  · exact .of_trap _ _ (by decide)
  · split
    · exact .of_same { SameMachine.refl m s with } (Nat.le_refl _)
    · split
      · exact .of_same (.refl m s) (Nat.le_refl _)
      · exact .of_same { SameMachine.refl m s with } (Nat.le_refl _)

/-- A zeroed hart in S mode with nothing delegated. -/
def supervisorWorld : World :=
  { World.zeroed ⟨0x80000000, 0x10000, 0, 0⟩ with hart := { HartState.zeroed with mode := .S } }

end Pyremu
