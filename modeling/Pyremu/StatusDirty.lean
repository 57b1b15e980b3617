import Pyremu.DomainIsolation
import Pyremu.Expansion

/-!
# The dirty summary of `mstatus`

SD is a stored bit. Floating-point work sets it together with FS, and a write of
`mstatus` or `sstatus` keeps it while FS and XS take the written value. So SD
says whether a field is dirty for as long as no such write carries FS and XS
across the dirty encoding.
-/

namespace Pyremu

/-! ## Fields -/

def statusFs (m : Word) : BitVec 2 := m.extractLsb' 13 2
def statusXs (m : Word) : BitVec 2 := m.extractLsb' 15 2

/-- FS or XS is dirty. -/
def fieldDirty (m : Word) : Prop := statusFs m = 3 ∨ statusXs m = 3

instance (m : Word) : Decidable (fieldDirty m) := inferInstanceAs (Decidable (_ ∨ _))

/-- SD is set exactly when FS or XS is dirty. -/
def Summarised (m : Word) : Prop := m.getLsbD 63 = true ↔ fieldDirty m

instance (m : Word) : Decidable (Summarised m) := inferInstanceAs (Decidable (_ ↔ _))

def inFields (i : Nat) : Prop := 13 ≤ i ∧ i ≤ 16

instance (i : Nat) : Decidable (inFields i) := inferInstanceAs (Decidable (_ ∧ _))

theorem fieldDirty_iff (m : Word) : fieldDirty m ↔
    (m.getLsbD 13 = true ∧ m.getLsbD 14 = true) ∨ (m.getLsbD 15 = true ∧ m.getLsbD 16 = true) := by
  have two : ∀ k, m.extractLsb' k 2 = 3 ↔ m.getLsbD k = true ∧ m.getLsbD (k + 1) = true := by
    intro k
    refine (BitFields.extractLsb'_eq_allOnes_iff m).trans ⟨fun h => ?_, fun h i hi => ?_⟩
    · exact ⟨h 0 (by omega), h 1 (by omega)⟩
    · obtain rfl | rfl : i = 0 ∨ i = 1 := by omega
      · exact h.1
      · exact h.2
  exact or_congr (two 13) (two 15)

theorem fieldDirty_congr {m m' : Word} (h : ∀ i, inFields i → m'.getLsbD i = m.getLsbD i) :
    fieldDirty m' ↔ fieldDirty m := by
  rw [fieldDirty_iff, fieldDirty_iff, h 13 (by decide), h 14 (by decide), h 15 (by decide),
    h 16 (by decide)]

/-! ## Steps that keep the summary -/

/-- The status bits are untouched, or the unit has been marked dirty. -/
def KeepsSummary (s s' : HartState) : Prop :=
  (∀ i, inFields i ∨ i = 63 → s'.mstatus.getLsbD i = s.mstatus.getLsbD i) ∨ fsIsDirty s'

namespace KeepsSummary

variable {s s' s'' : HartState}

theorem of_mstatus (h : s'.mstatus = s.mstatus) : KeepsSummary s s' :=
  .inl fun i _ => by rw [h]

theorem refl (s : HartState) : KeepsSummary s s := of_mstatus rfl

theorem trans (h : KeepsSummary s s') (h' : KeepsSummary s' s'') : KeepsSummary s s'' := by
  obtain h' | h' := h'
  · obtain h | h := h
    · exact .inl fun i hi => (h' i hi).trans (h i hi)
    · right
      rw [fsIsDirty, BitFields.or_eq_self_iff] at h ⊢
      intro i hi
      have hb := fsMask_getLsbD hi
      rw [h' i (by simp only [inFields]; omega), h i hi]
  · exact .inr h'

/-- A marked unit is summarised, and equal bits say the same. -/
theorem summarised (h : KeepsSummary s s') (hs : Summarised s.mstatus) : Summarised s'.mstatus := by
  obtain h | h := h
  · rw [Summarised, h 63 (.inr rfl), fieldDirty_congr fun i hi => h i (.inl hi)]
    exact hs
  · rw [fsIsDirty, BitFields.or_eq_self_iff] at h
    refine iff_of_true (h 63 (by decide)) ((fieldDirty_iff _).mpr (.inl ?_))
    exact ⟨h 13 (by decide), h 14 (by decide)⟩

theorem setFsDirty (s s₁ : HartState) : KeepsSummary s (setFsDirty s₁) := by
  right
  rw [fsIsDirty, Pyremu.setFsDirty, BitVec.or_assoc, BitVec.or_self]

theorem fcsrWrite (s : HartState) (fcsr : BitVec 32) : KeepsSummary s (fcsrWrite s fcsr) := by
  right
  rw [fsIsDirty, Pyremu.fcsrWrite, BitVec.or_assoc s.mstatus, BitVec.or_assoc, BitVec.or_self]

theorem writeGpr (s : HartState) (rd : BitVec 5) (v : Word) : KeepsSummary s (writeGpr s rd v) := by
  simp only [Pyremu.writeGpr]
  split
  · exact .refl s
  · exact of_mstatus rfl

theorem deliverTrap (s : HartState) (code tval : Word) : KeepsSummary s (deliverTrap s code tval) :=
  .inl fun i hi => deliverTrap_mstatus s code tval (by simp only [inFields] at hi; omega)

theorem of_interrupt (h : InterruptFrame s s') : KeepsSummary s s' := by
  obtain ⟨_, _, _, _, _, _, rfl⟩ := h
  exact of_mstatus rfl

theorem of_quiet (h : QuietFrame s s') : KeepsSummary s s' := by
  obtain ⟨_, ht, hi⟩ := h
  exact (of_mstatus ht.mstatus).trans (of_interrupt hi)

theorem of_faulted {code : Word} (h : Faulted s s' code) : KeepsSummary s s' := by
  obtain ⟨s₁, tval, hq, -, rfl⟩ := h
  exact (of_quiet hq).trans (deliverTrap s₁ code tval)

end KeepsSummary

/-! ## CSR writes -/

/-- The two registers through which software writes FS and XS. -/
def CsrReg.holdsFields : CsrReg → Bool
  | .mstatus | .sstatus => true
  | _ => false

theorem csrWriteReg_summary (cfg : Features) (c : CsrCtx) (r : CsrReg) (v : Word)
    (hr : r.holdsFields = false) : KeepsSummary c.state (csrWriteReg cfg c r v).1.state := by
  have keep : KeepsSummary c.state c.state := .refl _
  have fp : ∀ fcsr, KeepsSummary c.state
      (if fpOff c.state then (c, CsrStatus.ill)
        else (c.setState (fcsrWrite c.state fcsr), .ok)).1.state := by
    intro fcsr
    split
    · exact keep
    · exact .fcsrWrite _ _
  have aia : ∀ c' : CsrCtx, KeepsSummary c.state c'.state →
      KeepsSummary c.state (if cfg.aia then (c', CsrStatus.ok) else (c, .ill)).1.state := by
    intro c' h
    split
    · exact h
    · exact keep
  cases r with
  | mstatus | sstatus => cases hr
  | fflags | frm | fcsr => exact fp _
  | stimecmp =>
    simp only [csrWriteReg]
    split
    · exact keep
    · exact .of_mstatus rfl
  | miselect | siselect => exact aia _ (.of_mstatus rfl)
  | mireg =>
    exact aia _ (@KeepsSummary.trans _ { c.state with imsicM := _ } _ (.of_mstatus rfl)
      (.of_interrupt (.syncImsicOne _ true)))
  | sireg =>
    exact aia _ (@KeepsSummary.trans _ { c.state with imsicS := _ } _ (.of_mstatus rfl)
      (.of_interrupt (.syncImsicOne _ false)))
  | mtopei => exact aia _ (.of_interrupt (.topeiWrite _ _ _))
  | stopei => exact aia _ (.of_interrupt (.topeiWrite _ _ _))
  | mtopi => exact aia _ (.of_interrupt (mtopiWrite_frame c v).1)
  | stopi => exact aia _ (.of_interrupt (stopiWrite_frame c v).1)
  | pmpaddr n =>
    simp only [csrWriteReg]
    split <;> exact keep
  | _ => exact .of_mstatus rfl

theorem sstatusWriteMask_getLsbD {i : Nat} (h : inFields i) : sstatusWriteMask.getLsbD i = true := by
  obtain ⟨h1, h2⟩ := h
  obtain rfl | rfl | rfl | rfl : i = 13 ∨ i = 14 ∨ i = 15 ∨ i = 16 := by omega
  all_goals decide

/-- A status write takes FS and XS from the value and leaves SD. -/
theorem csrWriteReg_fields (cfg : Features) (c : CsrCtx) {r : CsrReg} (v : Word)
    (hr : r.holdsFields = true) :
    (csrWriteReg cfg c r v).2 = .ok ∧
      (csrWriteReg cfg c r v).1.state.mstatus.getLsbD 63 = c.state.mstatus.getLsbD 63 ∧
      ∀ i, inFields i → (csrWriteReg cfg c r v).1.state.mstatus.getLsbD i = v.getLsbD i := by
  cases r with
  | mstatus =>
    refine ⟨rfl, ?_, fun i hi => ?_⟩
    · exact (BitFields.getLsbD_masked_write _ _ _ (by decide)).trans (if_pos (by decide))
    · have hsd : mstatusSd.getLsbD i = false := by
        rw [mstatusSd, getLsbD_bit 63 i (by decide)]
        simp only [inFields] at hi
        simp only [decide_eq_false_iff_not]
        omega
      refine (BitFields.getLsbD_masked_write _ _ _ ?_).trans (if_neg ?_)
      · simp only [inFields] at hi
        omega
      · rw [hsd]
        decide
  | sstatus =>
    refine ⟨rfl, ?_, fun i hi => ?_⟩
    · exact (BitFields.getLsbD_masked_write _ _ _ (by decide)).trans (if_neg (by decide))
    · refine (BitFields.getLsbD_masked_write _ _ _ ?_).trans (if_pos (sstatusWriteMask_getLsbD hi))
      simp only [inFields] at hi
      omega
  | _ => cases hr

/-- So the summary survives it exactly when the value is as dirty as what it replaces. -/
theorem csrWriteReg_summarised_iff (cfg : Features) (c : CsrCtx) {r : CsrReg} (v : Word)
    (hr : r.holdsFields = true) (hs : Summarised c.state.mstatus) :
    Summarised (csrWriteReg cfg c r v).1.state.mstatus ↔
      (fieldDirty v ↔ fieldDirty c.state.mstatus) := by
  obtain ⟨-, hsd, hf⟩ := csrWriteReg_fields cfg c v hr
  rw [Summarised, hsd, fieldDirty_congr hf]
  exact ⟨fun h => h.symm.trans hs, fun h => hs.trans h.symm⟩

/-- The access is to a status register and passes the privilege check. -/
def StatusAccess (s : HartState) (addr : BitVec 12) : Prop :=
  (csrDecode addr).holdsFields = true ∧ csrPrivOk s.mode (csrPrivReq addr) = true

instance (s : HartState) (addr : BitVec 12) : Decidable (StatusAccess s addr) :=
  inferInstanceAs (Decidable (_ ∧ _))

theorem csrWrite_summary (cfg : Features) (c : CsrCtx) (addr : BitVec 12) (v : Word)
    (h : ¬ StatusAccess c.state addr) : KeepsSummary c.state (csrWrite cfg c addr v).1.state := by
  simp only [csrWrite]
  split
  · exact .refl _
  · rename_i hp
    apply csrWriteReg_summary cfg c _ v
    cases hr : (csrDecode addr).holdsFields with
    | false => rfl
    | true => exact absurd ⟨hr, by simpa using hp⟩ h

theorem csrWrite_of_access (cfg : Features) (c : CsrCtx) {addr : BitVec 12} (v : Word)
    (h : StatusAccess c.state addr) :
    csrWrite cfg c addr v = csrWriteReg cfg c (csrDecode addr) v := by
  simp [csrWrite, h.2]

theorem csrWrite_summarised_iff (cfg : Features) (c : CsrCtx) (addr : BitVec 12) (v : Word)
    (hs : Summarised c.state.mstatus) :
    Summarised (csrWrite cfg c addr v).1.state.mstatus ↔
      (StatusAccess c.state addr → (fieldDirty v ↔ fieldDirty c.state.mstatus)) := by
  by_cases ha : StatusAccess c.state addr
  · rw [csrWrite_of_access cfg c v ha, csrWriteReg_summarised_iff cfg c v ha.1 hs]
    exact ⟨fun h _ => h, fun h => h ha⟩
  · exact iff_of_true ((csrWrite_summary cfg c addr v ha).summarised hs) fun h => absurd h ha

/-! ## CSR instructions -/

/-- No counter guards a status register. -/
theorem counterOk_of_access {s : HartState} {addr : BitVec 12} (h : StatusAccess s addr) :
    counterOk s addr = true := by
  have htable : ∀ x ∈ csrTable, x.2.holdsFields = true → counterEnableBit x.1 = none := by decide
  have hnone : counterEnableBit addr = none := by
    have hr := h.1
    simp only [csrDecode] at hr
    split at hr
    · rename_i r hl
      exact htable (addr, r) (mem_of_lookup hl) hr
    · repeat' split at hr
      all_goals cases hr
  simp only [counterOk, hnone]

/-- A status register reads FS and XS as they are. -/
theorem csrRead_of_access (cfg : Features) {c : CsrCtx} {addr : BitVec 12}
    (h : StatusAccess c.state addr) :
    ∃ old, csrRead cfg c addr = (c, old, .ok) ∧
      ∀ i, inFields i → old.getLsbD i = c.state.mstatus.getLsbD i := by
  have hread : csrRead cfg c addr = csrReadReg cfg c (csrDecode addr) := by
    simp [csrRead, h.2, counterOk_of_access h]
  rw [hread]
  obtain ⟨hr, -⟩ := h
  cases hd : csrDecode addr with
  | mstatus => exact ⟨_, rfl, fun i _ => rfl⟩
  | sstatus =>
    refine ⟨_, rfl, fun i hi => ?_⟩
    have hmask := sstatusWriteMask_getLsbD hi
    rw [sstatusWriteMask, BitVec.getLsbD_and, Bool.and_eq_true] at hmask
    rw [BitVec.getLsbD_and, hmask.1, Bool.and_true]
  | _ =>
    rw [hd] at hr
    cases hr

/-- The operand of a CSR instruction leaves a status of `m` as dirty as it is: what
replaces it is as dirty, what is set in it does not make it dirty, what is cleared
does not clean it. -/
def OperandKeeps (m : Word) (funct3 : BitVec 3) (x : Word) : Prop :=
  match funct3.extractLsb' 0 2 with
  | 1 => fieldDirty x ↔ fieldDirty m
  | 2 => fieldDirty (m ||| x) → fieldDirty m
  | 3 => fieldDirty m → fieldDirty (m &&& ~~~x)
  | 0 => True

theorem fieldDirty_mono {m m' : Word} (h : ∀ i, m.getLsbD i = true → m'.getLsbD i = true)
    (hd : fieldDirty m) : fieldDirty m' := by
  rw [fieldDirty_iff] at hd ⊢
  exact hd.imp (And.imp (h 13) (h 14)) (And.imp (h 15) (h 16))

theorem operandKeeps_iff {m old x new : Word} {funct3 : BitVec 3}
    (hold : ∀ i, inFields i → old.getLsbD i = m.getLsbD i)
    (hnew : csrNewVal funct3 old x = some new) :
    OperandKeeps m funct3 x ↔ (fieldDirty new ↔ fieldDirty m) := by
  simp only [csrNewVal] at hnew
  simp only [OperandKeeps]
  generalize funct3.extractLsb' 0 2 = k at hnew ⊢
  split at hnew
  · cases hnew
    exact Iff.rfl
  · cases hnew
    have hor : fieldDirty (old ||| x) ↔ fieldDirty (m ||| x) :=
      fieldDirty_congr fun i hi => by rw [BitVec.getLsbD_or, BitVec.getLsbD_or, hold i hi]
    have hmono : fieldDirty m → fieldDirty (m ||| x) :=
      fieldDirty_mono fun i hi => by rw [BitVec.getLsbD_or, hi, Bool.true_or]
    rw [hor]
    exact ⟨fun h => ⟨h, hmono⟩, fun h => h.mp⟩
  · cases hnew
    have hand : fieldDirty (old &&& ~~~x) ↔ fieldDirty (m &&& ~~~x) :=
      fieldDirty_congr fun i hi => by rw [BitVec.getLsbD_and, BitVec.getLsbD_and, hold i hi]
    have hmono : fieldDirty (m &&& ~~~x) → fieldDirty m :=
      fieldDirty_mono fun i hi => by
        rw [BitVec.getLsbD_and, Bool.and_eq_true] at hi
        exact hi.1
    rw [hand]
    exact ⟨fun h => ⟨hmono, h⟩, fun h => h.mpr⟩
  · cases hnew

theorem operandKeeps_of_none {m old x : Word} {funct3 : BitVec 3}
    (h : csrNewVal funct3 old x = none) : OperandKeeps m funct3 x := by
  simp only [csrNewVal] at h
  simp only [OperandKeeps]
  generalize funct3.extractLsb' 0 2 = k at h ⊢
  split at h
  · cases h
  · cases h
  · cases h
  · trivial

theorem handleCsr_summary (cfg : Features) (c : CsrCtx) (rd rs1 : BitVec 5) (addr : BitVec 12)
    (funct3 : BitVec 3) (instr : BitVec 32) (g : InstrToBeExec) (h : ¬ StatusAccess c.state addr) :
    KeepsSummary c.state (handleCsr cfg c rd rs1 addr funct3 instr g).1.state := by
  obtain ⟨s, hs, hread⟩ := csrRead_frame cfg c addr
  have hk := KeepsSummary.of_interrupt hs
  simp only [handleCsr]
  split <;> rename_i heq <;> rw [heq] at hread <;> subst hread
  · exact hk.trans (.deliverTrap _ _ _)
  · exact hk
  · split
    · exact hk.trans (.deliverTrap _ _ _)
    · rename_i old _ new _
      split
      · refine (hk.trans ?_).trans (.writeGpr _ _ _)
        exact .of_interrupt (topeiAck_frame (c.setState s) _ old).1
      · have hno : ¬ StatusAccess (c.setState s).state addr := by
          simpa only [StatusAccess, CsrCtx.setState, hs.mode] using h
        have hw := hk.trans (csrWrite_summary cfg (c.setState s) addr new hno)
        split <;> rename_i hwr <;> rw [hwr] at hw
        · exact hw.trans (.deliverTrap _ _ _)
        · exact hw
        · exact hw.trans (.writeGpr _ _ _)

/-- A CSR instruction on a status register that computes a value stores it. -/
theorem handleCsr_of_access (cfg : Features) {c : CsrCtx} (rd rs1 : BitVec 5) {addr : BitVec 12}
    {funct3 : BitVec 3} (instr : BitVec 32) (g : InstrToBeExec) {old new : Word}
    (h : StatusAccess c.state addr) (hread : csrRead cfg c addr = (c, old, .ok))
    (hnew : csrNewVal funct3 old (csrOperand c.state funct3 rs1) = some new) :
    (handleCsr cfg c rd rs1 addr funct3 instr g).1.state =
      writeGpr (csrWriteReg cfg c (csrDecode addr) new).1.state rd old := by
  have hne : ¬ (csrDecode addr = .mtopei ∨ csrDecode addr = .stopei) := by
    rintro (he | he) <;> have hr := h.1 <;> rw [he] at hr <;> cases hr
  have hok := (csrWriteReg_fields cfg c new h.1).1
  simp only [handleCsr, hread, hnew, if_neg hne, csrWrite_of_access cfg c new h]
  generalize csrWriteReg cfg c (csrDecode addr) new = r at hok ⊢
  obtain ⟨c', st⟩ := r
  cases hok
  rfl

theorem handleCsr_summarised_iff (cfg : Features) (c : CsrCtx) (rd rs1 : BitVec 5)
    (addr : BitVec 12) (funct3 : BitVec 3) (instr : BitVec 32) (g : InstrToBeExec)
    (hs : Summarised c.state.mstatus) :
    Summarised (handleCsr cfg c rd rs1 addr funct3 instr g).1.state.mstatus ↔
      (StatusAccess c.state addr →
        OperandKeeps c.state.mstatus funct3 (csrOperand c.state funct3 rs1)) := by
  by_cases ha : StatusAccess c.state addr
  · obtain ⟨old, hread, hold⟩ := csrRead_of_access cfg ha
    cases hnew : csrNewVal funct3 old (csrOperand c.state funct3 rs1) with
    | none =>
      -- The fourth encoding traps before anything is written.
      have htrap : KeepsSummary c.state (handleCsr cfg c rd rs1 addr funct3 instr g).1.state := by
        simp only [handleCsr, hread, hnew]
        exact .deliverTrap _ _ _
      exact iff_of_true (htrap.summarised hs) fun _ => operandKeeps_of_none hnew
    | some new =>
      have hgpr : (writeGpr (csrWriteReg cfg c (csrDecode addr) new).1.state rd old).mstatus =
          (csrWriteReg cfg c (csrDecode addr) new).1.state.mstatus := by
        simp only [writeGpr]
        split <;> rfl
      rw [handleCsr_of_access cfg rd rs1 instr g ha hread hnew, hgpr,
        csrWriteReg_summarised_iff cfg c new ha.1 hs, ← operandKeeps_iff hold hnew]
      exact ⟨fun h _ => h, fun h => h ha⟩
  · exact iff_of_true ((handleCsr_summary cfg c rd rs1 addr funct3 instr g ha).summarised hs)
      fun h => absurd h ha

/-! ## Floating-point instructions -/

theorem finishFp_summary (s : HartState) (rd : BitVec 5) (instr : BitVec 32) (out : Option FpOut) :
    KeepsSummary s (finishFp s rd instr out).1 := by
  cases out with
  | none => exact .deliverTrap _ _ _
  | some o => exact .setFsDirty _ _

theorem handleFpOp_summary (sf : SoftFloat) (s : HartState) (f : DecodedFields)
    (instr : BitVec 32) : KeepsSummary s (handleFpOp sf s f instr).1 := by
  simp only [handleFpOp]
  split
  · exact .deliverTrap _ _ _
  · exact finishFp_summary _ _ _ _

theorem handleFpFma_summary (sf : SoftFloat) (s : HartState) (f : DecodedFields)
    (instr : BitVec 32) : KeepsSummary s (handleFpFma sf s f instr).1 := by
  simp only [handleFpFma]
  split
  · exact .deliverTrap _ _ _
  · exact finishFp_summary _ _ _ _

section Access

variable {cfg : Features} {w w' : World} {va pa v : Word} {n : Nat} {instr : BitVec 32}

theorem translateAccess_summary (cfg : Features) (w : World) (va : Word) (rwx : Rwx) (n : Nat)
    (ac ft pt : Word) :
    KeepsSummary w.hart (translateAccess cfg w va rwx n ac ft pt).1.hart := by
  have hk := KeepsSummary.of_quiet (.of_tlb (w.translate_frame cfg va rwx).hart)
  simp only [translateAccess]
  split <;> rename_i heq <;> rw [heq] at hk
  · rename_i w1 f
    cases f with
    | pageFault cause => exact hk.trans (.deliverTrap _ _ _)
    | accessFault => exact hk.trans (.deliverTrap _ _ _)
  · split
    · exact hk
    · exact hk.trans (.deliverTrap _ _ _)

theorem loadTail_summary {s : HartState} {done : World → Word → World}
    (hk : KeepsSummary s w.hart) (hdone : ∀ w v, KeepsSummary w.hart (done w v).hart) :
    KeepsSummary s (loadTail cfg w va pa n instr done).1.hart := by
  simp only [loadTail]
  split
  · exact hk
  · split
    · exact hk.trans (.deliverTrap _ _ _)
    · split <;> rename_i heq
      · obtain ⟨code, hf⟩ := loadRam_none heq
        exact hk.trans (.of_faulted hf)
      · exact (hk.trans (.of_quiet (loadRam_some heq))).trans (hdone _ _)

theorem storeTail_summary {s : HartState} (hk : KeepsSummary s w.hart) :
    KeepsSummary s (storeTail cfg w va pa v n instr).1.hart := by
  simp only [storeTail]
  split
  · exact hk
  · split
    · exact hk.trans (.deliverTrap _ _ _)
    · split <;> rename_i heq
      · obtain ⟨code, hf⟩ := storeRam_false heq
        exact hk.trans (.of_faulted hf)
      · exact hk.trans (.of_quiet (storeRam_true heq))

theorem handleFpLoad_summary (cfg : Features) (w : World) (f : DecodedFields)
    (instr : BitVec 32) : KeepsSummary w.hart (handleFpLoad cfg w f instr).1.hart := by
  simp only [handleFpLoad]
  split
  · exact .deliverTrap _ _ _
  · split
    · exact .deliverTrap _ _ _
    · rename_i n _
      have ha := translateAccess_summary cfg w (readGpr w.hart f.rs1 + f.imm12Se) .read n
        Exc.ldAccessFault (readGpr w.hart f.rs1 + f.imm12Se) (readGpr w.hart f.rs1 + f.imm12Se)
      split <;> rename_i heq <;> rw [heq] at ha
      · exact ha
      · rename_i w1 pa
        have hk := ha.trans (.of_interrupt (DeviceFrame.tryVirtio w1 pa false 0).hart)
        split <;> rename_i hdev <;> rw [hdev] at hk
        · exact .setFsDirty _ _
        · exact loadTail_summary hk fun _ _ => .setFsDirty _ _

theorem handleFpStore_summary (cfg : Features) (w : World) (f : DecodedFields)
    (instr : BitVec 32) : KeepsSummary w.hart (handleFpStore cfg w f instr).1.hart := by
  simp only [handleFpStore]
  split
  · exact .deliverTrap _ _ _
  · split
    · exact .deliverTrap _ _ _
    · rename_i n _
      have ha := translateAccess_summary cfg w (readGpr w.hart f.rs1 + f.immS) .write n
        Exc.stAccessFault (readGpr w.hart f.rs1 + f.immS) (readGpr w.hart f.rs1 + f.immS)
      split <;> rename_i heq <;> rw [heq] at ha
      · exact ha
      · rename_i w1 pa
        have hk := ha.trans (.of_interrupt (DeviceFrame.tryVirtio w1 pa true (w1.hart.fprs f.rs2)).hart)
        split <;> rename_i hdev <;> rw [hdev] at hk
        · exact hk
        · exact storeTail_summary hk

/-! ### Compressed forms -/

theorem loadMemCompressed_summary (cfg : Features) (w : World) (va : Word) (n : Nat)
    (iw : BitVec 32) (g : InstrToBeExec) :
    KeepsSummary w.hart (loadMemCompressed cfg w va n iw g).1.hart := by
  have ha := translateAccess_summary cfg w va .read n Exc.ldAccessFault va va
  simp only [loadMemCompressed]
  split <;> rename_i heq <;> rw [heq] at ha
  · exact ha
  · rename_i w1 pa
    have hk := ha.trans (.of_interrupt (DeviceFrame.serialDevice cfg w1 pa false 0 n).hart)
    split <;> rename_i hdev <;> rw [hdev] at hk
    · exact hk
    · split <;> exact hk

theorem storeMemCompressed_summary (cfg : Features) (w : World) (va v : Word) (n : Nat)
    (iw : BitVec 32) (g : InstrToBeExec) :
    KeepsSummary w.hart (storeMemCompressed cfg w va v n iw g).1.hart := by
  have ha := translateAccess_summary cfg w va .write n Exc.stAccessFault va va
  simp only [storeMemCompressed]
  split <;> rename_i heq <;> rw [heq] at ha
  · exact ha
  · rename_i w1 pa
    have hk := ha.trans (.of_interrupt (DeviceFrame.serialDevice cfg w1 pa true v n).hart)
    split <;> rename_i hdev <;> rw [hdev] at hk
    · exact hk
    · split <;> exact hk

theorem compressedLoad_summary {iw : BitVec 32} {g : InstrToBeExec} {done : World → Word → World}
    (hdone : ∀ w v, KeepsSummary w.hart (done w v).hart) :
    KeepsSummary w.hart (compressedLoad cfg w va n iw g done).1.hart := by
  have hk := loadMemCompressed_summary cfg w va n iw g
  simp only [compressedLoad]
  split <;> rename_i heq <;> rw [heq] at hk
  · exact hk
  · split
    · exact hk
    · exact hk.trans (hdone _ _)

theorem compressedStore_summary {iw : BitVec 32} {g : InstrToBeExec} {done : World → World}
    (hdone : ∀ w, KeepsSummary w.hart (done w).hart) :
    KeepsSummary w.hart (compressedStore cfg w va v n iw g done).1.hart := by
  have hk := storeMemCompressed_summary cfg w va v n iw g
  simp only [compressedStore]
  split
  · exact hk
  · exact hk.trans (hdone _)

theorem handleC0_summary (cfg : Features) (w : World) (cf : CompressedFields) (iw : BitVec 32)
    (g : InstrToBeExec) : KeepsSummary w.hart (handleC0 cfg w cf iw g).1.hart := by
  simp only [handleC0]
  split
  · split
    · exact .deliverTrap _ _ _
    · exact .writeGpr _ _ _
  · exact compressedLoad_summary fun _ _ => .setFsDirty _ _
  · exact compressedLoad_summary fun _ _ => .writeGpr _ _ _
  · exact compressedLoad_summary fun _ _ => .writeGpr _ _ _
  · exact compressedStore_summary fun _ => .setFsDirty _ _
  · exact compressedStore_summary fun _ => .refl _
  · exact compressedStore_summary fun _ => .refl _
  · exact .deliverTrap _ _ _

theorem handleC1_summary (s : HartState) (cf : CompressedFields) (iw : BitVec 32) :
    KeepsSummary s (handleC1 s cf iw).1 := by
  simp only [handleC1]
  split
  · exact .writeGpr _ _ _
  · exact .writeGpr _ _ _
  · exact .writeGpr _ _ _
  · split
    · exact .refl _
    · split
      · exact .of_mstatus rfl
      · exact .writeGpr _ _ _
  · split
    · exact .writeGpr _ _ _
    · exact .deliverTrap _ _ _
  · exact .of_mstatus rfl
  · split <;> exact .of_mstatus rfl
  · split <;> exact .of_mstatus rfl

theorem handleC2Reg_summary (cfg : Features) (s : HartState) (cf : CompressedFields) :
    KeepsSummary s (handleC2Reg cfg s cf).1 := by
  simp only [handleC2Reg]
  split
  · split
    · exact .deliverTrap _ _ _
    · exact .refl _
  · split
    · split <;> exact .of_mstatus rfl
    · split <;> exact .writeGpr _ _ _

theorem handleC2_summary (cfg : Features) (w : World) (cf : CompressedFields) (iw : BitVec 32)
    (g : InstrToBeExec) : KeepsSummary w.hart (handleC2 cfg w cf iw g).1.hart := by
  have hill : KeepsSummary w.hart (w.illegal iw).hart := .deliverTrap _ _ _
  simp only [handleC2]
  split
  · exact .writeGpr _ _ _
  · split
    · exact hill
    · exact compressedLoad_summary fun _ _ => .setFsDirty _ _
  · split
    · exact hill
    · exact compressedLoad_summary fun _ _ => .writeGpr _ _ _
  · split
    · exact hill
    · exact compressedLoad_summary fun _ _ => .writeGpr _ _ _
  · exact handleC2Reg_summary cfg w.hart cf
  · split
    · exact hill
    · exact compressedStore_summary fun _ => .setFsDirty _ _
  · exact compressedStore_summary fun _ => .refl _
  · exact compressedStore_summary fun _ => .refl _

theorem handleCompressed_summary (cfg : Features) (w : World) (half : BitVec 16)
    (iw : BitVec 32) (g : InstrToBeExec) :
    KeepsSummary w.hart (handleCompressed cfg w half iw g).1.hart := by
  simp only [handleCompressed]
  split
  · exact handleC0_summary cfg w _ iw g
  · exact handleC1_summary w.hart _ iw
  · exact handleC2_summary cfg w _ iw g
  · exact .deliverTrap _ _ _

end Access

/-! ## Returns -/

theorem privMret_summary (s : HartState) (instr : BitVec 32) :
    KeepsSummary s (privMret s instr).1 := by
  by_cases hm : s.mode = .M
  · left
    intro i hi
    simp only [inFields] at hi
    exact privMret_mstatus s instr hm (by omega) (by omega) (by omega) (by omega)
  · simp only [privMret, ne_eq, hm, not_false_eq_true, ↓reduceIte]
    exact .deliverTrap _ _ _

theorem privSret_summary (s : HartState) (instr : BitVec 32) :
    KeepsSummary s (privSret s instr).1 := by
  by_cases hm : s.mode.rank < Mode.S.rank
  · simp only [privSret, if_pos hm]
    exact .deliverTrap _ _ _
  · left
    intro i hi
    simp only [inFields] at hi
    exact privSret_mstatus s instr hm (by omega) (by omega) (by omega)

/-! ## Runs -/

/-- What reaches FS, XS or SD. Addresses and encodings are arbitrary. -/
inductive StatusOp where
  | csrWrite (addr : BitVec 12) (v : Word)
  | csr (rd rs1 : BitVec 5) (addr : BitVec 12) (funct3 : BitVec 3) (instr : BitVec 32)
  | fpOp (f : DecodedFields) (instr : BitVec 32)
  | fpFma (f : DecodedFields) (instr : BitVec 32)
  | fpLoad (f : DecodedFields) (instr : BitVec 32)
  | fpStore (f : DecodedFields) (instr : BitVec 32)
  | compressed (half : BitVec 16) (instrWord : BitVec 32)
  | trap (code tval : Word)
  | mret (instr : BitVec 32)
  | sret (instr : BitVec 32)

def statusStep (cfg : Features) (sf : SoftFloat) (w : World) : StatusOp → World
  | .csrWrite addr v => w.setCsrCtx (csrWrite cfg w.csrCtx addr v).1
  | .csr rd rs1 addr funct3 instr =>
    w.setCsrCtx (handleCsr cfg w.csrCtx rd rs1 addr funct3 instr ⟨.normal, 0⟩).1
  | .fpOp f instr => (w.onHart (handleFpOp sf w.hart f instr)).1
  | .fpFma f instr => (w.onHart (handleFpFma sf w.hart f instr)).1
  | .fpLoad f instr => (handleFpLoad cfg w f instr).1
  | .fpStore f instr => (handleFpStore cfg w f instr).1
  | .compressed half instrWord => (handleCompressed cfg w half instrWord ⟨.normal, 0⟩).1
  | .trap code tval => w.setHart (deliverTrap w.hart code tval)
  | .mret instr => (w.onHart (privMret w.hart instr)).1
  | .sret instr => (w.onHart (privSret w.hart instr)).1

/-- A write of `mstatus` or `sstatus` that takes effect leaves FS and XS as dirty as
they are; nothing is asked of other operations. -/
def KeepsDirtiness (w : World) : StatusOp → Prop
  | .csrWrite addr v =>
    StatusAccess w.hart addr → (fieldDirty v ↔ fieldDirty w.hart.mstatus)
  | .csr _ rs1 addr funct3 _ =>
    StatusAccess w.hart addr →
      OperandKeeps w.hart.mstatus funct3 (csrOperand w.hart funct3 rs1)
  | _ => True

theorem statusStep_summarised_iff (cfg : Features) (sf : SoftFloat) (w : World) (op : StatusOp)
    (hs : Summarised w.hart.mstatus) :
    Summarised (statusStep cfg sf w op).hart.mstatus ↔ KeepsDirtiness w op := by
  have other : ∀ {s}, KeepsSummary w.hart s → (Summarised s.mstatus ↔ True) :=
    fun hk => iff_of_true (hk.summarised hs) trivial
  cases op with
  | csrWrite addr v => exact csrWrite_summarised_iff cfg w.csrCtx addr v hs
  | csr rd rs1 addr funct3 instr =>
    exact handleCsr_summarised_iff cfg w.csrCtx rd rs1 addr funct3 instr _ hs
  | fpOp f instr => exact other (handleFpOp_summary sf w.hart f instr)
  | fpFma f instr => exact other (handleFpFma_summary sf w.hart f instr)
  | fpLoad f instr => exact other (handleFpLoad_summary cfg w f instr)
  | fpStore f instr => exact other (handleFpStore_summary cfg w f instr)
  | compressed half iw => exact other (handleCompressed_summary cfg w half iw _)
  | trap code tval => exact other (.deliverTrap w.hart code tval)
  | mret instr => exact other (privMret_summary w.hart instr)
  | sret instr => exact other (privSret_summary w.hart instr)

/-- From a summarised state, SD says in every state of a run whether FS or XS is
dirty exactly when each status write of the run leaves them as dirty as they were. -/
theorem sd_summarises_iff (cfg : Features) (sf : SoftFloat) (w : World) (ops : List StatusOp)
    (hs : Summarised w.hart.mstatus) :
    Run.Always (statusStep cfg sf) (fun w => Summarised w.hart.mstatus) w ops ↔
      Run.Along (statusStep cfg sf) KeepsDirtiness w ops :=
  Run.always_iff_along (I := fun _ => True) (fun _ _ _ _ => trivial)
    (fun w op _ _ hq => statusStep_summarised_iff cfg sf w op hq) trivial hs Run.along_true

/-- The guest turns the unit on, writes `fcsr`, takes an illegal-instruction trap,
stores a dirty FS again and returns. -/
theorem dirty_rewrite_summarised :
    let w := plainWorld .zeroed
    let ops : List StatusOp := [.csrWrite 0x300 0x2000, .csr 0 1 0x003 1 0x00309073, .trap 2 0,
      .csrWrite 0x300 0x6000, .mret 0x30200073]
    Summarised w.hart.mstatus ∧
      Run.Always (statusStep ⟨false, false, false, 0⟩ default)
        (fun w => Summarised w.hart.mstatus) w ops := by
  refine ⟨by decide, (sd_summarises_iff _ _ _ _ (by decide)).mpr ?_⟩
  refine ⟨fun _ => by decide, fun h => absurd h (by decide), trivial, fun _ => by decide, trivial,
    trivial⟩

/-- `csrw mstatus` with FS dirty leaves SD clear, and turning FS off again after a
write of `fcsr` leaves SD set. -/
theorem status_write_strands_sd :
    let run := fun ops => List.foldl (statusStep ⟨false, false, false, 0⟩ default)
      (plainWorld .zeroed) ops
    Summarised (run []).hart.mstatus ∧
      ¬ Summarised (run [.csrWrite 0x300 0x6000]).hart.mstatus ∧
      ¬ Summarised
        (run [.csrWrite 0x300 0x2000, .csrWrite 0x003 0, .csrWrite 0x100 0]).hart.mstatus := by
  decide

end Pyremu
