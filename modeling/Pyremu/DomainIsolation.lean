import Pyremu.Lib.Run
import Pyremu.Outcome

/-!
# Domain isolation below machine mode

CSR instructions executed in S or U mode should not reach the registers that
decide a PMP verdict. The PMP entries need M mode by their numbers. The domain
id and the split point carry numbers whose bits 9:8 ask for S mode only.
-/

namespace Pyremu

/-! ## Which numbers reach the protected registers -/

theorem mem_of_lookup {α β : Type} [BEq α] [LawfulBEq α] {xs : List (α × β)} {a : α} {b : β}
    (h : xs.lookup a = some b) : (a, b) ∈ xs := by
  induction xs with
  | nil => cases h
  | cons x xs ih =>
    obtain ⟨k, v⟩ := x
    rw [List.lookup_cons] at h
    cases hk : a == k with
    | true =>
      rw [hk] at h
      cases h
      rw [eq_of_beq hk]
      exact List.mem_cons_self
    | false =>
      rw [hk] at h
      exact List.mem_cons_of_mem _ (ih h)

theorem csrDecode_mdid {addr : BitVec 12} (h : csrDecode addr = .mdid) : addr = 0x5C0 := by
  simp only [csrDecode] at h
  split at h
  · rename_i hl
    subst h
    simpa [csrTable] using mem_of_lookup hl
  · repeat' split at h
    all_goals cases h

theorem csrDecode_pmpsplit {addr : BitVec 12} (h : csrDecode addr = .pmpsplit) : addr = 0x5C1 := by
  simp only [csrDecode] at h
  split at h
  · rename_i hl
    subst h
    simpa [csrTable] using mem_of_lookup hl
  · repeat' split at h
    all_goals cases h

/-- The numbers `0x300` to `0x3FF` ask for M mode. -/
theorem csrPrivReq_of_range {addr : BitVec 12} (hlo : 0x300 ≤ addr) (hhi : addr ≤ 0x3FF) :
    csrPrivReq addr = 3 := by
  have h : (csrPrivReq addr).toNat = addr.toNat / 256 % 4 := by
    simp [csrPrivReq, BitVec.extractLsb'_toNat, Nat.shiftRight_eq_div_pow]
  rw [BitVec.le_def] at hlo hhi
  apply BitVec.eq_of_toNat_eq
  rw [h]
  simp only [BitVec.ofNat_eq_ofNat, BitVec.toNat_ofNat] at hlo hhi ⊢
  omega

theorem csrDecode_pmpcfg {addr : BitVec 12} {n : Nat} (h : csrDecode addr = .pmpcfg n) :
    csrPrivReq addr = 3 := by
  simp only [csrDecode] at h
  split at h
  · rename_i hl
    subst h
    simpa [csrTable] using mem_of_lookup hl
  · split at h
    · cases h
    · split at h
      · cases h
      · split at h
        · rename_i hr
          refine csrPrivReq_of_range (BitVec.le_trans (by decide) hr.1) (BitVec.le_trans hr.2 (by decide))
        · split at h <;> cases h

theorem csrDecode_pmpaddr {addr : BitVec 12} {n : Nat} (h : csrDecode addr = .pmpaddr n) :
    csrPrivReq addr = 3 := by
  simp only [csrDecode] at h
  split at h
  · rename_i hl
    subst h
    simpa [csrTable] using mem_of_lookup hl
  · split at h
    · cases h
    · split at h
      · cases h
      · split at h
        · cases h
        · split at h
          · rename_i hr
            refine csrPrivReq_of_range (BitVec.le_trans (by decide) hr.1) (BitVec.le_trans hr.2 (by decide))
          · cases h

/-! ## One instruction -/

/-- Domain id, split point and PMP entries are the same. -/
def SameDomain (c c' : CsrCtx) : Prop :=
  c'.state.mdid = c.state.mdid ∧ c'.state.pmpsplit = c.state.pmpsplit ∧ c'.pmp = c.pmp

namespace SameDomain

variable {c c' c'' : CsrCtx}

theorem refl (c : CsrCtx) : SameDomain c c := ⟨rfl, rfl, rfl⟩

theorem trans (h : SameDomain c c') (h' : SameDomain c' c'') : SameDomain c c'' :=
  ⟨h'.1.trans h.1, h'.2.1.trans h.2.1, h'.2.2.trans h.2.2⟩

theorem of_frame (hs : InterruptFrame c.state c'.state) (hp : c'.pmp = c.pmp) :
    SameDomain c c' := by
  obtain ⟨_, _, _, _, _, _, h⟩ := hs
  exact ⟨by rw [h], by rw [h], hp⟩

theorem setGpr (c : CsrCtx) (rd : BitVec 5) (v : Word) :
    SameDomain c (c.setState (writeGpr c.state rd v)) := by
  simp only [writeGpr]
  split <;> exact ⟨rfl, rfl, rfl⟩

theorem illegal (c : CsrCtx) (tval : Word) :
    SameDomain c (c.setState (deliverIllegalInstruction c.state tval)) := by
  simp only [deliverIllegalInstruction, deliverTrap]
  split
  · exact ⟨rfl, rfl, rfl⟩
  · exact ⟨rfl, rfl, rfl⟩

end SameDomain

/-- The registers whose writes change the domain. -/
def CsrReg.isDomain : CsrReg → Bool
  | .mdid | .pmpsplit | .pmpcfg _ | .pmpaddr _ => true
  | _ => false

/-- Every other write leaves the domain alone. -/
theorem csrWriteReg_domain (cfg : Features) (c : CsrCtx) (r : CsrReg) (v : Word)
    (hr : r.isDomain = false) : SameDomain c (csrWriteReg cfg c r v).1 := by
  have keep : SameDomain c c := .refl c
  have fp : ∀ fcsr, SameDomain c
      (if fpOff c.state then (c, CsrStatus.ill)
        else (c.setState (fcsrWrite c.state fcsr), .ok)).1 := by
    intro fcsr
    split <;> exact ⟨rfl, rfl, rfl⟩
  have aia : ∀ c' : CsrCtx, SameDomain c c' →
      SameDomain c (if cfg.aia then (c', CsrStatus.ok) else (c, .ill)).1 := by
    intro c' h
    split
    · exact h
    · exact keep
  cases r with
  | mdid | pmpsplit => cases hr
  | pmpcfg n | pmpaddr n => cases hr
  | fflags | frm | fcsr => exact fp _
  | stimecmp =>
    simp only [csrWriteReg]
    split <;> exact ⟨rfl, rfl, rfl⟩
  | miselect | siselect => exact aia _ ⟨rfl, rfl, rfl⟩
  | mireg =>
    exact aia _ (@SameDomain.trans _ (c.setState { c.state with imsicM := _ }) _ ⟨rfl, rfl, rfl⟩
      (.of_frame (InterruptFrame.syncImsicOne _ true) rfl))
  | sireg =>
    exact aia _ (@SameDomain.trans _ (c.setState { c.state with imsicS := _ }) _ ⟨rfl, rfl, rfl⟩
      (.of_frame (InterruptFrame.syncImsicOne _ false) rfl))
  | mtopei => exact aia _ (.of_frame (InterruptFrame.topeiWrite _ _ _) rfl)
  | stopei => exact aia _ (.of_frame (InterruptFrame.topeiWrite _ _ _) rfl)
  | mtopi => exact aia _ (.of_frame (mtopiWrite_frame c v).1 (mtopiWrite_frame c v).2)
  | stopi => exact aia _ (.of_frame (stopiWrite_frame c v).1 (stopiWrite_frame c v).2)
  | _ => exact ⟨rfl, rfl, rfl⟩

/-- Below M mode, only the two numbers of the enclave registers reach the domain. -/
theorem isDomain_below_machine {mode : Mode} {addr : BitVec 12} (hm : mode = .S ∨ mode = .U)
    (hp : csrPrivOk mode (csrPrivReq addr) = true) (hd : (csrDecode addr).isDomain = true) :
    mode = .S ∧ (addr = 0x5C0 ∨ addr = 0x5C1) := by
  have hS : csrPrivReq addr = 1 → mode = .S := by
    intro h
    rw [h] at hp
    obtain rfl | rfl := hm
    · rfl
    · revert hp; decide
  have hM : csrPrivReq addr ≠ 3 := by
    intro h
    rw [h] at hp
    obtain rfl | rfl := hm <;> revert hp <;> decide
  cases hr : csrDecode addr with
  | mdid =>
    obtain rfl := csrDecode_mdid hr
    exact ⟨hS (by decide), .inl rfl⟩
  | pmpsplit =>
    obtain rfl := csrDecode_pmpsplit hr
    exact ⟨hS (by decide), .inr rfl⟩
  | pmpcfg n => exact absurd (csrDecode_pmpcfg hr) hM
  | pmpaddr n => exact absurd (csrDecode_pmpaddr hr) hM
  | _ => rw [hr] at hd; cases hd

theorem csrWrite_domain (cfg : Features) (c : CsrCtx) (addr : BitVec 12) (v : Word)
    (hm : c.state.mode = .S ∨ c.state.mode = .U)
    (h : ¬ (c.state.mode = .S ∧ (addr = 0x5C0 ∨ addr = 0x5C1))) :
    SameDomain c (csrWrite cfg c addr v).1 := by
  simp only [csrWrite]
  split
  · exact .refl c
  · rename_i hp
    apply csrWriteReg_domain cfg c _ v
    cases hd : (csrDecode addr).isDomain with
    | false => rfl
    | true => exact absurd (isDomain_below_machine hm (by simpa using hp) hd) h

/-- Operands of a CSR instruction. -/
structure CsrInstr where
  rd : BitVec 5
  rs1 : BitVec 5
  csrAddr : BitVec 12
  funct3 : BitVec 3
  instr : BitVec 32
  deriving DecidableEq, Repr

def CsrInstr.exec (cfg : Features) (c : CsrCtx) (i : CsrInstr) : CsrCtx :=
  (handleCsr cfg c i.rd i.rs1 i.csrAddr i.funct3 i.instr ⟨.normal, 0⟩).1

/-- The value the instruction would put into the register that holds `old`. -/
def CsrInstr.newVal (i : CsrInstr) (c : CsrCtx) (old : Word) : Option Word :=
  csrNewVal i.funct3 old (csrOperand c.state i.funct3 i.rs1)

/-- From S mode, a write of `mdid` or `pmpsplit` that changes the value. -/
def ChangesDomain (c : CsrCtx) (i : CsrInstr) : Prop :=
  c.state.mode = .S ∧
    ((i.csrAddr = 0x5C0 ∧ ∃ v, i.newVal c c.state.mdid = some v ∧ v ≠ c.state.mdid) ∨
      (i.csrAddr = 0x5C1 ∧
        ∃ v, i.newVal c (c.state.pmpsplit.setWidth 64) = some v ∧ v.setWidth 8 ≠ c.state.pmpsplit))

/-- An access that reads `old` without side effect and writes by `put`, spelled out. -/
theorem CsrInstr.exec_plain {cfg : Features} {c : CsrCtx} {i : CsrInstr} {old : Word}
    {put : Word → CsrCtx} (hr : csrRead cfg c i.csrAddr = (c, old, .ok))
    (hreg : csrDecode i.csrAddr ≠ .mtopei ∧ csrDecode i.csrAddr ≠ .stopei)
    (hw : ∀ v, csrWrite cfg c i.csrAddr v = (put v, .ok)) :
    i.exec cfg c =
      match i.newVal c old with
      | none => c.setState (deliverIllegalInstruction c.state (i.instr.setWidth 64))
      | some v => (put v).setState (writeGpr (put v).state i.rd old) := by
  simp only [CsrInstr.exec, handleCsr, hr, CsrInstr.newVal]
  cases csrNewVal i.funct3 old (csrOperand c.state i.funct3 i.rs1) with
  | none => rfl
  | some v => simp [hreg, hw]

theorem exec_mdid_iff {cfg : Features} {c : CsrCtx} {i : CsrInstr} (hm : c.state.mode = .S)
    (ha : i.csrAddr = 0x5C0) :
    SameDomain c (i.exec cfg c) ↔ ∀ v, i.newVal c c.state.mdid = some v → v = c.state.mdid := by
  have hd : csrDecode 0x5C0 = .mdid := by decide
  have hp : csrPrivOk .S (csrPrivReq 0x5C0) = true := by decide
  have hc : counterEnableBit 0x5C0 = none := by decide
  rw [@CsrInstr.exec_plain _ _ _ c.state.mdid (fun v => c.setState { c.state with mdid := v })
    (by simp only [ha, csrRead, hm, hp, counterOk, hc, hd, Bool.not_true, Bool.false_eq_true,
          ↓reduceIte]; rfl)
    (by rw [ha, hd]; decide)
    (by simp only [ha, csrWrite, hm, hp, hd, Bool.not_true, Bool.false_eq_true, ↓reduceIte]
        intro v; rw [← hm]; rfl)]
  cases i.newVal c c.state.mdid with
  | none => exact iff_of_true (.illegal _ _) (by simp)
  | some v =>
    have hg := SameDomain.setGpr (c.setState { c.state with mdid := v }) i.rd c.state.mdid
    constructor
    · intro h v' hv'
      cases hv'
      exact hg.1.symm.trans h.1
    · intro h
      have hput : SameDomain c (c.setState { c.state with mdid := v }) := ⟨h v rfl, rfl, rfl⟩
      exact hput.trans hg

theorem exec_pmpsplit_iff {cfg : Features} {c : CsrCtx} {i : CsrInstr} (hm : c.state.mode = .S)
    (ha : i.csrAddr = 0x5C1) :
    SameDomain c (i.exec cfg c) ↔
      ∀ v, i.newVal c (c.state.pmpsplit.setWidth 64) = some v → v.setWidth 8 = c.state.pmpsplit := by
  have hd : csrDecode 0x5C1 = .pmpsplit := by decide
  have hp : csrPrivOk .S (csrPrivReq 0x5C1) = true := by decide
  have hc : counterEnableBit 0x5C1 = none := by decide
  rw [@CsrInstr.exec_plain _ _ _ (c.state.pmpsplit.setWidth 64)
    (fun v => c.setState { c.state with pmpsplit := v.setWidth 8 })
    (by simp only [ha, csrRead, hm, hp, counterOk, hc, hd, Bool.not_true, Bool.false_eq_true,
          ↓reduceIte]; rfl)
    (by rw [ha, hd]; decide)
    (by simp only [ha, csrWrite, hm, hp, hd, Bool.not_true, Bool.false_eq_true, ↓reduceIte]
        intro v; rw [← hm]; rfl)]
  cases i.newVal c (c.state.pmpsplit.setWidth 64) with
  | none => exact iff_of_true (.illegal _ _) (by simp)
  | some v =>
    have hg := SameDomain.setGpr (c.setState { c.state with pmpsplit := v.setWidth 8 }) i.rd
      (c.state.pmpsplit.setWidth 64)
    constructor
    · intro h v' hv'
      cases hv'
      exact hg.2.1.symm.trans h.2.1
    · intro h
      have hput : SameDomain c (c.setState { c.state with pmpsplit := v.setWidth 8 }) :=
        ⟨rfl, h v rfl, rfl⟩
      exact hput.trans hg

/-- Away from the enclave registers an instruction below M mode keeps the domain. -/
theorem exec_other_domain (cfg : Features) (c : CsrCtx) (i : CsrInstr)
    (hm : c.state.mode = .S ∨ c.state.mode = .U)
    (h : ¬ (c.state.mode = .S ∧ (i.csrAddr = 0x5C0 ∨ i.csrAddr = 0x5C1))) :
    SameDomain c (i.exec cfg c) := by
  obtain ⟨s, hs, hread⟩ := csrRead_frame cfg c i.csrAddr
  have hsd : SameDomain c (c.setState s) := .of_frame hs rfl
  simp only [CsrInstr.exec, handleCsr]
  split <;> rename_i heq <;> rw [heq] at hread <;> subst hread
  · exact hsd.trans (.illegal _ _)
  · exact hsd
  · split
    · exact hsd.trans (.illegal _ _)
    · rename_i old _ new _
      split
      · have hack := topeiAck_frame (c.setState s) (decide (csrDecode i.csrAddr = .mtopei)) old
        exact (hsd.trans (.of_frame hack.1 hack.2)).trans (.setGpr _ _ _)
      · have hmode : (c.setState s).state.mode = c.state.mode := hs.mode
        have hw := hsd.trans (csrWrite_domain cfg (c.setState s) i.csrAddr new
          (by rw [hmode]; exact hm) (by rw [hmode]; exact h))
        split <;> rename_i hwr <;> rw [hwr] at hw
        · exact hw.trans (.illegal _ _)
        · exact hw
        · exact hw.trans (.setGpr _ _ _)

/-- One instruction below M mode keeps the domain unless it is a changing write. -/
theorem exec_domain_iff (cfg : Features) (c : CsrCtx) (i : CsrInstr)
    (hm : c.state.mode = .S ∨ c.state.mode = .U) :
    SameDomain c (i.exec cfg c) ↔ ¬ ChangesDomain c i := by
  by_cases henc : c.state.mode = .S ∧ (i.csrAddr = 0x5C0 ∨ i.csrAddr = 0x5C1)
  · obtain ⟨hS, ha | ha⟩ := henc
    · rw [exec_mdid_iff hS ha]
      simp [ChangesDomain, hS, ha]
    · rw [exec_pmpsplit_iff hS ha]
      simp [ChangesDomain, hS, ha]
  · exact iff_of_true (exec_other_domain cfg c i hm henc)
      fun h => henc ⟨h.1, h.2.imp (·.1) (·.1)⟩

/-- A CSR instruction keeps the mode or traps into S or M. -/
theorem exec_mode (cfg : Features) (c : CsrCtx) (i : CsrInstr) :
    (i.exec cfg c).state.mode = c.state.mode ∨ (i.exec cfg c).state.mode = .S ∨
      (i.exec cfg c).state.mode = .M := by
  obtain h | ⟨_, _, _, ⟨_, hM, _⟩ | ⟨_, hS, _⟩⟩ :=
    handleCsr_control cfg c i.rd i.rs1 i.csrAddr i.funct3 i.instr ⟨.normal, 0⟩
  · exact .inl h.2.1
  · exact .inr (.inr hM)
  · exact .inr (.inl hS)

/-! ## Runs -/

/-- The protected registers are those of `c₀`, and so is every PMP verdict for S and U mode. -/
def Isolated (c₀ c : CsrCtx) : Prop :=
  SameDomain c₀ c ∧
    ∀ (pa : Word) (n : Nat) (isWrite isExecute : Bool) (mode : Mode), mode = .S ∨ mode = .U →
      pmpCheck c.pmp pa n isWrite isExecute mode c.state.mstatus c.state.pmpsplit c.state.mdid =
        pmpCheck c₀.pmp pa n isWrite isExecute mode c₀.state.mstatus c₀.state.pmpsplit
          c₀.state.mdid

/-- Below M mode the verdict does not look at `mstatus`. -/
theorem SameDomain.isolated {c₀ c : CsrCtx} (h : SameDomain c₀ c) : Isolated c₀ c := by
  refine ⟨h, fun pa n isWrite isExecute mode hm => ?_⟩
  have heff : ∀ ms, pmpEffMode mode ms = mode := by
    intro ms
    obtain rfl | rfl := hm <;> simp [pmpEffMode]
  simp only [pmpCheck, heff, h.1, h.2.1, h.2.2]

/-- A run of CSR instructions from S or U mode, none of them executed in M mode, keeps
the domain in every state exactly when no step is a changing write. -/
theorem csr_run_isolated_iff (cfg : Features) (c₀ : CsrCtx)
    (hm : c₀.state.mode = .S ∨ c₀.state.mode = .U) (is : List CsrInstr)
    (hrun : Run.Along (CsrInstr.exec cfg) (fun c _ => c.state.mode ≠ .M) c₀ is) :
    Run.Always (CsrInstr.exec cfg) (Isolated c₀) c₀ is ↔
      Run.Along (CsrInstr.exec cfg) (fun c i => ¬ ChangesDomain c i) c₀ is := by
  refine Run.always_iff_along (I := fun c => c.state.mode = .S ∨ c.state.mode = .U ∨
    c.state.mode = .M) ?_ ?_ (by tauto) (SameDomain.refl c₀).isolated hrun
  · intro c i hi _
    obtain h | h | h := exec_mode cfg c i
    · rw [h]; exact hi
    · exact .inl h
    · exact .inr (.inr h)
  · intro c i hi hM hq
    rw [← exec_domain_iff cfg c i (by tauto)]
    constructor
    · intro h
      exact ⟨h.1.1.trans hq.1.1.symm, h.1.2.1.trans hq.1.2.1.symm, h.1.2.2.trans hq.1.2.2.symm⟩
    · intro h
      exact (hq.1.trans h).isolated

/-- A zeroed hart in S mode, outside every enclave. -/
def supervisorCtx : CsrCtx where
  state := { HartState.zeroed with mode := .S }
  externHartId := 0
  pmp := ⟨fun _ => 0, fun _ => 0, 0⟩
  clint := ⟨0, 0, fun _ => 0, fun _ => 0, 0, 1, none⟩

/-- `csrrwi x0, 0x5C0, 1` from S mode moves the hart into domain 1. -/
theorem supervisor_writes_mdid :
    ¬ Run.Always (CsrInstr.exec ⟨false, false, false, 0⟩) (Isolated supervisorCtx) supervisorCtx
      [⟨0, 1, 0x5C0, 5, 0x5C00D073⟩] := by
  rintro ⟨_, ⟨hmdid, _⟩, _⟩
  revert hmdid
  decide

/-- `csrrwi x0, sscratch, 1` from S mode keeps the domain. -/
theorem supervisor_writes_sscratch :
    Run.Always (CsrInstr.exec ⟨false, false, false, 0⟩) (Isolated supervisorCtx) supervisorCtx
      [⟨0, 1, 0x140, 5, 0x1400D073⟩] :=
  (csr_run_isolated_iff ⟨false, false, false, 0⟩ supervisorCtx (.inl rfl)
    [⟨0, 1, 0x140, 5, 0x1400D073⟩] ⟨nofun, trivial⟩).mpr
    ⟨fun h => by
      obtain ⟨_, ⟨ha, _⟩ | ⟨ha, _⟩⟩ := h <;> revert ha <;> decide, trivial⟩

end Pyremu
