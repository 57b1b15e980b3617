import Pyremu.OpDispatcher
import Pyremu.PreciseLoad

/-!
# NaN boxing

A single is a 64-bit register whose upper half is all ones. An operand of any
other form counts as the canonical NaN, except for the two moves, which carry
bits.
-/

namespace Pyremu

/-! ## What the instruction set says -/

section Isa

variable (funct7 : BitVec 7) (funct3 : BitVec 3) (rs2 : BitVec 5) (frm : BitVec 3)

def opFmt : BitVec 2 := funct7.extractLsb' 0 2
def opClass : BitVec 5 := funct7.extractLsb' 2 5

def Boxed (x : Word) : Prop := x &&& nanboxS = nanboxS

instance (x : Word) : Decidable (Boxed x) := inferInstanceAs (Decidable (_ = _))

/-- The canonical NaN in place of an operand that is not boxed. -/
def canonS (x : Word) : Word := if Boxed x then x else boxS 0x7fc00000

/-- The source in `rs1` is an integer register. -/
def GprSource : Prop := opClass funct7 = 0x1a ∨ opClass funct7 = 0x1e

/-- The floating-point sources are single: the format says so, except for the conversions between
formats, where it is that of the result. -/
def SingleSource : Prop :=
  (opFmt funct7 = 0 ∧ opClass funct7 ≠ 0x08) ∨ (opFmt funct7 = 1 ∧ opClass funct7 = 0x08)

/-- FMV.X.W, FMV.X.D, FMV.W.X and FMV.D.X. -/
def IsMove : Prop := (opClass funct7 = 0x1c ∧ funct3 = 0) ∨ opClass funct7 = 0x1e

/-- The result goes to an integer register: comparison, conversion to an integer, move and class. -/
def ToGpr : Prop := opClass funct7 = 0x14 ∨ opClass funct7 = 0x18 ∨ opClass funct7 = 0x1c

/-- The rounding mode is 5 or 6, or dynamic with `frm` above 4. -/
def BadRounding : Prop := funct3 = 5 ∨ funct3 = 6 ∨ (funct3 = 7 ∧ 4 < frm)

def Rounds : Prop :=
  opClass funct7 = 0x00 ∨ opClass funct7 = 0x01 ∨ opClass funct7 = 0x02 ∨ opClass funct7 = 0x03 ∨
    opClass funct7 = 0x0b ∨ opClass funct7 = 0x18 ∨ opClass funct7 = 0x1a ∨ opClass funct7 = 0x08

/-- Square root, move to an integer, class, move from an integer, and FCVT.D.S. -/
def Rs2Zero : Prop :=
  opClass funct7 = 0x0b ∨ opClass funct7 = 0x1c ∨ opClass funct7 = 0x1e ∨
    (opClass funct7 = 0x08 ∧ opFmt funct7 = 1)

def ReservedOp : Prop :=
  (opFmt funct7 ≠ 0 ∧ opFmt funct7 ≠ 1) ∨ (Rounds funct7 ∧ BadRounding funct3 frm) ∨
    (Rs2Zero funct7 ∧ rs2 ≠ 0)

/-- The four moves and FCLASS in a supported format. -/
def MoveOrClass : Prop :=
  (opFmt funct7 = 0 ∨ opFmt funct7 = 1) ∧
    ((opClass funct7 = 0x1c ∧ (funct3 = 0 ∨ funct3 = 1)) ∨ (opClass funct7 = 0x1e ∧ funct3 = 0))

end Isa

instance (funct7 : BitVec 7) : Decidable (GprSource funct7) := inferInstanceAs (Decidable (_ ∨ _))

section Claim

variable (sf : SoftFloat) (s : HartState) (f : DecodedFields) (instr : BitVec 32)

/-- An illegal-instruction trap that leaves registers, `fcsr` and FS. -/
structure Refuses (r : HartState × Word) : Prop where
  trap : r = (deliverIllegalInstruction s (instr.setWidth 64), 0)
  regs : SameRegs s r.1
  fcsr : r.1.fcsr = s.fcsr

structure OpConforms : Prop where
  operands : SingleSource f.func7 → ¬ IsMove f.func7 f.func3 → fpOff s = false →
    handleFpOp sf s f instr = finishFp s f.rd instr (fpExecOp sf f.func7 f.func3 f.rs2
      (if GprSource f.func7 then readGpr s f.rs1 else canonS (s.fprs f.rs1)) (canonS (s.fprs f.rs2)) (curFrm s))
  results : opFmt f.func7 = 0 → ¬ ToGpr f.func7 → (handleFpOp sf s f instr).2 = 4 →
    Boxed ((handleFpOp sf s f instr).1.fprs f.rd)
  fmvXW : f.func7 = 0x70 → f.func3 = 0 → f.rs2 = 0 → fpOff s = false →
    handleFpOp sf s f instr =
      finishFp s f.rd instr (some (gpr (((s.fprs f.rs1).setWidth 32).signExtend 64, 0)))
  fmvWX : f.func7 = 0x78 → f.func3 = 0 → f.rs2 = 0 → fpOff s = false →
    handleFpOp sf s f instr = finishFp s f.rd instr (some (fpr (boxS ((readGpr s f.rs1).setWidth 32), 0)))
  reserved : ReservedOp f.func7 f.func3 f.rs2 (curFrm s) → Refuses s instr (handleFpOp sf s f instr)

structure FmaConforms : Prop where
  operands : f.fmt = 0 → fpOff s = false →
    handleFpFma sf s f instr = finishFp s f.rd instr (fpExecFma sf f.opcode f.func3 f.fmt
      (canonS (s.fprs f.rs1)) (canonS (s.fprs f.rs2)) (canonS (s.fprs f.rs3)) (curFrm s))
  results : f.fmt = 0 → (handleFpFma sf s f instr).2 = 4 → Boxed ((handleFpFma sf s f instr).1.fprs f.rd)
  reserved : (f.fmt ≠ 0 ∧ f.fmt ≠ 1) ∨ BadRounding f.func3 (curFrm s) →
    Refuses s instr (handleFpFma sf s f instr)

/-- FMV.X.W finds a boxed register, or the canonical NaN in its lower half, or writes nothing; and no
move and no class has a number in `rs2`. -/
def FpCond : Prop :=
  fpOff s = true ∨
    ((f.func7 = 0x70 → f.func3 = 0 → f.rs2 = 0 → f.rd = 0 ∨ Boxed (s.fprs f.rs1) ∨
        (s.fprs f.rs1).setWidth 32 = 0x7fc00000) ∧
      (MoveOrClass f.func7 f.func3 → f.rs2 = 0))

end Claim

/-! ## Boxes -/

theorem boxed_boxS (v : BitVec 32) : Boxed (boxS v) := by
  rw [Boxed, boxS]
  apply BitVec.eq_of_getLsbD_eq
  intro i _
  rw [BitVec.getLsbD_and, BitVec.getLsbD_or]
  cases nanboxS.getLsbD i
  · exact Bool.and_false _
  · rfl

theorem unboxS_canonS (x : Word) : unboxS (canonS x) = unboxS x := by
  rw [canonS]
  split_ifs with h
  · rfl
  · have hbox : unboxS (boxS 0x7fc00000) = 0x7fc00000 := by decide
    have hx : unboxS x = 0x7fc00000 := if_neg h
    rw [hbox, hx]

theorem unboxS_low_iff (x : Word) : unboxS x = x.setWidth 32 ↔ Boxed x ∨ x.setWidth 32 = 0x7fc00000 := by
  by_cases h : Boxed x
  · exact iff_of_true (if_pos h) (.inl h)
  · have hx : unboxS x = 0x7fc00000 := if_neg h
    rw [hx, or_iff_right h]
    exact eq_comm

theorem signExtend_injective {x y : BitVec 32} (h : x.signExtend 64 = y.signExtend 64) : x = y := by
  apply BitVec.eq_of_getLsbD_eq
  intro i hi
  have hbit := congrArg (BitVec.getLsbD · i) h
  have h64 : i < 64 := by omega
  rw [BitVec.getLsbD_signExtend, BitVec.getLsbD_signExtend, decide_eq_true h64, if_pos hi, if_pos hi] at hbit
  exact hbit

/-! ## The operations -/

section Op

variable (sf : SoftFloat) {funct7 : BitVec 7} {funct3 frm : BitVec 3} {rs2 : BitVec 5} {a a' b b' : Word}

/-- With single sources only the unboxed operands count. -/
theorem fpExecOp_single (hsrc : SingleSource funct7) (ha : unboxS a = unboxS a') (hb : unboxS b = unboxS b')
    (hraw : GprSource funct7 → a = a') :
    fpExecOp sf funct7 funct3 rs2 a b frm = fpExecOp sf funct7 funct3 rs2 a' b' frm := by
  rcases hsrc with ⟨hfmt, hop⟩ | ⟨hfmt, hop⟩
  · rw [opFmt] at hfmt
    rw [opClass] at hop
    rw [GprSource, opClass] at hraw
    have hok : ¬ ((0 : BitVec 2) ≠ 0 ∧ (0 : BitVec 2) ≠ 1) := by decide
    have hsingle : ¬ (decide ((0 : BitVec 2) = 1)) = true := by decide
    simp only [fpExecOp, hfmt, if_neg hok, if_neg hsingle, ha, hb]
    generalize funct7.extractLsb' 2 5 = op at hop hraw ⊢
    by_cases hgpr : op = 0x1a ∨ op = 0x1e
    · rw [hraw hgpr]
    · obtain ⟨h1a, h1e⟩ := not_or.mp hgpr
      split
      all_goals first
        | rfl
        | contradiction
  · rw [opFmt] at hfmt
    rw [opClass] at hop
    simp only [fpExecOp, hfmt, hop, ha]
    rfl

/-- A single result other than to an integer register is boxed. -/
theorem fpExecOp_boxed {o : FpOut} (hfmt : opFmt funct7 = 0) (hg : ¬ ToGpr funct7)
    (h : fpExecOp sf funct7 funct3 rs2 a b frm = some o) : o.toGpr = false ∧ Boxed o.value := by
  have hmade : ∃ r, fprS r = o := by
    rw [opFmt] at hfmt
    rw [ToGpr, opClass] at hg
    have hok : ¬ ((0 : BitVec 2) ≠ 0 ∧ (0 : BitVec 2) ≠ 1) := by decide
    have hsingle : ¬ (decide ((0 : BitVec 2) = 1)) = true := by decide
    simp only [fpExecOp, hfmt, if_neg hok, if_neg hsingle] at h
    generalize funct7.extractLsb' 2 5 = op at hg h
    split at h
    case h_1 | h_2 | h_3 | h_4 | h_5 =>
      obtain ⟨r, -, hr⟩ := Option.map_eq_some_iff.mp h
      exact ⟨_, hr⟩
    case h_6 =>
      split at h
      · cases h
      · exact ⟨_, Option.some.inj h⟩
    case h_7 =>
      split at h
      · cases h
      · obtain ⟨r, -, hr⟩ := Option.map_eq_some_iff.mp h
        exact ⟨_, hr⟩
    case h_8 | h_9 | h_11 => simp at hg
    case h_10 =>
      obtain ⟨rnd, -, hr⟩ := Option.bind_eq_some_iff.mp h
      obtain ⟨r, -, hr⟩ := Option.map_eq_some_iff.mp hr
      exact ⟨r, hr⟩
    case h_12 =>
      split at h
      · cases h
      · exact ⟨_, Option.some.inj h⟩
    case h_13 =>
      obtain ⟨rnd, -, hr⟩ := Option.bind_eq_some_iff.mp h
      split at hr
      · cases hr
      · exact ⟨_, Option.some.inj hr⟩
    case h_14 => cases h
  obtain ⟨r, rfl⟩ := hmade
  exact ⟨rfl, boxed_boxS _⟩

theorem resolveRm_bad (h : BadRounding funct3 frm) : resolveRm funct3 frm = none := by
  revert h
  unfold BadRounding
  revert funct3 frm
  decide

/-- The moves and FCLASS do not look at `rs2`. -/
theorem fpExecOp_moveOrClass (h : MoveOrClass funct7 funct3) :
    ∃ o, fpExecOp sf funct7 funct3 rs2 a b frm = some o := by
  obtain ⟨hfmt, hop⟩ := h
  rw [opFmt] at hfmt
  rw [opClass] at hop
  have hok : ¬ (funct7.extractLsb' 0 2 ≠ 0 ∧ funct7.extractLsb' 0 2 ≠ 1) :=
    fun hne => hfmt.elim hne.1 hne.2
  obtain ⟨hop, rfl | rfl⟩ | ⟨hop, rfl⟩ := hop
  · simp only [fpExecOp, hop, if_neg hok]
    exact ⟨_, rfl⟩
  · simp only [fpExecOp, hop, if_neg hok]
    exact ⟨_, rfl⟩
  · have hzero : ¬ (0 : BitVec 3) ≠ 0 := fun hne => hne rfl
    simp only [fpExecOp, hop, if_neg hok, if_neg hzero]
    rcases hfmt with hfmt | hfmt <;> rw [hfmt] <;> exact ⟨_, rfl⟩

/-- The moves and FCLASS round nothing, so `rs2` is all that can make one reserved. -/
theorem moveOrClass_reserved_iff (h : MoveOrClass funct7 funct3) :
    ReservedOp funct7 funct3 rs2 frm ↔ rs2 ≠ 0 := by
  obtain ⟨hfmt, hop⟩ := h
  have hclass : opClass funct7 = 0x1c ∨ opClass funct7 = 0x1e := hop.imp And.left And.left
  constructor
  · rintro (⟨h0, h1⟩ | ⟨hr, -⟩ | ⟨-, hz⟩)
    · exact absurd hfmt (not_or.mpr ⟨h0, h1⟩)
    · rw [Rounds] at hr
      rcases hclass with hc | hc <;> simp [hc] at hr
    · exact hz
  · intro hz
    exact .inr (.inr ⟨hclass.elim (fun hc => .inr (.inl hc)) (fun hc => .inr (.inr (.inl hc))), hz⟩)

/-- Every other reserved encoding is refused. -/
theorem fpExecOp_reserved (hm : ¬ MoveOrClass funct7 funct3) (h : ReservedOp funct7 funct3 rs2 frm) :
    fpExecOp sf funct7 funct3 rs2 a b frm = none := by
  by_cases hfmt : opFmt funct7 ≠ 0 ∧ opFmt funct7 ≠ 1
  · exact if_pos hfmt
  rcases h with h | ⟨hr, hbad⟩ | ⟨hz, hrs2⟩
  · exact absurd h hfmt
  · have hnone := resolveRm_bad hbad
    rw [opFmt] at hfmt
    rw [Rounds, opClass] at hr
    simp only [fpExecOp, if_neg hfmt, hnone, Option.map_none, Option.bind_none]
    rcases hr with hr | hr | hr | hr | hr | hr | hr | hr <;> rw [hr] <;> simp
  · have hf : opFmt funct7 = 0 ∨ opFmt funct7 = 1 := by
      by_contra hne
      exact hfmt (not_or.mp hne)
    have hmc := fun hop => hm ⟨hf, hop⟩
    rw [opFmt] at hfmt hf
    rw [Rs2Zero, opFmt, opClass] at hz
    rw [opClass] at hmc
    simp only [fpExecOp, if_neg hfmt]
    rcases hz with hz | hz | hz | ⟨hz, h1⟩
    · rw [hz]
      exact if_pos hrs2
    · rw [hz] at hmc ⊢
      have h0 : funct3 ≠ 0 := fun h => hmc (.inl ⟨rfl, .inl h⟩)
      have h1 : funct3 ≠ 1 := fun h => hmc (.inl ⟨rfl, .inr h⟩)
      simp only [BitVec.ofNat_eq_ofNat]
      split
      · exact absurd rfl h0
      · exact absurd rfl h1
      · rfl
    · rw [hz] at hmc ⊢
      have h3 : funct3 ≠ 0 := fun h0 => hmc (.inr ⟨rfl, h0⟩)
      exact if_pos h3
    · rw [hz, h1]
      cases resolveRm funct3 frm
      · rfl
      · exact if_pos hrs2

end Op

section Fma

variable (sf : SoftFloat) {opcode : BitVec 7} {rm frm : BitVec 3} {a a' b b' c c' : Word}

theorem fpExecFma_single (ha : unboxS a = unboxS a') (hb : unboxS b = unboxS b') (hc : unboxS c = unboxS c') :
    fpExecFma sf opcode rm 0 a b c frm = fpExecFma sf opcode rm 0 a' b' c' frm := by
  have hsingle : ¬ (0 : BitVec 2) = 1 := by decide
  simp only [fpExecFma, if_neg hsingle, ha, hb, hc]

theorem fpExecFma_boxed {o : FpOut} (h : fpExecFma sf opcode rm 0 a b c frm = some o) :
    o.toGpr = false ∧ Boxed o.value := by
  have hok : ¬ ((0 : BitVec 2) ≠ 0 ∧ (0 : BitVec 2) ≠ 1) := by decide
  have hsingle : ¬ (0 : BitVec 2) = 1 := by decide
  simp only [fpExecFma, if_neg hok, if_neg hsingle] at h
  split at h
  · cases h
  · cases h
    exact ⟨rfl, boxed_boxS _⟩

theorem fpExecFma_reserved {fmt : BitVec 2} (h : (fmt ≠ 0 ∧ fmt ≠ 1) ∨ BadRounding rm frm) :
    fpExecFma sf opcode rm fmt a b c frm = none := by
  rw [fpExecFma]
  rcases h with hfmt | hbad
  · simp only [if_pos hfmt]
    split <;> rfl
  · rw [resolveRm_bad hbad]

end Fma

/-! ## The handlers -/

section Handlers

variable (sf : SoftFloat) (s : HartState) (f : DecodedFields) (instr : BitVec 32)

theorem deliverTrap_fcsr (code tval : Word) (h : isInterrupt code = false) :
    (deliverTrap s code tval).fcsr = s.fcsr := by
  simp only [deliverTrap]
  split
  · simp [deliverTrapSmode, h]
  · simp [deliverTrapMmode, h]

theorem refuses_illegal : Refuses s instr (deliverIllegalInstruction s (instr.setWidth 64), 0) where
  trap := rfl
  regs := deliverTrap_regs s _ _ (by decide)
  fcsr := deliverTrap_fcsr s _ _ (by decide)

/-- A result to a floating-point register arrives as it was computed. -/
theorem finishFp_fprs {out : Option FpOut} {rd : BitVec 5} {P : Word → Prop}
    (hout : ∀ o, out = some o → o.toGpr = false ∧ P o.value) (h : (finishFp s rd instr out).2 = 4) :
    P ((finishFp s rd instr out).1.fprs rd) := by
  cases out with
  | none => cases h
  | some o =>
    obtain ⟨hg, hp⟩ := hout o rfl
    simpa [finishFp, hg, setFsDirty, writeFpr] using hp

theorem finishFp_gpr_iff {rd : BitVec 5} {v v' : Word} :
    finishFp s rd instr (some (gpr (v, 0))) = finishFp s rd instr (some (gpr (v', 0))) ↔ rd = 0 ∨ v = v' := by
  by_cases hrd : rd = 0
  · simp [finishFp, gpr, writeGpr, hrd]
  · constructor
    · intro h
      have hrow := congrArg (fun r => r.1.gprs rd) h
      simp only [finishFp, gpr, writeGpr, if_neg hrd, if_true, setFsDirty, Function.update_self] at hrow
      exact .inr hrow
    · rintro (h | rfl)
      · exact absurd h hrd
      · rfl

theorem handleFpOp_of_off (h : fpOff s = true) :
    handleFpOp sf s f instr = (deliverIllegalInstruction s (instr.setWidth 64), 0) := if_pos h

theorem handleFpOp_of_on (h : fpOff s = false) : handleFpOp sf s f instr =
    finishFp s f.rd instr (fpExecOp sf f.func7 f.func3 f.rs2
      (if GprSource f.func7 then readGpr s f.rs1 else s.fprs f.rs1) (s.fprs f.rs2) (curFrm s)) := by
  have hon : ¬ fpOff s = true := by
    rw [h]
    exact Bool.false_ne_true
  rw [handleFpOp, if_neg hon]
  rfl

/-- FMV.X.W takes the lower half of a box and of nothing else. -/
theorem handleFpOp_fmvXW (h7 : f.func7 = 0x70) (h3 : f.func3 = 0) (hon : fpOff s = false) :
    handleFpOp sf s f instr = finishFp s f.rd instr (some (gpr ((unboxS (s.fprs f.rs1)).signExtend 64, 0))) := by
  have hsrc : ¬ GprSource 0x70 := by decide
  rw [handleFpOp_of_on sf s f instr hon, h7, h3, if_neg hsrc]
  rfl

theorem handleFpOp_fmvWX (h7 : f.func7 = 0x78) (h3 : f.func3 = 0) (hon : fpOff s = false) :
    handleFpOp sf s f instr =
      finishFp s f.rd instr (some (fpr (boxS ((readGpr s f.rs1).setWidth 32), 0))) := by
  have hsrc : GprSource 0x78 := by decide
  rw [handleFpOp_of_on sf s f instr hon, h7, h3, if_pos hsrc]
  rfl

theorem handleFpOp_operands (hsrc : SingleSource f.func7) (hon : fpOff s = false) :
    handleFpOp sf s f instr = finishFp s f.rd instr (fpExecOp sf f.func7 f.func3 f.rs2
      (if GprSource f.func7 then readGpr s f.rs1 else canonS (s.fprs f.rs1)) (canonS (s.fprs f.rs2))
      (curFrm s)) := by
  rw [handleFpOp_of_on sf s f instr hon]
  congr 1
  apply fpExecOp_single sf hsrc
  · split_ifs
    · rfl
    · exact (unboxS_canonS _).symm
  · exact (unboxS_canonS _).symm
  · intro hg
    rw [if_pos hg, if_pos hg]

theorem handleFpOp_results (hfmt : opFmt f.func7 = 0) (hg : ¬ ToGpr f.func7)
    (h : (handleFpOp sf s f instr).2 = 4) : Boxed ((handleFpOp sf s f instr).1.fprs f.rd) := by
  cases hoff : fpOff s with
  | true =>
    rw [handleFpOp_of_off sf s f instr hoff] at h
    cases h
  | false =>
    rw [handleFpOp_of_on sf s f instr hoff] at h ⊢
    exact finishFp_fprs s instr (fun o ho => fpExecOp_boxed sf hfmt hg ho) h

theorem handleFpOp_reserved_iff (h : ReservedOp f.func7 f.func3 f.rs2 (curFrm s)) :
    Refuses s instr (handleFpOp sf s f instr) ↔ fpOff s = true ∨ ¬ MoveOrClass f.func7 f.func3 := by
  cases hoff : fpOff s with
  | true =>
    rw [handleFpOp_of_off sf s f instr hoff]
    exact iff_of_true (refuses_illegal s instr) (.inl rfl)
  | false =>
    rw [handleFpOp_of_on sf s f instr hoff]
    by_cases hm : MoveOrClass f.func7 f.func3
    · obtain ⟨o, ho⟩ := fpExecOp_moveOrClass sf hm
      rw [ho]
      refine iff_of_false (fun hr => ?_) (by simp [hm])
      have hpc := congrArg Prod.snd hr.trap
      cases hpc
    · rw [fpExecOp_reserved sf hm h]
      exact iff_of_true (refuses_illegal s instr) (.inr hm)

theorem handleFpFma_conforms : FmaConforms sf s f instr := by
  have hon : fpOff s = false → handleFpFma sf s f instr = finishFp s f.rd instr
      (fpExecFma sf f.opcode f.func3 f.fmt (s.fprs f.rs1) (s.fprs f.rs2) (s.fprs f.rs3) (curFrm s)) := by
    intro h
    simp [handleFpFma, h]
  have hoff : fpOff s = true →
      handleFpFma sf s f instr = (deliverIllegalInstruction s (instr.setWidth 64), 0) := fun h => if_pos h
  constructor
  · intro hfmt h
    rw [hon h, hfmt]
    congr 1
    exact fpExecFma_single sf (unboxS_canonS _).symm (unboxS_canonS _).symm (unboxS_canonS _).symm
  · intro hfmt h
    cases hs : fpOff s with
    | true =>
      rw [hoff hs] at h
      cases h
    | false =>
      rw [hon hs, hfmt] at h ⊢
      exact finishFp_fprs s instr (fun o ho => fpExecFma_boxed sf ho) h
  · intro hres
    cases hs : fpOff s with
    | true =>
      rw [hoff hs]
      exact refuses_illegal s instr
    | false =>
      rw [hon hs, fpExecFma_reserved sf hres]
      exact refuses_illegal s instr

/-- FMV.X.W reads through the box and the moves ignore `rs2`; all else is as the instruction set has
it. -/
theorem nan_boxing (sf : SoftFloat) (s : HartState) (f : DecodedFields) (instr : BitVec 32) :
    (OpConforms sf s f instr ↔ FpCond s f) ∧ FmaConforms sf s f instr := by
  refine ⟨⟨fun h => ?_, fun h => ?_⟩, handleFpFma_conforms sf s f instr⟩
  · cases hoff : fpOff s with
    | true => exact .inl hoff
    | false =>
      refine .inr ⟨fun h7 h3 h2 => ?_, fun hm => ?_⟩
      · have hmv := h.fmvXW h7 h3 h2 hoff
        rw [handleFpOp_fmvXW sf s f instr h7 h3 hoff, finishFp_gpr_iff] at hmv
        exact hmv.imp_right fun hv => (unboxS_low_iff _).mp (signExtend_injective hv)
      · by_contra hne
        have hres : ReservedOp f.func7 f.func3 f.rs2 (curFrm s) := (moveOrClass_reserved_iff hm).mpr hne
        rcases (handleFpOp_reserved_iff sf s f instr hres).mp (h.reserved hres) with hs | hn
        · rw [hoff] at hs
          cases hs
        · exact hn hm
  · constructor
    · exact fun hsrc _ hon => handleFpOp_operands sf s f instr hsrc hon
    · exact handleFpOp_results sf s f instr
    · intro h7 h3 h2 hon
      rw [handleFpOp_fmvXW sf s f instr h7 h3 hon, finishFp_gpr_iff]
      rcases h with hoff | ⟨hbox, -⟩
      · rw [hon] at hoff
        cases hoff
      · exact (hbox h7 h3 h2).imp_right fun hb => congrArg _ ((unboxS_low_iff _).mpr hb)
    · exact fun h7 h3 _ hon => handleFpOp_fmvWX sf s f instr h7 h3 hon
    · intro hres
      rw [handleFpOp_reserved_iff sf s f instr hres]
      rcases h with hoff | ⟨-, hrs2⟩
      · exact .inl hoff
      · exact .inr fun hm => (moveOrClass_reserved_iff hm).mp hres (hrs2 hm)

end Handlers

/-- A double in `f1`, with the unit on. -/
def doubleHart : HartState :=
  { HartState.zeroed with mstatus := mstatusFs, fprs := fun r => if r = 1 then 0x400921fb54442d18 else 0 }

/-- `fmv.x.w a0, f1` gives the canonical NaN instead of the lower half of the double, and with a 1 in
`rs2` it is executed. -/
theorem fmv_reads_nan :
    (handleFpOp default doubleHart (decodeFields 0xe0008553) 0xe0008553).1.gprs 10 = 0x7fc00000 ∧
      (doubleHart.fprs 1).setWidth 32 = 0x54442d18#32 ∧
      (handleFpOp default doubleHart (decodeFields 0xe0108553) 0xe0108553).2 = 4 ∧
      ¬ OpConforms default doubleHart (decodeFields 0xe0008553) 0xe0008553 ∧
      ¬ OpConforms default doubleHart (decodeFields 0xe0108553) 0xe0108553 := by
  have hnan : (handleFpOp default doubleHart (decodeFields 0xe0008553) 0xe0008553).1.gprs 10 = 0x7fc00000 := by
    decide
  refine ⟨hnan, by decide, by decide, fun h => ?_, fun h => ?_⟩
  · rw [h.fmvXW (by decide) (by decide) (by decide) (by decide)] at hnan
    revert hnan
    decide
  · have hres : ReservedOp 0x70 0 1 0 := .inr (.inr ⟨.inr (.inl (by decide)), by decide⟩)
    have hpc := congrArg Prod.snd (h.reserved hres).trap
    revert hpc
    decide

end Pyremu
