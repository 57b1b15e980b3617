import Pyremu.IdleWake
import Pyremu.HartSched

/-!
# Traps in the two engines

What a trap reads and writes is the same record on both sides, so the two
routines are two functions of that record. They differ in the mark that a trap
has woken the hart, in the acknowledgement of software interrupts and in the
value an ECALL reports.
-/

namespace Pyremu

/-- The state that trap entry and return write. A reservation has an address only while it is valid. -/
@[ext] structure TrapView where
  pc : Word
  mode : Mode
  mstatus : Word
  mepc : Word
  sepc : Word
  mcause : Word
  scause : Word
  mtval : Word
  stval : Word
  mip : Word
  reserved : Bool
  waiting : Bool
  woken : Bool

/-- The two trap handlers of a privilege mode. -/
structure TrapVectors where
  mtvec : Word
  stvec : Word
  medeleg : Word
  mideleg : Word

def HartState.trapView (s : HartState) : TrapView :=
  ⟨s.pc, s.mode, s.mstatus, s.mepc, s.sepc, s.mcause, s.scause, s.mtval, s.stval, s.mip, s.reservationValid,
    s.waiting, s.wfiWoken⟩

def HartState.trapVectors (s : HartState) : TrapVectors := ⟨s.mtvec, s.stvec, s.medeleg, s.mideleg⟩

/-- An interrupt file delivers. -/
def HartState.aia (s : HartState) (mmode : Bool) : Bool :=
  let f := if mmode then s.imsicM else s.imsicS
  f.present && decide (f.eidelivery ≠ 0)

/-! ## The Python engine -/

namespace PyBoard

variable {n : Nat} (b : PyBoard n)

def trapView : TrapView :=
  ⟨b.hart.pc, b.hart.mode, b.csr .mstatus, b.csr .mepc, b.csr .sepc, b.csr .mcause, b.csr .scause, b.csr .mtval,
    b.csr .stval, b.csr .mip, b.hart.reservationValid, b.hart.waiting, b.hart.wfiWoken⟩

def trapVectors : TrapVectors := ⟨b.csr .mtvec, b.csr .stvec, b.csr .medeleg, b.csr .mideleg⟩

def aia (mmode : Bool) : Bool :=
  match b.file mmode with
  | some f => decide (f.eidelivery ≠ 0)
  | none => false

/-- `trap_ecall`. -/
def trapEcall : PyBoard n :=
  match b.hart.mode with
  | .U => b.deliverTrap 8 b.hart.pc false
  | .S => b.deliverTrap 9 b.hart.pc false
  | .M => b.deliverTrap 11 b.hart.pc false
  | _ => b.deliverTrap 2 b.hart.pc false

/-- `trap_ebreak` without semihosting. -/
def trapEbreak : PyBoard n := b.deliverTrap 3 b.hart.pc false

end PyBoard

/-- What `marshal_to` copies of a hart, as far as traps look at it. -/
structure Marshalled {n : Nat} (b : PyBoard n) (s : HartState) : Prop where
  view : b.trapView = s.trapView
  vectors : b.trapVectors = s.trapVectors
  mie : b.csr .mie = s.mie
  aia : ∀ mmode, b.aia mmode = s.aia mmode

/-! ## One trap -/

/-- The jump and the stacked state of a trap taken in S mode. -/
def TrapView.enterS (v : TrapView) (t : TrapVectors) (code tval : Word) : TrapView :=
  { v with
    reserved := false, waiting := false
    sepc := v.pc, scause := code, stval := tval
    mstatus := (stackIe v.mstatus mstatusSie mstatusSpie &&& ~~~mstatusSpp) ||| (modeToSpp v.mode <<< 8)
    mode := .S
    pc := trapTarget t.stvec code }

def TrapView.enterM (v : TrapView) (t : TrapVectors) (code tval : Word) : TrapView :=
  { v with
    reserved := false, waiting := false
    mepc := v.pc, mcause := code, mtval := tval
    mstatus := ((stackIe v.mstatus mstatusMie mstatusMpie &&& ~~~mstatusMpp) |||
      (modeToMpp v.mode <<< 11)) &&& ~~~mstatusMprv
    mode := .M
    pc := trapTarget t.mtvec code }

/-- The trap goes to S mode. -/
def TrapView.toS (v : TrapView) (t : TrapVectors) (excCode : Nat) (isInterrupt : Bool) : Bool :=
  decide (v.mode ≠ .M) && (if isInterrupt then t.mideleg else t.medeleg).getLsbD excCode

/-- The two routines up to their differences. -/
def TrapView.enter (v : TrapView) (t : TrapVectors) (excCode : Nat) (tval : Word) (isInterrupt : Bool) : TrapView :=
  let code := mcauseVal (BitVec.ofNat 64 excCode) isInterrupt
  if v.toS t excCode isInterrupt then v.enterS t code tval else v.enterM t code tval

/-- The trap is a software interrupt that its entry acknowledges. -/
def Acknowledges (toS isInterrupt : Bool) (excCode : Nat) : Prop :=
  isInterrupt = true ∧ (excCode = 3 ∨ toS = true ∧ excCode = 1)

instance (toS isInterrupt : Bool) (excCode : Nat) : Decidable (Acknowledges toS isInterrupt excCode) :=
  inferInstanceAs (Decidable (_ ∧ _))

def TrapView.dropMip (v : TrapView) (excCode : Nat) : TrapView := { v with mip := v.mip &&& ~~~bit excCode }

/-! ### Causes -/

/-- A cause below the interrupt flag keeps its number. -/
theorem mcauseVal_parts : ∀ (code : Fin 63) (isInt : Bool),
    isInterrupt (mcauseVal (BitVec.ofNat 64 code) isInt) = isInt ∧
      excCode (mcauseVal (BitVec.ofNat 64 code) isInt) = BitVec.ofNat 64 code := by
  decide +kernel

section Codes

variable {code : Nat}

theorem isInterrupt_mcauseVal (hc : code < 63) (isInt : Bool) :
    isInterrupt (mcauseVal (BitVec.ofNat 64 code) isInt) = isInt :=
  (mcauseVal_parts ⟨code, hc⟩ isInt).1

theorem excCode_mcauseVal (hc : code < 63) (isInt : Bool) :
    excCode (mcauseVal (BitVec.ofNat 64 code) isInt) = BitVec.ofNat 64 code :=
  (mcauseVal_parts ⟨code, hc⟩ isInt).2

theorem ofNat_code_eq_iff (hc : code < 63) {k : Nat} (hk : k < 63) :
    BitVec.ofNat 64 code = BitVec.ofNat 64 k ↔ code = k := by
  refine ⟨fun h => ?_, fun h => by rw [h]⟩
  have hnat := congrArg BitVec.toNat h
  rw [BitVec.toNat_ofNat, BitVec.toNat_ofNat, Nat.mod_eq_of_lt (by omega), Nat.mod_eq_of_lt (by omega)] at hnat
  exact hnat

/-- Where a trap of either engine jumps to. -/
theorem trapTarget_mcauseVal (hc : code < 63) (tvec : Word) (isInt : Bool) :
    trapTarget tvec (mcauseVal (BitVec.ofNat 64 code) isInt) =
      if tvec &&& 3 = 0 ∨ isInt = false then tvec &&& ~~~3
      else (tvec &&& ~~~3) + BitVec.ofNat 64 (4 * code) := by
  have hmul : (4 : Word) * BitVec.ofNat 64 code = BitVec.ofNat 64 (4 * code) := by
    rw [show (4 : Word) = BitVec.ofNat 64 4 from rfl, ← BitVec.ofNat_mul]
  rw [trapTarget, isInterrupt_mcauseVal hc, excCode_mcauseVal hc, hmul]
  cases isInt <;> simp

end Codes

/-! ### The engine -/

theorem trapView_clearSoftOnTrap (s : HartState) (cause : Word) :
    (clearSoftOnTrap s cause).trapView = { s.trapView with mip := s.mip &&& ~~~(if cause = 3 then bit 3 else bit 1) } := by
  simp only [clearSoftOnTrap, imsicClearIpiOnTrap]
  split_ifs <;> rfl

theorem trapVectors_clearSoftOnTrap (s : HartState) (cause : Word) :
    (clearSoftOnTrap s cause).trapVectors = s.trapVectors := by
  simp only [clearSoftOnTrap, imsicClearIpiOnTrap]
  split_ifs <;> rfl

theorem delegated_eq (s : HartState) {code : Nat} (hc : code < 63) (isInt : Bool) :
    delegated s (mcauseVal (BitVec.ofNat 64 code) isInt) = s.trapView.toS s.trapVectors code isInt := by
  have hnat : (BitVec.ofNat 64 code).toNat % 64 = code := by
    rw [BitVec.toNat_ofNat]
    omega
  rw [delegated, isInterrupt_mcauseVal hc, excCode_mcauseVal hc, hnat]
  rfl

section Engine

variable (s : HartState) {code : Nat}

theorem trapView_deliverTrapSmode (hc : code < 63) (tval : Word) (isInt : Bool) :
    (deliverTrapSmode s (mcauseVal (BitVec.ofNat 64 code) isInt) tval).trapView =
      let v := s.trapView.enterS s.trapVectors (mcauseVal (BitVec.ofNat 64 code) isInt) tval
      if Acknowledges true isInt code ∧ s.aia false = false then v.dropMip code else v := by
  have hcode := excCode_mcauseVal hc isInt
  have hint := isInterrupt_mcauseVal hc isInt
  have haia : (s.imsicS.present && decide (s.imsicS.eidelivery ≠ 0)) = s.aia false := rfl
  generalize hC : mcauseVal (BitVec.ofNat 64 code) isInt = C at hcode hint ⊢
  have h3 : BitVec.ofNat 64 code = 3 ↔ code = 3 := ofNat_code_eq_iff hc (by decide)
  have h1 : BitVec.ofNat 64 code = 1 ↔ code = 1 := ofNat_code_eq_iff hc (by decide)
  simp only [deliverTrapSmode, hint, hcode, haia, h3, h1]
  cases isInt with
  | false =>
    rw [if_pos (by decide), if_neg (fun h => Bool.noConfusion h.1.1)]
    rfl
  | true =>
    rw [if_neg (by decide)]
    by_cases hsoft : (code = 3 ∨ code = 1) ∧ s.aia false = false
    · rw [if_pos ⟨hsoft.1, by rw [hsoft.2]; rfl⟩, if_pos ⟨⟨rfl, hsoft.1.imp id fun h => ⟨rfl, h⟩⟩, hsoft.2⟩,
        trapView_clearSoftOnTrap, if_congr h3 rfl rfl]
      rcases hsoft.1 with h | h
      · subst h
        rfl
      · subst h
        rfl
    · rw [if_neg (fun h => hsoft ⟨h.1, by simpa using h.2⟩),
        if_neg (fun h => hsoft ⟨h.1.2.imp id fun h => h.2, h.2⟩)]
      rfl

theorem trapView_deliverTrapMmode (hc : code < 63) (tval : Word) (isInt : Bool) :
    (deliverTrapMmode s (mcauseVal (BitVec.ofNat 64 code) isInt) tval).trapView =
      let v := s.trapView.enterM s.trapVectors (mcauseVal (BitVec.ofNat 64 code) isInt) tval
      if Acknowledges false isInt code ∧ s.aia true = false then v.dropMip code else v := by
  have hcode := excCode_mcauseVal hc isInt
  have hint := isInterrupt_mcauseVal hc isInt
  have haia : (s.imsicM.present && decide (s.imsicM.eidelivery ≠ 0)) = s.aia true := rfl
  generalize hC : mcauseVal (BitVec.ofNat 64 code) isInt = C at hcode hint ⊢
  have h3 : BitVec.ofNat 64 code = 3 ↔ code = 3 := ofNat_code_eq_iff hc (by decide)
  have hiff : (isInt = true ∧ code = 3 ∧ (!s.aia true) = true) ↔
      Acknowledges false isInt code ∧ s.aia true = false := by
    simp [Acknowledges, and_assoc]
  simp only [deliverTrapMmode, hint, hcode, haia, h3]
  by_cases hsoft : Acknowledges false isInt code ∧ s.aia true = false
  · obtain ⟨-, h, -⟩ := hiff.mpr hsoft
    rw [if_pos hsoft, if_pos (hiff.mpr hsoft)]
    subst h
    change (clearSoftOnTrap s 3).trapView.enterM (clearSoftOnTrap s 3).trapVectors C tval = _
    rw [trapView_clearSoftOnTrap, trapVectors_clearSoftOnTrap, if_pos rfl]
    rfl
  · rw [if_neg hsoft, if_neg fun h => hsoft (hiff.mp h)]
    rfl

/-- The engine acknowledges a software interrupt unless the file of the mode delivers. -/
theorem trapView_deliverTrap (hc : code < 63) (tval : Word) (isInt : Bool) :
    (deliverTrap s (mcauseVal (BitVec.ofNat 64 code) isInt) tval).trapView =
      let toS := s.trapView.toS s.trapVectors code isInt
      let v := s.trapView.enter s.trapVectors code tval isInt
      if Acknowledges toS isInt code ∧ s.aia (!toS) = false then v.dropMip code else v := by
  rw [deliverTrap, delegated_eq s hc, TrapView.enter]
  cases s.trapView.toS s.trapVectors code isInt with
  | true => exact trapView_deliverTrapSmode s hc tval isInt
  | false => exact trapView_deliverTrapMmode s hc tval isInt

end Engine

/-! ### The Python engine -/

namespace PyBoard

variable {n : Nat} (b : PyBoard n) {code : Nat}

theorem trapView_clearIpi (hartId : Nat) : (b.clearIpi hartId).trapView = b.trapView := by
  simp only [clearIpi, onClint]
  split <;> rfl

theorem trapView_imsicClearIpiOnTrap : (b.imsicClearIpiOnTrap code).trapView = b.trapView.dropMip code := rfl

theorem trapView_trapDeliverSmode (hc : code < 63) (tval : Word) (isInt : Bool) :
    (b.trapDeliverSmode code tval isInt).trapView =
      let v := { b.trapView.enterS b.trapVectors (mcauseVal (BitVec.ofNat 64 code) isInt) tval with
        reserved := b.hart.reservationValid, waiting := b.hart.waiting }
      if Acknowledges true isInt code then v.dropMip code else v := by
  have hbase : (b.withHart (b.hart.trapDeliverSmode code tval isInt)).trapView =
      { b.trapView.enterS b.trapVectors (mcauseVal (BitVec.ofNat 64 code) isInt) tval with
        reserved := b.hart.reservationValid, waiting := b.hart.waiting } := by
    simp only [TrapView.enterS, trapTarget_mcauseVal hc]
    rfl
  simp only [trapDeliverSmode]
  rw [← hbase]
  cases isInt with
  | false =>
    rw [if_pos rfl, if_neg (fun h : Acknowledges true false code => Bool.noConfusion h.1)]
  | true =>
    rw [if_neg (by decide)]
    by_cases h3 : code = 3
    · rw [if_pos h3, if_pos (show Acknowledges true true code from ⟨rfl, .inl h3⟩), trapView_imsicClearIpiOnTrap, trapView_clearIpi]
    · rw [if_neg h3]
      by_cases h1 : code = 1
      · rw [if_pos h1, if_pos (show Acknowledges true true code from ⟨rfl, .inr ⟨rfl, h1⟩⟩),
          trapView_imsicClearIpiOnTrap]
      · rw [if_neg h1, if_neg (fun h : Acknowledges true true code => h.2.elim h3 fun h => h1 h.2)]

theorem trapView_trapDeliverMmode (hc : code < 63) (tval : Word) (isInt : Bool) :
    (b.trapDeliverMmode code tval isInt).trapView =
      let v := { b.trapView.enterM b.trapVectors (mcauseVal (BitVec.ofNat 64 code) isInt) tval with
        reserved := b.hart.reservationValid, waiting := b.hart.waiting }
      if Acknowledges false isInt code then v.dropMip code else v := by
  have hbase : (b.withHart (b.hart.trapDeliverMmode code tval isInt)).trapView =
      { b.trapView.enterM b.trapVectors (mcauseVal (BitVec.ofNat 64 code) isInt) tval with
        reserved := b.hart.reservationValid, waiting := b.hart.waiting } := by
    simp only [TrapView.enterM, trapTarget_mcauseVal hc]
    rfl
  simp only [trapDeliverMmode]
  rw [← hbase]
  by_cases h : isInt = true ∧ code = 3
  · rw [if_pos h, if_pos (show Acknowledges false isInt code from ⟨h.1, .inl h.2⟩),
      trapView_imsicClearIpiOnTrap, trapView_clearIpi]
  · have hnot : ¬ Acknowledges false isInt code :=
      fun hs => h ⟨hs.1, hs.2.resolve_right fun hr => Bool.noConfusion hr.1⟩
    rw [if_neg h, if_neg hnot]

/-- The Python engine acknowledges every software interrupt, and marks a hart that waited. -/
theorem trapView_deliverTrap (hc : code < 63) (tval : Word) (isInt : Bool) :
    (b.deliverTrap code tval isInt).trapView =
      let toS := b.trapView.toS b.trapVectors code isInt
      let v := { b.trapView.enter b.trapVectors code tval isInt with woken := b.hart.waiting || b.hart.wfiWoken }
      if Acknowledges toS isInt code then v.dropMip code else v := by
  have htoS : b.trapView.toS b.trapVectors code isInt = true ↔
      b.hart.mode ≠ .M ∧ (if isInt then b.csr .mideleg else b.csr .medeleg).getLsbD code = true := by
    simp only [TrapView.toS, Bool.and_eq_true, decide_eq_true_eq]
    rfl
  simp only [deliverTrap, TrapView.enter]
  by_cases h : b.trapView.toS b.trapVectors code isInt = true
  · rw [if_pos (htoS.mp h), h, trapView_trapDeliverSmode _ hc]
    rfl
  · rw [if_neg fun hd => h (htoS.mpr hd), Bool.eq_false_of_not_eq_true h, trapView_trapDeliverMmode _ hc]
    rfl

end PyBoard

/-! ## Agreement -/

theorem and_not_bit_eq_self (m : Word) {k : Nat} (hk : k < 64) : m &&& ~~~bit k = m ↔ m.getLsbD k = false := by
  constructor
  · intro h
    have hbit := congrArg (fun v => v.getLsbD k) h
    simp only [BitVec.getLsbD_and, BitVec.getLsbD_not, getLsbD_bit k k hk, decide_true, Bool.not_true,
      Bool.and_false] at hbit
    exact hbit.symm
  · intro h
    apply BitVec.eq_of_getLsbD_eq
    intro i hi
    by_cases hik : i = k
    · subst hik
      simp [h, getLsbD_bit i i hk]
    · exact getLsbD_and_not_bit m hk hik

/-- An enable that takes the value of its saved bit, as the two engines write it. -/
theorem restoreIe_eq (m : Word) {ie pie : Nat} (hie : ie < 64) (hpie : pie < 64) :
    (if m &&& bit pie ≠ 0 then m ||| bit ie else m &&& ~~~bit ie) =
      if m.getLsbD pie then (m &&& ~~~bit ie) ||| bit ie else m &&& ~~~bit ie := by
  cases h : m.getLsbD pie with
  | true =>
    have hne : m &&& bit pie ≠ 0 := fun h0 => Bool.noConfusion (h.symm.trans ((and_bit_eq_zero m hpie).mp h0))
    rw [if_pos hne]
    simp only [↓reduceIte]
    apply BitVec.eq_of_getLsbD_eq
    intro i hi
    by_cases hik : i = ie
    · subst hik
      simp [getLsbD_bit i i hie]
    · rw [getLsbD_or_bit _ hie hik, getLsbD_or_bit _ hie hik, getLsbD_and_not_bit _ hie hik]
  | false =>
    rw [if_neg (not_not.mpr ((and_bit_eq_zero m hpie).mpr h)), if_neg (by decide)]

namespace PyBoard

variable {n : Nat} (b : PyBoard n)

/-- A hart that waits carries the mark of a hart that has been woken. -/
def Marked : Prop := b.hart.waiting = true → b.hart.wfiWoken = true

/-- A software interrupt that the file of its mode keeps back is not pending. -/
def SoftAgrees (code : Nat) (isInt : Bool) : Prop :=
  Acknowledges (b.trapView.toS b.trapVectors code isInt) isInt code →
    b.aia (!b.trapView.toS b.trapVectors code isInt) = true → (b.csr .mip).getLsbD code = false

end PyBoard

section Agree

variable {n : Nat} {b : PyBoard n} {s : HartState} {code : Nat}

theorem mip_enter (v : TrapView) (t : TrapVectors) (tval : Word) (isInt : Bool) :
    (v.enter t code tval isInt).mip = v.mip := by
  simp only [TrapView.enter]
  split <;> rfl

theorem woken_enter (v : TrapView) (t : TrapVectors) (tval : Word) (isInt : Bool) :
    (v.enter t code tval isInt).woken = v.woken := by
  simp only [TrapView.enter]
  split <;> rfl

theorem marked_iff (hm : Marshalled b s) : (b.hart.waiting || b.hart.wfiWoken) = b.trapView.woken ↔ b.Marked := by
  change (b.hart.waiting || b.hart.wfiWoken) = b.hart.wfiWoken ↔ _
  rw [PyBoard.Marked]
  cases b.hart.waiting <;> simp

/-- Two deliveries with the same value agree unless a mark or a software interrupt tells them apart. -/
theorem deliverTrap_agree_iff (hm : Marshalled b s) (hc : code < 63) (tval : Word) (isInt : Bool) :
    (b.deliverTrap code tval isInt).trapView =
        (deliverTrap s (mcauseVal (BitVec.ofNat 64 code) isInt) tval).trapView ↔
      b.Marked ∧ b.SoftAgrees code isInt := by
  rw [b.trapView_deliverTrap hc, trapView_deliverTrap s hc, ← hm.view, ← hm.vectors]
  simp only [← hm.aia]
  have hmip : (b.trapView.enter b.trapVectors code tval isInt).mip = b.csr .mip := mip_enter _ _ _ _
  have hwoken : (b.trapView.enter b.trapVectors code tval isInt).woken = b.trapView.woken := woken_enter _ _ _ _
  rw [← marked_iff hm, ← hwoken, PyBoard.SoftAgrees, ← hmip]
  generalize b.trapView.enter b.trapVectors code tval isInt = v
  generalize b.trapView.toS b.trapVectors code isInt = toS
  by_cases hack : Acknowledges toS isInt code
  · cases haia : b.aia (!toS) with
    | false =>
      rw [if_pos hack, if_pos ⟨hack, rfl⟩]
      constructor
      · exact fun h => ⟨congrArg TrapView.woken h, fun _ hf => Bool.noConfusion hf⟩
      · rintro ⟨hw, -⟩
        rw [hw]
    | true =>
      rw [if_pos hack, if_neg fun h => Bool.noConfusion h.2]
      constructor
      · intro h
        refine ⟨congrArg TrapView.woken h, fun _ _ => ?_⟩
        exact (and_not_bit_eq_self v.mip (by omega)).mp (congrArg TrapView.mip h)
      · rintro ⟨hw, hmip⟩
        rw [hw, TrapView.dropMip, (and_not_bit_eq_self v.mip (by omega)).mpr (hmip hack rfl)]
  · rw [if_neg hack, if_neg fun h => hack h.1]
    constructor
    · exact fun h => ⟨congrArg TrapView.woken h, fun h => absurd h hack⟩
    · rintro ⟨hw, -⟩
      rw [hw]

/-- An exception that the two engines report with different values. -/
theorem exception_agree_iff (hm : Marshalled b s) (hc : code < 63) (tval tval' : Word) :
    (b.deliverTrap code tval false).trapView = (deliverTrap s (mcauseVal (BitVec.ofNat 64 code) false) tval').trapView ↔
      b.Marked ∧ tval = tval' := by
  have hnot : ∀ toS, ¬ Acknowledges toS false code := fun _ h => Bool.noConfusion h.1
  rw [b.trapView_deliverTrap hc, trapView_deliverTrap s hc, ← hm.view, ← hm.vectors]
  simp only [if_neg (hnot _), if_neg fun h => hnot _ (And.left h)]
  rw [← marked_iff hm]
  simp only [TrapView.enter]
  cases b.trapView.toS b.trapVectors code false with
  | true =>
    constructor
    · exact fun h => ⟨congrArg TrapView.woken h, congrArg TrapView.stval h⟩
    · rintro ⟨hw, rfl⟩
      rw [hw]
      rfl
  | false =>
    constructor
    · exact fun h => ⟨congrArg TrapView.woken h, congrArg TrapView.mtval h⟩
    · rintro ⟨hw, rfl⟩
      rw [hw]
      rfl

theorem mode_eq (hm : Marshalled b s) : b.hart.mode = s.mode := congrArg TrapView.mode hm.view

theorem mstatus_eq (hm : Marshalled b s) : b.csr .mstatus = s.mstatus := congrArg TrapView.mstatus hm.view

end Agree

/-! ## The instructions -/

/-- A trap, or an instruction that enters or leaves one. Every number of `_TRAP_CAUSE_CODE` is below 24. -/
inductive TrapOp where
  | deliver (code : Nat) (isInt : Bool) (tval : Word)
  | ecall
  | ebreak
  | mret
  | sret
  | wfi
  deriving DecidableEq, Repr

namespace TrapOp

def python {n : Nat} (b : PyBoard n) : TrapOp → PyBoard n
  | .deliver code isInt tval => b.deliverTrap code tval isInt
  | .ecall => b.trapEcall
  | .ebreak => b.trapEbreak
  | .mret => b.trapMret
  | .sret => b.trapSret
  | .wfi => b.handleWfi 0x10500073

def engine (cfg : Features) (w : World) : TrapOp → HartState
  | .deliver code isInt tval => deliverTrap w.hart (mcauseVal (BitVec.ofNat 64 code) isInt) tval
  | .ecall => (privEcall w).1.hart
  | .ebreak => (handleEbreak cfg w).1.hart
  | .mret => (privMret w.hart 0x30200073).1
  | .sret => (privSret w.hart 0x10200073).1
  | .wfi => (privWfi w.hart 0x10500073).1

/-- An SBI call that the engine serves without a trap. -/
def SbiFast (w : World) : Prop :=
  w.hart.mode = .S ∧
    ((uartTryEcall w.uart w.hart (readGpr w.hart 17) (readGpr w.hart 16)).2.2 ≠ none ∨
      readGpr w.hart 17 = 0x54494d45 ∧ readGpr w.hart 16 = 0)

/-- ECALL outside the SBI fast paths, and EBREAK with semihosting off. -/
def InScope (cfg : Features) (w : World) : TrapOp → Prop
  | .deliver code _ _ => code < 24
  | .ecall => ¬ SbiFast w
  | .ebreak => cfg.hasSemihosting = false
  | _ => True

/-- Where the two engines agree. -/
def Agrees {n : Nat} (b : PyBoard n) : TrapOp → Prop
  | .deliver code isInt _ => b.Marked ∧ b.SoftAgrees code isInt
  | .ecall => b.Marked ∧ b.hart.pc = 0
  | .ebreak => b.Marked
  | .mret => if b.hart.mode = .M then mpp (b.csr .mstatus) ≠ 2 ∧ b.hart.waiting = false else b.Marked
  | .sret => if b.hart.mode = .U then b.Marked else b.hart.waiting = false
  | .wfi => b.hart.mode ≠ .M → b.csr .mstatus &&& mstatusTw ≠ 0 → b.Marked

end TrapOp

section Agree

variable {n : Nat} {b : PyBoard n}

theorem ecall_agree_iff {w : World} (hm : Marshalled b w.hart)
    (hmode : b.hart.mode = .U ∨ b.hart.mode = .S ∨ b.hart.mode = .M) (hs : ¬ TrapOp.SbiFast w) :
    b.trapEcall.trapView = (privEcall w).1.hart.trapView ↔ b.Marked ∧ b.hart.pc = 0 := by
  have hw := mode_eq hm
  rw [PyBoard.trapEcall]
  rcases hmode with h | h | h
  · rw [h] at hw
    rw [h, privEcall, if_pos (by rw [← hw]; decide), if_pos hw.symm]
    exact exception_agree_iff hm (by decide) _ _
  · have hslow : (uartTryEcall w.uart w.hart (readGpr w.hart 17) (readGpr w.hart 16)).2.2 = none ∧
        ¬ (readGpr w.hart 17 = 0x54494d45 ∧ readGpr w.hart 16 = 0) := by
      rw [h] at hw
      refine ⟨?_, fun ht => hs ⟨hw.symm, .inr ht⟩⟩
      by_contra hne
      exact hs ⟨hw.symm, .inl hne⟩
    rw [h] at hw
    rw [h]
    simp only [privEcall]
    rw [if_neg (by rw [← hw]; decide)]
    split
    · rename_i u s' adv heq
      rw [heq] at hslow
      cases hslow.1
    · rw [if_neg hslow.2]
      exact exception_agree_iff hm (by decide) _ _
  · rw [h] at hw
    rw [h, privEcall, if_pos (by rw [← hw]; decide), if_neg (by rw [← hw]; decide)]
    exact exception_agree_iff hm (by decide) _ _

variable {s : HartState}

theorem illegal_agree_iff (hm : Marshalled b s) (tval : Word) :
    (b.deliverTrap 2 tval false).trapView = (deliverIllegalInstruction s tval).trapView ↔ b.Marked := by
  have h := @exception_agree_iff n b s 2 hm (by decide) tval tval
  rw [and_iff_left rfl] at h
  exact h

/-- The reserved encoding of `MPP` returns to U mode in the one engine and to M mode in the other. -/
theorem mppMode_eq_iff : ∀ p : BitVec 2,
    (if p = 1 then Mode.S else if p = 3 then .M else .U) = (if p = 0 then Mode.U else if p = 1 then .S else .M) ↔
      p ≠ 2 := by
  decide

theorem mret_agree_iff (hm : Marshalled b s) :
    b.trapMret.trapView = (privMret s 0x30200073).1.trapView ↔ TrapOp.mret.Agrees b := by
  have hmode := mode_eq hm
  rw [TrapOp.Agrees, PyBoard.trapMret, privMret]
  by_cases hM : b.hart.mode = .M
  · have hpy : (b.withHart b.hart.mret).trapView = { b.trapView with
        mstatus := ((if b.csr .mstatus &&& bit 7 ≠ 0 then b.csr .mstatus ||| bit 3
          else b.csr .mstatus &&& ~~~bit 3) ||| bit 7) &&& ~~~mstatusMpp
        mode := if mpp (b.csr .mstatus) = 1 then .S else if mpp (b.csr .mstatus) = 3 then .M else .U
        pc := b.trapView.mepc } := rfl
    rw [if_neg (not_not.mpr hM), if_pos hM, if_neg (not_not.mpr (hmode ▸ hM)), hpy, mstatus_eq hm,
      restoreIe_eq s.mstatus (by decide) (by decide), hm.view, ← mppMode_eq_iff]
    have hw : b.hart.waiting = s.waiting := congrArg TrapView.waiting hm.view
    rw [hw]
    constructor
    · exact fun h => ⟨congrArg TrapView.mode h, congrArg TrapView.waiting h⟩
    · rintro ⟨hmpp, hwait⟩
      simp only [HartState.trapView, hmpp, hwait]
  · rw [if_pos hM, if_neg hM, if_pos (hmode ▸ hM)]
    exact illegal_agree_iff hm _

theorem sret_agree_iff (hm : Marshalled b s) (hmode : b.hart.mode = .U ∨ b.hart.mode = .S ∨ b.hart.mode = .M) :
    b.trapSret.trapView = (privSret s 0x10200073).1.trapView ↔ TrapOp.sret.Agrees b := by
  have hmode' := mode_eq hm
  rw [TrapOp.Agrees, PyBoard.trapSret, privSret]
  by_cases hU : b.hart.mode = .U
  · rw [if_pos hU, if_pos hU, if_pos (by rw [← hmode', hU]; decide)]
    exact illegal_agree_iff hm _
  · have hrank : ¬ s.mode.rank < Mode.S.rank := by
      rw [← hmode']
      rcases hmode with h | h | h
      · exact absurd h hU
      · rw [h]
        decide
      · rw [h]
        decide
    have hpy : (b.withHart b.hart.sret).trapView = { b.trapView with
        mstatus := ((if b.csr .mstatus &&& bit 5 ≠ 0 then b.csr .mstatus ||| bit 1
          else b.csr .mstatus &&& ~~~bit 1) ||| bit 5) &&& ~~~bit 8
        mode := if b.csr .mstatus &&& bit 8 = 0 then .U else .S
        pc := b.trapView.sepc } := rfl
    have hspp : (if s.mstatus &&& bit 8 = 0 then Mode.U else .S) = if s.mstatus.getLsbD 8 then Mode.S else .U := by
      cases h : s.mstatus.getLsbD 8 with
      | true => rw [if_neg fun h0 => Bool.noConfusion (h.symm.trans ((and_bit_eq_zero _ (by decide)).mp h0)), if_pos rfl]
      | false => rw [if_pos ((and_bit_eq_zero _ (by decide)).mpr h), if_neg (by decide)]
    have hw : b.hart.waiting = s.waiting := congrArg TrapView.waiting hm.view
    rw [if_neg hU, if_neg hU, if_neg hrank, hpy, mstatus_eq hm,
      restoreIe_eq s.mstatus (by decide) (by decide), hspp, hm.view, hw]
    constructor
    · exact fun h => congrArg TrapView.waiting h
    · intro hwait
      simp only [HartState.trapView, hwait]

theorem wfi_agree_iff (hm : Marshalled b s) :
    (b.handleWfi 0x10500073).trapView = (privWfi s 0x10500073).1.trapView ↔ TrapOp.wfi.Agrees b := by
  have hmode := mode_eq hm
  have htw : b.csr .mstatus &&& mstatusTw ≠ 0 ↔ s.mstatus.getLsbD 21 = true := by
    rw [mstatus_eq hm, mstatusTw, ne_eq, and_bit_eq_zero _ (by decide), Bool.not_eq_false]
  rw [TrapOp.Agrees, PyBoard.handleWfi, privWfi]
  by_cases htrap : b.hart.mode ≠ .M ∧ b.csr .mstatus &&& mstatusTw ≠ 0
  · rw [if_pos htrap, if_pos ⟨htw.mp htrap.2, hmode ▸ htrap.1⟩]
    refine (illegal_agree_iff hm _).trans ⟨fun h _ _ => h, fun h => h htrap.1 htrap.2⟩
  · have hwoken : b.hart.wfiWoken = s.wfiWoken := congrArg TrapView.woken hm.view
    have hpend : b.csr .mip &&& b.csr .mie = s.mip &&& s.mie := by
      rw [hm.mie, show b.csr .mip = s.mip from congrArg TrapView.mip hm.view]
    have hnot : ¬ (s.mstatus.getLsbD 21 = true ∧ s.mode ≠ .M) := fun h => htrap ⟨hmode ▸ h.2, htw.mpr h.1⟩
    rw [if_neg htrap, if_neg hnot, hwoken, hpend]
    refine iff_of_true ?_ fun hM ht => absurd ⟨hM, ht⟩ htrap
    cases hwk : s.wfiWoken with
    | true =>
      simp only [↓reduceIte]
      change { b.trapView with woken := false } = { s.trapView with woken := false }
      rw [hm.view]
    | false =>
      simp only [Bool.false_eq_true, ↓reduceIte]
      by_cases hp : s.mip &&& s.mie ≠ 0
      · rw [if_pos hp, if_pos hp]
        exact hm.view
      · rw [if_neg hp, if_neg hp]
        change { b.trapView with waiting := true, woken := false } =
          { s.trapView with waiting := true, woken := false }
        rw [hm.view]

end Agree

/-- The two engines agree on a trap, or on an instruction that enters or leaves one, exactly where the
mark of a woken hart, a software interrupt kept back, the value of an ECALL, the reserved `MPP` and
the wait of a returning hart do not tell them apart. -/
theorem trap_agree_iff {n : Nat} {b : PyBoard n} {w : World} (cfg : Features) (hm : Marshalled b w.hart)
    (hmode : b.hart.mode = .U ∨ b.hart.mode = .S ∨ b.hart.mode = .M) (op : TrapOp) (hs : op.InScope cfg w) :
    (op.python b).trapView = (op.engine cfg w).trapView ↔ op.Agrees b := by
  cases op with
  | deliver code isInt tval => exact deliverTrap_agree_iff hm (lt_trans hs (by decide)) tval isInt
  | ecall => exact ecall_agree_iff hm hmode hs
  | ebreak =>
    have hoff : cfg.hasSemihosting = false := hs
    have hpc : b.hart.pc = w.hart.pc := congrArg TrapView.pc hm.view
    have h := @exception_agree_iff _ b w.hart 3 hm (by decide) b.hart.pc w.hart.pc
    rw [and_iff_left hpc] at h
    simp only [TrapOp.python, TrapOp.engine, TrapOp.Agrees, handleEbreak, hoff]
    exact h
  | mret => exact mret_agree_iff hm
  | sret => exact sret_agree_iff hm hmode
  | wfi => exact wfi_agree_iff hm

/-- A hart in U mode after reset, on both sides. -/
def userBoard (pc : Word) : PyBoard 1 where
  id := 0
  hasSstc := true
  hart :=
    { mode := .U, pc := pc, csrs := fun _ => 0, waiting := false, wfiWoken := false, reservationValid := false
      imsicSelectM := 0, imsicSelectS := 0, intStateVersion := ⟨0⟩, intCacheVersion := none, intCacheNextTimer := 0 }
  clint := { msip := fun _ => false, mtimecmp := fun _ => 0, mtime := 0 }
  ext := .plic (Plic.reset 0xC000000 1 2)

def userWorld (pc : Word) : World :=
  (World.zeroed ⟨0x80000000, 0x1000, 0x80000000, 0⟩).setHart { HartState.zeroed with mode := .U, pc := pc }

theorem marshalled_user (pc : Word) : Marshalled (userBoard pc) (userWorld pc).hart where
  view := rfl
  vectors := rfl
  mie := rfl
  aia mmode := by cases mmode <;> rfl

/-- A breakpoint is the same trap on both sides. -/
theorem ebreak_agrees :
    (TrapOp.ebreak.python (userBoard 0x80000000)).trapView =
      (TrapOp.ebreak.engine ⟨true, false, false, 0⟩ (userWorld 0x80000000)).trapView :=
  (trap_agree_iff ⟨true, false, false, 0⟩ (marshalled_user 0x80000000) (.inl rfl) .ebreak rfl).mpr
    fun h => Bool.noConfusion h

/-- The two engines report different values for an ECALL. -/
theorem ecall_values_differ :
    ¬ ∀ (n : Nat) (b : PyBoard n) (w : World) (cfg : Features), Marshalled b w.hart →
        b.hart.mode = .U ∨ b.hart.mode = .S ∨ b.hart.mode = .M → ∀ op : TrapOp, op.InScope cfg w →
          (op.python b).trapView = (op.engine cfg w).trapView := by
  intro h
  have hview := h 1 (userBoard 0x80000000) (userWorld 0x80000000) ⟨true, false, false, 0⟩
    (marshalled_user 0x80000000) (.inl rfl) .ecall fun hs => absurd hs.1 (by decide +kernel)
  have hmtval := congrArg TrapView.mtval hview
  exact absurd hmtval (by decide +kernel)

end Pyremu
