import Pyremu.Handlers
import Pyremu.Outcome

/-!
# Read-modify-write operations of both engines

`handle_amo` and the concurrent dispatch read, combine and store alike. They
part where the old word goes to `rd`: the serial handler extends its sign, the
concurrent one does not.
-/

namespace Pyremu

open ByteMem

/-! ## The serial handler -/

/-- What `amo_fetch_u32` and `amo_fetch_u64` store, each at its width. -/
def amoFetch {w : Nat} (funct5 : BitVec 5) (prev rs2 : BitVec w) : Option (BitVec w) :=
  match funct5 with
  | 0b00001 => some rs2
  | 0b00000 => some (prev + rs2)
  | 0b00100 => some (prev ^^^ rs2)
  | 0b01100 => some (prev &&& rs2)
  | 0b01000 => some (prev ||| rs2)
  | 0b10000 => some (if rs2.slt prev then rs2 else prev)
  | 0b10100 => some (if rs2.slt prev then prev else rs2)
  | 0b11000 => some (if rs2.ult prev then rs2 else prev)
  | 0b11100 => some (if rs2.ult prev then prev else rs2)
  | _ => none

def amoFetchU32 (funct5 : BitVec 5) (prev rs2Val : Word) : Option Word :=
  (amoFetch funct5 (prev.setWidth 32) (rs2Val.setWidth 32)).map fun v => v.setWidth 64

def amoFetchU64 (funct5 : BitVec 5) (prev rs2Val : Word) : Option Word := amoFetch funct5 prev rs2Val

/-- The reservations go after the store. No `funct5` without a value gets here. -/
def handleAmoArithmetic (w : World) (funct5 : BitVec 5) (rd : BitVec 5) (rs2Val : Word)
    (width : Nat) (va pa : Word) : World × Word :=
  match Mem.ramOffset w.mem.toLayout pa width with
  | none => (w.trap Exc.ldAccessFault va, 0)
  | some off =>
    let loaded := readLe w.mem.ram off.toNat width
    match (if width = 4 then amoFetchU32 else amoFetchU64) funct5 loaded rs2Val with
    | none => (w, 0)
    | some new =>
      let mem := lrClearAll { w.mem with ram := writeLe w.mem.ram off.toNat width new }
      ({ w with mem }.writeGpr rd (if width = 4 then sext32 loaded else loaded), 4)

/-- LR. The reserved value is not recorded. -/
def amoLr (w : World) (rd : BitVec 5) (width : Nat) (pa : Word) : World :=
  let loaded := ramRead w.mem pa width
  let w := { w with mem := lrSet w.mem (w.hart.mhartid.setWidth 8).toNat pa }
  (w.setHart { w.hart with reservationValid := true, reservationAddr := pa }).writeGpr rd
    (if width = 4 then sext32 loaded else loaded)

/-- SC. One of the two records of the reservation is enough. -/
def amoSc (w : World) (rd : BitVec 5) (rs2Val : Word) (width : Nat) (pa : Word) : World :=
  if lrCheck w.mem (w.hart.mhartid.setWidth 8).toNat pa ∨
      (w.hart.reservationValid ∧ w.hart.reservationAddr = pa) then
    let w := { w with mem := (ramWrite w.mem pa rs2Val width).1 }
    (w.setHart { w.hart with reservationValid := false }).writeGpr rd 0
  else w.writeGpr rd 1

def handleAmo (cfg : Features) (w : World) (f : DecodedFields) (instr : BitVec 32)
    (g : InstrToBeExec) : World × InstrToBeExec × Word :=
  let funct5 := f.func7.extractLsb' 2 5
  match amoWidth f.func3 with
  | none => (w.illegal instr, g, 0)
  | some width =>
    let va := readGpr w.hart f.rs1
    if !aligned va width then (w.trap Exc.ldMisaligned va, g, 0)
    else
      match translateAccess cfg w va .write width Exc.ldAccessFault va va with
      | (w, none) => (w, g, 0)
      | (w, some pa) =>
        let rs2Val := readGpr w.hart f.rs2
        match w.tryVirtio pa true rs2Val with
        | (w, some _) => (w, g, 4)
        | (w, none) =>
          if isDeviceAddr pa w.dev then (w, ⟨.mmio, instr⟩, exitSentinel)
          else if isLr funct5 then (amoLr w f.rd width pa, g, 4)
          else if isSc funct5 then (amoSc w f.rd rs2Val width pa, g, 4)
          else if isRmw funct5 then
            let r := handleAmoArithmetic w funct5 f.rd rs2Val width va pa
            (r.1, g, r.2)
          else (w.illegal instr, g, 0)

/-! ## What an operation is for -/

inductive AmoOp where
  | swap | add | xor | and | or | min | max | minu | maxu
  deriving DecidableEq, Repr

namespace AmoOp

/-- The signed operations compare integers, the unsigned ones natural numbers. -/
def apply {w : Nat} (op : AmoOp) (old operand : BitVec w) : BitVec w :=
  match op with
  | swap => operand
  | add => old + operand
  | xor => old ^^^ operand
  | and => old &&& operand
  | or => old ||| operand
  | min => BitVec.ofInt w (Min.min old.toInt operand.toInt)
  | max => BitVec.ofInt w (Max.max old.toInt operand.toInt)
  | minu => BitVec.ofNat w (Min.min old.toNat operand.toNat)
  | maxu => BitVec.ofNat w (Max.max old.toNat operand.toNat)

def ofFunct5 (funct5 : BitVec 5) : Option AmoOp :=
  match funct5 with
  | 0b00001 => some swap
  | 0b00000 => some add
  | 0b00100 => some xor
  | 0b01100 => some and
  | 0b01000 => some or
  | 0b10000 => some min
  | 0b10100 => some max
  | 0b11000 => some minu
  | 0b11100 => some maxu
  | _ => none

variable {w : Nat} {funct5 : BitVec 5} (op : AmoOp) (a b : BitVec w)

theorem smin_eq : smin a b = apply min a b := by
  simp only [smin, apply, BitVec.slt_iff_toInt_lt]
  split
  · rw [min_eq_left (by omega), BitVec.ofInt_toInt]
  · rw [min_eq_right (by omega), BitVec.ofInt_toInt]

theorem smax_eq : smax a b = apply max a b := by
  simp only [smax, apply, BitVec.slt_iff_toInt_lt]
  split
  · rw [max_eq_right (by omega), BitVec.ofInt_toInt]
  · rw [max_eq_left (by omega), BitVec.ofInt_toInt]

theorem umin_eq : umin a b = apply minu a b := by
  simp only [umin, apply, BitVec.ult_iff_toNat_lt]
  split
  · rw [min_eq_left (by omega), BitVec.ofNat_toNat, BitVec.setWidth_eq]
  · rw [min_eq_right (by omega), BitVec.ofNat_toNat, BitVec.setWidth_eq]

theorem umax_eq : umax a b = apply maxu a b := by
  simp only [umax, apply, BitVec.ult_iff_toNat_lt]
  split
  · rw [max_eq_right (by omega), BitVec.ofNat_toNat, BitVec.setWidth_eq]
  · rw [max_eq_left (by omega), BitVec.ofNat_toNat, BitVec.setWidth_eq]

theorem amoValue_eq : amoValue funct5 a b = (ofFunct5 funct5).map fun op => op.apply a b := by
  unfold amoValue ofFunct5
  split
  all_goals simp only [Option.map, smin_eq, smax_eq, umin_eq, umax_eq]
  all_goals rfl

theorem amoFetch_eq : amoFetch funct5 a b = (ofFunct5 funct5).map fun op => op.apply a b := by
  have hmin : smin b a = apply min a b := by rw [smin_eq, apply, apply, min_comm]
  have hmax : smax b a = apply max a b := by rw [smax_eq, apply, apply, max_comm]
  have hminu : umin b a = apply minu a b := by rw [umin_eq, apply, apply, min_comm]
  have hmaxu : umax b a = apply maxu a b := by rw [umax_eq, apply, apply, max_comm]
  unfold amoFetch ofFunct5
  split
  all_goals simp only [Option.map, ← hmin, ← hmax, ← hminu, ← hmaxu]
  all_goals rfl

/-- The word that replaces `old`, at the width of the access. -/
def word (width : Nat) (old rs2Val : Word) : Word :=
  if width = 4 then (op.apply (old.setWidth 32) (rs2Val.setWidth 32)).setWidth 64
  else op.apply old rs2Val

variable {op} {width : Nat} {old rs2Val : Word}

theorem amoNew_eq (h : ofFunct5 funct5 = some op) :
    amoNew funct5 width old rs2Val = some (op.word width old rs2Val) := by
  simp only [amoNew, word, amoValue_eq, h, Option.map_some]
  split <;> rfl

theorem amoFetch_word (h : ofFunct5 funct5 = some op) :
    (if width = 4 then amoFetchU32 else amoFetchU64) funct5 old rs2Val =
      some (op.word width old rs2Val) := by
  simp only [word]
  split
  · simp only [amoFetchU32, amoFetch_eq, h, Option.map_some]
  · simp only [amoFetchU64, amoFetch_eq, h, Option.map_some]

/-- An operation of the table is neither LR nor SC nor reserved. -/
theorem ofFunct5_kind (h : ofFunct5 funct5 = some op) :
    isLr funct5 = false ∧ isSc funct5 = false ∧ isRmw funct5 = true := by
  revert h
  unfold ofFunct5
  split <;> intro h
  all_goals first | exact ⟨by decide, by decide, by decide⟩ | cases h

theorem word_getLsbD (hw : width = 4 ∨ width = 8) (i : Nat) (hi : 8 * width ≤ i) :
    (op.word width old rs2Val).getLsbD i = false := by
  rcases hw with rfl | rfl
  · rw [word, if_pos rfl, BitVec.getLsbD_setWidth, BitVec.getLsbD_of_ge _ i (by omega), Bool.and_false]
  · exact BitVec.getLsbD_of_ge _ i (by omega)

end AmoOp

/-! ## Both engines on one operation -/

/-- The aligned operation `op` of `f` on the RAM word at `off`; `w1` is the machine after translation. -/
structure AmoReady (cfg : Features) (w : World) (f : DecodedFields) (w1 : World) (op : AmoOp)
    (width : Nat) (off : Word) : Prop where
  operation : AmoOp.ofFunct5 (f.func7.extractLsb' 2 5) = some op
  sized : amoWidth f.func3 = some width
  natural : aligned (readGpr w.hart f.rs1) width = true
  resolves : ∃ pa, translateAccess cfg w (readGpr w.hart f.rs1) .write width Exc.ldAccessFault
      (readGpr w.hart f.rs1) (readGpr w.hart f.rs1) = (w1, some pa) ∧
    Mem.ramOffset w1.mem.toLayout pa width = some off ∧ isDeviceAddr pa w1.dev = false ∧
    (w1.dev.virtioBase = 0 ∨ 0x200 ≤ (pa - w1.dev.virtioBase).toNat)

/-- What a register holds of an old word. -/
def amoOld (width : Nat) (old : Word) : Word := if width = 4 then sext32 old else old

/-- From `w` to `w'` the operation replaces its word and hands out the old one, and
only the reservations go besides. -/
structure AmoDone (w w' : World) (op : AmoOp) (width off : Nat) (rd rs2 : BitVec 5) : Prop where
  stored : readLe w'.mem.ram off width =
    op.word width (readLe w.mem.ram off width) (readGpr w.hart rs2)
  bytes : ∀ a, a < off ∨ off + width ≤ a → w'.mem.ram a = w.mem.ram a
  loaded : rd ≠ 0 → w'.hart.gprs rd = amoOld width (readLe w.mem.ram off width)
  gprs : ∀ r, r ≠ rd ∨ r = 0 → w'.hart.gprs r = w.hart.gprs r
  rest : w' = { w with
    hart := { w.hart with gprs := w'.hart.gprs }
    mem := { lrClearAll w.mem with ram := w'.mem.ram } }

/-- The word is replaced and `rd` gets `v`. -/
def amoLeaves (w : World) (op : AmoOp) (width off : Nat) (rd : BitVec 5) (rs2Val v : Word) : World :=
  { w with
    hart := writeGpr w.hart rd v
    mem := { lrClearAll w.mem with
      ram := writeLe w.mem.ram off width (op.word width (readLe w.mem.ram off width) rs2Val) } }

section Engines

variable {cfg : Features} {w w1 : World} {f : DecodedFields} {instr : BitVec 32} {op : AmoOp}
  {width : Nat} {off : Word}

theorem tryVirtio_outside {w : World} {pa v : Word}
    (h : w.dev.virtioBase = 0 ∨ 0x200 ≤ (pa - w.dev.virtioBase).toNat) :
    w.tryVirtio pa true v = (w, none) := by
  have hdev : tryHandleVirtio w.dev pa true v = (w.dev, none) := by
    simp only [tryHandleVirtio]
    by_cases h0 : w.dev.virtioBase = 0
    · rw [if_pos h0]
    · rw [if_neg h0, if_pos (h.resolve_left h0)]
  simp only [World.tryVirtio, hdev]

/-- The wrapping resolver finds what the checked one finds. -/
theorem hartSched_ramOffset_of_mem {l : Layout} {pa : Word} {n : Nat}
    (h : Mem.ramOffset l pa n = some off) : HartSched.ramOffset l pa n = some off := by
  have hn : pa.toNat + n < 2 ^ 64 := by
    by_contra hw
    have hw : 2 ^ 64 ≤ pa.toNat + n := by omega
    have hnone : Mem.ramOffset l pa n = none := if_pos hw
    rw [hnone] at h
    cases h
  rw [hartSched_ramOffset_eq, translate_ramOffset_of_no_wrap hn, h]

theorem handleAmo_eq (h : AmoReady cfg w f w1 op width off) (g : InstrToBeExec) :
    handleAmo cfg w f instr g =
      (amoLeaves w1 op width off.toNat f.rd (readGpr w1.hart f.rs2)
        (amoOld width (readLe w1.mem.ram off.toNat width)), g, 4) := by
  obtain ⟨pa, htr, hoff, hdev, hvirt⟩ := h.resolves
  obtain ⟨hlr, hsc, hrmw⟩ := AmoOp.ofFunct5_kind h.operation
  simp only [handleAmo, h.sized, h.natural, htr, tryVirtio_outside hvirt, hdev, hlr, hsc, hrmw,
    handleAmoArithmetic, hoff, AmoOp.amoFetch_word h.operation, Bool.not_true, Bool.false_eq_true, ↓reduceIte]
  rfl

theorem handleAmoConcurrentDispatch_eq (h : AmoReady cfg w f w1 op width off) :
    handleAmoConcurrentDispatch cfg w f instr =
      (amoLeaves w1 op width off.toNat f.rd (readGpr w1.hart f.rs2)
        (readLe w1.mem.ram off.toNat width), 4) := by
  obtain ⟨pa, htr, hoff, hdev, hvirt⟩ := h.resolves
  obtain ⟨hlr, hsc, hrmw⟩ := AmoOp.ofFunct5_kind h.operation
  obtain ⟨_, hpage, hpmp⟩ := translateAccess_some htr
  have hpa : aligned pa width = true :=
    (aligned_of_pageOffset (amoWidth_cases h.sized) hpage).trans h.natural
  have hpmp : pmpOk w1.hart pa width true false w1.pmp = true := hpmp
  have hoff := hartSched_ramOffset_of_mem hoff
  have hfour : (4 : Word) ≠ exitSentinel := by decide
  simp only [handleAmoConcurrentDispatch, h.sized, h.natural, htr, tryVirtio_outside hvirt, hdev,
    handleAmoConcurrent, hpa, hpmp, hoff, execAmoOp, hlr, hsc, hrmw, execAmoRmw, lrClearAll_ram,
    AmoOp.amoNew_eq h.operation, Bool.not_true, Bool.false_eq_true, ↓reduceIte, hfour]
  rfl

/-- The old word as it is and with its sign differ in the upper half only. -/
theorem amoOld_eq_iff (hw : width = 4 ∨ width = 8) (m : Mem) (o : Nat) :
    amoOld width (readLe m o width) = readLe m o width ↔
      width = 8 ∨ (readLe m o width).getLsbD 31 = false := by
  rcases hw with rfl | rfl
  · have hset : ((readLe m o 4).setWidth 32).setWidth 64 = readLe m o 4 := by
      apply BitVec.eq_of_getLsbD_eq
      intro i hi
      rw [BitVec.getLsbD_setWidth, BitVec.getLsbD_setWidth, getLsbD_readLe]
      by_cases h : i < 32
      · simp [h, hi]
      · simp [h]
    have hmsb : ((readLe m o 4).setWidth 32).msb = (readLe m o 4).getLsbD 31 := by
      rw [BitVec.msb_eq_getLsbD_last, BitVec.getLsbD_setWidth]
      rfl
    simp only [amoOld, ↓reduceIte, sext32, show ¬ (4 : Nat) = 8 by decide, false_or]
    constructor
    · intro h
      have htop : (((readLe m o 4).setWidth 32).signExtend 64).getLsbD 63 = false := by
        rw [h, getLsbD_readLe]
        simp
      rw [BitVec.getLsbD_signExtend, hmsb] at htop
      simpa using htop
    · intro h
      rw [BitVec.signExtend_eq_setWidth_of_msb_false (hmsb.trans h), hset]
  · simp [amoOld]

/-- What the operation leaves is what it should when `rd` got the right word. -/
theorem amoDone_iff (hw : width = 4 ∨ width = 8) (w : World) (op : AmoOp) (o : Nat) (rd rs2 : BitVec 5)
    (v : Word) :
    AmoDone w (amoLeaves w op width o rd (readGpr w.hart rs2) v) op width o rd rs2 ↔
      rd = 0 ∨ amoOld width (readLe w.mem.ram o width) = v := by
  constructor
  · intro h
    by_cases hrd : rd = 0
    · exact .inl hrd
    · have hloaded := h.loaded hrd
      simp only [amoLeaves, writeGpr, if_neg hrd, Function.update_self] at hloaded
      exact .inr hloaded.symm
  · intro h
    by_cases hrd : rd = 0
    · have hregs : writeGpr w.hart rd v = w.hart := if_pos hrd
      refine ⟨readLe_writeLe _ _ _ fun i hi => AmoOp.word_getLsbD hw i hi, fun a ha => writeLe_other ha,
        fun h0 => absurd hrd h0, fun r _ => ?_, ?_⟩
      · simp only [amoLeaves, hregs]
      · simp only [amoLeaves, hregs]
    · have hregs : writeGpr w.hart rd v = { w.hart with gprs := Function.update w.hart.gprs rd v } :=
        if_neg hrd
      refine ⟨readLe_writeLe _ _ _ fun i hi => AmoOp.word_getLsbD hw i hi, fun a ha => writeLe_other ha,
        fun _ => ?_, fun r hr => ?_, ?_⟩
      · simp only [amoLeaves, hregs, Function.update_self, h.resolve_left hrd]
      · have hne : r ≠ rd := hr.elim id fun h0 => h0 ▸ Ne.symm hrd
        simp only [amoLeaves, hregs, Function.update_of_ne hne]
      · simp only [amoLeaves, hregs]

/-- The concurrent operation does what it should, as the serial handler does, except for an old
word with the sign bit set that a register takes. -/
theorem amo_semantics_iff (h : AmoReady cfg w f w1 op width off) (g : InstrToBeExec) :
    (AmoDone w1 (handleAmoConcurrentDispatch cfg w f instr).1 op width off.toNat f.rd f.rs2 ∧
      (handleAmoConcurrentDispatch cfg w f instr).2 = 4 ∧
      handleAmo cfg w f instr g =
        ((handleAmoConcurrentDispatch cfg w f instr).1, g, (handleAmoConcurrentDispatch cfg w f instr).2)) ↔
      width = 8 ∨ f.rd = 0 ∨ (readLe w1.mem.ram off.toNat width).getLsbD 31 = false := by
  have hw := amoWidth_cases h.sized
  have hold := amoOld_eq_iff hw w1.mem.ram off.toNat
  rw [handleAmo_eq h g, handleAmoConcurrentDispatch_eq h, amoDone_iff hw, hold]
  constructor
  · rintro ⟨hrd | hwidth | hbit, _⟩
    · exact .inr (.inl hrd)
    · exact .inl hwidth
    · exact .inr (.inr hbit)
  · intro hc
    have hc : f.rd = 0 ∨ width = 8 ∨ (readLe w1.mem.ram off.toNat width).getLsbD 31 = false := by
      rcases hc with hwidth | hrd | hbit
      · exact .inr (.inl hwidth)
      · exact .inl hrd
      · exact .inr (.inr hbit)
    refine ⟨hc, rfl, ?_⟩
    rcases hc with hrd | hc
    · simp only [amoLeaves, writeGpr, if_pos hrd]
    · rw [hold.mpr hc]

end Engines

/-- Machine mode over sixteen bytes of RAM that begin with `old`; `x1` points there and `x2` is 1. -/
def amoWorld (old : Word) : World :=
  let w := World.zeroed ⟨0x80000000, 16, 0, 0⟩
  { w with
    hart := { w.hart with gprs := fun r => if r = 1 then 0x80000000 else if r = 2 then 1 else 0 }
    mem := { w.mem with ram := writeLe w.mem.ram 0 4 old } }

theorem amoWorld_translateAccess (old : Word) :
    translateAccess ⟨false, false, false, 0⟩ (amoWorld old) 0x80000000 .write 4 Exc.ldAccessFault
      0x80000000 0x80000000 = (amoWorld old, some 0x80000000) := by
  have htr : (amoWorld old).translate ⟨false, false, false, 0⟩ 0x80000000 .write =
      (amoWorld old, .ok ⟨0x80000000, 0xF, 0⟩) := rfl
  have hbypass : pmpBypass HartState.zeroed false = true := by decide
  have hpmp : pmpOk (amoWorld old).hart 0x80000000 4 true false (amoWorld old).pmp = true :=
    (if_pos rfl).trans hbypass
  simp only [translateAccess, htr]
  exact if_pos hpmp

/-- `amoadd.w x3, x2, (x1)`. -/
theorem amoWorld_ready (old : Word) :
    AmoReady ⟨false, false, false, 0⟩ (amoWorld old) (decodeFields 0x0020A1AF) (amoWorld old) .add 4 0 where
  operation := rfl
  sized := rfl
  natural := show aligned 0x80000000 4 = true by decide
  resolves := ⟨0x80000000, amoWorld_translateAccess old,
    show Mem.ramOffset ⟨0x80000000, 16, 0, 0⟩ 0x80000000 4 = some 0 by decide, rfl, .inl rfl⟩

theorem amo_positive_word :
    AmoDone (amoWorld 5)
      (handleAmoConcurrentDispatch ⟨false, false, false, 0⟩ (amoWorld 5) (decodeFields 0x0020A1AF) 0x0020A1AF).1
      .add 4 0 3 2 :=
  ((amo_semantics_iff (amoWorld_ready 5) ⟨.normal, 0⟩).mpr (.inr (.inr (by decide)))).1

/-- The old word is `0x80000000`: one engine loads it as it is, the other with its sign. -/
theorem amo_negative_word_not_extended :
    ¬ ∀ (cfg : Features) (w w1 : World) (f : DecodedFields) (instr : BitVec 32) (op : AmoOp)
      (width : Nat) (off : Word) (g : InstrToBeExec), AmoReady cfg w f w1 op width off →
      AmoDone w1 (handleAmoConcurrentDispatch cfg w f instr).1 op width off.toNat f.rd f.rs2 ∧
        (handleAmoConcurrentDispatch cfg w f instr).2 = 4 ∧
        handleAmo cfg w f instr g =
          ((handleAmoConcurrentDispatch cfg w f instr).1, g, (handleAmoConcurrentDispatch cfg w f instr).2) := by
  intro h
  have hdone := (h _ _ _ _ 0x0020A1AF _ _ _ ⟨.normal, 0⟩ (amoWorld_ready 0x80000000)).1
  have hloaded := hdone.loaded (by decide)
  revert hloaded
  decide

end Pyremu
