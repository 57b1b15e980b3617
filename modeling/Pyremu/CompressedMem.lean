import Pyremu.Compressed

/-!
# Memory accesses of compressed instructions

The compressed loads and stores against the 32-bit ones. Both translate and
check PMP in the same way. They part where an access faults, where it leaves
RAM or its page, and in the floating-point status.
-/

namespace Pyremu

open ByteMem

/-! ## RAM byte by byte -/

section Bytes

variable {c : WalkCtx} {l : Layout} {pa off : Word} {n : Nat}

/-- Each byte alone resolves to its place in the whole. -/
def BytesResolve (l : Layout) (pa off : Word) (n : Nat) : Prop :=
  ∀ i < n, HartSched.ramOffset l (pa + BitVec.ofNat 64 i) 1 = some (off + BitVec.ofNat 64 i)

instance : Decidable (BytesResolve l pa off n) := inferInstanceAs (Decidable (∀ i < n, _))

theorem hartSched_of_mem (h : Mem.ramOffset l pa n = some off) :
    HartSched.ramOffset l pa n = some off := by
  have hw : pa.toNat + n < 2 ^ 64 := by
    by_contra hge
    simp only [Mem.ramOffset] at h
    rw [if_pos (by omega)] at h
    cases h
  rw [hartSched_ramOffset_eq, translate_ramOffset_of_no_wrap hw, h]

/-- An accepted access ends below `2^64`, seen from its offset too. -/
theorem mem_ramOffset_no_wrap (h : Mem.ramOffset l pa n = some off) : off.toNat + n < 2 ^ 64 := by
  simp only [Mem.ramOffset] at h
  split at h
  · cases h
  · split at h
    · rename_i hw hr
      cases h
      have := hr.1
      rw [BitVec.le_def] at this
      rw [BitVec.toNat_sub_of_le hr.1]
      omega
    · split at h
      · rename_i hw _ hs
        cases h
        have := hs.2.1
        rw [BitVec.le_def] at this
        rw [BitVec.toNat_sub_of_le hs.2.1]
        omega
      · cases h

theorem add_ofNat_toNat {i : Nat} (h : off.toNat + n < 2 ^ 64) (hi : i ≤ n) :
    (off + BitVec.ofNat 64 i).toNat = off.toNat + i := by
  rw [BitVec.toNat_add, BitVec.toNat_ofNat, Nat.mod_eq_of_lt (by omega : i < 2 ^ 64),
    Nat.mod_eq_of_lt (by omega)]

theorem ramReadBytes_eq (hb : BytesResolve c.toLayout pa off n) (h : off.toNat + n < 2 ^ 64) :
    ramReadBytes c pa n = readLe c.ram off.toNat n := by
  induction n with
  | zero => rfl
  | succ n ih =>
    have hbyte : ramReadRaw c (pa + BitVec.ofNat 64 n) 1 = (c.ram (off.toNat + n)).setWidth 64 := by
      simp only [ramReadRaw, hb n (by omega), loadSized]
      rw [add_ofNat_toNat h (by omega), if_pos (by decide), readLe_one]
    rw [ramReadBytes, readLe_succ, hbyte, ih (fun i hi => hb i (by omega)) (by omega)]

@[simp] theorem ramWriteBytes_toLayout (c : WalkCtx) (pa v : Word) (n : Nat) :
    (ramWriteBytes c pa v n).toLayout = c.toLayout := by
  induction n with
  | zero => rfl
  | succ n ih => rw [ramWriteBytes, ramWriteRaw_toLayout, ih]

theorem ramWriteBytes_ram {v : Word} (hb : BytesResolve c.toLayout pa off n)
    (h : off.toNat + n < 2 ^ 64) :
    (ramWriteBytes c pa v n).ram = writeLe c.ram off.toNat n v := by
  induction n with
  | zero => simp [ramWriteBytes]
  | succ n ih =>
    have hoff := hb n (by omega)
    rw [← ramWriteBytes_toLayout c pa v n] at hoff
    simp only [ramWriteBytes, ramWriteRaw, hoff, storeSized]
    rw [add_ofNat_toNat h (by omega), if_pos (by decide), ih (fun i hi => hb i (by omega)) (by omega),
      ← writeLe_succ c.ram off.toNat n v]
    apply writeLe_congr
    intro i hi
    have hm : (0xFF : Word).getLsbD i = true := by
      have : i < 8 := by omega
      revert i
      decide
    rw [BitVec.getLsbD_and, hm, Bool.and_true]

/-- Two runs of bytes, one after the other. -/
theorem ramReadBytes_add (c : WalkCtx) (pa : Word) (m n : Nat) :
    ramReadBytes c pa (m + n) =
      ramReadBytes c pa m ||| (ramReadBytes c (pa + BitVec.ofNat 64 m) n <<< (8 * m)) := by
  induction n with
  | zero => simp [ramReadBytes]
  | succ n ih =>
    have haddr : pa + BitVec.ofNat 64 (m + n) = pa + BitVec.ofNat 64 m + BitVec.ofNat 64 n := by
      rw [BitVec.ofNat_add, BitVec.add_assoc]
    rw [← Nat.add_assoc, ramReadBytes, ramReadBytes, ih, haddr, BitVec.shiftLeft_or_distrib,
      BitVec.or_assoc, ← BitVec.shiftLeft_add, Nat.mul_add, Nat.add_comm (8 * m)]

theorem ramWriteBytes_add (c : WalkCtx) (pa v : Word) (m n : Nat) :
    ramWriteBytes (ramWriteBytes c pa v m) (pa + BitVec.ofNat 64 m) (v >>> (8 * m)) n =
      ramWriteBytes c pa v (m + n) := by
  induction n with
  | zero => rfl
  | succ n ih =>
    have haddr : pa + BitVec.ofNat 64 (m + n) = pa + BitVec.ofNat 64 m + BitVec.ofNat 64 n := by
      rw [BitVec.ofNat_add, BitVec.add_assoc]
    rw [← Nat.add_assoc, ramWriteBytes, ramWriteBytes, ih, haddr, ← BitVec.shiftRight_add, Nat.mul_add]

end Bytes

/-! ## Devices -/

/-- No device handler and no device window claims `pa`. -/
structure OutsideDevices (cfg : Features) (w : World) (pa : Word) : Prop where
  windows : isDeviceAddr pa w.dev = false
  clint : w.clint.base = 0 ∨ 0xC000 ≤ (pa - w.clint.base).toNat
  uart : w.uart.base = 0 ∨ 0x100 ≤ (pa - w.uart.base).toNat
  virtio : w.dev.virtioBase = 0 ∨ 0x200 ≤ (pa - w.dev.virtioBase).toNat
  plic : ∀ p, w.dev.plic = some p →
    p.base = 0 ∨ 0x200000 + p.numContexts * 0x1000 ≤ (pa - p.base).toNat
  imsic : cfg.aia = false ∨ decodeImsicAddr cfg pa w.clint.numHarts = none

namespace OutsideDevices

variable {cfg : Features} {w : World} {pa : Word}

theorem tryVirtio (h : OutsideDevices cfg w pa) (isWrite : Bool) (v : Word) :
    w.tryVirtio pa isWrite v = (w, none) := by
  have hv : tryHandleVirtio w.dev pa isWrite v = (w.dev, none) := by
    simp only [tryHandleVirtio]
    obtain hv | hv := h.virtio
    · rw [if_pos hv]
    · rw [if_pos hv, ite_self]
  rw [World.tryVirtio, hv]

theorem tryUart (h : OutsideDevices cfg w pa) (isWrite : Bool) (v : Word) :
    w.tryUart pa isWrite v = (w, none) := by
  have hv : tryHandleUart w.uart pa isWrite v (w.hart.mhartid.setWidth 8) = (w.uart, none) := by
    simp only [tryHandleUart]
    obtain hv | hv := h.uart
    · rw [if_pos hv]
    · rw [if_pos hv, ite_self]
  rw [World.tryUart, hv]

theorem tryPlic (h : OutsideDevices cfg w pa) (isWrite : Bool) (v : Word) (n : Nat) :
    w.tryPlic pa isWrite v n = (w, none) := by
  simp only [World.tryPlic, tryHandlePlic]
  cases hp : w.dev.plic with
  | none => rfl
  | some p =>
    dsimp only
    split
    · rfl
    · rename_i hb
      rw [if_pos ((h.plic p hp).resolve_left fun h0 => hb (.inl h0))]

theorem tryClint (h : OutsideDevices cfg w pa) (isWrite : Bool) (v : Word) (n : Nat) :
    tryHandleClint w pa isWrite v n = (w, none) := by
  simp only [tryHandleClint]
  obtain hv | hv := h.clint
  · rw [if_pos hv]
  · split
    · rfl
    · rw [if_neg (by omega), if_neg (by omega), if_neg (by omega)]

theorem tryClintSerial (h : OutsideDevices cfg w pa) (isWrite : Bool) (v : Word) :
    tryHandleClintSerial w pa isWrite v = (w, none) := by
  simp only [tryHandleClintSerial]
  obtain hv | hv := h.clint
  · rw [if_pos hv]
  · split
    · rfl
    · rw [if_neg (by omega), if_neg (by omega), if_neg (by omega)]

theorem tryImsic (h : OutsideDevices cfg w pa) (v : Word) :
    tryHandleImsic cfg w pa v = (w, false) := by
  obtain hv | hv := h.imsic <;> simp [tryHandleImsic, hv]

theorem tryImsicSerial (h : OutsideDevices cfg w pa) (v : Word) :
    tryHandleImsicSerial cfg w pa v = (w, false) := by
  obtain hv | hv := h.imsic <;> simp [tryHandleImsicSerial, hv]

theorem imsicRead (h : OutsideDevices cfg w pa) :
    tryHandleImsicRead cfg pa w.clint.numHarts = none := by
  obtain hv | hv := h.imsic <;> simp [tryHandleImsicRead, hv]

theorem deviceLoad (h : OutsideDevices cfg w pa) (n : Nat) :
    Pyremu.deviceLoad cfg w pa n = (w, none) := by
  simp [Pyremu.deviceLoad, firstDevice, h.tryClint, h.tryVirtio, h.tryUart, h.imsicRead, h.tryPlic]

theorem deviceStore (h : OutsideDevices cfg w pa) (v : Word) (n : Nat) :
    Pyremu.deviceStore cfg w pa v n = (w, none) := by
  simp [Pyremu.deviceStore, firstDevice, h.tryClint, h.tryVirtio, h.tryUart, h.tryImsic, h.tryPlic]

theorem serialDevice (h : OutsideDevices cfg w pa) (isWrite : Bool) (v : Word) (n : Nat) :
    Pyremu.serialDevice cfg w pa isWrite v n = (w, none) := by
  simp [Pyremu.serialDevice, firstDevice, h.tryClintSerial, h.tryVirtio, h.tryImsicSerial,
    h.tryPlic]

/-- Translation moves no device. -/
theorem translated {w' : World} (h : OutsideDevices cfg w pa) (ht : Translated w w') :
    OutsideDevices cfg w' pa := by
  rw [ht.rest]
  exact ⟨h.windows, h.clint, h.uart, h.virtio, h.plic, h.imsic⟩

end OutsideDevices

/-! ## The memory forms -/

/-- A compressed load or store, with the address it computes. -/
inductive MemForm where
  | load (va : Word) (n : Nat) (dest : Dest)
  | store (va : Word) (n : Nat) (v : Word) (fp : Bool)

namespace MemForm

def isFp : MemForm → Bool
  | load _ _ (.gpr _) => false
  | load _ _ (.fpr _) => true
  | store _ _ _ fp => fp

/-- Translation and PMP check of the access. -/
def access (cfg : Features) (w : World) : MemForm → World × Option Word
  | load va n _ => translateAccess cfg w va .read n Exc.ldAccessFault va va
  | store va n _ _ => translateAccess cfg w va .write n Exc.stAccessFault va va

/-- The addressed location lies outside all device windows. -/
def OutsideDevices (cfg : Features) (w : World) (f : MemForm) : Prop :=
  ∀ w' pa, f.access cfg w = (w', some pa) → Pyremu.OutsideDevices cfg w pa

/-- What `handle_compressed` runs. -/
def compressed (cfg : Features) (w : World) (iw : BitVec 32) (g : InstrToBeExec) :
    MemForm → World × InstrToBeExec × Word
  | load va n dest => compressedLoad cfg w va n iw g (dest.write n)
  | store va n v fp =>
    compressedStore cfg w va (if n = 4 then v &&& 0xFFFFFFFF else v) n iw g
      fun w => if fp then w.fsDirty else w

/-- What the dispatcher runs on the expansion when no device answers. -/
def word (cfg : Features) (w : World) (instr : BitVec 32) (f : MemForm) : World × Word :=
  match f.access cfg w with
  | (w, none) => (w, 0)
  | (w, some pa) =>
    match f with
    | load va n dest => loadTail cfg w va pa n instr (dest.write n)
    | store va n v _ => storeTail cfg w va pa v n instr

end MemForm

/-- The memory form of an encoding, if it is one. -/
def memFormOf (s : HartState) (cf : CompressedFields) : Option MemForm :=
  let addr := readGpr s cf.rs1p + cf.imm
  let loadAddr := s.gprs 2 + cf.imm
  let storeAddr := s.gprs 2 + cf.imm2
  match cf.quadrant, cf.funct3 with
  | 0, 1 => some (.load addr 8 (.fpr cf.rdp))
  | 0, 2 => some (.load addr 4 (.gpr cf.rd))
  | 0, 3 => some (.load addr 8 (.gpr cf.rd))
  | 0, 5 => some (.store addr 8 (s.fprs cf.rdp) true)
  | 0, 6 => some (.store addr 4 (readGpr s cf.rdp) false)
  | 0, 7 => some (.store addr 8 (readGpr s cf.rdp) false)
  | 2, 1 => some (.load loadAddr 8 (.fpr cf.rd))
  | 2, 2 => some (.load loadAddr 4 (.gpr cf.rd))
  | 2, 3 => some (.load loadAddr 8 (.gpr cf.rd))
  | 2, 5 => some (.store storeAddr 8 (s.fprs cf.rs2) true)
  | 2, 6 => some (.store storeAddr 4 (readGpr s cf.rs2) false)
  | 2, 7 => some (.store storeAddr 8 (readGpr s cf.rs2) false)
  | _, _ => none

section Forms

variable {cfg : Features} {sf : SoftFloat} {w : World}

theorem dispatch_load {imm : BitVec 12} {rs1 rd : BitVec 5} {func3 : BitVec 3} {n : Nat} {signed : Bool}
    (hk : loadKind func3 = some (n, signed))
    (hw : ∀ w v, (Dest.gpr rd).write n w v = w.writeGpr rd (extendLoad n signed v))
    {va : Word} (hva : readGpr w.hart rs1 + imm.signExtend 64 = va)
    (hdev : (MemForm.load va n (.gpr rd)).OutsideDevices cfg w) :
    let i := encodeI imm rs1 func3 rd opLoad
    dispatchConcurrent cfg sf w (decodeFields i) i =
      (MemForm.load va n (.gpr rd)).word cfg w i := by
  obtain ⟨hop, hrd, h3, h1, h7, himm⟩ := decode_encodeI imm rs1 func3 rd opLoad
  generalize encodeI imm rs1 func3 rd opLoad = i at *
  simp only [dispatchConcurrent, hop]
  change handleLoad cfg w (decodeFields i) i = _
  simp only [handleLoad, MemForm.word, MemForm.access, hrd, h3, h1, himm, hk, hva]
  rcases heq : translateAccess cfg w va .read n Exc.ldAccessFault va va with ⟨w1, _ | pa⟩
  · rfl
  · dsimp only
    have hd := (hdev _ _ heq).translated (translateAccess_some heq).1
    rw [hd.deviceLoad]
    dsimp only
    congr 1
    funext w v
    exact (hw w v).symm

theorem dispatch_fpLoad {imm : BitVec 12} {rs1 rd : BitVec 5} 
    {va : Word} (hva : readGpr w.hart rs1 + imm.signExtend 64 = va)
    (hdev : (MemForm.load va 8 (.fpr rd)).OutsideDevices cfg w) :
    let i := encodeI imm rs1 0b011 rd opFpLoad
    dispatchConcurrent cfg sf w (decodeFields i) i =
      if fpOff w.hart then (w.illegal i, 0)
      else (MemForm.load va 8 (.fpr rd)).word cfg w i := by
  obtain ⟨hop, hrd, h3, h1, h7, himm⟩ := decode_encodeI imm rs1 0b011 rd opFpLoad
  generalize encodeI imm rs1 0b011 rd opFpLoad = i at *
  simp only [dispatchConcurrent, hop]
  change handleFpLoad cfg w (decodeFields i) i = _
  have hk : fpSize 0b011 = some 8 := rfl
  simp only [handleFpLoad, MemForm.word, MemForm.access, hrd, h3, h1, himm, hk, hva]
  split
  · rfl
  · rcases heq : translateAccess cfg w va .read 8 Exc.ldAccessFault va va with ⟨w1, _ | pa⟩
    · rfl
    · dsimp only
      have hd := (hdev _ _ heq).translated (translateAccess_some heq).1
      rw [hd.tryVirtio]
      rfl

/-- Translation leaves the registers alone. -/
theorem translateAccess_regs {va ac ft pt pa : Word} {rwx : Rwx} {n : Nat} {w' : World}
    (h : translateAccess cfg w va rwx n ac ft pt = (w', some pa)) :
    w'.hart.gprs = w.hart.gprs ∧ w'.hart.fprs = w.hart.fprs := by
  obtain ⟨_, _, _, _, _, _, heq⟩ := (translateAccess_some h).1.hart
  rw [heq]
  exact ⟨rfl, rfl⟩

theorem dispatch_store {imm : BitVec 12} {rs2 rs1 : BitVec 5} {func3 : BitVec 3} {n : Nat}
    (hk : storeSize func3 = some n)
    {va : Word} (hva : readGpr w.hart rs1 + imm.signExtend 64 = va)
    (hdev : (MemForm.store va n (readGpr w.hart rs2) false).OutsideDevices cfg w) :
    let i := encodeS imm rs2 rs1 func3 opStore
    dispatchConcurrent cfg sf w (decodeFields i) i =
      (MemForm.store va n (readGpr w.hart rs2) false).word cfg w i := by
  obtain ⟨hop, h3, h1, h2, himm⟩ := decode_encodeS imm rs2 rs1 func3 opStore
  generalize encodeS imm rs2 rs1 func3 opStore = i at *
  simp only [dispatchConcurrent, hop]
  change handleStore cfg w (decodeFields i) i = _
  simp only [handleStore, MemForm.word, MemForm.access, h3, h1, h2, himm, hk, hva]
  rcases heq : translateAccess cfg w va .write n Exc.stAccessFault va va with ⟨w1, _ | pa⟩
  · rfl
  · have hd := (hdev _ _ heq).translated (translateAccess_some heq).1
    have hr : readGpr w1.hart rs2 = readGpr w.hart rs2 := by
      simp only [readGpr, (translateAccess_regs heq).1]
    dsimp only
    rw [hd.deviceStore, hr]

theorem dispatch_fpStore {imm : BitVec 12} {rs2 rs1 : BitVec 5}
    {va : Word} (hva : readGpr w.hart rs1 + imm.signExtend 64 = va)
    (hdev : (MemForm.store va 8 (w.hart.fprs rs2) true).OutsideDevices cfg w) :
    let i := encodeS imm rs2 rs1 0b011 opFpStore
    dispatchConcurrent cfg sf w (decodeFields i) i =
      if fpOff w.hart then (w.illegal i, 0)
      else (MemForm.store va 8 (w.hart.fprs rs2) true).word cfg w i := by
  obtain ⟨hop, h3, h1, h2, himm⟩ := decode_encodeS imm rs2 rs1 0b011 opFpStore
  generalize encodeS imm rs2 rs1 0b011 opFpStore = i at *
  simp only [dispatchConcurrent, hop]
  change handleFpStore cfg w (decodeFields i) i = _
  have hk : fpSize 0b011 = some 8 := rfl
  simp only [handleFpStore, MemForm.word, MemForm.access, h3, h1, h2, himm, hk, hva]
  split
  · rfl
  · rcases heq : translateAccess cfg w va .write 8 Exc.stAccessFault va va with ⟨w1, _ | pa⟩
    · rfl
    · dsimp only
      have hd := (hdev _ _ heq).translated (translateAccess_some heq).1
      rw [hd.tryVirtio, (translateAccess_regs heq).2]

theorem decodeCompressed_zero {h : BitVec 16} (hq : h.extractLsb' 0 2 = 0) :
    decodeCompressed h =
      { imm := immC0 h (h.extractLsb' 13 3), imm2 := 0, quadrant := 0,
        funct3 := h.extractLsb' 13 3, rd := creg (h.extractLsb' 2 3),
        rs1 := creg (h.extractLsb' 7 3), rs2 := creg (h.extractLsb' 2 3),
        rdp := creg (h.extractLsb' 2 3), rs1p := creg (h.extractLsb' 7 3),
        sf := h.extractLsb' 10 2, bit12 := h.extractLsb' 12 1, bit65 := h.extractLsb' 5 2 } := by
  simp only [decodeCompressed, hq]
  rfl

variable {h : BitVec 16} {i : BitVec 32} {f : MemForm} {iw : BitVec 32} {g : InstrToBeExec}

theorem memForm_zero (hq : h.extractLsb' 0 2 = 0) (hx : expandC0 h = some i)
    (hm : memFormOf w.hart (decodeCompressed h) = some f) (hdev : f.OutsideDevices cfg w) :
    handleC0 cfg w (decodeCompressed h) iw g = f.compressed cfg w iw g ∧
      dispatchConcurrent cfg sf w (decodeFields i) i =
        if f.isFp ∧ fpOff w.hart then (w.illegal i, 0) else f.word cfg w i := by
  rw [decodeCompressed_zero hq] at hm ⊢
  simp only [memFormOf] at hm
  simp only [expandC0] at hx
  simp only [handleC0]
  have hword := BitFields.signExtend_setWidth (u := 64) (immWordOff h) (by decide : 7 < 12)
  have hdouble := BitFields.signExtend_setWidth (u := 64) (immDoubleOff h) (by decide : 8 < 12)
  have hf := funct3_cases (h.extractLsb' 13 3)
  generalize h.extractLsb' 13 3 = f3 at *
  obtain rfl | rfl | rfl | rfl | rfl | rfl | rfl | rfl := hf
  · cases hm
  · change some _ = some _ at hx hm
    cases hx
    cases hm
    refine ⟨rfl, ?_⟩
    have hd := @dispatch_fpLoad _ sf _ _ _ _ _ (by rw [hdouble]; rfl) hdev
    simpa [MemForm.isFp] using hd
  · change some _ = some _ at hx hm
    cases hx
    cases hm
    exact ⟨rfl, dispatch_load rfl (fun _ _ => rfl) (by rw [hword]; rfl) hdev⟩
  · change some _ = some _ at hx hm
    cases hx
    cases hm
    exact ⟨rfl, dispatch_load rfl (fun _ _ => rfl) (by rw [hdouble]; rfl) hdev⟩
  · cases hm
  · change some _ = some _ at hx hm
    cases hx
    cases hm
    refine ⟨rfl, ?_⟩
    have hd := @dispatch_fpStore _ sf _ _ _ _ _ (by rw [hdouble]; rfl) hdev
    simpa [MemForm.isFp] using hd
  · change some _ = some _ at hx hm
    cases hx
    cases hm
    exact ⟨rfl, dispatch_store rfl (by rw [hword]; rfl) hdev⟩
  · change some _ = some _ at hx hm
    cases hx
    cases hm
    exact ⟨rfl, dispatch_store rfl (by rw [hdouble]; rfl) hdev⟩

theorem memForm_two (hq : h.extractLsb' 0 2 = 2) (hx : expandC2 h = some i)
    (hm : memFormOf w.hart (decodeCompressed h) = some f) (hdev : f.OutsideDevices cfg w) :
    (handleC2 cfg w (decodeCompressed h) iw g =
        if f.isFp ∧ fpOff w.hart then (w.illegal iw, g, 0) else f.compressed cfg w iw g) ∧
      dispatchConcurrent cfg sf w (decodeFields i) i =
        if f.isFp ∧ fpOff w.hart then (w.illegal i, 0) else f.word cfg w i := by
  rw [decodeCompressed_two hq] at hm ⊢
  simp only [memFormOf] at hm
  simp only [expandC2] at hx
  simp only [handleC2]
  have hlwsp := BitFields.signExtend_setWidth (u := 64) (immLwsp h) (by decide : 8 < 12)
  have hldsp := BitFields.signExtend_setWidth (u := 64) (immLdsp h) (by decide : 9 < 12)
  have hswsp := BitFields.signExtend_setWidth (u := 64) (immSwsp h) (by decide : 8 < 12)
  have hsdsp := BitFields.signExtend_setWidth (u := 64) (immSdsp h) (by decide : 9 < 12)
  have hf := funct3_cases (h.extractLsb' 13 3)
  generalize h.extractLsb' 13 3 = f3 at *
  obtain rfl | rfl | rfl | rfl | rfl | rfl | rfl | rfl := hf
  · cases hm
  · change some _ = some _ at hx hm
    cases hx
    cases hm
    have hd := @dispatch_fpLoad _ sf _ _ 2 _ _ (by rw [hldsp]; rfl) hdev
    refine ⟨?_, by simpa [MemForm.isFp] using hd⟩
    simp only [MemForm.isFp, true_and]
    rfl
  · change (if _ then none else some _) = some i at hx
    change some _ = some _ at hm
    cases hm
    split at hx
    · cases hx
    · rename_i hrd
      cases hx
      exact ⟨if_neg hrd, dispatch_load rfl (fun _ _ => rfl) (by rw [hlwsp]; rfl) hdev⟩
  · change (if _ then none else some _) = some i at hx
    change some _ = some _ at hm
    cases hm
    split at hx
    · cases hx
    · rename_i hrd
      cases hx
      exact ⟨if_neg hrd, dispatch_load rfl (fun _ _ => rfl) (by rw [hldsp]; rfl) hdev⟩
  · cases hm
  · change some _ = some _ at hx hm
    cases hx
    cases hm
    have hd := @dispatch_fpStore _ sf _ _ _ 2 _ (by rw [hsdsp]; rfl) hdev
    refine ⟨?_, by simpa [MemForm.isFp] using hd⟩
    simp only [MemForm.isFp, true_and]
    rfl
  · change some _ = some _ at hx hm
    cases hx
    cases hm
    exact ⟨rfl, dispatch_store rfl (by rw [hswsp]; rfl) hdev⟩
  · change some _ = some _ at hx hm
    cases hx
    cases hm
    exact ⟨rfl, dispatch_store rfl (by rw [hsdsp]; rfl) hdev⟩

end Forms

end Pyremu
