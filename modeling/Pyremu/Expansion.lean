import Pyremu.CompressedMem

/-!
# Where a compressed instruction means its expansion

Arithmetic and jump forms always do. A memory form does when its fault, if it
has one, is not followed by the rest of the handler, when its bytes lie in RAM
on one page, and when the floating-point unit is already dirty for a store.
-/

namespace Pyremu

open ByteMem

/-! ## Faults -/

/-- Where a synchronous trap taken in `s` goes. -/
def trapVector (s : HartState) (code : Word) : Word :=
  trapTarget (if delegated s code then s.stvec else s.mtvec) code

theorem deliverTrap_pc (s : HartState) (code tval : Word) (h : isInterrupt code = false) :
    (deliverTrap s code tval).pc = trapVector s code := by
  simp only [deliverTrap, trapVector]
  split
  · simp [deliverTrapSmode, h]
  · simp [deliverTrapMmode, h]

theorem Faulted.pc {s s' : HartState} {code : Word} (h : Faulted s s' code) :
    s'.pc = trapVector s code := by
  obtain ⟨s₁, tval, hq, hi, rfl⟩ := h
  rw [deliverTrap_pc s₁ code tval hi]
  obtain ⟨_, ⟨_, _, _, _, _, _, rfl⟩, ⟨_, _, _, _, _, _, rfl⟩⟩ := hq
  rfl

/-- FS is dirty and SD is set, so that marking the unit dirty changes nothing. -/
def fsIsDirty (s : HartState) : Prop :=
  s.mstatus ||| (mstatusFs ||| mstatusSd) = s.mstatus

instance (s : HartState) : Decidable (fsIsDirty s) := inferInstanceAs (Decidable (_ = _))

theorem setFsDirty_of_dirty {s : HartState} (h : fsIsDirty s) : setFsDirty s = s := by
  simp only [setFsDirty]
  rw [h]

theorem fsMask_getLsbD {i : Nat} (h : (mstatusFs ||| mstatusSd).getLsbD i = true) :
    i = 13 ∨ i = 14 ∨ i = 63 := by
  have hm : mstatusFs ||| mstatusSd = bit 13 ||| bit 14 ||| bit 63 := by decide
  rw [hm, BitVec.getLsbD_or, BitVec.getLsbD_or, getLsbD_bit 13 i (by decide),
    getLsbD_bit 14 i (by decide), getLsbD_bit 63 i (by decide)] at h
  simpa [or_assoc] using h

theorem deliverTrap_fsIsDirty {s : HartState} (code tval : Word) (hd : fsIsDirty s) :
    fsIsDirty (deliverTrap s code tval) := by
  rw [fsIsDirty, BitFields.or_eq_self_iff] at hd ⊢
  intro i hi
  have hb := fsMask_getLsbD hi
  rw [← hd i hi]
  exact deliverTrap_mstatus s code tval (by omega)

theorem Faulted.fsIsDirty {s s' : HartState} {code : Word} (h : Faulted s s' code)
    (hd : fsIsDirty s) : Pyremu.fsIsDirty s' := by
  obtain ⟨s₁, tval, hq, -, rfl⟩ := h
  apply deliverTrap_fsIsDirty code tval
  obtain ⟨_, ⟨_, _, _, _, _, _, rfl⟩, ⟨_, _, _, _, _, _, rfl⟩⟩ := hq
  exact hd

/-- Writing zero would change the hart. -/
def Dest.visible (s : HartState) : Dest → Prop
  | .gpr rd => rd ≠ 0 ∧ s.gprs rd ≠ 0
  | .fpr rd => s.fprs rd ≠ 0 ∨ ¬ fsIsDirty s

theorem Dest.write_zero_eq {w w' : World} {code : Word} (n : Nat) (dest : Dest)
    (hf : Faulted w.hart w'.hart code) (hv : ¬ dest.visible w.hart) : dest.write n w' 0 = w' := by
  obtain ⟨hg, hfp, _⟩ := hf.regs
  cases dest with
  | gpr rd =>
    have hz : (if n = 4 then sext32 0 else 0) = (0 : Word) := by
      split <;> decide
    have heq : writeGpr w'.hart rd 0 = w'.hart := by
      simp only [writeGpr]
      split
      · rfl
      · rename_i hrd
        have h0 : w'.hart.gprs rd = 0 := by
          rw [hg]
          by_contra hne
          exact hv ⟨hrd, hne⟩
        rw [Function.update_eq_self_iff.mpr h0.symm]
    simp only [Dest.write, World.writeGpr, World.setHart, hz, heq]
  | fpr rd =>
    simp only [Dest.visible, not_or, not_not] at hv
    have h0 : w'.hart.fprs rd = 0 := by rw [hfp, hv.1]
    have heq : writeFpr w'.hart rd 0 = w'.hart := by
      rw [writeFpr, Function.update_eq_self_iff.mpr h0.symm]
    simp only [Dest.write, World.setFpr, World.setHart, heq, setFsDirty_of_dirty (hf.fsIsDirty hv.2)]

/-! ## The conditions -/

/-- The whole access lies in RAM, and if it is misaligned so does each byte alone. -/
def InRam (l : Layout) (va pa : Word) (n : Nat) : Prop :=
  ∃ off, Mem.ramOffset l pa n = some off ∧ (aligned va n = false → BytesResolve l pa off n)

/-- The second page of an access is adjacent to the first, and its translation
leaves no trace. -/
def SecondPage (cfg : Features) (w : World) (va pa : Word) (rwx : Rwx) (n : Nat)
    (accessCode : Word) : Prop :=
  let va2 := va + BitVec.ofNat 64 (bytesFirst va)
  translateAccess cfg w va2 rwx (n - bytesFirst va) accessCode va2 va =
    (w, some (pa + BitVec.ofNat 64 (bytesFirst va)))

namespace MemForm

def size : MemForm → Nat
  | load _ n _ => n
  | store _ n _ _ => n

/-- The cause with which the access faults, if it does. -/
def faultCode (cfg : Features) (w : World) : MemForm → Option Word
  | load va n _ => accessFaultCode cfg w va .read n Exc.ldAccessFault
  | store va n _ _ => accessFaultCode cfg w va .write n Exc.stAccessFault

/-- The rest of the handler does nothing after the trap. -/
def FaultAgrees (s : HartState) (code : Word) : MemForm → Prop
  | load _ _ dest => takenInPlace s code → trapVector s code ≠ s.pc ∧ ¬ dest.visible s
  | store _ _ _ fp => trapVector s code ≠ s.pc ∧ (fp = true → fsIsDirty s)

/-- Both accessors reach the same bytes and leave the same hart. -/
def RamAgrees (cfg : Features) (w : World) (pa : Word) : MemForm → Prop
  | load va n _ =>
    InRam w.mem.toLayout va pa n ∧
      (crossesPage va n = true → SecondPage cfg w va pa .read n Exc.ldAccessFault)
  | store va n v fp =>
    InRam w.mem.toLayout va pa n ∧
      (crossesPage va n = true →
        SecondPage cfg { w with mem := ramWriteBytes w.mem pa v (bytesFirst va) } va pa .write n
          Exc.stAccessFault) ∧
      (fp = true → fsIsDirty w.hart)

/-- The compressed path and the 32-bit path of a memory form agree. -/
def Agrees (cfg : Features) (w : World) (f : MemForm) : Prop :=
  (∀ code, f.faultCode cfg w = some code → f.FaultAgrees w.hart code) ∧
    ∀ w' pa, f.access cfg w = (w', some pa) → f.RamAgrees cfg w' pa

end MemForm

/-! ## RAM -/

section Ram

variable {cfg : Features} {w : World} {va pa v : Word} {n : Nat}

theorem aligned_not_crossing (hn : n = 4 ∨ n = 8) (ha : aligned va n = true) :
    crossesPage va n = false := by
  simp only [aligned, crossesPage, decide_eq_true_eq, decide_eq_false_iff_not] at *
  have hm : (va &&& 0xFFF).toNat = va.toNat % 4096 := by
    rw [BitVec.toNat_and]
    exact Nat.and_two_pow_sub_one_eq_mod va.toNat 12
  rw [hm]
  obtain rfl | rfl := hn <;> omega

theorem bytesFirst_le (hc : crossesPage va n = true) : bytesFirst va ≤ n := by
  simp only [crossesPage, decide_eq_true_eq] at hc
  simp only [bytesFirst]
  omega

theorem loadRam_eq (hn : n = 4 ∨ n = 8) (hr : InRam w.mem.toLayout va pa n)
    (h2 : crossesPage va n = true → SecondPage cfg w va pa .read n Exc.ldAccessFault) :
    loadRam cfg w va pa n = (w, some (ramRead w.mem pa n)) := by
  obtain ⟨off, hoff, hb⟩ := hr
  have hlt := mem_ramOffset_no_wrap hoff
  have hsz : n = 1 ∨ n = 2 ∨ n = 4 ∨ n = 8 := by omega
  have hread : ramRead w.mem pa n = readLe w.mem.ram off.toNat n := by
    simp only [ramRead, hoff, loadSized]
    rw [if_pos hsz]
  rw [hread, loadRam]
  cases ha : aligned va n with
  | true =>
    rw [aligned_not_crossing hn ha]
    simp only [ramReadRaw, hartSched_of_mem hoff, loadSized, Bool.false_eq_true, ↓reduceIte]
    rw [if_pos hsz]
  | false =>
    have hbytes := ramReadBytes_eq (hb ha) hlt
    cases hc : crossesPage va n with
    | false =>
      simp only [Bool.false_eq_true, ↓reduceIte]
      rw [hbytes]
    | true =>
      have hle := bytesFirst_le hc
      have hs := h2 hc
      simp only [SecondPage] at hs
      simp only [readRamCrossPage, hs, ↓reduceIte]
      rw [← ramReadBytes_add, Nat.add_sub_cancel' hle, hbytes]

theorem storeRam_eq (hn : n = 4 ∨ n = 8) (hr : InRam w.mem.toLayout va pa n)
    (h2 : crossesPage va n = true →
      SecondPage cfg { w with mem := ramWriteBytes w.mem pa v (bytesFirst va) } va pa .write n
        Exc.stAccessFault) :
    ∃ m, storeRam cfg w va pa v n = ({ w with mem := m }, true) ∧
      m.ram = (ramWrite w.mem pa (if n = 4 then v &&& 0xFFFFFFFF else v) n).1.ram := by
  obtain ⟨off, hoff, hb⟩ := hr
  have hlt := mem_ramOffset_no_wrap hoff
  have hsz : n = 1 ∨ n = 2 ∨ n = 4 ∨ n = 8 := by omega
  have hwrite : (ramWrite w.mem pa (if n = 4 then v &&& 0xFFFFFFFF else v) n).1.ram =
      writeLe w.mem.ram off.toNat n v := by
    simp only [ramWrite, hoff, storeSized]
    rw [if_pos hsz]
    apply writeLe_congr
    intro i hi
    split
    · have hm : ∀ j < 32, (0xFFFFFFFF : Word).getLsbD j = true := by decide
      rw [BitVec.getLsbD_and, hm i (by omega), Bool.and_true]
    · rfl
  rw [hwrite, storeRam]
  cases ha : aligned va n with
  | true =>
    rw [aligned_not_crossing hn ha]
    refine ⟨_, rfl, ?_⟩
    simp only [ramWriteRaw, hartSched_of_mem hoff, storeSized]
    rw [if_pos hsz]
  | false =>
    have hbytes := ramWriteBytes_ram (v := v) (hb ha) hlt
    cases hc : crossesPage va n with
    | false => exact ⟨_, rfl, hbytes⟩
    | true =>
      have hle := bytesFirst_le hc
      have hs := h2 hc
      simp only [SecondPage] at hs
      simp only [writeRamCrossPage, hs, ↓reduceIte]
      rw [ramWriteBytes_add, Nat.add_sub_cancel' hle]
      exact ⟨_, rfl, hbytes⟩

end Ram

/-! ## The memory forms -/

/-- Results of the two handlers, before the advance of `pc`. -/
def SameResult (w : World) (a : World × InstrToBeExec × Word) (b : World × Word) : Prop :=
  SameStep w.hart (a.1.hart, a.2.2) (b.1.hart, b.2) ∧ a.1.mem.ram = b.1.mem.ram

namespace MemForm

variable {cfg : Features} {w w' : World} {pa : Word} {f : MemForm} {iw i : BitVec 32}
  {g : InstrToBeExec}

theorem faulted (h : f.access cfg w = (w', none)) :
    ∃ code, f.faultCode cfg w = some code ∧ Faulted w.hart w'.hart code := by
  cases f with
  | load va n dest => exact translateAccess_none ldAccessFault_not_interrupt h
  | store va n v fp => exact translateAccess_none stAccessFault_not_interrupt h

theorem access_translated (h : f.access cfg w = (w', some pa)) : Translated w w' := by
  cases f with
  | load va n dest => exact (translateAccess_some h).1
  | store va n v fp => exact (translateAccess_some h).1

theorem same_of_fault (h : f.access cfg w = (w', none))
    (ha : ∀ code, f.faultCode cfg w = some code → f.FaultAgrees w.hart code) :
    SameResult w (f.compressed cfg w iw g) (f.word cfg w i) := by
  obtain ⟨code, hcode, hf⟩ := faulted h
  have hagree := ha code hcode
  have hword : f.word cfg w i = (w', 0) := by
    simp only [word, h]
  rw [hword]
  cases f with
  | load va n dest =>
    simp only [access] at h
    simp only [compressed, compressedLoad, loadMemCompressed, h]
    split
    · exact ⟨.rewritten _, rfl⟩
    · rename_i hmode
      obtain ⟨hpc, hv⟩ := hagree (hf.mode_iff.mp (by simpa using hmode))
      rw [Dest.write_zero_eq n dest hf hv]
      exact ⟨.passed _ (by rwa [hf.pc]), rfl⟩
  | store va n v fp =>
    simp only [access] at h
    obtain ⟨hpc, hfs⟩ := hagree
    have hdone : (if fp = true then w'.fsDirty else w') = w' := by
      cases fp with
      | false => rfl
      | true => simp only [World.fsDirty, World.setHart, setFsDirty_of_dirty (hf.fsIsDirty (hfs rfl)),
          ↓reduceIte]
    simp only [compressed, compressedStore, storeMemCompressed, h]
    rw [if_neg (by decide), hdone]
    exact ⟨.passed _ (by rwa [hf.pc]), rfl⟩

theorem same_of_access (hn : f.size = 4 ∨ f.size = 8) (h : f.access cfg w = (w', some pa))
    (hdev : Pyremu.OutsideDevices cfg w pa) (ha : f.RamAgrees cfg w' pa) :
    SameResult w (f.compressed cfg w iw g) (f.word cfg w i) := by
  have ht := access_translated h
  have hd := hdev.translated ht
  have hctl := ht.hart.control
  cases f with
  | load va n dest =>
    simp only [access] at h
    obtain ⟨hram, h2⟩ := ha
    have hr := loadRam_eq (n := n) hn hram h2
    obtain ⟨off, hoff, _⟩ := hram
    simp only [compressed, compressedLoad, loadMemCompressed, word, access, h, hd.serialDevice,
      hd.windows, loadTail, hartSched_of_mem hoff, hr, Option.isNone_some, Bool.false_eq_true,
      ↓reduceIte]
    rw [if_neg (by simp [hctl.2.1])]
    refine ⟨.sequential _ ?_, rfl⟩
    rw [(dest.write_control n w' _).1, hctl.1]
  | store va n v fp =>
    simp only [access] at h
    obtain ⟨hram, h2, hfs⟩ := ha
    obtain ⟨m, hs, hm⟩ := storeRam_eq (n := n) hn hram h2
    obtain ⟨off, hoff, _⟩ := hram
    simp only [compressed, compressedStore, storeMemCompressed, word, access, h, hd.serialDevice,
      hd.windows, storeTail, hartSched_of_mem hoff, hs, Option.isNone_some, Bool.false_eq_true,
      ↓reduceIte]
    rw [if_neg (by decide)]
    cases fp with
    | false => exact ⟨.sequential _ hctl.1, hm.symm⟩
    | true =>
      simp only [World.fsDirty, World.setHart, setFsDirty_of_dirty (hfs rfl), ↓reduceIte]
      exact ⟨.sequential _ hctl.1, hm.symm⟩

end MemForm

/-! ## All forms -/

section Forms

variable {cfg : Features} {sf : SoftFloat} {w : World} {h : BitVec 16} {i iw : BitVec 32}
  {g : InstrToBeExec} {f : MemForm}

theorem memFormOf_size {s : HartState} {cf : CompressedFields} (hm : memFormOf s cf = some f) :
    f.size = 4 ∨ f.size = 8 := by
  simp only [memFormOf] at hm
  split at hm <;> cases hm <;> simp [MemForm.size]

theorem quadrant_cases (q : BitVec 2) : q = 0#2 ∨ q = 1#2 ∨ q = 2#2 ∨ q = 3#2 := by
  revert q
  decide

theorem addi4spn_same (hq : h.extractLsb' 0 2 = 0) (hx : expandC0 h = some i)
    (hm : memFormOf w.hart (decodeCompressed h) = none) :
    ∃ r, handleC0 cfg w (decodeCompressed h) iw g = (w.setHart r.1, g, r.2) ∧
      DispatchSame cfg sf w i r := by
  rw [decodeCompressed_zero hq] at hm ⊢
  simp only [memFormOf] at hm
  simp only [expandC0] at hx
  simp only [handleC0]
  have hf := funct3_cases (h.extractLsb' 13 3)
  generalize h.extractLsb' 13 3 = f3 at *
  obtain rfl | rfl | rfl | rfl | rfl | rfl | rfl | rfl := hf
  · change (if _ then none else some _) = some i at hx
    split at hx
    · cases hx
    · rename_i hz
      cases hx
      have hne : immC0 h 0 ≠ 0 := mt (BitFields.setWidth_eq_zero_iff _ (by decide)).mp hz
      refine ⟨(writeGpr w.hart (creg (h.extractLsb' 2 3)) (w.hart.gprs 2 + immC0 h 0), 2),
        if_neg hne, dispatchSame_opImm cfg sf w ?_⟩
      rw [BitFields.signExtend_setWidth _ (by decide)]
      rfl
  · cases hm
  · cases hm
  · cases hm
  · cases hx
  · cases hm
  · cases hm
  · cases hm

theorem c2Alu_same (hq : h.extractLsb' 0 2 = 2) (hx : expandC2 h = some i)
    (hm : memFormOf w.hart (decodeCompressed h) = none) :
    ∃ r, handleC2 cfg w (decodeCompressed h) iw g = (w.setHart r.1, g, r.2) ∧
      DispatchSame cfg sf w i r := by
  have hreg := handleC2Reg_same cfg sf w (i := i) hq
  rw [decodeCompressed_two hq] at hm hreg ⊢
  simp only [memFormOf] at hm
  simp only [expandC2] at hx
  simp only [handleC2]
  have hf := funct3_cases (h.extractLsb' 13 3)
  generalize h.extractLsb' 13 3 = f3 at *
  obtain rfl | rfl | rfl | rfl | rfl | rfl | rfl | rfl := hf
  · change some _ = some _ at hx
    cases hx
    exact ⟨_, rfl, dispatchSame_opImm cfg sf w (execOpImm_slli _ (immSix h))⟩
  · cases hm
  · cases hm
  · cases hm
  · exact ⟨_, rfl, hreg hx⟩
  · cases hm
  · cases hm
  · cases hm

/-- Arithmetic and jump forms touch the hart only and agree with their expansion. -/
theorem alu_same (hx : expand h = some i) (hm : memFormOf w.hart (decodeCompressed h) = none) :
    ∃ r, handleCompressed cfg w h iw g = (w.setHart r.1, g, r.2) ∧ DispatchSame cfg sf w i r := by
  have hquad : (decodeCompressed h).quadrant = h.extractLsb' 0 2 := rfl
  obtain hq | hq | hq | hq := quadrant_cases (h.extractLsb' 0 2)
  · simp only [expand, hq] at hx
    simp only [handleCompressed, hquad, hq]
    exact addi4spn_same hq hx hm
  · simp only [expand, hq] at hx
    simp only [handleCompressed, hquad, hq]
    exact ⟨_, rfl, handleC1_same cfg sf w iw hq hx⟩
  · simp only [expand, hq] at hx
    simp only [handleCompressed, hquad, hq]
    exact c2Alu_same hq hx hm
  · simp only [expand, hq] at hx
    cases hx

/-- Both sides of a memory form, in terms of the form. -/
theorem memForm_spec (hx : expand h = some i) (hm : memFormOf w.hart (decodeCompressed h) = some f)
    (hdev : f.OutsideDevices cfg w) :
    (handleCompressed cfg w h iw g =
        if f.isFp ∧ fpOff w.hart ∧ h.extractLsb' 0 2 = 2 then (w.illegal iw, g, 0)
        else f.compressed cfg w iw g) ∧
      dispatchConcurrent cfg sf w (decodeFields i) i =
        if f.isFp ∧ fpOff w.hart then (w.illegal i, 0) else f.word cfg w i := by
  have hquad : (decodeCompressed h).quadrant = h.extractLsb' 0 2 := rfl
  obtain hq | hq | hq | hq := quadrant_cases (h.extractLsb' 0 2)
  · simp only [expand, hq] at hx
    simp only [handleCompressed, hquad, hq]
    obtain ⟨hc, hd⟩ := @memForm_zero _ _ _ _ _ _ iw g hq hx hm hdev
    exact ⟨by simpa using hc, hd⟩
  · rw [decodeCompressed_one hq] at hm
    cases hm
  · simp only [expand, hq] at hx
    simp only [handleCompressed, hquad, hq]
    obtain ⟨hc, hd⟩ := @memForm_two _ _ _ _ _ _ iw g hq hx hm hdev
    exact ⟨by simpa using hc, hd⟩
  · simp only [expand, hq] at hx
    cases hx

theorem SameStep.ne_sentinel {s : HartState} {a b : HartState × Word} (hs : SameStep s a b) :
    a.2 ≠ exitSentinel ∧ b.2 ≠ exitSentinel := by
  cases hs <;> (dsimp only; decide)

theorem SameResult.outcome {c : World × InstrToBeExec × Word} {b : World × Word}
    (hc : handleCompressed cfg w (iw.setWidth 16) iw ⟨.normal, 0⟩ = c)
    (hb : dispatchConcurrent cfg sf w (decodeFields i) i = b) (hs : SameResult w c b) :
    SameOutcome w (execCompressed cfg w iw) (execWord cfg sf w i) := by
  obtain ⟨hc2, hb2⟩ := hs.1.ne_sentinel
  simp only [execCompressed, execWord, hc, hb]
  rw [if_neg hc2, if_neg hb2]
  exact ⟨hs.1.sameHart, hs.2⟩

end Forms

/-- The condition on the state before the instruction under which a compressed
encoding does what its expansion does. -/
def ExpansionAgrees (cfg : Features) (w : World) (h : BitVec 16) : Prop :=
  ∀ f, memFormOf w.hart (decodeCompressed h) = some f →
    if f.isFp ∧ fpOff w.hart then h.extractLsb' 0 2 = 2 else f.Agrees cfg w

/-- Compressed instructions mean what their expansions mean wherever the two
access paths agree. -/
theorem compressed_means_expansion (cfg : Features) (sf : SoftFloat) (w : World)
    (iw i : BitVec 32) (hx : expand (iw.setWidth 16) = some i)
    (hdev : ∀ f, memFormOf w.hart (decodeCompressed (iw.setWidth 16)) = some f →
      f.OutsideDevices cfg w)
    (ha : ExpansionAgrees cfg w (iw.setWidth 16)) :
    SameOutcome w (execCompressed cfg w iw) (execWord cfg sf w i) := by
  cases hm : memFormOf w.hart (decodeCompressed (iw.setWidth 16)) with
  | none =>
    obtain ⟨r, hc, r', hb, hs⟩ := @alu_same cfg sf w _ i iw ⟨.normal, 0⟩ hx hm
    exact SameResult.outcome hc hb ⟨hs, rfl⟩
  | some f =>
    obtain ⟨hc, hb⟩ := @memForm_spec cfg sf w _ i iw ⟨.normal, 0⟩ f hx hm (hdev f hm)
    apply SameResult.outcome hc hb
    have hagree := ha f hm
    by_cases hfp : f.isFp ∧ fpOff w.hart
    · simp only [hfp, and_self, ↓reduceIte] at hagree
      simp only [hfp, hagree, and_self, ↓reduceIte]
      exact ⟨.illegal _ _, rfl⟩
    · rw [if_neg hfp] at hagree ⊢
      rw [if_neg fun hall => hfp ⟨hall.1, hall.2.1⟩]
      rcases hacc : f.access cfg w with ⟨w', _ | pa⟩
      · exact MemForm.same_of_fault hacc hagree.1
      · exact MemForm.same_of_access (memFormOf_size hm) hacc (hdev f hm _ _ hacc)
          (hagree.2 _ _ hacc)

theorem SameHart.trap_count {s a b : HartState} (h : SameHart s a b) :
    a.traps.length = b.traps.length := by
  cases h with
  | equal => rfl
  | sequential => rfl
  | linked => rfl
  | illegal tval tval' =>
    obtain ⟨t, ht, _⟩ := illegal_trapped s tval
    obtain ⟨t', ht', _⟩ := illegal_trapped s tval'
    rw [ht, ht', List.length_append, List.length_append]
    rfl

/-- RAM at `0x80000000` and nothing else. -/
def plainWorld (s : HartState) : World :=
  { World.zeroed ⟨0x80000000, 0x10000, 0, 0⟩ with hart := s }

/-- `c.lw x8, 0(x8)` from address zero, where there is no RAM, reads zero and goes
on. Its expansion raises an access fault. -/
theorem c_lw_outside_ram_differs :
    expand 0x4000 = some 0x00042403 ∧
      ¬ SameOutcome (plainWorld .zeroed)
        (execCompressed ⟨false, false, false, 0⟩ (plainWorld .zeroed) 0x4000)
        (execWord ⟨false, false, false, 0⟩ default (plainWorld .zeroed) 0x00042403) := by
  refine ⟨by decide, fun h => ?_⟩
  have hlen := h.1.trap_count
  revert hlen
  decide

/-- `c.lw x8, 0(x9)` with `x9` pointing to RAM. -/
theorem c_lw_in_ram_same :
    let w := plainWorld { HartState.zeroed with
      gprs := Function.update (fun _ => 0) 9 0x80000000 }
    SameOutcome w (execCompressed ⟨false, false, false, 0⟩ w 0x4080)
      (execWord ⟨false, false, false, 0⟩ default w 0x0004A403) := by
  refine compressed_means_expansion _ _ _ _ _ (by decide) ?_ ?_
  · rintro f ⟨⟩ w' pa ⟨⟩
    refine ⟨by decide, .inl rfl, .inl rfl, .inl rfl, ?_, .inl rfl⟩
    rintro p ⟨⟩
  · rintro f ⟨⟩
    rw [if_neg (by decide)]
    refine ⟨?_, ?_⟩
    · rintro code ⟨⟩
    · rintro w' pa ⟨⟩
      exact ⟨⟨0, by decide, by decide⟩, fun hc => absurd hc (by decide)⟩

end Pyremu
