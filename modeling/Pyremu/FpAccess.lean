import Pyremu.Bytewise
import Pyremu.Expansion
import Pyremu.PreciseLoad

/-!
# Floating-point loads and stores

The access path stands twice in the source. Outside the device windows the two
copies are one path to RAM, and only what becomes of the value differs.
-/

namespace Pyremu

/-! ## The property -/

section Claim

variable (w : World) (f g : DecodedFields)

/-- FLW beside LWU, FLD beside LD. -/
def SameLoad : Prop := (f.func3 = 0b010 ∧ g.func3 = 0b110) ∨ (f.func3 = 0b011 ∧ g.func3 = 0b011)

/-- FSW beside SW, FSD beside SD, of the same bits. -/
def SameStore : Prop :=
  (f.func3 = 0b010 ∧ g.func3 = 0b010 ∧ (w.hart.fprs f.rs2).setWidth 32 = (readGpr w.hart g.rs2).setWidth 32) ∨
    (f.func3 = 0b011 ∧ g.func3 = 0b011 ∧ w.hart.fprs f.rs2 = readGpr w.hart g.rs2)

/-- The first byte of the access is no device's, if it has an address at all. -/
def ReachesNoDevice (cfg : Features) (va : Word) (rwx : Rwx) : Prop :=
  ∀ w' t, w.translate cfg va rwx = (w', .ok t) → OutsideDevices cfg w t.pa

/-- Registers, FS and SD are as before. -/
def FpUntouched (s s' : HartState) : Prop :=
  SameRegs s s' ∧ s'.mstatus.getLsbD 63 = s.mstatus.getLsbD 63

/-- One traps where the other does, and leaves the same machine. Otherwise there is no trap, and they
differ in the register written. -/
structure LoadAgrees (fp int : World × Word) : Prop where
  raised : Raised w fp ↔ Raised w int
  trap : Raised w fp → fp = int ∧ FpUntouched w.hart fp.1.hart
  loaded : ¬ Raised w fp → ∃ (w' : World) (v : Word), w'.hart.traps = w.hart.traps ∧
    int = (w'.writeGpr g.rd v, 4) ∧ fp = (w'.setHart (setFsDirty (writeFpr w'.hart f.rd
      (if f.func3 = 0b010 then boxS (v.setWidth 32) else v))), 4)

structure StoreAgrees (fp int : World × Word) : Prop where
  same : fp = int
  trap : Raised w fp → FpUntouched w.hart fp.1.hart
  stored : ¬ Raised w fp → fp.2 = 4 ∧ fp.1.hart.traps = w.hart.traps

end Claim

/-! ## The path to RAM -/

section Path

variable {cfg : Features} {w : World} {va pa v v' : Word} {size n : Nat}

theorem ramWriteBytes_congr (c : WalkCtx) (pa : Word) (h : ∀ i < 8 * n, v.getLsbD i = v'.getLsbD i) :
    ramWriteBytes c pa v n = ramWriteBytes c pa v' n := by
  induction n with
  | zero => rfl
  | succ n ih =>
    have hbyte : (v >>> (8 * n)) &&& 0xFF = (v' >>> (8 * n)) &&& 0xFF := by
      apply BitVec.eq_of_getLsbD_eq
      intro i _
      rw [BitVec.getLsbD_and, BitVec.getLsbD_and, BitVec.getLsbD_ushiftRight, BitVec.getLsbD_ushiftRight]
      by_cases hi : i < 8
      · rw [h _ (by omega)]
      · have hmask : (0xFF : Word).getLsbD i = false := BitVec.getLsbD_of_ge (0xFF : BitVec 8) i (by omega)
        rw [hmask, Bool.and_false, Bool.and_false]
    rw [ramWriteBytes, ramWriteBytes, ih fun i hi => h i (by omega), hbyte]

theorem ramWriteRaw_congr (c : WalkCtx) (pa : Word) (h : ∀ i < 8 * n, v.getLsbD i = v'.getLsbD i) :
    ramWriteRaw c pa v n = ramWriteRaw c pa v' n := by
  simp only [ramWriteRaw, storeSized, ByteMem.writeLe_congr h]

theorem writeRamCrossPage_congr (hle : bytesFirst va ≤ size) (h : ∀ i < 8 * size, v.getLsbD i = v'.getLsbD i) :
    writeRamCrossPage cfg w va pa v size = writeRamCrossPage cfg w va pa v' size := by
  rw [writeRamCrossPage, writeRamCrossPage]
  generalize bytesFirst va = n at hle ⊢
  have hlow : ∀ i < 8 * n, v.getLsbD i = v'.getLsbD i := fun i hi => h i (by omega)
  have hhigh : ∀ i < 8 * (size - n), (v >>> (8 * n)).getLsbD i = (v' >>> (8 * n)).getLsbD i := by
    intro i hi
    rw [BitVec.getLsbD_ushiftRight, BitVec.getLsbD_ushiftRight, h _ (by omega)]
  simp only [ramWriteBytes_congr _ _ hlow, ramWriteBytes_congr _ _ hhigh]

/-- Only the bytes that are stored count. -/
theorem storeRam_congr (h : ∀ i < 8 * size, v.getLsbD i = v'.getLsbD i) :
    storeRam cfg w va pa v size = storeRam cfg w va pa v' size := by
  rw [storeRam, storeRam, ramWriteRaw_congr _ _ h, ramWriteBytes_congr _ _ h]
  cases hx : crossesPage va size with
  | false => rw [if_neg Bool.false_ne_true, if_neg Bool.false_ne_true]
  | true =>
    rw [if_pos rfl, if_pos rfl]
    exact writeRamCrossPage_congr (bytesFirst_le hx) h

/-- Outside the windows a load ends the same way whatever is done with the value. -/
theorem loadTail_cases (hdev : isDeviceAddr pa w.dev = false) :
    (∃ w' code, Faulted w.hart w'.hart code ∧
        ∀ instr done, loadTail cfg w va pa size instr done = (w', 0)) ∨
      ∃ w' v, QuietFrame w.hart w'.hart ∧
        ∀ instr done, loadTail cfg w va pa size instr done = (done w' v, 4) := by
  have hno : ¬ isDeviceAddr pa w.dev = true := by
    rw [hdev]
    exact Bool.false_ne_true
  cases hoff : HartSched.ramOffset w.mem.toLayout pa size with
  | none =>
    refine .inl ⟨w.trap Exc.ldAccessFault va, Exc.ldAccessFault,
      deliverTrap_faulted w.hart _ va ldAccessFault_not_interrupt, fun instr done => ?_⟩
    rw [loadTail, if_neg hno, hoff]
    rfl
  | some off =>
    rcases hram : loadRam cfg w va pa size with ⟨w', _ | v⟩
    · obtain ⟨code, hf⟩ := loadRam_none hram
      refine .inl ⟨w', code, hf, fun instr done => ?_⟩
      rw [loadTail, if_neg hno, hoff, hram]
      rfl
    · refine .inr ⟨w', v, loadRam_some hram, fun instr done => ?_⟩
      rw [loadTail, if_neg hno, hoff, hram]
      rfl

theorem storeTail_congr (hdev : isDeviceAddr pa w.dev = false) (h : ∀ i < 8 * size, v.getLsbD i = v'.getLsbD i)
    (i j : BitVec 32) : storeTail cfg w va pa v size i = storeTail cfg w va pa v' size j := by
  have hno : ¬ isDeviceAddr pa w.dev = true := by
    rw [hdev]
    exact Bool.false_ne_true
  rw [storeTail, storeTail, if_neg hno, if_neg hno, storeRam_congr h]

theorem storeTail_advance (hdev : isDeviceAddr pa w.dev = false) (i : BitVec 32) :
    (storeTail cfg w va pa v size i).2 = 0 ∨ (storeTail cfg w va pa v size i).2 = 4 := by
  have hno : ¬ isDeviceAddr pa w.dev = true := by
    rw [hdev]
    exact Bool.false_ne_true
  rw [storeTail, if_neg hno]
  split
  · exact .inl rfl
  · split
    · exact .inl rfl
    · exact .inr rfl

end Path

/-! ## The handlers -/

section Handlers

variable {cfg : Features} {w : World} {f g : DecodedFields} {i j : BitVec 32}

theorem Faulted.untouched {s s' : HartState} {code : Word} (h : Faulted s s' code) : FpUntouched s s' := by
  refine ⟨h.regs, ?_⟩
  obtain ⟨s₁, tval, ⟨_, ⟨_, _, _, _, _, _, rfl⟩, ⟨_, _, _, _, _, _, rfl⟩⟩, -, rfl⟩ := h
  exact deliverTrap_mstatus _ code tval (by decide)

theorem translateAccess_outside {rwx : Rwx} {size : Nat} {va pa ac ft pt : Word} {w' : World}
    (hdev : ReachesNoDevice w cfg va rwx) (h : translateAccess cfg w va rwx size ac ft pt = (w', some pa)) :
    OutsideDevices cfg w' pa := by
  have ht := (translateAccess_some h).1
  rw [translateAccess] at h
  rcases htr : w.translate cfg va rwx with ⟨w1, e | t⟩
  · rw [htr] at h
    cases h
  · rw [htr] at h
    dsimp only at h
    split at h
    · cases h
      exact (hdev _ _ htr).translated ht
    · cases h

/-- Both loads trap, in the same way. -/
theorem LoadAgrees.of_fault {w' : World} {code : Word} (h : Faulted w.hart w'.hart code) :
    LoadAgrees w f g (w', 0) (w', 0) where
  raised := .rfl
  trap := fun _ => ⟨rfl, h.untouched⟩
  loaded := fun hn => absurd ⟨rfl, code, h⟩ hn

theorem not_raised_four (w w' : World) : ¬ Raised w (w', 4) := by
  rintro ⟨h, -⟩
  cases h

theorem boxS_setWidth (v : Word) : boxS (v.setWidth 32) = nanboxS ||| v := by
  have hhigh : ∀ k < 64, 32 ≤ k → nanboxS.getLsbD k = true := by decide
  apply BitVec.eq_of_getLsbD_eq
  intro k hk
  rw [boxS, BitVec.getLsbD_or, BitVec.getLsbD_or]
  by_cases hlow : k < 32
  · simp [hk, hlow]
  · rw [hhigh k hk (by omega), Bool.true_or, Bool.true_or]

theorem handleFpLoad_agrees (i j : BitVec 32) (hon : fpOff w.hart = false) (hs : SameLoad f g)
    (ha : loadAddr w f = loadAddr w g) (hdev : ReachesNoDevice w cfg (loadAddr w f) .read) :
    LoadAgrees w f g (handleFpLoad cfg w f i) (handleLoad cfg w g j) := by
  obtain ⟨size, hfp, hint⟩ : ∃ size, fpSize f.func3 = some size ∧ loadKind g.func3 = some (size, false) := by
    rcases hs with ⟨hf, hg⟩ | ⟨hf, hg⟩
    · exact ⟨4, by rw [hf]; rfl, by rw [hg]; rfl⟩
    · exact ⟨8, by rw [hf]; rfl, by rw [hg]; rfl⟩
  have hsize : size = 4 ↔ f.func3 = 0b010 := by
    rcases hs with ⟨hf, hg⟩ | ⟨hf, hg⟩ <;> rw [hf] at hfp ⊢ <;> cases hfp <;> decide
  rw [loadAddr, loadAddr] at ha
  rw [loadAddr] at hdev
  simp only [handleFpLoad, handleLoad, hfp, hint, hon, ← ha]
  rw [if_neg Bool.false_ne_true]
  rcases ht : translateAccess cfg w (readGpr w.hart f.rs1 + f.imm12Se) .read size Exc.ldAccessFault
    (readGpr w.hart f.rs1 + f.imm12Se) (readGpr w.hart f.rs1 + f.imm12Se) with ⟨w1, _ | pa⟩
  · obtain ⟨code, -, hf⟩ := translateAccess_none ldAccessFault_not_interrupt ht
    exact .of_fault hf
  · have hout := translateAccess_outside hdev ht
    have hq : QuietFrame w.hart w1.hart := .of_tlb (translateAccess_some ht).1.hart
    dsimp only
    rw [hout.tryVirtio, hout.deviceLoad]
    dsimp only
    obtain ⟨w', code, hf, htail⟩ | ⟨w', v, hq', htail⟩ := loadTail_cases hout.windows
    · rw [htail, htail]
      exact .of_fault (hq.faulted hf)
    · rw [htail, htail]
      refine ⟨iff_of_false (not_raised_four w _) (not_raised_four w _), fun h => absurd h (not_raised_four w _),
        fun _ => ⟨w', v, (hq.trans hq').control.2.2, rfl, ?_⟩⟩
      simp only [World.writeFprLoad, hsize, boxS_setWidth]

theorem handleFpStore_agrees (i j : BitVec 32) (hon : fpOff w.hart = false) (hs : SameStore w f g)
    (ha : storeAddr w f = storeAddr w g) (hdev : ReachesNoDevice w cfg (storeAddr w f) .write) :
    StoreAgrees w (handleFpStore cfg w f i) (handleStore cfg w g j) := by
  obtain ⟨size, hfp, hint, hbits⟩ : ∃ size, fpSize f.func3 = some size ∧ storeSize g.func3 = some size ∧
      ∀ k < 8 * size, (w.hart.fprs f.rs2).getLsbD k = (readGpr w.hart g.rs2).getLsbD k := by
    rcases hs with ⟨hf, hg, hv⟩ | ⟨hf, hg, hv⟩
    · refine ⟨4, by rw [hf]; rfl, by rw [hg]; rfl, fun k hk => ?_⟩
      have hbit := congrArg (BitVec.getLsbD · k) hv
      simpa [BitVec.getLsbD_setWidth, show k < 32 by omega] using hbit
    · exact ⟨8, by rw [hf]; rfl, by rw [hg]; rfl, fun k _ => by rw [hv]⟩
  have hsame : handleFpStore cfg w f i = handleStore cfg w g j ∧ ((handleFpStore cfg w f i).2 = 0 ∨
      (handleFpStore cfg w f i).2 = 4) := by
    rw [storeAddr, storeAddr] at ha
    rw [storeAddr] at hdev
    simp only [handleFpStore, handleStore, hfp, hint, hon, ← ha]
    rw [if_neg Bool.false_ne_true]
    rcases ht : translateAccess cfg w (readGpr w.hart f.rs1 + f.immS) .write size Exc.stAccessFault
      (readGpr w.hart f.rs1 + f.immS) (readGpr w.hart f.rs1 + f.immS) with ⟨w1, _ | pa⟩
    · exact ⟨rfl, .inl rfl⟩
    · have hout := translateAccess_outside hdev ht
      obtain ⟨hgprs, hfprs⟩ := translateAccess_regs ht
      have hread : readGpr w1.hart g.rs2 = readGpr w.hart g.rs2 := by rw [readGpr, readGpr, hgprs]
      dsimp only
      rw [hout.tryVirtio, hout.deviceStore, hfprs, hread]
      dsimp only
      exact ⟨storeTail_congr hout.windows hbits i j, storeTail_advance hout.windows i⟩
  have hout := handleFpStore_outcome cfg w f i
  obtain ⟨hsame, hadv⟩ := hsame
  refine ⟨hsame, fun hr => ?_, fun hr => ?_⟩
  · obtain ⟨-, code, hf⟩ := hr
    exact hf.untouched
  · obtain ⟨hv, hc⟩ | hraised := hout
    · refine ⟨hadv.resolve_left fun h => ?_, hc.2.2⟩
      rw [h] at hv
      rcases hv with hv | hv <;> cases hv
    · exact absurd hraised hr

/-- FLW, FLD, FSW and FSD take the path of LWU, LD, SW and SD. -/
theorem fp_access (cfg : Features) (w : World) (f g : DecodedFields) (i j : BitVec 32)
    (hon : fpOff w.hart = false) :
    (SameLoad f g → loadAddr w f = loadAddr w g → ReachesNoDevice w cfg (loadAddr w f) .read →
        LoadAgrees w f g (handleFpLoad cfg w f i) (handleLoad cfg w g j)) ∧
      (SameStore w f g → storeAddr w f = storeAddr w g → ReachesNoDevice w cfg (storeAddr w f) .write →
        StoreAgrees w (handleFpStore cfg w f i) (handleStore cfg w g j)) :=
  ⟨handleFpLoad_agrees i j hon, handleFpStore_agrees i j hon⟩

end Handlers

/-- `x1` points three bytes before the end of a page, and `f2` and `x2` agree in their lower half. -/
def crossingWorld : World :=
  plainWorld { HartState.zeroed with
    mstatus := mstatusFs
    gprs := fun r => if r = 1 then 0x80000ffd else if r = 2 then 0x54442d18 else 0
    fprs := fun r => if r = 2 then 0x400921fb54442d18 else 0 }

/-- `flw f3, 0(x1)` beside `lwu x3, 0(x1)`, and `fsw f2, 0(x1)` beside `sw x2, 0(x1)`. -/
theorem fp_access_crossing :
    let cfg : Features := ⟨false, false, false, 0⟩
    LoadAgrees crossingWorld (decodeFields 0x0000a187) (decodeFields 0x0000e183)
        (handleFpLoad cfg crossingWorld (decodeFields 0x0000a187) 0x0000a187)
        (handleLoad cfg crossingWorld (decodeFields 0x0000e183) 0x0000e183) ∧
      StoreAgrees crossingWorld (handleFpStore cfg crossingWorld (decodeFields 0x0020a027) 0x0020a027)
        (handleStore cfg crossingWorld (decodeFields 0x0020a023) 0x0020a023) ∧
      crossesPage (loadAddr crossingWorld (decodeFields 0x0000a187)) 4 = true := by
  intro cfg
  have hdev : ∀ va rwx, ReachesNoDevice crossingWorld cfg va rwx :=
    fun _ _ _ _ _ => ⟨rfl, .inl rfl, .inl rfl, .inl rfl, (fun _ hp => by cases hp), .inl rfl⟩
  have hload := fp_access cfg crossingWorld (decodeFields 0x0000a187) (decodeFields 0x0000e183) 0x0000a187
    0x0000e183 (by decide)
  have hstore := fp_access cfg crossingWorld (decodeFields 0x0020a027) (decodeFields 0x0020a023) 0x0020a027
    0x0020a023 (by decide)
  refine ⟨hload.1 (.inl (by decide)) (by decide) (hdev _ _), ?_, by decide⟩
  exact hstore.2 (.inl (by decide)) (by decide) (hdev _ _)

end Pyremu
