import Pyremu.BytewiseExact

/-!
# Stores that trap

A store is checked before it writes, except on a second page: the bytes of the
first page are in RAM by the time the second is translated. Such a store leaves
RAM as it was only when the bytes were there before.
-/

namespace Pyremu

open ByteMem

/-! ## RAM outside the A and D bits -/

/-- Outside the bits A and D of aligned words the two memories are the same. -/
def SameOutsideAd (m m' : ByteMem.Mem) : Prop :=
  ∀ i b, ¬ (i % 8 = 0 ∧ (b = 6 ∨ b = 7)) → (m' i).getLsbD b = (m i).getLsbD b

section Outside

variable {m m' m'' : ByteMem.Mem} {c c' : WalkCtx} {rwx : Rwx}

theorem SameOutsideAd.refl (m : ByteMem.Mem) : SameOutsideAd m m := fun _ _ _ => rfl

theorem SameOutsideAd.symm (h : SameOutsideAd m m') : SameOutsideAd m' m :=
  fun i b hb => (h i b hb).symm

theorem SameOutsideAd.trans (h : SameOutsideAd m m') (h' : SameOutsideAd m' m'') : SameOutsideAd m m'' :=
  fun i b hb => (h' i b hb).trans (h i b hb)

theorem adBits_outside {b : Nat} (hb : ¬ (b = 6 ∨ b = 7)) : ((adBits rwx).setWidth 8).getLsbD b = false := by
  by_cases h8 : b < 8
  · have hall : ∀ i < 8, ¬ (i = 6 ∨ i = 7) → ((adBits rwx).setWidth 8).getLsbD i = false := by
      cases rwx <;> decide
    exact hall b h8 hb
  · exact BitVec.getLsbD_of_ge _ _ (Nat.le_of_not_lt h8)

theorem sameOutsideAd_setPteBits (hal : c.toLayout.Aligned) {pa : Word} (ha : pa.toNat % 8 = 0) (rwx : Rwx) :
    SameOutsideAd c.ram (setPteBits c pa (adBits rwx)).ram := by
  intro i b hb
  rw [setPteBits]
  cases hoff : Translate.ramOffset c.toLayout pa 8 with
  | none => rfl
  | some off =>
    dsimp only
    by_cases hi : i = off.toNat
    · subst hi
      have hbit : ¬ (b = 6 ∨ b = 7) := fun h => hb ⟨hal.offset ha hoff, h⟩
      rw [orByte_same, BitVec.getLsbD_or, adBits_outside hbit, Bool.or_false]
    · rw [orByte_other hi]

/-- Updates of page-table entries set A and D bits only. -/
theorem RamFrame.sameOutsideAd (h : RamFrame c c') (hal : c.toLayout.Aligned) : SameOutsideAd c.ram c'.ram := by
  induction h with
  | refl => exact SameOutsideAd.refl _
  | tail hs hstep ih =>
    obtain ⟨pa, rwx, ha, rfl⟩ := hstep
    apply ih.trans
    apply sameOutsideAd_setPteBits _ ha
    have hl := RamFrame.toLayout hs
    rw [hl]
    exact hal

end Outside

/-! ## The bytes of the first page -/

section First

variable {l : Layout} {c : WalkCtx} {pa v : Word} {n : Nat}

theorem Layout.Aligned.offset_mod (h : l.Aligned) {off : Word} (hoff : HartSched.ramOffset l pa 1 = some off) :
    off.toNat % 8 = pa.toNat % 8 := by
  have hsub : ∀ base : Word, base.toNat % 8 = 0 → (pa - base).toNat % 8 = pa.toNat % 8 := by
    intro base hb
    rw [BitVec.toNat_sub]
    omega
  simp only [HartSched.ramOffset] at hoff
  split_ifs at hoff
  · cases hoff
    exact hsub _ h.ram
  · cases hoff
    exact hsub _ h.shadow

/-- Different bytes of an access lie at different places. -/
theorem Layout.Aligned.offset_ne (h : l.Aligned) {j k : Nat} (hj : j < 8) (hk : k < 8) (hne : j ≠ k)
    {a b : Word} (ha : HartSched.ramOffset l (pa + BitVec.ofNat 64 j) 1 = some a)
    (hb : HartSched.ramOffset l (pa + BitVec.ofNat 64 k) 1 = some b) : a.toNat ≠ b.toNat := by
  have hma := h.offset_mod ha
  have hmb := h.offset_mod hb
  rw [BitVec.toNat_add, BitVec.toNat_ofNat] at hma hmb
  omega

/-- RAM holds the first `n` bytes of `v` from `pa` on, but for A and D bits. -/
def HoldsBytes (c : WalkCtx) (pa v : Word) (n : Nat) : Prop :=
  ∀ k < n, ∀ off, HartSched.ramOffset c.toLayout (pa + BitVec.ofNat 64 k) 1 = some off →
    ∀ b < 8, ¬ (off.toNat % 8 = 0 ∧ (b = 6 ∨ b = 7)) → v.getLsbD (8 * k + b) = (c.ram off.toNat).getLsbD b

theorem ramWriteBytes_succ {off : Word}
    (hoff : HartSched.ramOffset c.toLayout (pa + BitVec.ofNat 64 n) 1 = some off) :
    (ramWriteBytes c pa v (n + 1)).ram =
      writeLe (ramWriteBytes c pa v n).ram off.toNat 1 ((v >>> (8 * n)) &&& 0xFF) := by
  rw [ramWriteBytes, ramWriteRaw, ramWriteBytes_toLayout, hoff]
  dsimp only
  rw [storeSized, if_pos (Or.inl rfl)]

theorem ramWriteBytes_succ_none
    (hoff : HartSched.ramOffset c.toLayout (pa + BitVec.ofNat 64 n) 1 = none) :
    (ramWriteBytes c pa v (n + 1)).ram = (ramWriteBytes c pa v n).ram := by
  rw [ramWriteBytes, ramWriteRaw, ramWriteBytes_toLayout, hoff]

/-- A byte that no byte of the access meets stays. -/
theorem ramWriteBytes_other {i : Nat}
    (h : ∀ k < n, ∀ off, HartSched.ramOffset c.toLayout (pa + BitVec.ofNat 64 k) 1 = some off → off.toNat ≠ i) :
    (ramWriteBytes c pa v n).ram i = c.ram i := by
  induction n with
  | zero => rfl
  | succ n ih =>
    have hprev := ih fun k hk => h k (Nat.lt_succ_of_lt hk)
    cases hoff : HartSched.ramOffset c.toLayout (pa + BitVec.ofNat 64 n) 1 with
    | none => rw [ramWriteBytes_succ_none hoff, hprev]
    | some off =>
      have hne := h n (Nat.lt_succ_self n) off hoff
      rw [ramWriteBytes_succ hoff, writeLe_other (by omega), hprev]

/-- Where byte `k` of the access lies, RAM holds it afterwards. -/
theorem ramWriteBytes_same (hal : c.toLayout.Aligned) (hn : n ≤ 8) {k : Nat} (hk : k < n) {off : Word}
    (hoff : HartSched.ramOffset c.toLayout (pa + BitVec.ofNat 64 k) 1 = some off) {b : Nat} (hb : b < 8) :
    ((ramWriteBytes c pa v n).ram off.toNat).getLsbD b = v.getLsbD (8 * k + b) := by
  induction n with
  | zero => exact absurd hk (Nat.not_lt_zero k)
  | succ n ih =>
    rcases Nat.lt_succ_iff_lt_or_eq.mp hk with hlt | rfl
    · have hprev := ih (by omega) hlt
      cases hlast : HartSched.ramOffset c.toLayout (pa + BitVec.ofNat 64 n) 1 with
      | none => rw [ramWriteBytes_succ_none hlast, hprev]
      | some last =>
        have hne := hal.offset_ne (by omega : k < 8) (by omega : n < 8) (by omega) hoff hlast
        rw [ramWriteBytes_succ hlast, writeLe_other (by omega), hprev]
    · have hmask : ∀ i < 8, (0xFF : Word).getLsbD i = true := by decide
      have hsame := @writeLe_same (ramWriteBytes c pa v k).ram off.toNat 1 0 ((v >>> (8 * k)) &&& 0xFF) Nat.one_pos
      rw [Nat.add_zero] at hsame
      rw [ramWriteBytes_succ hoff, hsame, BitVec.getLsbD_setWidth, BitVec.getLsbD_ushiftRight, Nat.mul_zero,
        Nat.zero_add, BitVec.getLsbD_and, hmask b hb, BitVec.getLsbD_ushiftRight]
      simp [hb]

/-- Writing bytes leaves RAM outside A and D exactly when it held them. -/
theorem sameOutsideAd_writeBytes_iff (hal : c.toLayout.Aligned) (hn : n ≤ 8) :
    SameOutsideAd c.ram (ramWriteBytes c pa v n).ram ↔ HoldsBytes c pa v n := by
  constructor
  · intro h k hk off hoff b hb hout
    rw [← ramWriteBytes_same hal hn hk hoff hb]
    exact h off.toNat b hout
  · intro h i b hout
    by_cases hi : ∃ k < n, ∃ off, HartSched.ramOffset c.toLayout (pa + BitVec.ofNat 64 k) 1 = some off ∧
        off.toNat = i
    · obtain ⟨k, hk, off, hoff, rfl⟩ := hi
      by_cases hb : b < 8
      · rw [ramWriteBytes_same hal hn hk hoff hb]
        exact h k hk off hoff b hb hout
      · rw [BitVec.getLsbD_of_ge _ _ (Nat.le_of_not_lt hb), BitVec.getLsbD_of_ge _ _ (Nat.le_of_not_lt hb)]
    · have hother : (ramWriteBytes c pa v n).ram i = c.ram i := by
        apply ramWriteBytes_other
        intro k hk off hoff he
        exact hi ⟨k, hk, off, hoff, he⟩
      rw [hother]

end First

/-! ## Stores -/

section Stores

variable {cfg : Features} {w w1 w2 : World} {f : DecodedFields} {instr : BitVec 32} {rwx : Rwx}
  {va pa v : Word} {size : Nat}

theorem translate_ramFrame (cfg : Features) (w : World) (va : Word) (rwx : Rwx) :
    RamFrame w.mem (w.translate cfg va rwx).1.mem :=
  (w.translate_frame cfg va rwx).mem

theorem fault_mem (w : World) (e : TranslateFault) (ac tval : Word) : (w.fault e ac tval).mem = w.mem := by
  cases e <;> rfl

/-- Translation and its traps touch page-table entries only. -/
theorem translateAccess_ramFrame (cfg : Features) (w : World) (va : Word) (rwx : Rwx) (size : Nat) (ac ft pt : Word) :
    RamFrame w.mem (translateAccess cfg w va rwx size ac ft pt).1.mem := by
  have hf := translate_ramFrame cfg w va rwx
  rw [translateAccess]
  rcases ht : w.translate cfg va rwx with ⟨w1, e | t⟩
  · rw [ht] at hf
    dsimp only
    rw [fault_mem]
    exact hf
  · rw [ht] at hf
    dsimp only
    split_ifs
    · exact hf
    · exact hf

/-- The store of `size` bytes has passed the checks for its first physical address `pa`, no device
takes it, and it goes to RAM in the world `w2`. -/
def ReachesRam (cfg : Features) (w : World) (f : DecodedFields) (size : Nat) (w2 : World) (pa : Word) : Prop :=
  storeSize f.func3 = some size ∧ ∃ w1,
    translateAccess cfg w (storeAddr w f) .write size Exc.stAccessFault (storeAddr w f) (storeAddr w f) =
        (w1, some pa) ∧
      deviceStore cfg w1 pa (readGpr w.hart f.rs2) size = (w2, none) ∧ isDeviceAddr pa w2.dev = false ∧
        (HartSched.ramOffset w2.mem.toLayout pa size).isSome = true

/-- The bytes of the first page, and then the second page is refused. -/
def SecondRefused (cfg : Features) (w2 : World) (va pa v : Word) (size : Nat) : Prop :=
  crossesPage va size = true ∧
    secondGranted cfg { w2 with mem := ramWriteBytes w2.mem pa v (bytesFirst va) } va size .write = false

/-- Whenever the store is refused on its second page, the bytes of the first are in RAM already. -/
def LateTrapHarmless (cfg : Features) (w : World) (f : DecodedFields) : Prop :=
  ∀ size w2 pa, ReachesRam cfg w f size w2 pa →
    SecondRefused cfg w2 (storeAddr w f) pa (readGpr w.hart f.rs2) size →
      HoldsBytes w2.mem pa (readGpr w.hart f.rs2) (bytesFirst (storeAddr w f))

theorem ReachesRam.unique {size' : Nat} {w2' : World} {pa' : Word} (h : ReachesRam cfg w f size w2 pa)
    (h' : ReachesRam cfg w f size' w2' pa') : size' = size ∧ w2' = w2 ∧ pa' = pa := by
  obtain ⟨hs, w1, ht, hd, _⟩ := h
  obtain ⟨hs', w1', ht', hd', _⟩ := h'
  rw [hs] at hs'
  cases hs'
  rw [ht] at ht'
  cases ht'
  rw [hd] at hd'
  cases hd'
  exact ⟨rfl, rfl, rfl⟩

theorem ReachesRam.ramFrame (h : ReachesRam cfg w f size w2 pa) : RamFrame w.mem w2.mem := by
  obtain ⟨_, w1, ht, hd, _⟩ := h
  have hf := translateAccess_ramFrame cfg w (storeAddr w f) .write size Exc.stAccessFault
    (storeAddr w f) (storeAddr w f)
  have hdev := (DeviceFrame.deviceStore cfg w1 pa (readGpr w.hart f.rs2) size).mem
  rw [ht] at hf
  rw [hd] at hdev
  rw [hdev]
  exact hf

theorem readGpr_translateAccess {ac ft pt : Word} (ht : translateAccess cfg w va rwx size ac ft pt = (w1, some pa))
    (rs : BitVec 5) : readGpr w1.hart rs = readGpr w.hart rs := by
  have hf := (translateAccess_some ht).1.hart
  rw [readGpr, readGpr, hf.gprs]

theorem ReachesRam.handleStore (instr : BitVec 32) (h : ReachesRam cfg w f size w2 pa) :
    handleStore cfg w f instr = (match storeRam cfg w2 (storeAddr w f) pa (readGpr w.hart f.rs2) size with
      | (w', false) => (w', 0)
      | (w', true) => (w', 4) : World × Word) := by
  obtain ⟨hs, w1, ht, hd, hdev, hoff⟩ := h
  have hv := readGpr_translateAccess ht f.rs2
  rw [storeAddr] at ht
  obtain ⟨off, hoff⟩ := Option.isSome_iff_exists.mp hoff
  simp only [Pyremu.handleStore, hs, ht, hv, hd, storeTail, hdev, hoff, storeAddr]
  rfl

/-- A store that does not get to RAM touches page-table entries only. -/
theorem handleStore_ramFrame (h : ∀ size w2 pa, ¬ ReachesRam cfg w f size w2 pa) :
    RamFrame w.mem (handleStore cfg w f instr).1.mem := by
  rw [handleStore]
  cases hs : storeSize f.func3 with
  | none => exact RamFrame.refl _
  | some size =>
    dsimp only
    have hf := translateAccess_ramFrame cfg w (storeAddr w f) .write size Exc.stAccessFault
      (storeAddr w f) (storeAddr w f)
    rcases ht : translateAccess cfg w (storeAddr w f) .write size Exc.stAccessFault (storeAddr w f)
      (storeAddr w f) with ⟨w1, _ | pa⟩
    · rw [ht] at hf
      rw [storeAddr] at ht
      rw [ht]
      exact hf
    · rw [ht] at hf
      have hv := readGpr_translateAccess ht f.rs2
      have hdev := (DeviceFrame.deviceStore cfg w1 pa (readGpr w.hart f.rs2) size).mem
      rcases hd : deviceStore cfg w1 pa (readGpr w.hart f.rs2) size with ⟨w2, _ | d⟩
      · rw [hd] at hdev
        have hno : ¬ (isDeviceAddr pa w2.dev = false ∧ (HartSched.ramOffset w2.mem.toLayout pa size).isSome = true) :=
          fun hok => h size w2 pa ⟨hs, w1, ht, hd, hok⟩
        rw [storeAddr] at ht
        rw [ht]
        dsimp only
        rw [hv, hd]
        dsimp only
        rw [storeTail]
        by_cases hda : isDeviceAddr pa w2.dev = true
        · rw [if_pos hda]
          exact hdev ▸ hf
        · rw [if_neg hda, if_pos]
          · exact hdev ▸ hf
          · cases hoff : HartSched.ramOffset w2.mem.toLayout pa size with
            | none => rfl
            | some off => exact absurd ⟨Bool.eq_false_iff.mpr hda, by rw [hoff]; rfl⟩ hno
      · rw [hd] at hdev
        rw [storeAddr] at ht
        rw [ht]
        dsimp only
        rw [hv, hd]
        exact hdev ▸ hf

/-- The bytes of the first page, then what the second translation does to the tables. -/
theorem SecondRefused.storeRam (h : SecondRefused cfg w2 va pa v size) :
    (storeRam cfg w2 va pa v size).2 = false ∧
      RamFrame (ramWriteBytes w2.mem pa v (bytesFirst va)) (storeRam cfg w2 va pa v size).1.mem := by
  obtain ⟨hx, hno⟩ := h
  have hres : (Pyremu.storeRam cfg w2 va pa v size).2 = _ := storeRam_isTrue
  rw [hx, hno] at hres
  refine ⟨hres, ?_⟩
  rw [Pyremu.storeRam, if_pos hx, writeRamCrossPage] at hres ⊢
  have hf := translateAccess_ramFrame cfg
    { w2 with mem := ramWriteBytes w2.mem pa v (bytesFirst va) } (va + BitVec.ofNat 64 (bytesFirst va))
    .write (size - bytesFirst va) Exc.stAccessFault (va + BitVec.ofNat 64 (bytesFirst va)) va
  rcases ht : translateAccess cfg { w2 with mem := ramWriteBytes w2.mem pa v (bytesFirst va) }
    (va + BitVec.ofNat 64 (bytesFirst va)) .write (size - bytesFirst va) Exc.stAccessFault
    (va + BitVec.ofNat 64 (bytesFirst va)) va with ⟨w3, _ | pa2⟩
  · rw [ht] at hf
    exact hf
  · rw [ht] at hres
    cases hres

theorem storeRam_of_not_refused (h : ¬ SecondRefused cfg w2 va pa v size) :
    (storeRam cfg w2 va pa v size).2 = true := by
  rw [storeRam_isTrue]
  cases hx : crossesPage va size with
  | false => rfl
  | true =>
    cases hs : secondGranted cfg { w2 with mem := ramWriteBytes w2.mem pa v (bytesFirst va) } va size .write with
    | true => rfl
    | false => exact absurd ⟨hx, hs⟩ h

theorem bytesFirst_le_of_crosses (hs : storeSize f.func3 = some size) (hx : crossesPage va size = true) :
    bytesFirst va ≤ 8 := by
  have hlt : 0x1000 < (va &&& 0xFFF).toNat + size := of_decide_eq_true hx
  have hle := (storeSize_size hs).le
  rw [bytesFirst]
  omega

/-- A store that traps leaves RAM outside A and D bits as it was exactly when it is not refused on a
second page, or the bytes it has stored by then were there before. -/
theorem store_trap_iff (cfg : Features) (w : World) (f : DecodedFields) (instr : BitVec 32)
    (hal : w.mem.Aligned) :
    (Raised w (handleStore cfg w f instr) → SameOutsideAd w.mem.ram (handleStore cfg w f instr).1.mem.ram) ↔
      LateTrapHarmless cfg w f := by
  by_cases hreach : ∃ size w2 pa, ReachesRam cfg w f size w2 pa
  · obtain ⟨size, w2, pa, hr⟩ := hreach
    have hf := hr.ramFrame
    have hal2 : w2.mem.Aligned := by
      rw [hf.toLayout]
      exact hal
    have hrun := hr.handleStore instr
    by_cases hx : SecondRefused cfg w2 (storeAddr w f) pa (readGpr w.hart f.rs2) size
    · have hn := bytesFirst_le_of_crosses hr.1 hx.1
      obtain ⟨hfalse, hram⟩ := hx.storeRam
      generalize hst : storeRam cfg w2 (storeAddr w f) pa (readGpr w.hart f.rs2) size = r at hfalse hram hrun
      obtain ⟨w', b⟩ := r
      obtain rfl : b = false := hfalse
      have hraised : Raised w (handleStore cfg w f instr) := by
        apply (handleStore_outcome cfg w f instr).raised
        rw [hrun]
      have hal3 : (ramWriteBytes w2.mem pa (readGpr w.hart f.rs2) (bytesFirst (storeAddr w f))).toLayout.Aligned := by
        rw [ramWriteBytes_toLayout]
        exact hal2
      have hbefore := hf.sameOutsideAd hal
      have hafter := hram.sameOutsideAd hal3
      have hholds := @sameOutsideAd_writeBytes_iff w2.mem pa (readGpr w.hart f.rs2) _ hal2 hn
      rw [forall_prop_of_true hraised, hrun]
      constructor
      · intro h size' w2' pa' hr' _
        obtain ⟨rfl, rfl, rfl⟩ := hr.unique hr'
        exact hholds.mp ((hbefore.symm.trans h).trans hafter.symm)
      · intro h
        exact (hbefore.trans (hholds.mpr (h size w2 pa hr hx))).trans hafter
    · have htrue := storeRam_of_not_refused hx
      generalize storeRam cfg w2 (storeAddr w f) pa (readGpr w.hart f.rs2) size = r at htrue hrun
      obtain ⟨w', b⟩ := r
      obtain rfl : b = true := htrue
      apply iff_of_true
      · rintro ⟨hz, _⟩
        rw [hrun] at hz
        cases hz
      · intro size' w2' pa' hr' hx'
        obtain ⟨rfl, rfl, rfl⟩ := hr.unique hr'
        exact absurd hx' hx
  · apply iff_of_true
    · intro _
      exact (handleStore_ramFrame fun size w2 pa h => hreach ⟨size, w2, pa, h⟩).sameOutsideAd hal
    · intro size w2 pa h
      exact absurd ⟨size, w2, pa, h⟩ hreach

end Stores

/-- The supervisor with two pages, where `x1` holds `addr` and `x2` is all ones. -/
def storingAt (addr : Word) : World :=
  let w := twoPages 0x80001000 0x80000000
  { w with hart := { w.hart with gprs := fun r => if r = 1 then addr else if r = 2 then BitVec.allOnes 64 else 0 } }

theorem storingAt_aligned (addr : Word) : (storingAt addr).mem.Aligned :=
  ⟨(by decide : (0x80000000 : Word).toNat % 8 = 0), (by decide : (0 : Word).toNat % 8 = 0)⟩

/-- `sd x2, 0(x1)` with no page at all leaves RAM as it is. -/
theorem store_without_page :
    Raised (storingAt 0x3FFC) (handleStore ⟨false, false, false, 0⟩ (storingAt 0x3FFC) (decodeFields 0x20B023) 0x20B023) ∧
      SameOutsideAd (storingAt 0x3FFC).mem.ram
        (handleStore ⟨false, false, false, 0⟩ (storingAt 0x3FFC) (decodeFields 0x20B023) 0x20B023).1.mem.ram := by
  have hraised := (handleStore_outcome ⟨false, false, false, 0⟩ (storingAt 0x3FFC) (decodeFields 0x20B023)
    0x20B023).raised (by decide +kernel)
  refine ⟨hraised, ?_⟩
  apply (store_trap_iff _ _ _ _ (storingAt_aligned 0x3FFC)).mpr _ hraised
  rintro size w2 pa ⟨hs, w1, ht, -⟩
  cases hs
  have hnone : (translateAccess ⟨false, false, false, 0⟩ (storingAt 0x3FFC)
      (storeAddr (storingAt 0x3FFC) (decodeFields 0x20B023)) .write 8 Exc.stAccessFault
      (storeAddr (storingAt 0x3FFC) (decodeFields 0x20B023))
      (storeAddr (storingAt 0x3FFC) (decodeFields 0x20B023))).2 = none := by decide +kernel
  rw [ht] at hnone
  cases hnone

/-- The page behind the second one is missing: the store faults there, with four bytes written. -/
theorem store_faults_after_first_page :
    ¬ ∀ (cfg : Features) (w : World) (f : DecodedFields) (instr : BitVec 32), w.mem.Aligned →
      Raised w (handleStore cfg w f instr) → SameOutsideAd w.mem.ram (handleStore cfg w f instr).1.mem.ram := by
  intro h
  have hraised := (handleStore_outcome ⟨false, false, false, 0⟩ (storingAt 0x2FFC) (decodeFields 0x20B023)
    0x20B023).raised (by decide +kernel)
  have hbit := h _ _ _ _ (storingAt_aligned 0x2FFC) hraised 0xFFC 0 (by decide)
  revert hbit
  decide +kernel

end Pyremu
