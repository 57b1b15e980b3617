import Pyremu.ByteAgree
import Pyremu.Outcome

/-!
# When an access is its bytes

A load or store gives what its bytes give one by one, or traps where one of
them would, exactly when the checks of the whole access agree with the checks
of the bytes.
-/

namespace Pyremu

/-! ## RAM accesses -/

/-- Where the host places RAM: inside the physical address space of Sv39, and above the addresses
that a relocated image was linked at. -/
structure Layout.Placed (l : Layout) : Prop where
  ram_end : l.ramBase.toNat + l.ramSize.toNat ≤ 2 ^ 56
  link_below : l.shadowSize = 0 ∨ l.shadowBase.toNat + l.shadowSize.toNat ≤ l.ramBase.toNat

section Ram

variable {l : Layout} {c : WalkCtx} {pa off : Word} {n : Nat}

/-- Away from the end of the address space the resolver computes with numbers. -/
theorem Layout.Placed.ramOffset_eq (hl : l.Placed) (h : pa.toNat + n < 2 ^ 64) :
    HartSched.ramOffset l pa n =
      if l.ramBase.toNat ≤ pa.toNat ∧ pa.toNat + n ≤ l.ramBase.toNat + l.ramSize.toNat then
        some (pa - l.ramBase)
      else if l.shadowSize ≠ 0 ∧ l.shadowBase.toNat ≤ pa.toNat ∧
          pa.toNat + n ≤ l.shadowBase.toNat + l.shadowSize.toNat then some (pa - l.shadowBase)
      else none := by
  have hr := hl.ram_end
  have hfin : (pa + BitVec.ofNat 64 n).toNat = pa.toNat + n := by
    rw [BitVec.toNat_add, BitVec.toNat_ofNat]
    omega
  have hram : (l.ramBase + l.ramSize).toNat = l.ramBase.toNat + l.ramSize.toNat := by
    rw [BitVec.toNat_add]
    omega
  rw [HartSched.ramOffset]
  simp only [BitVec.le_def, hfin, hram]
  by_cases hin : l.ramBase.toNat ≤ pa.toNat ∧ pa.toNat + n ≤ l.ramBase.toNat + l.ramSize.toNat
  · rw [if_pos hin, if_pos hin]
  · rw [if_neg hin, if_neg hin]
    by_cases h0 : l.shadowSize = 0
    · rw [if_pos (by rw [h0]; exact Nat.le_refl _), if_neg fun h => h.1 h0]
    · have hlink := hl.link_below.resolve_left h0
      have hpos : ¬ l.shadowSize.toNat ≤ (0#64).toNat :=
        fun h => h0 (BitVec.eq_of_toNat_eq (Nat.le_zero.mp h))
      have hshadow : (l.shadowBase + l.shadowSize).toNat =
          l.shadowBase.toNat + l.shadowSize.toNat := by
        rw [BitVec.toNat_add]
        omega
      rw [if_neg hpos, hshadow]
      by_cases hs : l.shadowBase.toNat ≤ pa.toNat ∧
          pa.toNat + n ≤ l.shadowBase.toNat + l.shadowSize.toNat
      · rw [if_pos hs, if_pos ⟨h0, hs⟩]
      · rw [if_neg hs, if_neg fun h => hs h.2]

/-- A byte that resolves does not lie near the end of the address space. -/
theorem Layout.Placed.byte_lt (hl : l.Placed) (h : pa.toNat + 1 < 2 ^ 64)
    (hb : (HartSched.ramOffset l pa 1).isSome = true) : pa.toNat < 2 ^ 56 := by
  have hr := hl.ram_end
  rw [hl.ramOffset_eq h] at hb
  by_cases hin : l.ramBase.toNat ≤ pa.toNat ∧ pa.toNat + 1 ≤ l.ramBase.toNat + l.ramSize.toNat
  · omega
  · rw [if_neg hin] at hb
    by_cases hs : l.shadowSize ≠ 0 ∧ l.shadowBase.toNat ≤ pa.toNat ∧
        pa.toNat + 1 ≤ l.shadowBase.toNat + l.shadowSize.toNat
    · have hlink := hl.link_below.resolve_left hs.1
      omega
    · rw [if_neg hs] at hb
      cases hb

theorem add_sub_base {base : Word} (hpa : pa.toNat < 2 ^ 56) {k : Nat} (hk : k ≤ 8) :
    pa + BitVec.ofNat 64 k - base = pa - base + BitVec.ofNat 64 k := by
  have hb := base.isLt
  apply BitVec.eq_of_toNat_eq
  rw [BitVec.toNat_sub, BitVec.toNat_add, BitVec.toNat_add, BitVec.toNat_sub, BitVec.toNat_ofNat]
  omega

/-- An access that lies in one of the windows has its bytes there, one behind the other. -/
theorem Layout.Placed.bytesResolve (hl : l.Placed) (hn : n ≤ 8) (hpa : pa.toNat < 2 ^ 56)
    (hw : HartSched.ramOffset l pa n = some off) :
    BytesResolve l pa off n ∧ off.toNat + n < 2 ^ 64 := by
  have hr := hl.ram_end
  have hbyte {k : Nat} (hk : k < n) : (pa + BitVec.ofNat 64 k).toNat = pa.toNat + k := by
    rw [BitVec.toNat_add, BitVec.toNat_ofNat]
    omega
  rw [hl.ramOffset_eq (by omega)] at hw
  by_cases hin : l.ramBase.toNat ≤ pa.toNat ∧ pa.toNat + n ≤ l.ramBase.toNat + l.ramSize.toNat
  · rw [if_pos hin] at hw
    cases hw
    constructor
    · intro k hk
      rw [hl.ramOffset_eq (by rw [hbyte hk]; omega), hbyte hk, if_pos (by omega),
        add_sub_base hpa (by omega)]
    · rw [BitVec.toNat_sub]
      omega
  · rw [if_neg hin] at hw
    by_cases hs : l.shadowSize ≠ 0 ∧ l.shadowBase.toNat ≤ pa.toNat ∧
        pa.toNat + n ≤ l.shadowBase.toNat + l.shadowSize.toNat
    · rw [if_pos hs] at hw
      cases hw
      have hlink := hl.link_below.resolve_left hs.1
      constructor
      · intro k hk
        rw [hl.ramOffset_eq (by rw [hbyte hk]; omega), hbyte hk, if_neg (by omega),
          if_pos (by exact ⟨hs.1, by omega, by omega⟩), add_sub_base hpa (by omega)]
      · rw [BitVec.toNat_sub]
        omega
    · rw [if_neg hs] at hw
      cases hw

/-- The sizes of an access. -/
def AccessSize (n : Nat) : Prop := n = 1 ∨ n = 2 ∨ n = 4 ∨ n = 8

theorem ramReadRaw_bytes (hl : c.Placed) (hsize : AccessSize n) (ha : pa.toNat % n = 0)
    (hw : (HartSched.ramOffset c.toLayout pa n).isSome = true)
    (hb : (HartSched.ramOffset c.toLayout pa 1).isSome = true) :
    ramReadRaw c pa n = ramReadBytes c pa n := by
  by_cases h1 : n = 1
  · rw [h1, ramReadBytes, ramReadBytes]
    simp
  · have hpa : pa.toNat < 2 ^ 56 := by
      apply hl.byte_lt _ hb
      have hlt := pa.isLt
      rcases hsize with rfl | rfl | rfl | rfl <;> omega
    obtain ⟨off, hoff⟩ := Option.isSome_iff_exists.mp hw
    obtain ⟨hres, hlt⟩ := hl.bytesResolve (by rcases hsize with rfl | rfl | rfl | rfl <;> omega) hpa hoff
    rw [ramReadBytes_eq hres hlt, ramReadRaw, hoff]
    exact if_pos hsize

theorem lrClearAll_with_ram (c : WalkCtx) (m : ByteMem.Mem) :
    lrClearAll { c with ram := m } = { lrClearAll c with ram := m } := rfl

/-- Storing byte by byte drops the reservations as storing at once does. -/
theorem ramWriteBytes_eq {v : Word} (hpos : 1 ≤ n) (hb : BytesResolve c.toLayout pa off n)
    (hlt : off.toNat + n < 2 ^ 64) :
    ramWriteBytes c pa v n = { lrClearAll c with ram := (ramWriteBytes c pa v n).ram } := by
  induction n, hpos using Nat.le_induction with
  | base =>
    have h0 := hb 0 Nat.one_pos
    simp only [ramWriteBytes, ramWriteRaw, h0]
  | succ n hpos ih =>
    have hn := hb n (Nat.lt_succ_self n)
    have hprev := ih (fun i hi => hb i (Nat.lt_succ_of_lt hi)) (by omega)
    rw [← ramWriteBytes_toLayout c pa v n] at hn
    have hstep : ramWriteBytes c pa v (n + 1) =
        { lrClearAll (ramWriteBytes c pa v n) with ram := (ramWriteBytes c pa v (n + 1)).ram } := by
      simp only [ramWriteBytes, ramWriteRaw, hn]
    rw [hstep, hprev, lrClearAll_with_ram, lrClearAll_lrClearAll]

theorem ramWriteRaw_bytes {v : Word} (hl : c.Placed) (hsize : AccessSize n) (ha : pa.toNat % n = 0)
    (hw : (HartSched.ramOffset c.toLayout pa n).isSome = true)
    (hb : (HartSched.ramOffset c.toLayout pa 1).isSome = true) :
    ramWriteRaw c pa v n = ramWriteBytes c pa v n := by
  have hs : n = 1 ∨ n = 2 ∨ n = 4 ∨ n = 8 := hsize
  obtain ⟨off, hoff⟩ := Option.isSome_iff_exists.mp hw
  by_cases h1 : n = 1
  · subst h1
    rw [ramWriteBytes, ramWriteBytes, BitVec.add_zero, Nat.mul_zero, BitVec.ushiftRight_zero,
      ramWriteRaw, ramWriteRaw, hoff]
    dsimp only
    rw [storeSized, storeSized, if_pos hs, if_pos hs]
    congr 1
    apply ByteMem.writeLe_congr
    intro i hi
    have hm : (0xFF : Word).getLsbD i = true := by
      have : i < 8 := by omega
      revert i
      decide
    rw [BitVec.getLsbD_and, hm, Bool.and_true]
  · have hpa : pa.toNat < 2 ^ 56 := by
      apply hl.byte_lt _ hb
      have hlt := pa.isLt
      rcases hsize with rfl | rfl | rfl | rfl <;> omega
    obtain ⟨hres, hlt⟩ := hl.bytesResolve (by rcases hsize with rfl | rfl | rfl | rfl <;> omega) hpa hoff
    have hpos : 1 ≤ n := by rcases hsize with rfl | rfl | rfl | rfl <;> omega
    rw [ramWriteBytes_eq hpos hres hlt, ramWriteBytes_ram hres hlt, ramWriteRaw, hoff]
    dsimp only
    rw [storeSized, if_pos hs]

end Ram

/-! ## The checks of the engine -/

/-- The second page translates in `w`, and PMP allows the bytes on it. -/
def secondGranted (cfg : Features) (w : World) (va : Word) (size : Nat) (rwx : Rwx) : Bool :=
  match w.translate cfg (va + BitVec.ofNat 64 (bytesFirst va)) rwx with
  | (_, .error _) => false
  | (w2, .ok t2) => pmpOk w2.hart t2.pa (size - bytesFirst va) (hasWrite rwx) false w2.pmp

/-- The checks of the whole access: PMP and RAM for all of its bytes at the physical address of the
first, and the second page if there is one. `first` is what the bytes of the first page do to RAM. -/
def wholeGranted (cfg : Features) (w : World) (va : Word) (size : Nat) (rwx : Rwx)
    (first : Word → WalkCtx → WalkCtx) : Bool :=
  match w.translate cfg va rwx with
  | (_, .error _) => false
  | (w1, .ok t) =>
    decide (RangeGranted w1 t.pa size rwx) &&
      (!crossesPage va size || secondGranted cfg { w1 with mem := first t.pa w1.mem } va size rwx)

/-- Unless a byte lies in a device window, the whole access is granted exactly when all of its bytes
are. -/
def ChecksAgree (granted : Bool) (outcomes : List ByteOutcome) : Prop :=
  (∀ o ∈ outcomes, o ≠ .device) → (granted = true ↔ ∀ o ∈ outcomes, o.isDone = true)

instance (granted : Bool) (outcomes : List ByteOutcome) : Decidable (ChecksAgree granted outcomes) :=
  inferInstanceAs (Decidable (_ → _))

def loadGranted (cfg : Features) (w : World) (va : Word) (size : Nat) : Bool :=
  wholeGranted cfg w va size .read fun _ c => c

def storeGranted (cfg : Features) (w : World) (va v : Word) (size : Nat) : Bool :=
  wholeGranted cfg w va size .write fun pa c => ramWriteBytes c pa v (bytesFirst va)

/-! ## The checks of the bytes -/

/-- PMP allows each of the `n` bytes from `pa` on its own, and RAM holds each. -/
def BytesGranted (w : World) (pa : Word) (n : Nat) (rwx : Rwx) : Prop :=
  ∀ k < n, RangeGranted w (pa + BitVec.ofNat 64 k) 1 rwx

instance (w : World) (pa : Word) (n : Nat) (rwx : Rwx) : Decidable (BytesGranted w pa n rwx) :=
  inferInstanceAs (Decidable (∀ k < n, _))

/-- Both pages translate: what the code checks, for `size` bytes at the first address and for the
tail on the second page, against the bytes at their own addresses. -/
def CrossAgrees (w1 w2 : World) (pa pa2 va : Word) (size : Nat) (rwx : Rwx) : Prop :=
  (RangeGranted w1 pa size rwx ∧
      pmpOk w2.hart pa2 (size - bytesFirst va) (hasWrite rwx) false w2.pmp = true) ↔
    (BytesGranted w1 pa (bytesFirst va) rwx ∧ BytesGranted w2 pa2 (size - bytesFirst va) rwx)

instance (w1 w2 : World) (pa pa2 va : Word) (size : Nat) (rwx : Rwx) :
    Decidable (CrossAgrees w1 w2 pa pa2 va size rwx) :=
  inferInstanceAs (Decidable (_ ↔ _))

/-- The second page, translated in `w`. -/
def SecondAgrees (cfg : Features) (w1 w : World) (pa va : Word) (size : Nat) (rwx : Rwx) : Prop :=
  match w.translate cfg (va + BitVec.ofNat 64 (bytesFirst va)) rwx with
  | (_, .error _) => True
  | (w2, .ok t2) => CrossAgrees w1 w2 pa t2.pa va size rwx

instance SecondAgrees.decidable (cfg : Features) (w1 w : World) (pa va : Word) (size : Nat) (rwx : Rwx) :
    Decidable (SecondAgrees cfg w1 w pa va size rwx) :=
  show Decidable (match w.translate cfg (va + BitVec.ofNat 64 (bytesFirst va)) rwx with
    | (_, .error _) => True
    | (w2, .ok t2) => CrossAgrees w1 w2 pa t2.pa va size rwx) from
  match w.translate cfg (va + BitVec.ofNat 64 (bytesFirst va)) rwx with
  | (_, .error _) => .isTrue trivial
  | (w2, .ok t2) => inferInstanceAs (Decidable (CrossAgrees w1 w2 pa t2.pa va size rwx))

/-- Where its pages translate, PMP and RAM judge the access as they judge its bytes. -/
def JudgedAsBytes (cfg : Features) (w : World) (va : Word) (size : Nat) (rwx : Rwx)
    (first : Word → WalkCtx → WalkCtx) : Prop :=
  match w.translate cfg va rwx with
  | (_, .error _) => True
  | (w1, .ok t) =>
    if crossesPage va size then
      SecondAgrees cfg w1 { w1 with mem := first t.pa w1.mem } t.pa va size rwx
    else RangeGranted w1 t.pa size rwx ↔ BytesGranted w1 t.pa size rwx

instance JudgedAsBytes.decidable (cfg : Features) (w : World) (va : Word) (size : Nat) (rwx : Rwx)
    (first : Word → WalkCtx → WalkCtx) : Decidable (JudgedAsBytes cfg w va size rwx first) :=
  show Decidable (match w.translate cfg va rwx with
    | (_, .error _) => True
    | (w1, .ok t) =>
      if crossesPage va size then
        SecondAgrees cfg w1 { w1 with mem := first t.pa w1.mem } t.pa va size rwx
      else RangeGranted w1 t.pa size rwx ↔ BytesGranted w1 t.pa size rwx) from
  match w.translate cfg va rwx with
  | (_, .error _) => .isTrue trivial
  | (w1, .ok t) => inferInstanceAs (Decidable (if crossesPage va size then
      SecondAgrees cfg w1 { w1 with mem := first t.pa w1.mem } t.pa va size rwx
    else RangeGranted w1 t.pa size rwx ↔ BytesGranted w1 t.pa size rwx))

def LoadJudgedAsBytes (cfg : Features) (w : World) (va : Word) (size : Nat) : Prop :=
  JudgedAsBytes cfg w va size .read fun _ c => c

instance (cfg : Features) (w : World) (va : Word) (size : Nat) :
    Decidable (LoadJudgedAsBytes cfg w va size) :=
  JudgedAsBytes.decidable cfg w va size .read fun _ c => c

def StoreJudgedAsBytes (cfg : Features) (w : World) (va v : Word) (size : Nat) : Prop :=
  JudgedAsBytes cfg w va size .write fun pa c => ramWriteBytes c pa v (bytesFirst va)

/-! ## The property -/

/-- The access has delivered a trap. -/
def Raised (w : World) (r : World × Word) : Prop := r.2 = 0 ∧ ∃ code, Faulted w.hart r.1.hart code

/-- The address of a load. -/
def loadAddr (w : World) (f : DecodedFields) : Word := readGpr w.hart f.rs1 + f.imm12Se

def storeAddr (w : World) (f : DecodedFields) : Word := readGpr w.hart f.rs1 + f.immS

/-- A load of `size` bytes is its single-byte loads: it writes what they read, or traps where one of
them would. The count of TLB hits is left open. -/
def LoadIsBytes (cfg : Features) (w : World) (f : DecodedFields) (instr : BitVec 32) (size : Nat)
    (signed : Bool) : Prop :=
  let r := loadBytes cfg w (loadAddr w f) size
  ((∀ o ∈ r.2.1, o.isDone = true) → ∃ h, handleLoad cfg w f instr =
    ((r.1.withHits h).writeGpr f.rd (extendLoad size signed r.2.2), 4)) ∧
  ((∀ o ∈ r.2.1, o ≠ .device) → ¬ (∀ o ∈ r.2.1, o.isDone = true) → Raised w (handleLoad cfg w f instr))

/-- A store of `size` bytes is its single-byte stores. -/
def StoreIsBytes (cfg : Features) (w : World) (f : DecodedFields) (instr : BitVec 32) (size : Nat) :
    Prop :=
  let r := storeBytes cfg w (storeAddr w f) (readGpr w.hart f.rs2) size
  ((∀ o ∈ r.2.1, o.isDone = true) → ∃ h, handleStore cfg w f instr = (r.1.withHits h, 4)) ∧
  ((∀ o ∈ r.2.1, o ≠ .device) → ¬ (∀ o ∈ r.2.1, o.isDone = true) → Raised w (handleStore cfg w f instr))

/-- Both halves of the property against the agreement of the checks. -/
theorem checksAgree_iff {granted : Bool} {outcomes : List ByteOutcome} {Good Trap : Prop}
    (hgood : granted = true → (∀ o ∈ outcomes, o.isDone = true) → Good)
    (htrap : granted = false → (∀ o ∈ outcomes, o ≠ .device) → Trap)
    (hgo : granted = true → (∀ o ∈ outcomes, o ≠ .device) → ¬ Trap) (hnot : Good → ¬ Trap) :
    (((∀ o ∈ outcomes, o.isDone = true) → Good) ∧
        ((∀ o ∈ outcomes, o ≠ .device) → ¬ (∀ o ∈ outcomes, o.isDone = true) → Trap)) ↔
      ChecksAgree granted outcomes := by
  have hdev (hd : ∀ o ∈ outcomes, o.isDone = true) : ∀ o ∈ outcomes, o ≠ .device := by
    intro o ho he
    have := hd o ho
    rw [he] at this
    cases this
  constructor
  · rintro ⟨hg, ht⟩ hno
    constructor
    · intro hgr
      by_contra hd
      exact hgo hgr hno (ht hno hd)
    · intro hd
      cases hgr : granted with
      | true => rfl
      | false => exact absurd (htrap hgr hno) (hnot (hg hd))
  · intro h
    constructor
    · intro hd
      exact hgood ((h (hdev hd)).mpr hd) hd
    · intro hno hd
      cases hgr : granted with
      | true => exact absurd ((h hno).mp hgr) hd
      | false => exact htrap hgr hno

end Pyremu
