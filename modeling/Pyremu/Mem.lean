import Pyremu.State
import Pyremu.Lib.ByteMem

/-!
# Guest RAM

Physical addresses reach the host buffer through three copies of one range
check. They are kept apart under the names of the files that hold them, since
only the copy in `mem.rs` rejects an end address that passes `2^64`. Accesses
are little-endian; the aligned atomic branches and the byte-wise branches of
the source transfer the same bytes and are one definition here.
-/

namespace Pyremu

open ByteMem

/-- Placement of the RAM buffer and of the window at the link address. -/
structure Layout where
  ramBase : Word
  ramSize : Word
  shadowBase : Word
  shadowSize : Word
  deriving DecidableEq, Repr

/-- Context shared by translation and the LR/SC helpers. A missing counter or
reservation table models the null pointer of the serial path. -/
structure WalkCtx extends Layout where
  ram : Mem
  tlbFlushCnt : Option Word
  lrReserved : Option (Nat → Word)
  numHarts : Nat

namespace Mem

/-- `mem::ram_offset`: the end address is computed with `checked_add`. -/
def ramOffset (l : Layout) (pa : Word) (size : Nat) : Option Word :=
  if 2 ^ 64 ≤ pa.toNat + size then none
  else
    let fin := pa + BitVec.ofNat 64 size
    if l.ramBase ≤ pa ∧ fin ≤ l.ramBase + l.ramSize then some (pa - l.ramBase)
    else if 0#64 < l.shadowSize ∧ l.shadowBase ≤ pa ∧ fin ≤ l.shadowBase + l.shadowSize then
      some (pa - l.shadowBase)
    else none

end Mem

namespace HartSched

/-- `hart_sched::ram_offset`: the end address wraps. -/
def ramOffset (l : Layout) (pa : Word) (size : Nat) : Option Word :=
  let fin := pa + BitVec.ofNat 64 size
  if l.ramBase ≤ pa ∧ fin ≤ l.ramBase + l.ramSize then some (pa - l.ramBase)
  else if l.shadowSize ≤ 0#64 then none
  else if l.shadowBase ≤ pa ∧ fin ≤ l.shadowBase + l.shadowSize then
    some (pa - l.shadowBase)
  else none

end HartSched

namespace Translate

/-- `translate::ram_offset`: the end address wraps. -/
def ramOffset (l : Layout) (pa : Word) (size : Nat) : Option Word :=
  let fin := pa + BitVec.ofNat 64 size
  if l.ramBase ≤ pa ∧ fin ≤ l.ramBase + l.ramSize then some (pa - l.ramBase)
  else if 0#64 < l.shadowSize then
    if l.shadowBase ≤ pa ∧ fin ≤ l.shadowBase + l.shadowSize then some (pa - l.shadowBase)
    else none
  else none

end Translate

/-- What the host promises about the layout. -/
structure Layout.WellFormed (l : Layout) : Prop where
  ram_end : l.ramBase.toNat + l.ramSize.toNat < 2 ^ 64
  shadow_end : l.shadowBase.toNat + l.shadowSize.toNat < 2 ^ 64
  shadow_le : l.shadowSize ≤ l.ramSize

/-- The end address, taken modulo `2^64`, lies in the window that starts at
`base` at or below `pa`. -/
def WrapsInto (base size pa : Word) (n : Nat) : Prop :=
  2 ^ 64 ≤ pa.toNat + n ∧ base ≤ pa ∧ pa + BitVec.ofNat 64 n ≤ base + size

instance (base size pa : Word) (n : Nat) : Decidable (WrapsInto base size pa n) :=
  inferInstanceAs (Decidable (_ ∧ _ ∧ _))

/-- Every resolver stays inside the buffer and all three agree. -/
def Layout.Contained (l : Layout) (pa : Word) (n : Nat) : Prop :=
  (∀ off, (Mem.ramOffset l pa n = some off ∨ HartSched.ramOffset l pa n = some off ∨
      Translate.ramOffset l pa n = some off) → off.toNat + n ≤ l.ramSize.toNat) ∧
    Mem.ramOffset l pa n = HartSched.ramOffset l pa n ∧
    HartSched.ramOffset l pa n = Translate.ramOffset l pa n

section Resolvers

variable {l : Layout} {pa off : Word} {n : Nat}

/-- The two wrapping copies are the same function. -/
theorem hartSched_ramOffset_eq (l : Layout) (pa : Word) (n : Nat) :
    HartSched.ramOffset l pa n = Translate.ramOffset l pa n := by
  have h : (l.shadowSize ≤ 0#64) ↔ ¬ (0#64 < l.shadowSize) := BitVec.not_lt.symm
  by_cases hz : 0#64 < l.shadowSize <;>
    simp only [HartSched.ramOffset, Translate.ramOffset, h, hz, not_true, not_false_iff,
      ↓reduceIte]

theorem translate_ramOffset_of_no_wrap (h : pa.toNat + n < 2 ^ 64) :
    Translate.ramOffset l pa n = Mem.ramOffset l pa n := by
  have hn : ¬ 2 ^ 64 ≤ pa.toNat + n := by omega
  rw [Translate.ramOffset, Mem.ramOffset, if_neg hn]
  by_cases hz : 0#64 < l.shadowSize <;> simp [hz]

/-- Inside a window that does not itself wrap, an unwrapped access stays within it. -/
theorem offset_add_le {base size : Word} (hw : base.toNat + size.toNat < 2 ^ 64)
    (h : pa.toNat + n < 2 ^ 64) (hb : base ≤ pa) (he : pa + BitVec.ofNat 64 n ≤ base + size) :
    (pa - base).toNat + n ≤ size.toNat := by
  have hn : n < 2 ^ 64 := by omega
  rw [BitVec.le_def] at hb he
  rw [BitVec.toNat_add, BitVec.toNat_add, BitVec.toNat_ofNat, Nat.mod_eq_of_lt hn,
    Nat.mod_eq_of_lt h, Nat.mod_eq_of_lt hw] at he
  rw [BitVec.toNat_sub_of_le (by rwa [BitVec.le_def])]
  omega

/-- The checked resolver never leaves the buffer. -/
theorem mem_ramOffset_le (wf : l.WellFormed) (h : Mem.ramOffset l pa n = some off) :
    off.toNat + n ≤ l.ramSize.toNat := by
  simp only [Mem.ramOffset] at h
  split at h
  · cases h
  · rename_i hw
    split at h
    · rename_i hr
      cases h
      exact offset_add_le wf.ram_end (by omega) hr.1 hr.2
    · split at h
      · rename_i hs
        cases h
        have hle := offset_add_le wf.shadow_end (by omega) hs.2.1 hs.2.2
        have hsz := wf.shadow_le
        rw [BitVec.le_def] at hsz
        omega
      · cases h

/-- Past `2^64` the wrapping resolver answers exactly when the end wraps into a window. -/
theorem translate_ramOffset_isSome_of_wrap (h : 2 ^ 64 ≤ pa.toNat + n) :
    (Translate.ramOffset l pa n).isSome ↔
      WrapsInto l.ramBase l.ramSize pa n ∨
        (0#64 < l.shadowSize ∧ WrapsInto l.shadowBase l.shadowSize pa n) := by
  simp only [Translate.ramOffset, WrapsInto, h, true_and]
  split
  · rename_i hr; simp [hr]
  · rename_i hr
    split
    · rename_i hz
      split <;> simp_all
    · rename_i hz; simp [hr, hz]

end Resolvers

/-- The resolvers stay inside guest RAM and agree on `(pa, n)` exactly when the
end address does not wrap into one of the two windows. -/
theorem ram_resolvers_contained_iff (l : Layout) (wf : l.WellFormed) (pa : Word) (n : Nat) :
    l.Contained pa n ↔
      ¬ WrapsInto l.ramBase l.ramSize pa n ∧
        ¬ (0#64 < l.shadowSize ∧ WrapsInto l.shadowBase l.shadowSize pa n) := by
  by_cases h : pa.toNat + n < 2 ^ 64
  · have hno : ∀ base size, ¬ WrapsInto base size pa n := fun _ _ hw => absurd hw.1 (by omega)
    refine ⟨fun _ => ⟨hno _ _, fun hs => hno _ _ hs.2⟩, fun _ => ?_⟩
    have heq := translate_ramOffset_of_no_wrap (l := l) h
    refine ⟨fun off hoff => ?_, ?_, hartSched_ramOffset_eq l pa n⟩
    · rw [hartSched_ramOffset_eq, heq] at hoff
      exact mem_ramOffset_le wf (by simpa using hoff)
    · rw [hartSched_ramOffset_eq, heq]
  · have hw : 2 ^ 64 ≤ pa.toNat + n := by omega
    have hmem : Mem.ramOffset l pa n = none := if_pos hw
    rw [← not_or, ← translate_ramOffset_isSome_of_wrap hw]
    constructor
    · intro hc hsome
      have hne : Translate.ramOffset l pa n = none := by
        rw [← hc.2.2, ← hc.2.1, hmem]
      simp [hne] at hsome
    · intro hnone
      have hne : Translate.ramOffset l pa n = none := by simpa using hnone
      refine ⟨fun off hoff => ?_, ?_, hartSched_ramOffset_eq l pa n⟩
      · simp [hmem, hartSched_ramOffset_eq, hne] at hoff
      · rw [hmem, hartSched_ramOffset_eq, hne]

/-- The address `u64::MAX` of the regression test in `mem.rs`: both wrapping
resolvers accept it and hand out an offset far outside the sixteen bytes. -/
theorem ram_resolvers_not_contained_at_max :
    ¬ (⟨0x80000000, 16, 0, 0⟩ : Layout).Contained (BitVec.allOnes 64) 8 := by
  intro h
  have hm : Mem.ramOffset ⟨0x80000000, 16, 0, 0⟩ (BitVec.allOnes 64) 8 = none := by decide
  have hh : HartSched.ramOffset ⟨0x80000000, 16, 0, 0⟩ (BitVec.allOnes 64) 8 =
      some 0xFFFFFFFF7FFFFFFF := by decide
  have := h.2.1
  rw [hm, hh] at this
  cases this

theorem ram_resolvers_contained_in_test_layout :
    (⟨0x80000000, 16, 0, 0⟩ : Layout).Contained 0x80000004 4 :=
  (ram_resolvers_contained_iff _ ⟨by decide, by decide, by decide⟩ _ 4).mpr (by decide)

/-! ## Reservations -/

/-- Record the reservation of hart `hid`. -/
def lrSet (c : WalkCtx) (hid : Nat) (pa : Word) : WalkCtx :=
  { c with lrReserved := c.lrReserved.map fun r => Function.update r hid pa }

/-- Does hart `hid` still hold the reservation of `pa`? -/
def lrCheck (c : WalkCtx) (hid : Nat) (pa : Word) : Bool :=
  match c.lrReserved with
  | none => false
  | some r => pa != 0#64 && r hid == pa

/-- Drop the reservations of all harts. -/
def lrClearAll (c : WalkCtx) : WalkCtx :=
  { c with lrReserved := c.lrReserved.map fun r i => if i < c.numHarts then 0 else r i }

@[simp] theorem lrSet_ram (c : WalkCtx) (hid : Nat) (pa : Word) : (lrSet c hid pa).ram = c.ram :=
  rfl
@[simp] theorem lrSet_toLayout (c : WalkCtx) (hid : Nat) (pa : Word) :
    (lrSet c hid pa).toLayout = c.toLayout := rfl
@[simp] theorem lrClearAll_ram (c : WalkCtx) : (lrClearAll c).ram = c.ram := rfl
@[simp] theorem lrClearAll_toLayout (c : WalkCtx) : (lrClearAll c).toLayout = c.toLayout := rfl
@[simp] theorem lrClearAll_tlbFlushCnt (c : WalkCtx) :
    (lrClearAll c).tlbFlushCnt = c.tlbFlushCnt := rfl
@[simp] theorem lrClearAll_numHarts (c : WalkCtx) : (lrClearAll c).numHarts = c.numHarts := rfl

@[simp] theorem lrClearAll_lrClearAll (c : WalkCtx) : lrClearAll (lrClearAll c) = lrClearAll c := by
  simp only [lrClearAll, Option.map_map]
  congr 2
  funext r i
  simp only [Function.comp]
  split <;> rfl

/-! ## Accesses -/

/-- Sizes other than 1, 2, 4 and 8 read as zero. -/
def loadSized (m : Mem) (off size : Nat) : Word :=
  if size = 1 ∨ size = 2 ∨ size = 4 ∨ size = 8 then readLe m off size else 0

/-- Sizes other than 1, 2, 4 and 8 store nothing. -/
def storeSized (m : Mem) (off size : Nat) (v : Word) : Mem :=
  if size = 1 ∨ size = 2 ∨ size = 4 ∨ size = 8 then writeLe m off size v else m

/-- `translate::ram_read`, over the checked resolver. -/
def ramRead (c : WalkCtx) (pa : Word) (size : Nat) : Word :=
  match Mem.ramOffset c.toLayout pa size with
  | none => 0
  | some off => loadSized c.ram off.toNat size

/-- `translate::ram_write`, over the checked resolver. Reservations go first. -/
def ramWrite (c : WalkCtx) (pa v : Word) (size : Nat) : WalkCtx × Bool :=
  match Mem.ramOffset c.toLayout pa size with
  | none => (c, false)
  | some off =>
    ({ lrClearAll c with ram := storeSized c.ram off.toNat size v },
      decide (size = 1 ∨ size = 2 ∨ size = 4 ∨ size = 8))

/-- `hart_sched::ram_read_raw`, over the wrapping resolver. -/
def ramReadRaw (c : WalkCtx) (pa : Word) (size : Nat) : Word :=
  match HartSched.ramOffset c.toLayout pa size with
  | none => 0
  | some off => loadSized c.ram off.toNat size

/-- `hart_sched::ram_write_raw`, over the wrapping resolver. -/
def ramWriteRaw (c : WalkCtx) (pa v : Word) (size : Nat) : WalkCtx :=
  match HartSched.ramOffset c.toLayout pa size with
  | none => c
  | some off => { lrClearAll c with ram := storeSized c.ram off.toNat size v }

/-- `fetch_instr`: four bytes at the wrapped distance from the RAM base. -/
def fetchInstr (c : WalkCtx) (pa : Word) : Option (BitVec 32) :=
  let offset := pa - c.ramBase
  if BitVec.ofNat 64 (c.ramSize.toNat - 4) < offset then none
  else some ((readLe c.ram offset.toNat 4).setWidth 32)

@[simp] theorem ramWriteRaw_toLayout (c : WalkCtx) (pa v : Word) (size : Nat) :
    (ramWriteRaw c pa v size).toLayout = c.toLayout := by
  simp only [ramWriteRaw]; split <;> rfl
@[simp] theorem ramWriteRaw_tlbFlushCnt (c : WalkCtx) (pa v : Word) (size : Nat) :
    (ramWriteRaw c pa v size).tlbFlushCnt = c.tlbFlushCnt := by
  simp only [ramWriteRaw]; split <;> rfl

end Pyremu
