import Pyremu.CompressedMem
import Pyremu.PageHit

/-!
# An access as its bytes

Every byte of a load or store is translated, checked and transferred on its
own, lowest address first. A byte that fails leaves what its translation did
and no trap, so that the bytes behind it have an outcome too.
-/

namespace Pyremu

/-! ## One byte -/

/-- What a byte of an access meets. -/
inductive ByteOutcome where
  | fault (f : TranslateFault)
  | device
  | denied
  | outside
  | done (pa : Word)
  deriving DecidableEq, Repr

def ByteOutcome.isDone : ByteOutcome → Bool
  | done _ => true
  | _ => false

instance OutsideDevices.decidable (cfg : Features) (w : World) (pa : Word) :
    Decidable (OutsideDevices cfg w pa) :=
  decidable_of_iff (isDeviceAddr pa w.dev = false ∧
      (w.clint.base = 0 ∨ 0xC000 ≤ (pa - w.clint.base).toNat) ∧
      (w.uart.base = 0 ∨ 0x100 ≤ (pa - w.uart.base).toNat) ∧
      (w.dev.virtioBase = 0 ∨ 0x200 ≤ (pa - w.dev.virtioBase).toNat) ∧
      (∀ p ∈ w.dev.plic, p.base = 0 ∨ 0x200000 + p.numContexts * 0x1000 ≤ (pa - p.base).toNat) ∧
      (cfg.aia = false ∨ decodeImsicAddr cfg pa w.clint.numHarts = none))
    ⟨fun ⟨h1, h2, h3, h4, h5, h6⟩ => ⟨h1, h2, h3, h4, h5, h6⟩,
      fun ⟨h1, h2, h3, h4, h5, h6⟩ => ⟨h1, h2, h3, h4, h5, h6⟩⟩

/-- PMP allows the `n` bytes from `pa` as one access, and RAM holds them. -/
def RangeGranted (w : World) (pa : Word) (n : Nat) (rwx : Rwx) : Prop :=
  pmpOk w.hart pa n (hasWrite rwx) false w.pmp = true ∧
    (HartSched.ramOffset w.mem.toLayout pa n).isSome = true

instance (w : World) (pa : Word) (n : Nat) (rwx : Rwx) : Decidable (RangeGranted w pa n rwx) :=
  inferInstanceAs (Decidable (_ ∧ _))

/-- The byte at the physical address `pa`. -/
def judgeByte (cfg : Features) (w : World) (pa : Word) (rwx : Rwx) : ByteOutcome :=
  if ¬ OutsideDevices cfg w pa then .device
  else if pmpOk w.hart pa 1 (hasWrite rwx) false w.pmp = false then .denied
  else if (HartSched.ramOffset w.mem.toLayout pa 1).isSome then .done pa
  else .outside

def byteAccess (cfg : Features) (w : World) (va : Word) (rwx : Rwx) : World × ByteOutcome :=
  match w.translate cfg va rwx with
  | (w, .error f) => (w, .fault f)
  | (w, .ok t) => (w, judgeByte cfg w t.pa rwx)

def ByteOutcome.read (c : WalkCtx) : ByteOutcome → Word
  | done pa => ramReadRaw c pa 1
  | _ => 0

def ByteOutcome.write (c : WalkCtx) (v : Word) : ByteOutcome → WalkCtx
  | done pa => ramWriteRaw c pa (v &&& 0xFF) 1
  | _ => c

/-! ## One byte after the other -/

/-- The first `n` bytes from `va`: the world after them, their outcomes, and what they read. `eff k`
is what byte `k` does to RAM. -/
def byteSeq (cfg : Features) (rwx : Rwx) (eff : Nat → ByteOutcome → WalkCtx → WalkCtx) (w : World)
    (va : Word) : Nat → World × List ByteOutcome × Word
  | 0 => (w, [], 0)
  | n + 1 =>
    let r := byteSeq cfg rwx eff w va n
    let b := byteAccess cfg r.1 (va + BitVec.ofNat 64 n) rwx
    ({ b.1 with mem := eff n b.2 b.1.mem }, r.2.1 ++ [b.2], r.2.2 ||| (b.2.read b.1.mem <<< (8 * n)))

def loadEffect : Nat → ByteOutcome → WalkCtx → WalkCtx := fun _ _ c => c

def storeEffect (v : Word) : Nat → ByteOutcome → WalkCtx → WalkCtx :=
  fun k o c => o.write c (v >>> (8 * k))

/-- Single-byte loads at `va` to `va + n - 1`. -/
def loadBytes (cfg : Features) (w : World) (va : Word) (n : Nat) : World × List ByteOutcome × Word :=
  byteSeq cfg .read loadEffect w va n

/-- Single-byte stores of the bytes of `v` at `va` to `va + n - 1`. -/
def storeBytes (cfg : Features) (w : World) (va v : Word) (n : Nat) : World × List ByteOutcome × Word :=
  byteSeq cfg .write (storeEffect v) w va n

section Bytes

variable {cfg : Features} {w w' : World} {rwx : Rwx} {va pa : Word} {o : ByteOutcome}

theorem judgeByte_isDone :
    (judgeByte cfg w pa rwx).isDone = true ↔ OutsideDevices cfg w pa ∧ RangeGranted w pa 1 rwx := by
  rw [judgeByte, RangeGranted]
  by_cases hd : OutsideDevices cfg w pa
  · rw [if_neg (not_not.mpr hd)]
    cases hp : pmpOk w.hart pa 1 (hasWrite rwx) false w.pmp
    · simp [ByteOutcome.isDone]
    · cases hr : (HartSched.ramOffset w.mem.toLayout pa 1).isSome <;>
        simp [ByteOutcome.isDone, hd]
  · rw [if_pos hd]
    simp [ByteOutcome.isDone, hd]

theorem judgeByte_done (h : (judgeByte cfg w pa rwx).isDone = true) : judgeByte cfg w pa rwx = .done pa := by
  obtain ⟨hd, hp, hr⟩ := judgeByte_isDone.mp h
  rw [judgeByte, if_neg (not_not.mpr hd), if_neg (by rw [hp]; decide), if_pos hr]

theorem judgeByte_device : judgeByte cfg w pa rwx ≠ .device ↔ OutsideDevices cfg w pa := by
  rw [judgeByte]
  by_cases hd : OutsideDevices cfg w pa
  · rw [if_neg (not_not.mpr hd)]
    refine iff_of_true ?_ hd
    split_ifs <;> exact ByteOutcome.noConfusion
  · rw [if_pos hd]
    exact iff_of_false (fun h => h rfl) hd

theorem byteSeq_succ (eff : Nat → ByteOutcome → WalkCtx → WalkCtx) (w : World) (va : Word) (n : Nat) :
    byteSeq cfg rwx eff w va (n + 1) =
      let r := byteSeq cfg rwx eff w va n
      let b := byteAccess cfg r.1 (va + BitVec.ofNat 64 n) rwx
      ({ b.1 with mem := eff n b.2 b.1.mem }, r.2.1 ++ [b.2],
        r.2.2 ||| (b.2.read b.1.mem <<< (8 * n))) := rfl

/-- The outcomes of the first bytes come first. -/
theorem byteSeq_mem_of_le (eff : Nat → ByteOutcome → WalkCtx → WalkCtx) {m n : Nat} (h : m ≤ n)
    (ho : o ∈ (byteSeq cfg rwx eff w va m).2.1) : o ∈ (byteSeq cfg rwx eff w va n).2.1 := by
  induction h with
  | refl => exact ho
  | step _ ih => exact List.mem_append_left _ ih

/-- Two runs of bytes, one after the other. -/
theorem byteSeq_add (eff : Nat → ByteOutcome → WalkCtx → WalkCtx) (w : World) (va : Word) (m n : Nat) :
    byteSeq cfg rwx eff w va (m + n) =
      let r := byteSeq cfg rwx eff w va m
      let q := byteSeq cfg rwx (fun k => eff (m + k)) r.1 (va + BitVec.ofNat 64 m) n
      (q.1, r.2.1 ++ q.2.1, r.2.2 ||| (q.2.2 <<< (8 * m))) := by
  induction n with
  | zero => simp [byteSeq]
  | succ n ih =>
    have haddr : va + BitVec.ofNat 64 (m + n) = va + BitVec.ofNat 64 m + BitVec.ofNat 64 n := by
      rw [BitVec.ofNat_add, BitVec.add_assoc]
    rw [← Nat.add_assoc, byteSeq_succ eff w va (m + n)]
    dsimp only
    rw [byteSeq_succ _ _ _ n, ih]
    dsimp only
    rw [haddr, List.append_assoc, BitVec.or_assoc, BitVec.shiftLeft_or_distrib, ← BitVec.shiftLeft_add,
      Nat.mul_add, Nat.add_comm (8 * m)]

end Bytes

end Pyremu
