import Pyremu.L2Coherent
import Pyremu.Lib.Run

/-!
# Main memory between CPU, devices and the engine

Accesses of the CPU go through the L2 cache, long writes of devices go to RAM
directly, and the engine changes RAM between `flush_l2` and `invalidate_l2`.
-/

namespace Pyremu

open L2Cache Splice

/-- `MainMem` with the cache of the bus; `noL2` is the switch `PYREMU_NO_L2`. -/
structure MainMem where
  noL2 : Bool
  l2 : L2Cache

/-- `newBytes` is what the engine leaves in RAM. -/
inductive MainMemOp where
  | read (addr size : Nat)
  | write (addr : Nat) (data : List Byte)
  | round (newBytes : Nat → Byte)

namespace MainMem

variable (m : MainMem)

/-- `_MAX_CPU_STORE`. -/
def maxCpuStore : Nat := 8

/-- `_bypass_l2`. -/
def bypassL2 (addr dataLen : Nat) : Bool :=
  (m.noL2 || decide (maxCpuStore < dataLen)) && m.l2.ram.isRamAddr addr

def read (addr size : Nat) : List Byte × MainMem :=
  if m.noL2 && m.l2.ram.isRamAddr addr then (m.l2.ram.read addr size, m)
  else
    let (data, l2) := m.l2.read addr size
    (data, { m with l2 := l2 })

/-- A write past the cache. -/
def writeDirect (addr : Nat) (data : List Byte) : MainMem :=
  { m with l2 := { m.l2 with ram := m.l2.ram.write addr data } }

def write (addr : Nat) (data : List Byte) : MainMem :=
  if m.bypassL2 addr data.length then m.writeDirect addr data
  else { m with l2 := m.l2.write addr data }

/-- `flush_l2`. -/
def flushL2 : MainMem := { m with l2 := m.l2.flushAll.1 }

/-- The RAM bytes change without the cache. -/
def modify (newBytes : Nat → Byte) : MainMem :=
  { m with l2 := { m.l2 with ram := { m.l2.ram with
      bytes := fun a =>
        if m.l2.ram.base ≤ a ∧ a < m.l2.ram.base + m.l2.ram.size then newBytes a else m.l2.ram.bytes a } } }

/-- `invalidate_l2`. -/
def invalidateL2 : MainMem := { m with l2 := m.l2.invalidateAll.1 }

def step : MainMemOp → MainMem
  | .read addr size => (m.read addr size).2
  | .write addr data => m.write addr data
  | .round newBytes => (m.flushL2.modify newBytes).invalidateL2

/-! ## The memory it stands for -/

/-- The most recent value of every byte. -/
def recent (flat : Nat → Byte) : MainMemOp → Nat → Byte
  | .read _ _ => flat
  | .write addr data => patch flat addr data
  | .round newBytes => fun a =>
    if m.l2.ram.base ≤ a ∧ a < m.l2.ram.base + m.l2.ram.size then newBytes a else flat a

/-- The memory and what its bytes should be. -/
abbrev Tracked := MainMem × (Nat → Byte)

def Tracked.step (t : Tracked) (op : MainMemOp) : Tracked := (t.1.step op, t.1.recent t.2 op)

/-- An access to addresses in RAM. -/
def Tracked.InWindow (t : Tracked) : MainMemOp → Prop
  | .read addr size => t.1.l2.ram.inRange addr (max size 1)
  | .write addr data => t.1.l2.ram.inRange addr (max data.length 1)
  | .round _ => True

/-- A read returns the recent bytes, and the engine starts from them. -/
def Tracked.Serves (t : Tracked) : MainMemOp → Prop
  | .read addr size => (t.1.read addr size).1 = slice t.2 addr size
  | .write _ _ => True
  | .round _ => t.1.flushL2.l2.ram.bytes = t.2

/-- No valid line holds another value of a byte that is written. -/
def Agrees (c : L2Cache) (addr : Nat) (data : List Byte) : Prop :=
  ∀ i < c.shape.numEntries, (c.entries i).valid = true → ∀ j < c.shape.lineSize,
    ∀ k, ∀ hk : k < data.length, (c.entries i).tag * c.shape.lineSize + j = addr + k →
      (c.entries i).data j = data[k]

/-- With the cache in use, lines that are accessed through it lie in RAM, and a long write meets no line
that holds something else. -/
def Tracked.Meets (t : Tracked) : MainMemOp → Prop
  | .read addr size => t.1.noL2 = false → InRam t.1.l2.shape t.1.l2.ram addr size
  | .write addr data =>
    t.1.noL2 = false →
      if maxCpuStore < data.length then Agrees t.1.l2 addr data
      else InRam t.1.l2.shape t.1.l2.ram addr data.length
  | .round _ => True

/-- The cache stands for the recent bytes, and is empty when it is not used. -/
structure Tracked.Inv (t : Tracked) : Prop where
  coherent : Coherent t.1.l2 t.2
  unused : t.1.noL2 = true → ∀ i < t.1.l2.shape.numEntries, (t.1.l2.entries i).valid = false

section Steps

variable {m : MainMem} {c : L2Cache} {flat : Nat → Byte} {addr size : Nat} {data : List Byte} {t : Tracked}

theorem isRamAddr_of_inRange {r : DirectRam} (h : r.inRange addr (max size 1)) : r.isRamAddr addr = true := by
  rw [DirectRam.isRamAddr, Bool.or_eq_true, decide_eq_true_eq]
  obtain ⟨hlo, hhi⟩ := h
  exact .inl ⟨hlo, by omega⟩

theorem inRange_of_max {r : DirectRam} (h : r.inRange addr (max size 1)) : r.inRange addr size := by
  obtain ⟨hlo, hhi⟩ := h
  exact ⟨hlo, by omega⟩

theorem read_cached (hno : m.noL2 = false) (addr size : Nat) :
    m.read addr size = ((m.l2.read addr size).1, { m with l2 := (m.l2.read addr size).2 }) :=
  if_neg (by simp [hno])

theorem read_direct (hno : m.noL2 = true) (hram : m.l2.ram.isRamAddr addr = true) (size : Nat) :
    m.read addr size = (m.l2.ram.read addr size, m) :=
  if_pos (by simp [hno, hram])

theorem write_cached (hno : m.noL2 = false) (hshort : ¬ maxCpuStore < data.length) :
    m.write addr data = { m with l2 := m.l2.write addr data } :=
  if_neg (by simp [bypassL2, hno, hshort])

theorem write_direct (h : m.noL2 = true ∨ maxCpuStore < data.length) (hram : m.l2.ram.isRamAddr addr = true) :
    m.write addr data = m.writeDirect addr data :=
  if_pos (by rcases h with h | h <;> simp [bypassL2, h, hram])

/-- What a read within one line of a valid entry returns. -/
theorem read_of_hit {w : Nat} (hone : c.shape.offsetOf addr + size ≤ c.shape.lineSize)
    (hhit : c.hit (c.shape.setOf (c.shape.tagOf addr)) (c.shape.tagOf addr) = some w) :
    (c.read addr size).1 =
      slice (c.entries (c.shape.setOf (c.shape.tagOf addr) * c.shape.ways + w)).data (c.shape.offsetOf addr) size := by
  have hchunk : (L2Cache.readChunk { c with clock := c.clock + 1 } addr size).1 =
      slice (c.entries (c.shape.setOf (c.shape.tagOf addr) * c.shape.ways + w)).data (c.shape.offsetOf addr) size := by
    have hhit' : L2Cache.hit { c with clock := c.clock + 1 } (c.shape.setOf (c.shape.tagOf addr))
        (c.shape.tagOf addr) = some w := hhit
    rw [L2Cache.readChunk]
    simp only [hhit']
  have hread : c.read addr size = L2Cache.readChunk { c with clock := c.clock + 1 } addr size := if_pos hone
  rw [hread, hchunk]

/-- A write past the cache that agrees with the lines is a write of the flat memory. -/
theorem coherent_writeDirect (h : Coherent c flat) (hin : c.ram.inRange addr data.length) (ha : Agrees c addr data) :
    Coherent { c with ram := c.ram.write addr data } (patch flat addr data) := by
  have hbytes : (c.ram.write addr data).bytes = patch c.ram.bytes addr data := by
    rw [DirectRam.write_inRange hin]
  have hbase : (c.ram.write addr data).base = c.ram.base := by
    rw [DirectRam.write_inRange hin]
  have hsize : (c.ram.write addr data).size = c.ram.size := by
    rw [DirectRam.write_inRange hin]
  -- a byte of a valid line is as before or is written with the value the line holds
  have hcell : ∀ i < c.shape.numEntries, (c.entries i).valid = true → ∀ j < c.shape.lineSize, ∀ d : Nat → Byte,
      d ((c.entries i).tag * c.shape.lineSize + j) = (c.entries i).data j →
      patch d addr data ((c.entries i).tag * c.shape.lineSize + j) = (c.entries i).data j := by
    intro i hi hv j hj d hd
    by_cases hlt : (c.entries i).tag * c.shape.lineSize + j < addr
    · rw [patch_of_lt hlt, hd]
    · by_cases hge : addr + data.length ≤ (c.entries i).tag * c.shape.lineSize + j
      · rw [patch_of_ge hge, hd]
      · obtain ⟨k, hk⟩ := Nat.exists_eq_add_of_le (Nat.le_of_not_lt hlt)
        have hklt : k < data.length := by omega
        rw [hk, patch_of_mem hklt]
        exact (ha i hi hv j hj k hklt hk).symm
  constructor
  · exact h.home
  · exact h.index
  · intro i hi hv
    have hold := h.inRam i hi hv
    rw [DirectRam.inRange] at hold ⊢
    change (c.ram.write addr data).base ≤ _ ∧ _ ≤ (c.ram.write addr data).base + (c.ram.write addr data).size
    rw [hbase, hsize]
    exact hold
  · intro i hi hv j hj
    exact (hcell i hi hv j hj flat (h.line i hi hv j hj).symm).symm
  · intro i hi hv hm j hj
    have hline := h.line i hi hv j hj
    change (c.ram.write addr data).bytes ((c.entries i).tag * c.shape.lineSize + j) = _
    rw [hbytes, hcell i hi hv j hj c.ram.bytes ((h.clean i hi hv hm j hj).trans hline.symm)]
    exact (hcell i hi hv j hj flat hline.symm).symm
  · intro a ha'
    have hold := h.uncached a ha'
    change (c.ram.write addr data).bytes a = _
    rw [hbytes, patch, patch, hold]

/-- A round of the engine: flush, arbitrary changes of RAM, invalidate. -/
theorem coherent_round (h : Coherent m.l2 flat) (newBytes : Nat → Byte) :
    Coherent (m.step (.round newBytes)).l2 (m.recent flat (.round newBytes)) ∧
      ∀ i < (m.step (.round newBytes)).l2.shape.numEntries,
        ((m.step (.round newBytes)).l2.entries i).valid = false := by
  obtain ⟨hcoh, hframe, hram⟩ := h.flushAll
  have hindex : ∀ i < (m.flushL2.modify newBytes).l2.shape.numEntries,
      ((m.flushL2.modify newBytes).l2.entries i).valid = true →
      (m.flushL2.modify newBytes).l2.tagToIdx.lookup ((m.flushL2.modify newBytes).l2.entries i).tag = some i :=
    fun i hi hv => (hcoh.index _ i).mpr ⟨hi, hv, rfl⟩
  have hbytes : (m.flushL2.modify newBytes).l2.ram.bytes = m.recent flat (.round newBytes) := by
    funext a
    change (if m.l2.flushAll.1.ram.base ≤ a ∧ a < m.l2.flushAll.1.ram.base + m.l2.flushAll.1.ram.size then newBytes a
      else m.l2.flushAll.1.ram.bytes a) = _
    rw [hframe.base, hframe.size, hram]
    rfl
  obtain ⟨hdone, hframe'⟩ := Coherent.invalidateAll hindex hbytes
  refine ⟨hdone, ?_⟩
  intro i hi
  rw [show (m.step (.round newBytes)).l2.shape = (m.flushL2.modify newBytes).l2.shape from hframe'.shape] at hi
  exact Bool.eq_false_of_not_eq_true (invalidateAll_empty hindex i hi)

/-- Without the cache every line is somewhere else. -/
theorem agrees_of_unused (h : ∀ i < c.shape.numEntries, (c.entries i).valid = false) : Agrees c addr data := by
  intro i hi hv
  rw [h i hi] at hv
  cases hv

theorem Tracked.Inv.step (h : t.Inv) {op : MainMemOp} (hin : t.InWindow op) (hmeets : t.Meets op) :
    (t.step op).Inv ∧ t.Serves op := by
  cases op with
  | read addr size =>
    have hram := isRamAddr_of_inRange hin
    by_cases hno : t.1.noL2 = true
    · have hread := read_direct hno hram size
      have hstep : t.step (.read addr size) = t := by
        rw [Tracked.step, MainMem.step, hread]
        rfl
      rw [hstep]
      refine ⟨h, ?_⟩
      rw [Tracked.Serves, hread, DirectRam.read_inRange (inRange_of_max hin)]
      apply slice_congr
      intro j _
      apply h.coherent.uncached
      intro i hi hv
      rw [h.unused hno i hi] at hv
      cases hv
    · have hno := Bool.eq_false_of_not_eq_true hno
      obtain ⟨hval, hcoh, hframe⟩ := h.coherent.read (hmeets hno)
      have hread := read_cached hno addr size
      constructor
      · have hstep : t.step (.read addr size) = ({ t.1 with l2 := (t.1.l2.read addr size).2 }, t.2) := by
          rw [Tracked.step, MainMem.step, hread]
          rfl
        rw [hstep]
        refine ⟨hcoh, fun hyes => ?_⟩
        rw [show t.1.noL2 = false from hno] at hyes
        cases hyes
      · rw [Tracked.Serves, hread]
        exact hval
  | write addr data =>
    refine ⟨?_, trivial⟩
    have hram := isRamAddr_of_inRange hin
    by_cases hno : t.1.noL2 = true
    · have hstep : t.step (.write addr data) = (t.1.writeDirect addr data, patch t.2 addr data) := by
        rw [Tracked.step, MainMem.step, write_direct (.inl hno) hram]
        rfl
      rw [hstep]
      exact ⟨coherent_writeDirect h.coherent (inRange_of_max hin) (agrees_of_unused (h.unused hno)), h.unused⟩
    · have hno := Bool.eq_false_of_not_eq_true hno
      have hcond := hmeets hno
      by_cases hlong : maxCpuStore < data.length
      · rw [if_pos hlong] at hcond
        have hstep : t.step (.write addr data) = (t.1.writeDirect addr data, patch t.2 addr data) := by
          rw [Tracked.step, MainMem.step, write_direct (.inr hlong) hram]
          rfl
        rw [hstep]
        exact ⟨coherent_writeDirect h.coherent (inRange_of_max hin) hcond, h.unused⟩
      · rw [if_neg hlong] at hcond
        have hstep : t.step (.write addr data) =
            ({ t.1 with l2 := t.1.l2.write addr data }, patch t.2 addr data) := by
          rw [Tracked.step, MainMem.step, write_cached hno hlong]
          rfl
        rw [hstep]
        refine ⟨(h.coherent.write hcond).1, fun hyes => ?_⟩
        rw [show t.1.noL2 = false from hno] at hyes
        cases hyes
  | round newBytes =>
    obtain ⟨hcoh, hempty⟩ := coherent_round h.coherent newBytes
    exact ⟨⟨hcoh, fun _ => hempty⟩, h.coherent.flushAll.2.2⟩

theorem inv_init (shape : L2Shape) (ram : DirectRam) (noL2 : Bool) :
    Tracked.Inv (⟨noL2, .init shape ram⟩, ram.bytes) := ⟨coherent_init shape ram, fun _ _ _ => rfl⟩

/-- A long write over a line that holds another byte is not seen by the next read of that byte. -/
theorem Tracked.Inv.stale (h : t.Inv) (hno : t.1.noL2 = false) (hin : t.InWindow (.write addr data))
    (hlong : maxCpuStore < data.length) (hne : ¬ Agrees t.1.l2 addr data) :
    ∃ a, addr ≤ a ∧ a < addr + data.length ∧ ¬ (t.step (.write addr data)).Serves (.read a 1) := by
  rw [Agrees] at hne
  push Not at hne
  obtain ⟨i, hi, hv, j, hj, k, hk, heq, hdiff⟩ := hne
  have hram := isRamAddr_of_inRange hin
  have hstep : t.step (.write addr data) = (t.1.writeDirect addr data, patch t.2 addr data) := by
    rw [Tracked.step, MainMem.step, write_direct (.inr hlong) hram]
    rfl
  refine ⟨addr + k, by omega, by omega, ?_⟩
  rw [hstep]
  intro hserves
  -- the byte is found in the line, which the write has passed by
  have htag : t.1.l2.shape.tagOf (addr + k) = (t.1.l2.entries i).tag := by
    rw [L2Shape.tagOf_eq, ← heq, div_line _ hj]
  have hoff : t.1.l2.shape.offsetOf (addr + k) = j := by
    rw [L2Shape.offsetOf_eq, ← heq, Nat.mul_comm, Nat.mul_add_mod, Nat.mod_eq_of_lt hj]
  have hone : t.1.l2.shape.offsetOf (addr + k) + 1 ≤ t.1.l2.shape.lineSize := by
    rw [hoff]
    exact hj
  have hread : ((t.1.writeDirect addr data).l2.read (addr + k) 1).1 = [(t.1.l2.entries i).data j] := by
    cases hhit : t.1.l2.hit (t.1.l2.shape.setOf (t.1.l2.shape.tagOf (addr + k))) (t.1.l2.shape.tagOf (addr + k)) with
    | none => exact absurd htag.symm (h.coherent.hit_none hhit i hi hv)
    | some w =>
      obtain ⟨hway, hvw, htw⟩ := hit_some hhit
      have hsame := h.coherent.unique
        (entry_lt t.1.l2.shape (t.1.l2.shape.setOf_lt (t.1.l2.shape.tagOf (addr + k))) hway) hi hvw hv
        (htw.trans htag)
      have hhit' : (t.1.writeDirect addr data).l2.hit (t.1.l2.shape.setOf (t.1.l2.shape.tagOf (addr + k)))
          (t.1.l2.shape.tagOf (addr + k)) = some w := hhit
      apply (read_of_hit (c := (t.1.writeDirect addr data).l2) hone hhit').trans
      change slice (t.1.l2.entries (t.1.l2.shape.setOf (t.1.l2.shape.tagOf (addr + k)) * t.1.l2.shape.ways + w)).data
        (t.1.l2.shape.offsetOf (addr + k)) 1 = _
      rw [hsame, hoff]
      rfl
  have hpatch : slice (patch t.2 addr data) (addr + k) 1 = [data[k]] := by
    change [patch t.2 addr data (addr + k + 0)] = _
    rw [Nat.add_zero, patch_of_mem hk]
  have hno' : (t.1.writeDirect addr data).noL2 = false := hno
  rw [Tracked.Serves, read_cached hno', hpatch, hread] at hserves
  exact hdiff (List.cons.inj hserves).1

/-- Runs in RAM whose short accesses stay in lines of the window and whose long writes agree with the
lines that are cached serve every read and every round; a long write that disagrees is missed by the
next read of some byte of it. -/
theorem main_mem_coherent (shape : L2Shape) (ram : DirectRam) (noL2 : Bool) (ops : List MainMemOp)
    (hin : Run.Along Tracked.step Tracked.InWindow (⟨noL2, .init shape ram⟩, ram.bytes) ops)
    (hmeets : Run.Along Tracked.step Tracked.Meets (⟨noL2, .init shape ram⟩, ram.bytes) ops) :
    Run.Along Tracked.step Tracked.Serves (⟨noL2, .init shape ram⟩, ram.bytes) ops ∧
      ∀ addr data,
        let t := ops.foldl Tracked.step (⟨noL2, .init shape ram⟩, ram.bytes)
        t.1.noL2 = false → t.InWindow (.write addr data) → maxCpuStore < data.length →
        ¬ t.Meets (.write addr data) →
        ∃ a, addr ≤ a ∧ a < addr + data.length ∧ ¬ (t.step (.write addr data)).Serves (.read a 1) := by
  have hinit := inv_init shape ram noL2
  have hboth := hin.and hmeets
  constructor
  · exact Run.along_of_promised (fun t op h hop => (h.step hop.1 hop.2).1)
      (fun t op h hop => (h.step hop.1 hop.2).2) hinit hboth
  · intro addr data t hno hwin hlong hnot
    have hinv : t.Inv := Run.Always.last
      (Run.always_of_invariant (fun t op h hop => (h.step hop.1 hop.2).1) (fun _ h => h) hinit hboth)
    apply hinv.stale hno hwin hlong
    intro hagrees
    apply hnot
    intro _
    rw [if_pos hlong]
    exact hagrees

/-- A device write to a cold cache, then short accesses. -/
def coldWrite : List MainMemOp := [.write 0 (List.replicate 9 1), .read 4 2, .write 1 [5]]

theorem main_mem_coherent_cold :
    Run.Along Tracked.step Tracked.Serves (⟨false, .init tinyShape ⟨0, 16, 0, 0, fun _ => 0⟩⟩, fun _ => 0) coldWrite := by
  apply (main_mem_coherent tinyShape ⟨0, 16, 0, 0, fun _ => 0⟩ false coldWrite _ _).1
  · refine ⟨?_, ?_, ?_, trivial⟩
    all_goals
      rw [Tracked.InWindow]
      decide
  · refine ⟨fun _ => ?_, fun _ => ?_, fun _ => ?_, trivial⟩
    · rw [if_pos (by decide)]
      exact agrees_of_unused fun _ _ => rfl
    · intro a ha hlt
      obtain rfl | rfl : a = 4 ∨ a = 5 := by omega
      · decide
      · decide
    · rw [if_neg (by decide)]
      intro a ha hlt
      simp only [List.length_cons, List.length_nil] at hlt
      obtain rfl : a = 1 := by omega
      decide

/-- The default geometry: lines of 64 bytes, 1024 sets of four ways, in front of 128 MiB. -/
def defaultShape : L2Shape := ⟨6, 10, 4, by decide⟩

def defaultStart : Tracked :=
  (⟨false, .init defaultShape ⟨0x80000000, 0x8000000, 0, 0, fun _ => 0⟩⟩, fun _ => 0)

/-- A device write over a line that a short access has cached: the CPU reads the old byte, and a line
that is dirty overwrites the new bytes when the next round begins. -/
theorem device_write_lost :
    ¬ ([MainMemOp.read 0x80000000 1, .write 0x80000000 (List.replicate 16 1)].foldl Tracked.step
        defaultStart).Serves (.read 0x80000000 1) ∧
      ∀ newBytes, ¬ ([MainMemOp.write 0x80000000 [1], .write 0x80000000 (List.replicate 16 2)].foldl Tracked.step
        defaultStart).Serves (.round newBytes) := by
  constructor
  · intro h
    revert h
    rw [Tracked.Serves]
    decide +kernel
  · intro newBytes h
    have hbyte := congrFun h 0x80000000
    revert hbyte
    decide +kernel

end Steps

end MainMem

end Pyremu
