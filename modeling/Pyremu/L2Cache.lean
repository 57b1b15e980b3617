import Pyremu.Lib.Splice
import Mathlib.Data.BitVec
import Mathlib.Data.List.AList
import Mathlib.Data.Nat.Bitwise
import Mathlib.Logic.Function.Basic

/-!
# The shared L2 cache

A set-associative write-back cache in front of the RAM window. Lines, their MESI
state and the index from tags to entries are kept by each operation on its own.
-/

namespace Pyremu

abbrev Byte := BitVec 8

/-! ## The RAM behind it -/

/-- `DirectRam`: bytes by physical address within `[base, base + size)`. The link window of a PIE
image, empty if `linkSize` is zero, names the first bytes once more. -/
structure DirectRam where
  base : Nat
  size : Nat
  linkBase : Nat
  linkSize : Nat
  bytes : Nat → Byte

namespace DirectRam

/-- `_addr_in_range` for the RAM window. -/
def inRange (r : DirectRam) (addr size : Nat) : Prop := r.base ≤ addr ∧ addr + size ≤ r.base + r.size

instance (r : DirectRam) (addr size : Nat) : Decidable (r.inRange addr size) :=
  inferInstanceAs (Decidable (_ ∧ _))

/-- `_ram_offset`, as an address of the RAM window. -/
def resolve (r : DirectRam) (addr size : Nat) : Option Nat :=
  if r.inRange addr size then some addr
  else if r.linkSize ≠ 0 ∧ r.linkBase ≤ addr ∧ addr + size ≤ r.linkBase + r.linkSize then
    some (r.base + (addr - r.linkBase))
  else none

/-- Reads outside the windows are zero. -/
def read (r : DirectRam) (addr size : Nat) : List Byte :=
  match r.resolve addr size with
  | some a => Splice.slice r.bytes a size
  | none => List.replicate size 0

/-- Writes outside the windows are dropped. -/
def write (r : DirectRam) (addr : Nat) (data : List Byte) : DirectRam :=
  match r.resolve addr data.length with
  | some a => { r with bytes := Splice.patch r.bytes a data }
  | none => r

/-- `is_ram_addr`. -/
def isRamAddr (r : DirectRam) (addr : Nat) : Bool :=
  decide (r.base ≤ addr ∧ addr < r.base + r.size) || (r.resolve addr 1).isSome

theorem read_inRange {r : DirectRam} {addr size : Nat} (h : r.inRange addr size) :
    r.read addr size = Splice.slice r.bytes addr size := by
  rw [read, resolve, if_pos h]

theorem write_inRange {r : DirectRam} {addr : Nat} {data : List Byte} (h : r.inRange addr data.length) :
    r.write addr data = { r with bytes := Splice.patch r.bytes addr data } := by
  rw [write, resolve, if_pos h]

end DirectRam

/-! ## The cache -/

inductive MESIState where
  | modified
  | exclusive
  | shared
  | invalid
  deriving DecidableEq, Repr

structure L2CacheLine where
  tag : Nat
  valid : Bool
  dirty : Bool
  lastAccess : Nat
  mdid : Nat
  mesi : MESIState
  data : Nat → Byte

/-- Line size and number of sets as powers of two. -/
structure L2Shape where
  lineShift : Nat
  setShift : Nat
  ways : Nat
  ways_pos : 0 < ways

structure L2Cache where
  shape : L2Shape
  entries : Nat → L2CacheLine
  tagToIdx : AList fun _ : Nat => Nat
  clock : Nat
  currentMdid : Nat
  ram : DirectRam

namespace L2Shape

variable (s : L2Shape)

def lineSize : Nat := 2 ^ s.lineShift
def numSets : Nat := 2 ^ s.setShift
def numEntries : Nat := s.numSets * s.ways

/-- The parts of `_addr_fields`. -/
def offsetOf (addr : Nat) : Nat := addr &&& (s.lineSize - 1)
def tagOf (addr : Nat) : Nat := addr >>> s.lineShift
def setOf (tag : Nat) : Nat := tag &&& (s.numSets - 1)

/-- `tag << _line_shift`. -/
def lineAddr (tag : Nat) : Nat := tag <<< s.lineShift

theorem lineSize_pos : 0 < s.lineSize := Nat.two_pow_pos _

theorem offsetOf_eq (addr : Nat) : s.offsetOf addr = addr % s.lineSize :=
  Nat.and_two_pow_sub_one_eq_mod addr s.lineShift

theorem tagOf_eq (addr : Nat) : s.tagOf addr = addr / s.lineSize := Nat.shiftRight_eq_div_pow addr s.lineShift

theorem lineAddr_eq (tag : Nat) : s.lineAddr tag = tag * s.lineSize := Nat.shiftLeft_eq tag s.lineShift

theorem setOf_eq (tag : Nat) : s.setOf tag = tag % s.numSets := Nat.and_two_pow_sub_one_eq_mod tag s.setShift

theorem setOf_lt (tag : Nat) : s.setOf tag < s.numSets := by
  rw [setOf_eq]
  exact Nat.mod_lt _ (Nat.two_pow_pos _)

theorem offsetOf_lt (addr : Nat) : s.offsetOf addr < s.lineSize := by
  rw [offsetOf_eq]
  exact Nat.mod_lt _ s.lineSize_pos

theorem lineAddr_add_offset (addr : Nat) : s.lineAddr (s.tagOf addr) + s.offsetOf addr = addr := by
  rw [lineAddr_eq, tagOf_eq, offsetOf_eq, Nat.mul_comm]
  exact Nat.div_add_mod addr s.lineSize

end L2Shape

namespace L2Cache

open Splice

/-- An empty cache. -/
def init (shape : L2Shape) (ram : DirectRam) : L2Cache where
  shape := shape
  entries := fun _ => ⟨0, false, false, 0, 0, .invalid, fun _ => 0⟩
  tagToIdx := ∅
  clock := 0
  currentMdid := 0
  ram := ram

variable (c : L2Cache)

/-- The way of a set that holds a tag. -/
def hit (set tag : Nat) : Option Nat :=
  (List.range c.shape.ways).find? fun i =>
    (c.entries (set * c.shape.ways + i)).valid && (c.entries (set * c.shape.ways + i)).tag == tag

/-- An entry that is used again. -/
def touch (idx : Nat) : L2Cache :=
  { c with
    entries := Function.update c.entries idx
      { c.entries idx with lastAccess := c.clock, mdid := c.currentMdid } }

/-- Least recently used, the first of several. -/
def older (set : Nat) (best : Nat × Nat) (i : Nat) : Nat × Nat :=
  let e := c.entries (set * c.shape.ways + i)
  if best.2 ≤ e.lastAccess then best else (i, e.lastAccess)

/-- `_pick_victim_in_set`. -/
def pickVictimInSet (set : Nat) : Nat :=
  match (List.range c.shape.ways).find? fun i => !(c.entries (set * c.shape.ways + i)).valid with
  | some i => i
  | none => ((List.range c.shape.ways).foldl (c.older set) (0, (c.entries (set * c.shape.ways)).lastAccess)).1

/-- RAM after an entry has been written back, if it is modified (`_on_evict`). -/
def onEvict (idx : Nat) : DirectRam :=
  let e := c.entries idx
  if e.mesi = .modified then c.ram.write (c.shape.lineAddr e.tag) (slice e.data 0 c.shape.lineSize) else c.ram

/-- The part that `_load_line_and_read` and `_write_allocate` share: the victim goes and the line of
`addr` takes its entry. -/
def allocate (addr set tag : Nat) : Nat × L2Cache :=
  let idx := set * c.shape.ways + c.pickVictimInSet set
  let victim := c.entries idx
  let ram := if victim.valid then c.onEvict idx else c.ram
  let lineData := ram.read (c.shape.lineAddr (c.shape.tagOf addr)) c.shape.lineSize
  let index := if victim.valid then c.tagToIdx.erase victim.tag else c.tagToIdx
  (idx,
    { c with
      ram := ram
      tagToIdx := index.insert tag (c.shape.setOf tag * c.shape.ways + c.pickVictimInSet set)
      entries := Function.update c.entries idx
        { tag := tag
          valid := true
          dirty := false
          lastAccess := c.clock
          mdid := c.currentMdid
          mesi := .exclusive
          data := fun j => lineData.getD j 0 } })

/-- `_load_line_and_read`. -/
def loadLineAndRead (addr size set tag offset : Nat) : List Byte × L2Cache :=
  let (idx, c') := c.allocate addr set tag
  (slice (c'.entries idx).data offset size, c')

/-- The new content of an entry that is written. -/
def put (idx offset : Nat) (data : List Byte) : L2Cache :=
  { c with
    entries := Function.update c.entries idx
      { c.entries idx with
        data := patch (c.entries idx).data offset data
        dirty := true
        mesi := .modified
        mdid := c.currentMdid
        lastAccess := c.clock } }

/-- `_write_allocate`. -/
def writeAllocate (addr : Nat) (data : List Byte) (set tag offset : Nat) : L2Cache :=
  let (idx, c') := c.allocate addr set tag
  c'.put idx offset data

/-- An access within one line. -/
def readChunk (addr size : Nat) : List Byte × L2Cache :=
  let tag := c.shape.tagOf addr
  let set := c.shape.setOf tag
  match c.hit set tag with
  | some i =>
    let idx := set * c.shape.ways + i
    (slice (c.entries idx).data (c.shape.offsetOf addr) size, c.touch idx)
  | none => c.loadLineAndRead addr size set tag (c.shape.offsetOf addr)

def writeChunk (addr : Nat) (data : List Byte) : L2Cache :=
  let tag := c.shape.tagOf addr
  let set := c.shape.setOf tag
  match c.hit set tag with
  | some i => c.put (set * c.shape.ways + i) (c.shape.offsetOf addr) data
  | none => c.writeAllocate addr data set tag (c.shape.offsetOf addr)

/-- The loop of `read` over the lines. -/
def readLines (c : L2Cache) (addr remaining : Nat) : List Byte × L2Cache :=
  if remaining = 0 then ([], c)
  else
    let chunkSz := min remaining (c.shape.lineSize - c.shape.offsetOf addr)
    let (chunk, c') := c.readChunk addr chunkSz
    let (rest, c'') := readLines c' (addr + chunkSz) (remaining - chunkSz)
    (chunk ++ rest, c'')
  termination_by remaining
  decreasing_by
    have := c.shape.offsetOf_lt addr
    omega

def read (addr size : Nat) : List Byte × L2Cache :=
  let c := { c with clock := c.clock + 1 }
  if c.shape.offsetOf addr + size ≤ c.shape.lineSize then c.readChunk addr size else c.readLines addr size

def writeLines (c : L2Cache) (addr : Nat) (remaining : List Byte) : L2Cache :=
  if remaining = [] then c
  else
    let chunkSz := min remaining.length (c.shape.lineSize - c.shape.offsetOf addr)
    writeLines (c.writeChunk addr (remaining.take chunkSz)) (addr + chunkSz) (remaining.drop chunkSz)
  termination_by remaining.length
  decreasing_by
    have := c.shape.offsetOf_lt addr
    have : 0 < remaining.length := List.length_pos_of_ne_nil (by assumption)
    rw [List.length_drop]
    omega

def write (addr : Nat) (data : List Byte) : L2Cache :=
  let c := { c with clock := c.clock + 1 }
  if c.shape.offsetOf addr + data.length ≤ c.shape.lineSize then c.writeChunk addr data
  else c.writeLines addr data

def invalidate (addr : Nat) : L2Cache :=
  let tag := c.shape.tagOf addr
  match c.tagToIdx.lookup tag with
  | none => c
  | some idx =>
    let e := c.entries idx
    let popped := { c with tagToIdx := c.tagToIdx.erase tag }
    if e.valid = false ∨ e.tag ≠ tag then popped
    else
      { popped with
        ram := c.onEvict idx
        entries := Function.update c.entries idx { e with valid := false, mesi := .invalid } }

/-- One round of `flush_all`, with the count of written lines. -/
def flushEntry (acc : L2Cache × Nat) (p : Sigma fun _ : Nat => Nat) : L2Cache × Nat :=
  let (c, count) := acc
  let e := c.entries p.2
  if e.mesi ≠ .modified then (c, count)
  else
    ({ c with
      ram := c.onEvict p.2
      entries := Function.update c.entries p.2 { e with mesi := .exclusive, dirty := false } }, count + 1)

def flushAll : L2Cache × Nat := c.tagToIdx.entries.foldl flushEntry (c, 0)

def dropEntry (acc : L2Cache × Nat) (p : Sigma fun _ : Nat => Nat) : L2Cache × Nat :=
  let (c, count) := acc
  ({ c with
    entries := Function.update c.entries p.2
      { c.entries p.2 with valid := false, mesi := .invalid, dirty := false } }, count + 1)

def invalidateAll : L2Cache × Nat :=
  let (c', count) := c.tagToIdx.entries.foldl dropEntry (c, 0)
  ({ c' with tagToIdx := ∅ }, count)

/-- One round of `flush_by_mdid`; the MESI state stays. -/
def flushMdidEntry (mdid : Nat) (acc : L2Cache × Nat) (idx : Nat) : L2Cache × Nat :=
  let (c, count) := acc
  let e := c.entries idx
  if ¬ (e.valid = true ∧ e.mdid = mdid) then (c, count)
  else
    ({ c with
      ram := c.onEvict idx
      tagToIdx := c.tagToIdx.erase e.tag
      entries := Function.update c.entries idx { e with valid := false, tag := 0, dirty := false } }, count + 1)

def flushByMdid (mdid : Nat) : L2Cache × Nat :=
  (List.range c.shape.numEntries).foldl (flushMdidEntry mdid) (c, 0)

end L2Cache

end Pyremu
