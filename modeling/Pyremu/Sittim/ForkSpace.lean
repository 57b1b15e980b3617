import Pyremu.Sittim.MemRuns

/-!
# Copying an address space

`fork_address_space` copies the lower half of the page tables of the running
process. Pages that belong to the process alone get a copy of their own, cut
from partitions that M mode hands over; the contents are moved through two
mappings that exist for that moment only. Instruction pages are filled while
their partition is still of the data class, which is changed afterwards.
-/

namespace Pyremu.Sittim

open Radix

/-- The lower half of a root table is user space. -/
def USER_ROOT_ENTRIES : Nat := 256

def FORK_SRC_VA_MEGA : Word := 0x3f00000000
def FORK_DST_VA_MEGA : Word := 0x3f20000000
def FORK_SRC_VA_PAGE : Word := 0x3fc0000000
def FORK_DST_VA_PAGE : Word := 0x3fc0001000

/-- The page tables with M mode, the contents of physical pages by number, and for each class the
partition that pages are being cut from, with the number of pages left in it. -/
structure ForkSys (α : Type) where
  sys : MemSys
  page : Nat → α
  chunkPa : MemAttr → Word
  chunkLeft : MemAttr → Word

/-- A user page that is not shared. -/
def Pte.isPrivate (pte : Word) : Bool := decide (pte &&& Pte.U ≠ 0) && decide (pte &&& PTE_RSW_SHARED = 0)

namespace ForkSys

variable {α : Type} (M : Manager) (s : ForkSys α)

def withSys {β : Type} (r : MemSys × β) : ForkSys α × β := ({ s with sys := r.1 }, r.2)

def withSpace (space : Space) : ForkSys α := { s with sys := { s.sys with space := space } }

/-! ## Pages to copy into -/

def setChunk (attr : MemAttr) (pa left : Word) : ForkSys α :=
  { s with chunkPa := Function.update s.chunkPa attr pa, chunkLeft := Function.update s.chunkLeft attr left }

/-- `fork_seal_chunk`. -/
def forkSealChunk : ForkSys α × Bool :=
  let pa := s.chunkPa .instr
  if pa = 0 then (s, true)
  else
    let s := s.setChunk .instr 0 0
    s.withSys (s.sys.setPartitionAttr M pa CHUNK_2M_SIZE .instr)

/-- `fork_take_chunk`, none for all ones. -/
def forkTakeChunk (attr : MemAttr) : ForkSys α × Option Word :=
  match (if attr = .instr then s.forkSealChunk M else (s, true)) with
  | (s, false) => (s, none)
  | (s, true) =>
    match s.withSys (s.sys.allocAdjacentPages CHUNK_2M_PAGES .data) with
    | (s, none) => (s, none)
    | (s, some chunk) => (s.setChunk attr chunk CHUNK_2M_PAGES, some chunk)

/-- The next page of the partition in use. -/
def cutPage (attr : MemAttr) : ForkSys α × Word :=
  let left := s.chunkLeft attr
  (s.setChunk attr (s.chunkPa attr) (left - 1), s.chunkPa attr + (CHUNK_2M_PAGES - left) * PAGE_SIZE)

/-- `fork_alloc_page`. -/
def forkAllocPage (attr : MemAttr) : ForkSys α × Option Word :=
  if s.chunkLeft attr = 0 then
    match s.forkTakeChunk M attr with
    | (s, none) => (s, none)
    | (s, some _) => ((s.cutPage attr).1, some (s.cutPage attr).2)
  else ((s.cutPage attr).1, some (s.cutPage attr).2)

/-- `fork_alloc_chunk`. -/
def forkAllocChunk : MemAttr → ForkSys α × Option Word
  | .data => s.withSys (s.sys.allocAdjacentPages CHUNK_2M_PAGES .data)
  | .instr =>
    match s.forkSealChunk M with
    | (s, false) => (s, none)
    | (s, true) =>
      match s.withSys (s.sys.allocAdjacentPages CHUNK_2M_PAGES .data) with
      | (s, none) => (s, none)
      | (s, some chunk) => (s.setChunk .instr chunk (s.chunkLeft .instr), some chunk)

/-! ## Contents -/

/-- The number of the page behind an address. -/
def pageBehind (va : Word) : Option Nat := (s.sys.space.getPa va).map fun pa => pa.toNat / 4096

/-- `copy_nonoverlapping` over `n` pages that are mapped. -/
def copyThrough (srcVa dstVa : Word) (n : Nat) : ForkSys α :=
  { s with page := (List.range n).foldl (fun page k =>
      match s.pageBehind (srcVa + BitVec.ofNat 64 (k * 4096)), s.pageBehind (dstVa + BitVec.ofNat 64 (k * 4096)) with
      | some a, some b => Function.update page b (page a)
      | _, _ => page) s.page }

/-- Copy `n` pages from `srcPa` to `dstPa` through mappings of one level. -/
def copyPa (srcVa dstVa : Word) (level n : Nat) (srcPa dstPa : Word) : ForkSys α × Bool :=
  match s.sys.space.mapPage M srcVa srcPa Pte.R level with
  | (space, .error _) => (s.withSpace space, false)
  | (space, .ok _) =>
    match space.mapPage M dstVa dstPa (Pte.R ||| Pte.W) level with
    | (space, .error _) => (s.withSpace (space.unmapPage M srcVa level).1, false)
    | (space, .ok _) =>
      let s := (s.withSpace space).copyThrough srcVa dstVa n
      (s.withSpace ((space.unmapPage M srcVa level).1.unmapPage M dstVa level).1, true)

/-- `copy_page_pa`. -/
def copyPagePa (srcPa dstPa : Word) : ForkSys α × Bool :=
  s.copyPa M FORK_SRC_VA_PAGE FORK_DST_VA_PAGE LEVEL_PAGE 1 srcPa dstPa

/-- `copy_chunk_pa`. -/
def copyChunkPa (srcPa dstPa : Word) : ForkSys α × Bool :=
  s.copyPa M FORK_SRC_VA_MEGA FORK_DST_VA_MEGA LEVEL_MEGA 512 srcPa dstPa

/-! ## Tables -/

def pte (slot : Slot) : Word := s.sys.space.pte slot

def write (slot : Slot) (pte : Word) : ForkSys α := s.withSpace (s.sys.space.write slot pte)

/-- A page for a private leaf, and the contents of the leaf in it. -/
def copyLeaf (level : Nat) (e : Word) : ForkSys α × Option Word :=
  let attr := MemSys.attrOfPteFlags e
  let srcPa := Pte.ppn e <<< 12
  if level = LEVEL_MEGA then
    match s.forkAllocChunk M attr with
    | (s, none) => (s, none)
    | (s, some dstPa) =>
      match s.copyChunkPa M srcPa dstPa with
      | (s, false) => (s, none)
      | (s, true) =>
        match s.forkSealChunk M with
        | (s, false) => (s, none)
        | (s, true) => (s, some dstPa)
  else
    match s.forkAllocPage M attr with
    | (s, none) => (s, none)
    | (s, some dstPa) =>
      match s.copyPagePa M srcPa dstPa with
      | (s, false) => (s, none)
      | (s, true) => (s, some dstPa)

/-- A new table under the slot, with the flags of the pointer `e`, to be filled from the table of `e`. -/
def copyPointer (down : ForkSys α → Word → Word → ForkSys α × Bool) (slot : Slot) (e : Word) : ForkSys α × Bool :=
  match s.sys.space.tryAllocSmodePage M 1 with
  | none => (s, false)
  | some (t, space) =>
    down (s.withSpace (space.install slot (Pte.setPpn e (t >>> 12)) t fun _ => 0)) (Pte.ppn e <<< 12) t

/-- The body of the loop of `copy_table_level`. -/
def copyEntry (down : ForkSys α → Word → Word → ForkSys α × Bool) (level : Nat) (src dst : Word) (i : Fin 512) :
    ForkSys α × Bool :=
  let e := s.pte ⟨src, i⟩
  if !Pte.isValid e then (s, true)
  else if Pte.isLeaf e then
    if !Pte.isPrivate e then (s.write ⟨dst, i⟩ e, true)
    else if level = LEVEL_GIGA then (s, false)
    else
      match s.copyLeaf M level e with
      | (s, none) => (s, false)
      | (s, some dstPa) => (s.write ⟨dst, i⟩ (Pte.setPpn e (dstPa >>> 12)), true)
  else s.copyPointer M down ⟨dst, i⟩ e

/-- A loop over the entries of a table that ends at the first failure. -/
def copyEntries (body : ForkSys α → Fin 512 → ForkSys α × Bool) : ForkSys α → List (Fin 512) → ForkSys α × Bool
  | s, [] => (s, true)
  | s, i :: is =>
    match body s i with
    | (s, false) => (s, false)
    | (s, true) => copyEntries body s is

/-- `copy_table_level`, with `n` levels of tables from `level` on. -/
def copyTableLevel : Nat → Nat → ForkSys α → Word → Word → ForkSys α × Bool
  | 0, _, s, _, _ => (s, false)
  | n + 1, level, s, src, dst =>
    copyEntries (fun s i => s.copyEntry M (copyTableLevel n (level + 1)) level src dst i) s (List.finRange 512)

/-- The body of the loop of `fork_address_space` over the lower half of the root. -/
def copyRootEntry (src dst : Word) (i : Fin 512) : ForkSys α × Bool :=
  let e := s.pte ⟨src, i⟩
  if !Pte.isValid e then (s, true)
  else if Pte.isLeaf e then
    if e &&& Pte.U ≠ 0 then (s, false) else (s.write ⟨dst, i⟩ e, true)
  else s.copyPointer M (copyTableLevel M 2 LEVEL_MEGA) ⟨dst, i⟩ e

/-- The root of the child as it starts: the upper half is that of the parent. -/
def childRoot (space : Space) (i : Fin 512) : Word :=
  if USER_ROOT_ENTRIES ≤ i.val then space.mem space.root i else 0

def lowerHalf : List (Fin 512) := (List.finRange 512).filter fun i => decide (i.val < USER_ROOT_ENTRIES)

/-- `fork_address_space`: the root of the copy, none for all ones. -/
def forkAddressSpace : ForkSys α × Option Word :=
  match s.sys.space.tryAllocSmodePage M 1 with
  | none => (s, none)
  | some (child, space) =>
    let s := s.withSpace { space with mem := Radix.fill space.mem child (childRoot space) }
    match copyEntries (fun s i => s.copyRootEntry M space.root child i) s lowerHalf with
    | (s, false) => (s, none)
    | (s, true) =>
      match s.forkSealChunk M with
      | (s, false) => (s, none)
      | (s, true) => (s, some child)

end ForkSys

end Pyremu.Sittim
