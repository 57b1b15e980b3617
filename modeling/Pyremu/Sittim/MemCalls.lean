import Pyremu.Sittim.Paging

/-!
# The memory system calls

`mmap`, `munmap`, `mprotect`, `mremap` and `brk` over one address space, and the
requests to M mode behind them. M mode grants 2 MiB partitions that it has not
given away before and keeps a class for each. The loops of the source run over
addresses; here each gets as many rounds as its range has pages or blocks.
-/

namespace Pyremu.Sittim

def ENOSYS : Word := errno 38

def CHUNK_2M_SHIFT : Nat := 21
def PAGE_SHIFT : Nat := 12
def UMODE_MMAP_BASE : Word := 0x200000000

/-! ## M mode -/

/-- The class of a partition. -/
inductive MemAttr where
  | data
  | instr
  deriving DecidableEq, Repr

/-- What M mode has given to the enclave. `offers` holds the places where it will grant the coming
requests, `consents` its answers to coming changes of class. -/
structure MMode where
  offers : List Nat
  consents : List Bool
  given : Nat → Bool
  cls : Nat → MemAttr

/-- The partition of a physical address. -/
def partitionOf (pa : Word) : Nat := pa.toNat / 2 ^ 21

/-- Partitions are numbered within 48-bit physical addresses. -/
def partitionCount : Nat := 2 ^ 27

namespace MMode

variable (m : MMode)

/-- All `n` partitions from the place on offer when none was given before, else none at all. The
partition of address 0 is no memory. -/
def memAlloc (n : Word) (attr : MemAttr) : MMode × (Word × Word) :=
  match m.offers with
  | [] => (m, (0, 0))
  | p :: offers =>
    if 0 < p ∧ p + n.toNat ≤ partitionCount ∧ (List.range n.toNat).all fun k => !m.given (p + k) then
      ({ m with
          offers := offers
          given := fun q => m.given q || decide (p ≤ q ∧ q < p + n.toNat)
          cls := fun q => if p ≤ q ∧ q < p + n.toNat then attr else m.cls q },
        (n, BitVec.ofNat 64 (p * 2 ^ 21)))
    else ({ m with offers := offers }, (0, 0))

/-- The class of `n` partitions that belong to the enclave, from an aligned address. -/
def setMemAttr (pa n : Word) (attr : MemAttr) : MMode × Bool :=
  match m.consents with
  | [] => (m, false)
  | consent :: consents =>
    let p := partitionOf pa
    if consent = true ∧ pa.toNat % 2 ^ 21 = 0 ∧ (List.range n.toNat).all fun k => m.given (p + k) then
      ({ m with
          consents := consents
          cls := fun q => if p ≤ q ∧ q < p + n.toNat then attr else m.cls q }, true)
    else ({ m with consents := consents }, false)

end MMode

/-- The running address space, its cursors, and M mode. -/
structure MemSys where
  space : Space
  ctx : TaMemCtx
  mmode : MMode

namespace MemSys

variable (M : Manager)

/-- Run an operation of the page tables. -/
def onSpace {α : Type} (s : MemSys) (r : Space × α) : MemSys × α := ({ s with space := r.1 }, r.2)

def setPagesUsed (s : MemSys) (n : Word) : MemSys := { s with ctx := { s.ctx with mmapPagesUsed := n } }

def setCurrPa (s : MemSys) (pa : Word) : MemSys := { s with ctx := { s.ctx with currMmapPa := pa } }

/-! ## Partitions -/

def attrOfPteFlags (flags : Word) : MemAttr := if flags &&& Pte.X ≠ 0 then .instr else .data

/-- `alloc_adjacent_pages`, none for all ones. -/
def allocAdjacentPages (s : MemSys) (pages : Word) (attr : MemAttr) : MemSys × Option Word :=
  let partitions := alignUp (pages * PAGE_SIZE) CHUNK_2M_SIZE >>> CHUNK_2M_SHIFT
  if partitions = 0 then (s, none)
  else
    match s.mmode.memAlloc partitions attr with
    | (m, (granted, pa)) => ({ s with mmode := m }, if granted < partitions then none else some pa)

def isDedicatedPartition (pa : Word) : Bool :=
  let paddr := pa &&& ~~~(CHUNK_2M_SIZE - 1)
  let imageEnd := M.managerPaStart + M.poolOffset + M.poolSize
  !(decide (M.managerPaStart ≤ paddr) && decide (paddr < imageEnd))

def setPartitionAttr (s : MemSys) (pa bytes : Word) (attr : MemAttr) : MemSys × Bool :=
  if pa &&& (CHUNK_2M_SIZE - 1) ≠ 0 then (s, false)
  else
    let partitions := alignUp bytes CHUNK_2M_SIZE >>> CHUNK_2M_SHIFT
    if partitions = 0 then (s, false)
    else if !(List.range partitions.toNat).all fun i =>
        isDedicatedPartition M (pa + BitVec.ofNat 64 i * CHUNK_2M_SIZE) then (s, false)
    else
      match s.mmode.setMemAttr pa partitions attr with
      | (m, ok) => ({ s with mmode := m }, ok)

/-! ## Ranges -/

def isUmodeVaRange (start bytes : Word) : Bool :=
  decide (start.toNat + bytes.toNat < 2 ^ 64) && decide (start + bytes ≤ UMODE_VA_LIMIT)

def isUmodePageRange (stVa pageNum : Word) : Bool :=
  if 2 ^ 64 ≤ pageNum.toNat * PAGE_SIZE.toNat then false
  else pageNum != 0 && isUmodeVaRange stVa (pageNum * PAGE_SIZE)

/-- Pages between the base of the mapping region and the end of the user half. -/
def MMAP_REGION_PAGES : Word := (UMODE_VA_LIMIT - UMODE_MMAP_BASE) >>> PAGE_SHIFT

def isMmapPagesInRegion (stPage pageNum : Word) : Bool :=
  decide (stPage.toNat + pageNum.toNat < 2 ^ 64) && decide (stPage + pageNum ≤ MMAP_REGION_PAGES)

def mmapPageVa (pageIndex : Word) : Word := UMODE_MMAP_BASE + pageIndex * PAGE_SIZE

def mmapPageIndexOf (va : Word) : Word := (va - UMODE_MMAP_BASE) >>> PAGE_SHIFT

def mmapRegionEnd (s : MemSys) : Word := mmapPageVa s.ctx.mmapPagesUsed

/-! ## Mapping ranges -/

/-- `map_pages_at` from page `i` on, for `n` more pages. -/
def mapPagesAt (s : MemSys) (va pa flags : Word) (i : Nat) : Nat → MemSys × Bool
  | 0 => (s, true)
  | n + 1 =>
    let ofs := BitVec.ofNat 64 i * PAGE_SIZE
    match s.onSpace (s.space.mapPage M (va + ofs) (pa + ofs) flags LEVEL_PAGE) with
    | (s, .error _) => (s, false)
    | (s, .ok _) => mapPagesAt s va pa flags (i + 1) n

/-- `map_umode_pages`: instruction pages are writable until they are sealed. -/
def mapUmodePages (s : MemSys) (va pages flags : Word) : MemSys × Bool :=
  if !isUmodePageRange va pages then (s, false)
  else
    match s.allocAdjacentPages pages .data with
    | (s, none) => (s, false)
    | (s, some pa) =>
      let leafFlags := if attrOfPteFlags flags = .instr then flags ||| Pte.R ||| Pte.W else flags
      s.mapPagesAt M va pa leafFlags 0 pages.toNat

/-- The loop of `alias_umode_pages` from page `i` on. -/
def aliasFrom (s : MemSys) (srcVa dstVa flags : Word) (i : Nat) : Nat → MemSys × Bool
  | 0 => (s, true)
  | n + 1 =>
    let ofs := BitVec.ofNat 64 i * PAGE_SIZE
    match s.space.getPa (srcVa + ofs) with
    | none => (s, false)
    | some pa =>
      match s.onSpace (s.space.mapPage M (dstVa + ofs) pa flags LEVEL_PAGE) with
      | (s, .error _) => (s, false)
      | (s, .ok _) => aliasFrom s srcVa dstVa flags (i + 1) n

def aliasUmodePages (s : MemSys) (srcVa dstVa pages flags : Word) : MemSys × Bool :=
  if !isUmodePageRange dstVa pages then (s, false)
  else s.aliasFrom M srcVa dstVa flags 0 pages.toNat

/-- The loop of `grow_umode_va`, one block to a request; it gives the address it got to. -/
def growFrom (flags upTo : Word) : Nat → MemSys → Word → MemSys × Word
  | 0, s, va => (s, va)
  | n + 1, s, va =>
    if va < upTo then
      match s.mmode.memAlloc 1 (attrOfPteFlags flags) with
      | (m, (granted, pa)) =>
        let s := { s with mmode := m }
        if granted = 0 then (s, va)
        else
          match s.onSpace (s.space.mapPage M va pa flags LEVEL_MEGA) with
          | (s, .error _) => (s, va)
          | (s, .ok _) => growFrom flags upTo n s (va + CHUNK_2M_SIZE)
    else (s, va)

/-- Rounds for the blocks between two addresses. -/
def blocksBetween (start stop : Word) : Nat := (stop.toNat - start.toNat) / 2 ^ 21 + 1

def growUmodeVa (s : MemSys) (start upTo flags : Word) : MemSys × Word :=
  let upTo := if upTo > UMODE_VA_LIMIT then UMODE_VA_LIMIT else upTo
  growFrom M flags upTo (blocksBetween start upTo) s start

/-! ## The mapping region -/

/-- The block that a small request is carved from: the current one, or a new one at a block start. -/
def splitBlock (s : MemSys) (inBlock splitPa : Word) : MemSys × Option Word :=
  if inBlock = 0 then s.allocAdjacentPages CHUNK_2M_PAGES .data else (s, some splitPa)

/-- One round of `take_mmap_region` for a small request: as many pages as the block has room for.
The values are their number and the block. -/
def carve (s : MemSys) (va pages pteFlags done splitPa : Word) : MemSys × Option (Word × Word) :=
  let inBlock := s.ctx.mmapPagesUsed &&& (CHUNK_2M_PAGES - 1)
  match s.splitBlock inBlock splitPa with
  | (s, none) => (s, none)
  | (s, some splitPa) =>
    let room := CHUNK_2M_PAGES - inBlock
    let k := if pages - done < room then pages - done else room
    let pa := splitPa + inBlock * PAGE_SIZE
    match s.mapPagesAt M (va + done * PAGE_SIZE) pa pteFlags 0 k.toNat with
    | (s, false) => (s, none)
    | (s, true) => ((s.setCurrPa splitPa).setPagesUsed (s.ctx.mmapPagesUsed + k), some (k, splitPa))

/-- The rounds of a small request. The second value counts the pages delivered. -/
def takeFrom (va pages pteFlags : Word) : Nat → MemSys → Word → Word → MemSys × Word
  | 0, s, done, _ => (s, done)
  | n + 1, s, done, splitPa =>
    if done < pages then
      match s.carve M va pages pteFlags done splitPa with
      | (s, none) => (s, done)
      | (s, some (k, splitPa)) => takeFrom va pages pteFlags n s (done + k) splitPa
    else (s, done)

/-- The branch of `take_mmap_region` for instruction pages: adjacent partitions of their own. -/
def takeInstrBlocks (s : MemSys) (pages aligned blocks pteFlags : Word) : MemSys × Word :=
  if !isMmapPagesInRegion aligned (blocks * CHUNK_2M_PAGES) then (s, 0)
  else
    match s.allocAdjacentPages (blocks * CHUNK_2M_PAGES) .data with
    | (s, none) => (s, 0)
    | (s, some pa) =>
      match s.mapPagesAt M (mmapPageVa aligned) pa (pteFlags ||| Pte.R ||| Pte.W) 0 pages.toNat with
      | (s, false) => (s, 0)
      | (s, true) => ((s.setCurrPa 0).setPagesUsed (aligned + blocks * CHUNK_2M_PAGES), mmapPageVa aligned)

/-- The branch for requests of a block or more. -/
def takeWholeBlocks (s : MemSys) (aligned blocks pteFlags : Word) : MemSys × Word :=
  if !isMmapPagesInRegion aligned (blocks * CHUNK_2M_PAGES) then (s, 0)
  else
    match s.growUmodeVa M (mmapPageVa aligned) (mmapPageVa aligned + blocks * CHUNK_2M_SIZE) pteFlags with
    | (s, got) =>
      if got < mmapPageVa aligned + blocks * CHUNK_2M_SIZE then (s, 0)
      else ((s.setCurrPa 0).setPagesUsed (aligned + blocks * CHUNK_2M_PAGES), mmapPageVa aligned)

/-- The branch for smaller requests. -/
def takeSmall (s : MemSys) (pages pteFlags : Word) : MemSys × Word :=
  if !isMmapPagesInRegion s.ctx.mmapPagesUsed pages then (s, 0)
  else
    match takeFrom M s.mmapRegionEnd pages pteFlags pages.toNat s 0 s.ctx.currMmapPa with
    | (s', done) => if done < pages then (s', 0) else (s', s.mmapRegionEnd)

/-- `take_mmap_region`: the address, 0 on failure. -/
def takeMmapRegion (s : MemSys) (bytes pteFlags : Word) : MemSys × Word :=
  if bytes = 0 ∨ bytes > UMODE_VA_LIMIT then (s, 0)
  else
    let pages := alignUp bytes PAGE_SIZE >>> PAGE_SHIFT
    let aligned := alignUp s.ctx.mmapPagesUsed CHUNK_2M_PAGES
    let blocks := alignUp (pages * PAGE_SIZE) CHUNK_2M_SIZE >>> CHUNK_2M_SHIFT
    if attrOfPteFlags pteFlags = .instr then s.takeInstrBlocks M pages aligned blocks pteFlags
    else if pages ≥ CHUNK_2M_PAGES then s.takeWholeBlocks M aligned blocks pteFlags
    else s.takeSmall M pages pteFlags

def mmapSplitBlockStart (s : MemSys) : Option Word :=
  let pages := s.ctx.mmapPagesUsed
  if s.ctx.currMmapPa = 0 ∨ pages = 0 then none
  else some (alignDown (mmapPageVa (pages - 1)) CHUNK_2M_SIZE)

def isMmapShrinkInPlaceAllowed (s : MemSys) (oldEnd newEnd : Word) : Bool :=
  if s.mmapRegionEnd ≠ oldEnd then false
  else if newEnd % CHUNK_2M_SIZE = 0 then true
  else s.mmapSplitBlockStart == some (alignDown (newEnd - PAGE_SIZE) CHUNK_2M_SIZE)

def isMmapGrowInPlaceAllowed (s : MemSys) (oldEnd newEnd : Word) : Bool :=
  if s.mmapRegionEnd ≠ oldEnd then false
  else
    match s.mmapSplitBlockStart with
    | some blockStart => alignDown (newEnd - PAGE_SIZE) CHUNK_2M_SIZE == blockStart
    | none => false

def growMmapInPlace (s : MemSys) (addr oldSize newSize : Word) : MemSys × Bool :=
  if 2 ^ 64 ≤ addr.toNat + oldSize.toNat ∨ 2 ^ 64 ≤ addr.toNat + newSize.toNat then (s, false)
  else if addr + newSize > UMODE_VA_LIMIT then (s, false)
  else
    let oldEnd := alignUp (addr + oldSize) PAGE_SIZE
    let newEnd := alignUp (addr + newSize) PAGE_SIZE
    if newEnd ≤ oldEnd then
      if !s.isMmapShrinkInPlaceAllowed oldEnd newEnd then (s, false)
      else
        let s := if newEnd % CHUNK_2M_SIZE = 0 then s.setCurrPa 0 else s
        (s.setPagesUsed (mmapPageIndexOf newEnd), true)
    else if !s.isMmapGrowInPlaceAllowed oldEnd newEnd then (s, false)
    else
      match s.space.leafPteFlags (oldEnd - PAGE_SIZE) with
      | none => (s, false)
      | some flags =>
        let pa := s.ctx.currMmapPa + (oldEnd - alignDown oldEnd CHUNK_2M_SIZE)
        let pages := (newEnd - oldEnd) >>> PAGE_SHIFT
        match s.mapPagesAt M oldEnd pa flags 0 pages.toNat with
        | (s, false) => (s, false)
        | (s, true) => (s.setPagesUsed (mmapPageIndexOf newEnd), true)

def setHeapTop (s : MemSys) (top : Word) : MemSys := { s with ctx := { s.ctx with heapTop := top } }

/-- The part of `sys_brk` that maps more memory. -/
def growHeap (s : MemSys) (needEnd : Word) : MemSys × Bool :=
  match s.growUmodeVa M s.ctx.heapMappedEnd needEnd (Pte.U ||| Pte.R ||| Pte.W) with
  | (s', got) => ({ s' with ctx := { s'.ctx with heapMappedEnd := got } }, !decide (got < needEnd))

def sysBrkHandler (s : MemSys) (newBrk : Word) : MemSys × Word :=
  if newBrk = 0 then (s, s.ctx.heapTop)
  else if newBrk > UMODE_VA_LIMIT then (s, s.ctx.heapTop)
  else if newBrk ≤ s.ctx.heapTop then (s.setHeapTop newBrk, newBrk)
  else if alignUp (alignUp newBrk PAGE_SIZE) CHUNK_2M_SIZE > s.ctx.heapMappedEnd then
    match s.growHeap M (alignUp (alignUp newBrk PAGE_SIZE) CHUNK_2M_SIZE) with
    | (s', false) => (s', s.ctx.heapTop)
    | (s', true) => (s'.setHeapTop newBrk, newBrk)
  else (s.setHeapTop newBrk, newBrk)

/-! ## `mmap` and `munmap` -/

def MAP_FIXED : Word := 0x10
def MAP_ANONYMOUS : Word := 0x20
def MAP_SHARED : Word := 0x01
def MAP_PRIVATE : Word := 0x02
def MAP_TYPE : Word := 0x0f
def PROT_READ : Word := 0x1
def PROT_WRITE : Word := 0x2
def PROT_EXEC : Word := 0x4
def MREMAP_MAYMOVE : Word := 0x1
def MREMAP_FIXED : Word := 0x2
def MREMAP_KNOWN_FLAGS : Word := MREMAP_MAYMOVE ||| MREMAP_FIXED

def protToPte (prot : Word) : Word :=
  let flags := Pte.U ||| Pte.V
  let flags := if prot &&& PROT_READ ≠ 0 then flags ||| Pte.R else flags
  let flags := if prot &&& PROT_WRITE ≠ 0 then flags ||| Pte.W else flags
  if prot &&& PROT_EXEC ≠ 0 then flags ||| Pte.X else flags

/-- The two loops of `reclass_covered_partitions`: check every block, then change every block. The
result is 0 or an error number. -/
def checkCovered (s : MemSys) (stop : Word) : Nat → Word → Word
  | 0, _ => 0
  | n + 1, va =>
    if va < stop then
      match s.space.getPa va with
      | none => ENOMEM
      | some pa => if !isDedicatedPartition M pa then EINVAL else checkCovered s stop n (va + CHUNK_2M_SIZE)
    else 0

def changeCovered (attr : MemAttr) (stop : Word) : Nat → MemSys → Word → MemSys × Word
  | 0, s, _ => (s, 0)
  | n + 1, s, va =>
    if va < stop then
      match s.space.getPa va with
      | none => (s, ENOMEM)
      | some pa =>
        match s.setPartitionAttr M pa CHUNK_2M_SIZE attr with
        | (s, false) => (s, EINVAL)
        | (s, true) => changeCovered attr stop n s (va + CHUNK_2M_SIZE)
    else (s, 0)

def reclassCoveredPartitions (s : MemSys) (start stop : Word) (attr : MemAttr) : MemSys × Word :=
  let n := blocksBetween start stop
  let err := s.checkCovered M stop n start
  if err ≠ 0 then (s, err) else changeCovered M attr stop n s start

/-- The loop of `seal_instr_mapping` over the pages. -/
def sealFrom (s : MemSys) (va flags : Word) (i : Nat) : Nat → MemSys × Bool
  | 0 => (s, true)
  | n + 1 =>
    match s.onSpace (s.space.setLeafFlags M (va + BitVec.ofNat 64 i * PAGE_SIZE) flags) with
    | (s, false) => (s, false)
    | (s, true) => sealFrom s va flags (i + 1) n

def sealInstrMapping (s : MemSys) (va pages flags : Word) : MemSys × Bool :=
  if flags &&& Pte.X = 0 then (s, true)
  else
    match s.reclassCoveredPartitions M va (va + pages * PAGE_SIZE) .instr with
    | (s, err) => if err ≠ 0 then (s, false) else s.sealFrom M va flags 0 pages.toNat

def mmapHandler (s : MemSys) (addr len prot flags : Word) : MemSys × Word :=
  if flags &&& MAP_ANONYMOUS = 0 then (s, ENOSYS)
  else if prot &&& (PROT_WRITE ||| PROT_EXEC) = PROT_WRITE ||| PROT_EXEC then (s, EINVAL)
  else if flags &&& MAP_TYPE ≠ MAP_SHARED ∧ flags &&& MAP_TYPE ≠ MAP_PRIVATE then (s, EINVAL)
  else if len = 0 ∨ len > UMODE_VA_LIMIT then (s, EINVAL)
  else
    let pages := alignUp len PAGE_SIZE >>> PAGE_SHIFT
    let totalBytes := pages * PAGE_SIZE
    let pteFlags :=
      if flags &&& MAP_TYPE = MAP_SHARED then protToPte prot ||| PTE_RSW_SHARED else protToPte prot
    if flags &&& MAP_FIXED ≠ 0 then
      if addr &&& (PAGE_SIZE - 1) ≠ 0 then (s, EINVAL)
      else if !isUmodeVaRange addr totalBytes then (s, ENOMEM)
      else
        match s.mapUmodePages M addr pages pteFlags with
        | (s, false) => (s, ENOMEM)
        | (s, true) =>
          match s.sealInstrMapping M addr pages pteFlags with
          | (s, false) => (s, ENOMEM)
          | (s, true) => (s, addr)
    else
      match s.takeMmapRegion M totalBytes pteFlags with
      | (s, va) =>
        if va = 0 then (s, ENOMEM)
        else
          match s.sealInstrMapping M va pages pteFlags with
          | (s, false) => (s, ENOMEM)
          | (s, true) => (s, va)

/-- The loop of `munmap`; each round goes past the entry that it found. -/
def unmapFrom (stop : Word) : Nat → MemSys → Word → MemSys
  | 0, s, _ => s
  | n + 1, s, va =>
    if va < stop then
      match s.space.vaRealPageLevel va with
      | some 2 => unmapFrom stop n (s.onSpace (s.space.unmapPage M va LEVEL_PAGE)).1 (va + PAGE_SIZE)
      | some 1 => unmapFrom stop n (s.onSpace (s.space.unmapPage M va LEVEL_MEGA)).1 (va + CHUNK_2M_SIZE)
      | some 0 => unmapFrom stop n (s.onSpace (s.space.unmapPage M va LEVEL_GIGA)).1 (va + 0x40000000)
      | _ => unmapFrom stop n s (va + PAGE_SIZE)
    else s

/-- Rounds for the pages between two addresses. -/
def pagesBetween (start stop : Word) : Nat := (stop.toNat - start.toNat) / 2 ^ 12 + 1

def munmapHandler (s : MemSys) (addr len : Word) : MemSys × Word :=
  if addr &&& (PAGE_SIZE - 1) ≠ 0 ∨ len = 0 then (s, EINVAL)
  else if !isUmodeVaRange addr len then (s, EINVAL)
  else
    let stop := alignUp (addr + len) PAGE_SIZE
    (unmapFrom M stop (pagesBetween addr stop) s addr, 0)

/-! ## `mprotect` -/

/-- The loop of `range_changes_exec`. -/
def changesExecFrom (s : MemSys) (stop : Word) (wantsExec : Bool) : Nat → Word → Bool
  | 0, _ => false
  | n + 1, va =>
    if va < stop then
      match s.space.vaRealPageLevel va, s.space.leafPteFlags va with
      | some level, some flags =>
        if level ≠ LEVEL_PAGE ∧ level ≠ LEVEL_MEGA then false
        else if decide (flags &&& Pte.X ≠ 0) != wantsExec then true
        else
          changesExecFrom s stop wantsExec n
            (va + (if level = LEVEL_MEGA then CHUNK_2M_SIZE else PAGE_SIZE))
      | _, _ => false
    else false

def rangeChangesExec (s : MemSys) (start stop : Word) (wantsExec : Bool) : Bool :=
  s.changesExecFrom stop wantsExec (pagesBetween start stop) start

/-- The loop of `mprotect`. A 2 MiB leaf that the range covers in part is split and met again. -/
def protectFrom (start stop flags : Word) : Nat → MemSys → Word → MemSys × Word
  | 0, s, _ => (s, 0)
  | n + 1, s, va =>
    if va < stop then
      match s.space.vaRealPageLevel va with
      | some 2 =>
        match s.onSpace (s.space.setLeafFlags M va flags) with
        | (s, false) => (s, ENOMEM)
        | (s, true) => protectFrom start stop flags n s (va + PAGE_SIZE)
      | some 1 =>
        let chunk := va &&& ~~~(CHUNK_2M_SIZE - 1)
        if start ≤ chunk ∧ stop ≥ chunk + CHUNK_2M_SIZE then
          match s.onSpace (s.space.setLeafFlags M va flags) with
          | (s, false) => (s, ENOMEM)
          | (s, true) => protectFrom start stop flags n s (va + CHUNK_2M_SIZE)
        else
          match s.onSpace (s.space.splitMegaLeaf M va) with
          | (s, false) => (s, ENOMEM)
          | (s, true) => protectFrom start stop flags n s va
      | _ => (s, ENOMEM)
    else (s, 0)

def mprotectHandler (s : MemSys) (addr len prot : Word) : MemSys × Word :=
  if addr &&& (PAGE_SIZE - 1) ≠ 0 then (s, EINVAL)
  else if prot &&& ~~~(PROT_READ ||| PROT_WRITE ||| PROT_EXEC) ≠ 0 then (s, EINVAL)
  else if prot &&& (PROT_WRITE ||| PROT_EXEC) = PROT_WRITE ||| PROT_EXEC then (s, EINVAL)
  else if len = 0 then (s, 0)
  else if !isUmodeVaRange addr len then (s, EINVAL)
  else
    let stop := alignUp (addr + len) PAGE_SIZE
    let flags := protToPte prot
    let isExec := decide (prot &&& PROT_EXEC ≠ 0)
    -- a page is met at most twice, the second time after its leaf was split
    let rounds := 2 * pagesBetween addr stop
    if s.rangeChangesExec addr stop isExec then
      if addr &&& (CHUNK_2M_SIZE - 1) ≠ 0 ∨ len &&& (CHUNK_2M_SIZE - 1) ≠ 0 then (s, EINVAL)
      else
        match s.reclassCoveredPartitions M addr stop (if isExec then .instr else .data) with
        | (s, err) => if err ≠ 0 then (s, err) else protectFrom M addr stop flags rounds s addr
    else protectFrom M addr stop flags rounds s addr

/-! ## `mremap` -/

/-- 0, or an error number. -/
def checkMremapParams (oldAddr oldSize newSize flags newAddr : Word) : Word :=
  if flags &&& ~~~MREMAP_KNOWN_FLAGS ≠ 0 then EINVAL
  else if oldAddr &&& (PAGE_SIZE - 1) ≠ 0 then EINVAL
  else if oldSize = 0 ∨ newSize = 0 then EINVAL
  else if !isUmodeVaRange oldAddr oldSize ∨ newSize > UMODE_VA_LIMIT then EINVAL
  else if flags &&& MREMAP_FIXED ≠ 0 then
    if newAddr &&& (PAGE_SIZE - 1) ≠ 0 then EINVAL
    else if flags &&& MREMAP_MAYMOVE = 0 then EINVAL
    else if !isUmodeVaRange newAddr newSize then ENOMEM
    else 0
  else 0

/-- The destination of a mapping that moves. -/
def mremapTarget (s : MemSys) (oldAddr newSize flags newAddr flagsFromSrc : Word) :
    MemSys × Option Word :=
  let isShared := decide (flagsFromSrc &&& PTE_RSW_SHARED ≠ 0)
  let pages := alignUp newSize PAGE_SIZE >>> PAGE_SHIFT
  if flags &&& MREMAP_FIXED ≠ 0 then
    let r :=
      if isShared then s.aliasUmodePages M oldAddr newAddr pages flagsFromSrc
      else s.mapUmodePages M newAddr pages flagsFromSrc
    (r.1, if r.2 then some newAddr else none)
  else
    match s.takeMmapRegion M newSize flagsFromSrc with
    | (s, va) => (s, if va = 0 then none else some va)

/-- The copy between the pages of the two ranges changes no table and is left out here. -/
def mremapHandler (s : MemSys) (oldAddr oldSize newSize flags newAddr : Word) : MemSys × Word :=
  let invalid := checkMremapParams oldAddr oldSize newSize flags newAddr
  if invalid ≠ 0 then (s, invalid)
  else
    match (if flags &&& MREMAP_FIXED = 0 then s.growMmapInPlace M oldAddr oldSize newSize else (s, false)) with
    | (s, true) => (s, oldAddr)
    | (s, false) =>
      if flags &&& MREMAP_MAYMOVE = 0 then (s, ENOMEM)
      else
        let flagsFromSrc :=
          match s.space.leafPteFlags (oldAddr + oldSize - PAGE_SIZE) with
          | some f => f
          | none => Pte.U ||| Pte.V ||| Pte.R ||| Pte.W
        let isShared := decide (flagsFromSrc &&& PTE_RSW_SHARED ≠ 0)
        let pages := alignUp newSize PAGE_SIZE >>> PAGE_SHIFT
        match s.mremapTarget M oldAddr newSize flags newAddr flagsFromSrc with
        | (s, none) => (s, ENOMEM)
        | (s, some dst) =>
          let isSrcAlias := isShared && decide (flags &&& MREMAP_FIXED ≠ 0)
          match (if isSrcAlias then (s, true) else s.sealInstrMapping M dst pages flagsFromSrc) with
          | (s, false) => (s, ENOMEM)
          | (s, true) =>
            if flags &&& MREMAP_FIXED = 0 then ((s.munmapHandler M oldAddr oldSize).1, dst) else (s, dst)

end MemSys

/-! ## One call -/

inductive MemCall where
  | mmap (addr len prot flags fd off : Word)
  | munmap (addr len : Word)
  | mprotect (addr len prot : Word)
  | mremap (oldAddr oldSize newSize flags newAddr : Word)
  | brk (newBrk : Word)
  deriving DecidableEq

def MemSys.call (M : Manager) (s : MemSys) : MemCall → MemSys × Word
  | .mmap addr len prot flags _ _ => s.mmapHandler M addr len prot flags
  | .munmap addr len => s.munmapHandler M addr len
  | .mprotect addr len prot => s.mprotectHandler M addr len prot
  | .mremap oldAddr oldSize newSize flags newAddr => s.mremapHandler M oldAddr oldSize newSize flags newAddr
  | .brk newBrk => s.sysBrkHandler M newBrk

end Pyremu.Sittim
