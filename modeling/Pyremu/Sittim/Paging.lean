import Pyremu.Translate
import Pyremu.Lib.Radix
import Pyremu.Sittim.Process

/-!
# Page tables of the runtime

Table pages come from a pool that only grows. A table is addressed by the
physical address of its page; the linear alias that reaches it is left out.
Entries are installed, changed, split and looked up here; who asks for it is in
the memory calls.
-/

namespace Pyremu.Sittim

def PAGE_SIZE : Word := 0x1000
def CHUNK_2M_SIZE : Word := 0x200000
def CHUNK_2M_PAGES : Word := 512
def UMODE_VA_LIMIT : Word := 0x4000000000

/-! ## Entries -/

def PTE_RSW_SHARED : Word := 0x100
def PTE_RSW_MASK : Word := 0x300

namespace Pte

def isLeaf (pte : Word) : Bool := decide (pte &&& (Pte.R ||| Pte.W ||| Pte.X ||| Pte.U) ≠ 0)

def ppn (pte : Word) : Word := (pte >>> 10) &&& 0xfffffffff

def setPpn (pte ppn : Word) : Word := (pte &&& (0x3ff : Word)) ||| ((ppn &&& 0xfffffffff) <<< 10)

def setFlags (pte flags : Word) : Word := pte ||| flags ||| (Pte.A ||| Pte.D)

def isValid (pte : Word) : Bool := decide (pte &&& Pte.V ≠ 0)

end Pte

def LEVEL_GIGA : Nat := 0
def LEVEL_MEGA : Nat := 1
def LEVEL_PAGE : Nat := 2

/-! ## The pool of table pages -/

/-- The memory of the manager: its image, with the root table of the first process in it, and behind
the image the pool. M mode hands it over in whole 2 MiB partitions of the 48-bit physical space. -/
structure Manager where
  managerPaStart : Word
  rootPa : Word
  poolOffset : Word
  poolSize : Word
  start_aligned : 2 ^ 21 ∣ managerPaStart.toNat
  root_aligned : 2 ^ 12 ∣ rootPa.toNat
  offset_aligned : 2 ^ 21 ∣ poolOffset.toNat
  root_in_image : managerPaStart.toNat ≤ rootPa.toNat ∧
    rootPa.toNat + 4096 ≤ managerPaStart.toNat + poolOffset.toNat
  fits : managerPaStart.toNat + poolOffset.toNat + poolSize.toNat ≤ 2 ^ 48

/-- Memory by pages, the root of the running process, and the counter of the pool. -/
structure Space where
  mem : Radix.Store Word (Fin 512) Word
  root : Word
  usedPages : Word

inductive MapError where
  | coveredBySuperPage
  | notMapped
  | outOfPool
  | nonCanonical
  deriving DecidableEq, Repr

namespace Space

/-- `pool_alloc`: the address of `n` pages, none when the pool does not hold them. -/
def tryAllocSmodePage (M : Manager) (s : Space) (n : Word) : Option (Word × Space) :=
  let expected := s.usedPages + n
  if expected * PAGE_SIZE > M.poolSize then none
  else
    some (M.managerPaStart + M.poolOffset + s.usedPages * PAGE_SIZE, { s with usedPages := expected })

end Space

/-! ## Addresses -/

def isCanonicalVa (va : Word) : Bool :=
  let extension := va >>> 38
  extension == 0 || extension == ((1 : Word) <<< 26) - 1

def getVpn (va : Word) (level : Nat) : Fin 512 :=
  match level with
  | 0 => Fin.ofNat 512 ((va >>> 30) &&& 0x1ff).toNat
  | 1 => Fin.ofNat 512 ((va >>> 21) &&& 0x1ff).toNat
  | 2 => Fin.ofNat 512 ((va >>> 12) &&& 0x1ff).toNat
  | _ => 0

/-! ## Installing entries -/

/-- A place in a table. -/
structure Slot where
  table : Word
  index : Fin 512
  deriving DecidableEq

namespace Space

variable (M : Manager)

def pte (s : Space) (slot : Slot) : Word := s.mem slot.table slot.index

def write (s : Space) (slot : Slot) (pte : Word) : Space :=
  { s with mem := Radix.put s.mem slot.table slot.index pte }

/-- The pointer entry that `set_ppn` makes of `pte`. -/
def pointer (pte next : Word) : Word := Pte.setPpn pte (next >>> 12) ||| Pte.V

/-- A new table page is filled before the entry that leads to it is written. -/
def install (s : Space) (slot : Slot) (pte next : Word) (entries : Fin 512 → Word) : Space :=
  { s with mem := Radix.link s.mem slot.table slot.index pte next entries }

/-- The loop of `get_leaf_pte` over the levels above the one asked for. -/
def descend (va : Word) (alloc : Bool) : List Nat → Space → Word → Space × Except MapError Word
  | [], s, table => (s, .ok table)
  | i :: is, s, table =>
    let slot := ⟨table, getVpn va i⟩
    let pte := s.pte slot
    if !Pte.isValid pte then
      if !alloc then (s, .error .notMapped)
      else
        match s.tryAllocSmodePage M 1 with
        | none => (s, .error .outOfPool)
        | some (nextPa, s) =>
          descend va alloc is (s.install slot (pointer pte nextPa) nextPa fun _ => 0) nextPa
    else if Pte.isLeaf pte then (s, .error .coveredBySuperPage)
    else descend va alloc is s (Pte.ppn pte <<< 12)

def getLeafPte (s : Space) (va : Word) (level : Nat) (alloc : Bool) : Space × Except MapError Slot :=
  if !isCanonicalVa va then (s, .error .nonCanonical)
  else
    match descend M va alloc (List.range level) s s.root with
    | (s, .error e) => (s, .error e)
    | (s, .ok table) =>
      let slot := ⟨table, getVpn va level⟩
      if !Pte.isValid (s.pte slot) && !alloc then (s, .error .notMapped) else (s, .ok slot)

def mapPage (s : Space) (va pa flags : Word) (level : Nat) : Space × Except MapError Unit :=
  let ppn := pa >>> 12
  match s.getLeafPte M va level true with
  | (s, .error e) => (s, .error e)
  | (s, .ok slot) => (s.write slot (Pte.setFlags (Pte.setPpn 0 ppn) flags ||| Pte.V), .ok ())

/-- The flag says whether there was an entry. -/
def unmapPage (s : Space) (va : Word) (level : Nat) : Space × Bool :=
  match s.getLeafPte M va level false with
  | (s, .ok slot) => (s.write slot 0, true)
  | (s, .error _) => (s, false)

/-! ## Looking up -/

/-- The walk that three functions share. With `lastIsLeaf` a valid entry of the last level counts as
a leaf whatever its bits. -/
def walkFrom (s : Space) (lastIsLeaf : Bool) (va : Word) : List Nat → Word → Option (Nat × Word)
  | [], _ => none
  | i :: is, table =>
    let pte := s.pte ⟨table, getVpn va i⟩
    if !Pte.isValid pte then none
    else if Pte.isLeaf pte || (lastIsLeaf && i == 2) then some (i, pte)
    else walkFrom s lastIsLeaf va is (Pte.ppn pte <<< 12)

def walkPageTable (s : Space) (va : Word) : Option (Nat × Word) :=
  if !isCanonicalVa va then none else s.walkFrom false va (List.range 3) s.root

def getPa (s : Space) (va : Word) : Option Word :=
  match s.walkPageTable va with
  | none => none
  | some (level, pte) =>
    let base := Pte.ppn pte <<< 12
    let offsetBits := 12 + (2 - level) * 9
    some (base ||| ((((1 : Word) <<< offsetBits) - 1) &&& va))

def vaRealPageLevel (s : Space) (va : Word) : Option Nat :=
  if !isCanonicalVa va then none else (s.walkFrom true va (List.range 3) s.root).map Prod.fst

def leafPteFlags (s : Space) (va : Word) : Option Word :=
  if !isCanonicalVa va then none
  else (s.walkFrom true va (List.range 3) s.root).map fun r => r.2 &&& (0xff ||| PTE_RSW_MASK)

/-! ## Changing entries -/

/-- Rewrite the flags of a leaf and keep its page and its RSW bits. -/
def setLeafFlags (s : Space) (va flags : Word) : Space × Bool :=
  match s.vaRealPageLevel va with
  | none => (s, false)
  | some level =>
    if level = LEVEL_GIGA then (s, false)
    else
      match s.getLeafPte M va level false with
      | (s, .error _) => (s, false)
      | (s, .ok slot) =>
        let pte := s.pte slot
        let new := Pte.setFlags (Pte.setPpn 0 (Pte.ppn pte)) flags ||| (Pte.V ||| (pte &&& PTE_RSW_MASK))
        (s.write slot new, true)

/-- Entry `i` of the table that takes the place of a 2 MiB leaf. -/
def splitEntry (leaf : Word) (i : Fin 512) : Word :=
  let basePpn := Pte.ppn leaf &&& ~~~0x1ff
  let lowBits := leaf &&& (0xff ||| PTE_RSW_MASK)
  Pte.setPpn 0 (basePpn + BitVec.ofNat 64 i) ||| (lowBits ||| Pte.V)

def splitMegaLeaf (s : Space) (va : Word) : Space × Bool :=
  if s.vaRealPageLevel va ≠ some LEVEL_MEGA then (s, true)
  else
    match s.getLeafPte M va LEVEL_MEGA false with
    | (s, .error _) => (s, false)
    | (s, .ok slot) =>
      let leaf := s.pte slot
      match s.tryAllocSmodePage M 1 with
      | none => (s, false)
      | some (t, s) => (s.install slot (pointer 0 t) t (splitEntry leaf), true)

/-! ## Boot -/

def LINEAR_MAP_START : Word := 0x140000000
def LINEAR_MAP_SIZE : Word := 0x340000000
def LINEAR_MAP_OFFSET : Word := 0xFFFFFFC000000000

/-- `setup_linear_map` from page `i` of `n` on: 1 GiB leaves. -/
def setupLinearMap (s : Space) (i : Nat) : Nat → Space × Bool
  | 0 => (s, true)
  | n + 1 =>
    let pa := LINEAR_MAP_START + BitVec.ofNat 64 i * 0x40000000
    match s.mapPage M (pa + LINEAR_MAP_OFFSET) pa (Pte.R ||| Pte.W) LEVEL_GIGA with
    | (s, .error _) => (s, false)
    | (s, .ok _) => setupLinearMap s (i + 1) n

end Space

end Pyremu.Sittim
