import Pyremu.Transparency

/-!
# The Python walk

`translate_va` of `memory/mmu.py` reads one entry at each level and classifies
it with `pte_parse` of the native library, or with the class `PTE` where the
library is not there. Page numbers have at most 44 bits, so that addresses of
entries and pages fit into a machine word.
-/

namespace Pyremu

open ByteMem

/-! ## The class `PTE` -/

namespace PtePy

def pteV : Word := 1 <<< 0
def pteR : Word := 1 <<< 1
def pteW : Word := 1 <<< 2
def pteX : Word := 1 <<< 3
def pteU : Word := 1 <<< 4
def ptePpn0 : Word := (0x3ff : Word) <<< 10
def ptePpn1 : Word := (0x1ff : Word) <<< 20
def ptePpn2 : Word := (0x1ffffff : Word) <<< 29

def v (raw : Word) : Bool := decide (raw &&& pteV ≠ 0)
def r (raw : Word) : Bool := decide (raw &&& pteR ≠ 0)
def x (raw : Word) : Bool := decide (raw &&& pteX ≠ 0)

def ppn0 (raw : Word) : Word := (raw &&& ptePpn0) >>> 10
def ppn1 (raw : Word) : Word := (raw &&& ptePpn1) >>> 20
def ppn2 (raw : Word) : Word := (raw &&& ptePpn2) >>> 29

def ppn (raw : Word) : Word := (ppn2 raw <<< 19) ||| (ppn1 raw <<< 10) ||| ppn0 raw

/-- `_pte_perm_flags`. -/
def permFlags (raw : Word) : BitVec 8 := (raw &&& (pteR ||| pteW ||| pteX ||| pteU)).setWidth 8

end PtePy

/-! ## The walk -/

/-- `pte_assemble_pa` of the native library. -/
def pteAssemblePa (ppn va : Word) (level : BitVec 8) : Word :=
  if level = 1 then (superPpn ppn ((va >>> 12) &&& 0x1FF) <<< 12) ||| (va &&& 0xFFF)
  else (ppn <<< 12) ||| (va &&& 0xFFF)

namespace MmuPy

/-- `_NATIVE_MMU`. -/
abbrev NativeMmu := Bool

/-- `sv39_vpn`: the indices of the three levels. -/
def sv39Vpn (nativeMmu : NativeMmu) (va : Word) : Word × Word × Word :=
  if nativeMmu then
    let v := sv39DecomposeVa va
    (v.vpn2, v.vpn1, v.vpn0)
  else ((va >>> 30) &&& 0x1FF, (va >>> 21) &&& 0x1FF, (va >>> 12) &&& 0x1FF)

/-- `_level1_next_ppn`. -/
def level1NextPpn (nativeMmu : NativeMmu) (raw : Word) : Option Word :=
  if nativeMmu then
    let l1 := pteParse raw
    if l1.isPtr then some l1.ppn else none
  else if PtePy.v raw && !(PtePy.r raw || PtePy.x raw) then some (PtePy.ppn raw)
  else none

/-- `_level2_leaf`. -/
def level2Leaf (nativeMmu : NativeMmu) (raw va : Word) : Option (Word × BitVec 8) :=
  if nativeMmu then
    let l2 := pteParse raw
    if !(l2.v && l2.isLeaf) then none else some (pteAssemblePa l2.ppn va 1 >>> 12, l2.perm)
  else if !(PtePy.v raw && (PtePy.r raw || PtePy.x raw)) then none
  else
    let ppn := (PtePy.ppn raw &&& 0xFFFFFFFFFFFFFE00) ||| ((va >>> 12) &&& 0x1FF)
    some (ppn, PtePy.permFlags raw)

/-- `_level2_next_ppn`. Without the library the entry is not looked at. -/
def level2NextPpn (nativeMmu : NativeMmu) (raw : Word) : Option Word :=
  if nativeMmu then
    let l2 := pteParse raw
    if l2.v && l2.isPtr then some l2.ppn else none
  else some (PtePy.ppn raw)

/-- `_level3_leaf`. -/
def level3Leaf (nativeMmu : NativeMmu) (raw : Word) : Option (Word × BitVec 8) :=
  if nativeMmu then
    let l3 := pteParse raw
    if !(l3.v && l3.isLeaf) then none else some (l3.ppn, l3.perm)
  else if !(PtePy.v raw && (PtePy.r raw || PtePy.x raw)) then none
  else some (PtePy.ppn raw, PtePy.permFlags raw)

/-- `sv39_walk`: the page number, the permission bits and the size of the page, or the failure. The
outer `none` is the exception of a read that fails. -/
def sv39Walk (nativeMmu : NativeMmu) (rootPpn va : Word) (readPte : Word → Option Word) :
    Option (Option (Word × BitVec 8 × Nat)) := do
  let (vpn2, vpn1, vpn0) := sv39Vpn nativeMmu va
  let raw ← readPte (pteAddr rootPpn vpn2)
  match level1NextPpn nativeMmu raw with
  | none => return none
  | some l1Ppn =>
    let raw ← readPte (pteAddr l1Ppn vpn1)
    match level2Leaf nativeMmu raw va with
    | some (ppn, perm) => return some (ppn, perm, 2 * 1024 * 1024)
    | none =>
      match level2NextPpn nativeMmu raw with
      | none => return none
      | some l2Ppn =>
        let raw ← readPte (pteAddr l2Ppn vpn0)
        match level3Leaf nativeMmu raw with
        | none => return none
        | some (ppn, perm) => return some (ppn, perm, 4096)

/-- The 44 bits of `satp` that `translate_va` takes. -/
def rootPpn (satp : Word) : Word := satp &&& 0xFFFFFFFFFFF

/-- `translate_va`: the physical address with the permission bits, or the failure. -/
def translateVa (nativeMmu : NativeMmu) (va satp : Word) (readPte : Word → Option Word) :
    Option (Option (Word × BitVec 8)) :=
  let mode := satp >>> 60
  if mode = 0 then some (some (va, 0xF))
  else if mode = 8 then do
    match ← sv39Walk nativeMmu (rootPpn satp) va readPte with
    | none => return none
    | some (ppn, perm, _) => return some ((ppn <<< 12) ||| (va &&& 0xFFF), perm)
  else some none

/-- `_check_pte_perm`. -/
def checkPtePerm (effectiveMode : Mode) (perm : BitVec 8) (mstatus : Word) (isWrite isExecute : Bool) : Bool :=
  let pteU := perm.getLsbD 4
  let pteR := perm.getLsbD 1
  let pteW := perm.getLsbD 2
  let pteX := perm.getLsbD 3
  let refused :=
    if effectiveMode = .U then !pteU
    else if effectiveMode = .S then pteU && (isExecute || !sum mstatus)
    else false
  if refused then false
  else if isExecute then pteX
  else if isWrite then pteR && pteW
  else if !pteR then mxr mstatus && pteX
  else true

end MmuPy

/-! ## The memory of both walks -/

/-- The eight bytes at `pa` lie in main memory. -/
def Layout.InMain (l : Layout) (pa : Word) : Prop :=
  pa ≤ pa + 8 ∧ l.ramBase ≤ pa ∧ pa + 8 ≤ l.ramBase + l.ramSize

instance (l : Layout) (pa : Word) : Decidable (l.InMain pa) := inferInstanceAs (Decidable (_ ∧ _ ∧ _))

/-- The reader of the Python walk over the memory of the native one; it fails outside main memory. -/
def pteReader (c : WalkCtx) (pa : Word) : Option Word :=
  if c.toLayout.InMain pa then some (readLe c.ram (pa - c.ramBase).toNat 8) else none

/-- The entries that a walk from `root` reads, which stops at what is no pointer. -/
def entriesRead (c : WalkCtx) (root va : Word) : List Word :=
  let v := sv39DecomposeVa va
  let a2 := pteAddr root v.vpn2
  let p2 := pteParse (readPte c a2)
  let a1 := pteAddr p2.ppn v.vpn1
  let p1 := pteParse (readPte c a1)
  if p2.isPtr then if p1.isPtr then [a2, a1, pteAddr p1.ppn v.vpn0] else [a2, a1] else [a2]

/-- The page that the tables at `root` give to `va`. -/
def pageAt (c : WalkCtx) (root va : Word) : Option TranslateResult :=
  let v := sv39DecomposeVa va
  let p2 := pteParse (readPte c (pteAddr root v.vpn2))
  let p1 := pteParse (readPte c (pteAddr p2.ppn v.vpn1))
  let p0 := pteParse (readPte c (pteAddr p1.ppn v.vpn0))
  if p2.isPtr then
    if p1.isLeaf then some (l1Result p1.ppn p1.perm v.vpn0 v.offset)
    else if p1.isPtr && p0.isLeaf then some (l0Result p0.ppn p0.perm v.offset)
    else none
  else none

/-- The address that an access of kind `rwx` in mode `m` reaches through the tables at `root`. -/
def admitted (c : WalkCtx) (root va : Word) (m : Mode) (mstatus : Word) (rwx : Rwx) : Option Word :=
  ((pageAt c root va).filter fun r => checkPtePerm r.perm m mstatus (hasWrite rwx) (hasExec rwx)).map (·.pa)

/-- The second-level entry of `va` is invalid, and its page number leads to a valid leaf all the same. -/
def DanglingLeaf (c : WalkCtx) (root va : Word) : Prop :=
  let v := sv39DecomposeVa va
  let p2 := pteParse (readPte c (pteAddr root v.vpn2))
  let p1 := pteParse (readPte c (pteAddr p2.ppn v.vpn1))
  p2.isPtr = true ∧ p1.v = false ∧ (pteParse (readPte c (pteAddr p1.ppn v.vpn0))).isLeaf = true

instance (c : WalkCtx) (root va : Word) : Decidable (DanglingLeaf c root va) :=
  inferInstanceAs (Decidable (_ ∧ _ ∧ _))

/-! ## The comparison -/

/-- Sv39 is on, the TLBs are empty, PMP permits all of main memory and all entries that are read lie
there. -/
structure WalkSetting (s : HartState) (c : WalkCtx) (p : PmpCtx) (va : Word) (m : Mode) : Prop where
  satp_mode : s.satp >>> 60 = satpModeSv39
  mmu_mode : s.mmuMode = 8
  eff_mode : effectiveMode s = some m
  tlbs_empty : s.TlbsEmpty
  pmp_permits : ∀ a isWrite, c.toLayout.InMain a → pmpOk s a 8 isWrite false p = true
  python_reads : ∀ nativeMmu, (MmuPy.translateVa nativeMmu va s.satp (pteReader c)).isSome = true
  native_reads : ∀ a ∈ entriesRead c (satpRootPpn s.satp) va, c.toLayout.InMain a

/-- The Python translation and its check reach exactly the address that the native translation
returns, and the two variants of the Python translation are the same. -/
def WalksAgree (cfg : Features) (s : HartState) (c : WalkCtx) (p : PmpCtx) (va : Word) (rwx : Rwx) (m : Mode) :
    Prop :=
  (∀ nativeMmu pa,
    (∃ perm, MmuPy.translateVa nativeMmu va s.satp (pteReader c) = some (some (pa, perm)) ∧
      MmuPy.checkPtePerm m perm s.mstatus (hasWrite rwx) (hasExec rwx) = true) ↔
    ∃ r, (translateVa cfg s c va rwx p).2.2 = .ok r ∧ r.pa = pa) ∧
  MmuPy.translateVa true va s.satp (pteReader c) = MmuPy.translateVa false va s.satp (pteReader c)

end Pyremu
