import Mathlib
import Pyremu.WalkAgree
import Pyremu.Lib.Run

/-!
# The TLB of the Python hart

`memory/tlb.py` keeps fragments of 4 KiB, also of larger pages, under their page
number. A fence that names an address reaches the fragment with that number.
-/

namespace Pyremu

open ByteMem

structure TlbLine where
  tag : Word
  valid : Bool
  ppn : Word
  perm : BitVec 8
  level : Nat
  mdid : Word
  asid : BitVec 16
  deriving DecidableEq

/-- `TLB` with the policy FIFO; `noTlb` is the configuration `PYREMU_NO_TLB`. -/
structure TlbPy where
  noTlb : Bool
  size : Nat
  entries : Nat → TlbLine
  fifoPtr : Nat
  tagToIdx : Word → Option Nat

namespace TlbPy

variable (t : TlbPy)

def init (noTlb : Bool) (size : Nat) : TlbPy where
  noTlb := noTlb
  size := size
  entries := fun _ => { tag := 0, valid := false, ppn := 0, perm := 0, level := 0, mdid := 0, asid := 0 }
  fifoPtr := 0
  tagToIdx := fun _ => none

/-- `_find_by_tag`: an index that does not lead to a line of the tag is dropped. -/
def findByTag (tag : Word) : Option TlbLine × TlbPy :=
  match t.tagToIdx tag with
  | none => (none, t)
  | some idx =>
    if (t.entries idx).valid = true ∧ (t.entries idx).tag = tag then (some (t.entries idx), t)
    else (none, { t with tagToIdx := Function.update t.tagToIdx tag none })

/-- `lookup`: page number and permissions of a hit. -/
def lookup (vpn : Word) (asid : BitVec 16) : Option (Word × BitVec 8) × TlbPy :=
  if t.noTlb then (none, t)
  else
    let r := t.findByTag vpn
    match r.1 with
    | none => (none, r.2)
    | some e => if asid ≠ 0 ∧ ¬ (e.asid = 0 ∨ e.asid = asid) then (none, r.2) else (some (e.ppn, e.perm), r.2)

/-- The end of `insert`: the next line in turn is taken. -/
def replace (vpn ppn : Word) (perm : BitVec 8) (level : Nat) (mdid : Word) (asid : BitVec 16) : TlbPy :=
  let idx := t.fifoPtr
  let victim := t.entries idx
  let tags := if victim.valid then Function.update t.tagToIdx victim.tag none else t.tagToIdx
  { t with
    fifoPtr := (t.fifoPtr + 1) % t.size
    entries := Function.update t.entries idx ⟨vpn, true, ppn, perm, level, mdid, asid⟩
    tagToIdx := Function.update tags vpn (some idx) }

def insert (vpn ppn : Word) (perm : BitVec 8) (level : Nat) (mdid : Word) (asid : BitVec 16) : TlbPy :=
  if t.noTlb then t
  else
    match t.tagToIdx vpn with
    | some idx =>
      if (t.entries idx).valid = true ∧ (t.entries idx).tag = vpn then
        { t with entries := Function.update t.entries idx ⟨vpn, true, ppn, perm, level, mdid, asid⟩ }
      else t.replace vpn ppn perm level mdid asid
    | none => t.replace vpn ppn perm level mdid asid

def flushAll : TlbPy :=
  if t.noTlb then t
  else { t with entries := fun i => { t.entries i with tag := 0, valid := false }, tagToIdx := fun _ => none }

/-- `flush`: page number 0 stands for all. -/
def flush (vpn : Word) : TlbPy :=
  if vpn = 0 then t.flushAll
  else
    match t.tagToIdx vpn with
    | none => t
    | some idx =>
      let t := { t with tagToIdx := Function.update t.tagToIdx vpn none }
      if (t.entries idx).valid = true ∧ (t.entries idx).tag = vpn then
        { t with
          entries := Function.update t.entries idx
            { t.entries idx with valid := false, tag := 0, ppn := 0, perm := 0, level := 0 } }
      else t

/-- One line of `flush_by_mdid`. -/
def flushLine (mdid : Word) (t : TlbPy) (i : Nat) : TlbPy :=
  if (t.entries i).valid = true ∧ (t.entries i).mdid = mdid then
    { t with
      tagToIdx := Function.update t.tagToIdx (t.entries i).tag none
      entries := Function.update t.entries i { t.entries i with valid := false, tag := 0 } }
  else t

def flushByMdid (mdid : Word) : TlbPy :=
  if t.noTlb then t else (List.range t.size).foldl (flushLine mdid) t

end TlbPy

/-! ## Translation -/

namespace MmuPy

/-- The addresses of the entries that a walk reads. -/
def walkReads (nativeMmu : NativeMmu) (va satp : Word) (read : Word → Word) : List Word :=
  let (vpn2, vpn1, vpn0) := sv39Vpn nativeMmu va
  let a2 := pteAddr (rootPpn satp) vpn2
  match level1NextPpn nativeMmu (read a2) with
  | none => [a2]
  | some l1Ppn =>
    let a1 := pteAddr l1Ppn vpn1
    match level2Leaf nativeMmu (read a1) va with
    | some _ => [a2, a1]
    | none =>
      match level2NextPpn nativeMmu (read a1) with
      | none => [a2, a1]
      | some l2Ppn => [a2, a1, pteAddr l2Ppn vpn0]

end MmuPy

/-- What `translate_addr` returns, or the `AccessFaultError` that it raises. -/
inductive MmuResult where
  | ok (pa : Word)
  | refused
  | accessFault
  deriving DecidableEq

/-- What a translation uses of a hart, with the memory of the page tables. -/
structure MmuHart where
  satp : Word
  mmuMode : Word
  mode : Mode
  mstatus : Word
  mdid : Word
  dtlb : TlbPy
  mem : Mem

/-- The surroundings of a hart: the native library, the PMP verdict on a read of a table entry under a
mode and an mstatus, and the device windows. -/
structure MmuEnv where
  nativeMmu : MmuPy.NativeMmu
  pmpCheck : Mode → Word → Word → Bool
  isDeviceAddr : Word → Bool

namespace MmuHart

variable (env : MmuEnv) (h : MmuHart)

/-- `_effective_mode`. -/
def effectiveMode : Option Mode :=
  if h.mode = .D then none
  else if h.mode = .M then
    if mprv h.mstatus = false ∨ mpp h.mstatus = 3 then none
    else
      match mpp h.mstatus with
      | 0 => some .U
      | 1 => some .S
      | _ => some .H
  else some h.mode

def asid : BitVec 16 := (h.satp >>> 44).setWidth 16

/-- An entry of a page table. -/
def readPte (a : Word) : Word := readLe h.mem a.toNat 8

/-- `_page_walk_reader`. -/
def pageWalkReader (a : Word) : Option Word :=
  if env.pmpCheck h.mode h.mstatus a then some (h.readPte a) else none

/-- `_translate_page_walk`, with the TLB that it leaves. -/
def translatePageWalk (m : Mode) (va : Word) (isWrite isExecute : Bool) : MmuResult × TlbPy :=
  match MmuPy.translateVa env.nativeMmu va h.satp (h.pageWalkReader env) with
  | none => (.accessFault, h.dtlb)
  | some none => (.refused, h.dtlb)
  | some (some (pa, perm)) =>
    if MmuPy.checkPtePerm m perm h.mstatus isWrite isExecute = false then (.refused, h.dtlb)
    else if env.isDeviceAddr pa then (.ok pa, h.dtlb)
    else (.ok pa, h.dtlb.insert (va >>> 12) (pa >>> 12) perm 0 h.mdid h.asid)

/-- `translate_addr` of an access of the hart. -/
def translateAddr (va : Word) (isWrite isExecute : Bool) : MmuResult × MmuHart :=
  if h.mmuMode = 0 then (.ok va, h)
  else
    match h.effectiveMode with
    | none => (.ok va, h)
    | some m =>
      let r := h.dtlb.lookup (va >>> 12) h.asid
      let h := { h with dtlb := r.2 }
      match r.1 with
      | some (ppn, perm) =>
        if MmuPy.checkPtePerm m perm h.mstatus isWrite isExecute = false then (.refused, h)
        else (.ok ((ppn <<< 12) ||| (va &&& 0xFFF)), h)
      | none =>
        let w := h.translatePageWalk env m va isWrite isExecute
        (w.1, { h with dtlb := w.2 })

/-- The setter of `satp`: the address-space id is wired to 0 and the TLB is flushed. -/
def writeSatp (v : Word) : MmuHart :=
  let v := v &&& ~~~((0xFFFF : Word) <<< 44)
  { h with satp := v, dtlb := h.dtlb.flushAll, mmuMode := v >>> 60 }

/-- `_sys_sfence_vma` of this hart or another: without an address, or for one. -/
def sfenceVma (rs1 : Option Word) : MmuHart :=
  match rs1 with
  | none => { h with dtlb := h.dtlb.flushAll }
  | some va => { h with dtlb := h.dtlb.flush (va >>> 12) }

/-- `_sys_mfence_did`. -/
def mfenceDid (mdid : Word) : MmuHart := { h with dtlb := h.dtlb.flushByMdid mdid }

/-- The translation of a walk without TLB. -/
def freshTranslate (va : Word) (isWrite isExecute : Bool) : MmuResult :=
  if h.mmuMode = 0 then .ok va
  else
    match h.effectiveMode with
    | none => .ok va
    | some m => (h.translatePageWalk env m va isWrite isExecute).1

end MmuHart

/-! ## Runs -/

/-- The page of a leaf, of 2 MiB or of 4 KiB: the bits of the page number that select its entry. -/
structure SvPage where
  mega : Bool
  number : Word
  deriving DecidableEq

/-- The page has the fragment with page number `vpn`; walks look at 27 bits of it. -/
def SvPage.Has (pg : SvPage) (vpn : Word) : Prop :=
  if pg.mega then (vpn >>> 9) &&& 0x3FFFF = pg.number else vpn &&& 0x7FFFFFF = pg.number

instance (pg : SvPage) (vpn : Word) : Decidable (pg.Has vpn) := inferInstanceAs (Decidable (ite _ _ _))

/-- A translation, a store to a leaf entry that maps a page, fences, a write of `satp`, and what a trap,
a return or a CSR write makes of mode and mstatus. -/
inductive MmuOp where
  | translate (va : Word) (isWrite isExecute : Bool)
  | modify (a pte : Word) (pg : SvPage)
  | sfenceVma (rs1 : Option Word)
  | mfenceDid (mdid : Word)
  | writeSatp (v : Word)
  | enter (mode : Mode) (mstatus : Word)

/-- A hart with the pages whose modified leaf waits for its fence. -/
structure Fencing where
  hart : MmuHart
  owed : List SvPage

namespace Fencing

variable (env : MmuEnv) (t : Fencing)

def step : MmuOp → Fencing
  | .translate va isWrite isExecute => { t with hart := (t.hart.translateAddr env va isWrite isExecute).2 }
  | .modify a pte pg =>
    { hart := { t.hart with mem := writeLe t.hart.mem a.toNat 8 pte }, owed := pg :: t.owed }
  | .sfenceVma none => { hart := t.hart.sfenceVma none, owed := [] }
  | .sfenceVma (some va) =>
    { hart := t.hart.sfenceVma (some va), owed := t.owed.filter fun pg => ¬ pg.Has (va >>> 12) }
  | .mfenceDid mdid => { t with hart := t.hart.mfenceDid mdid }
  | .writeSatp v => { t with hart := t.hart.writeSatp v }
  | .enter mode mstatus => { t with hart := { t.hart with mode := mode, mstatus := mstatus } }

/-- What the walk from `satp` finds for an address. -/
def walkOf (env : MmuEnv) (h : MmuHart) (va : Word) : Option (Option (Word × BitVec 8)) :=
  MmuPy.translateVa env.nativeMmu va h.satp fun a => some (h.readPte a)

/-- A modified leaf maps its page and no other, and there is no translation before its fence. -/
def Protocol : MmuOp → Prop
  | .translate _ _ _ => t.owed = []
  | .modify a pte pg => ∀ va : Word, ¬ pg.Has (va >>> 12) →
      walkOf env { t.hart with mem := writeLe t.hart.mem a.toNat 8 pte } va = walkOf env t.hart va
  | _ => True

/-- A translation returns what a fresh walk returns. -/
def Agrees : MmuOp → Prop
  | .translate va isWrite isExecute =>
    (t.hart.translateAddr env va isWrite isExecute).1 = t.hart.freshTranslate env va isWrite isExecute
  | _ => True

instance (op : MmuOp) : Decidable (t.Agrees env op) :=
  match op with
  | .translate _ _ _ => inferInstanceAs (Decidable (_ = _))
  | .modify _ _ _ | .sfenceVma _ | .mfenceDid _ | .writeSatp _ | .enter _ _ => .isTrue trivial

/-- A fence that names an address finds no other fragment of a modified page in the TLB, unless it
flushes all; and PMP permits the table reads of a translation that hits. -/
def Meets : MmuOp → Prop
  | .translate va _ _ =>
    t.hart.mmuMode ≠ 0 → t.hart.effectiveMode ≠ none → (t.hart.dtlb.lookup (va >>> 12) t.hart.asid).1 ≠ none →
      ∀ a ∈ MmuPy.walkReads env.nativeMmu va t.hart.satp t.hart.readPte,
        env.pmpCheck t.hart.mode t.hart.mstatus a = true
  | .sfenceVma (some va) =>
    va >>> 12 = 0 ∨ ∀ pg ∈ t.owed, pg.Has (va >>> 12) → ∀ i, (t.hart.dtlb.entries i).valid = true →
      pg.Has (t.hart.dtlb.entries i).tag → (t.hart.dtlb.entries i).tag = va >>> 12
  | _ => True

end Fencing

end Pyremu
