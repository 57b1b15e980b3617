import Pyremu.Mem
import Pyremu.Pmp

/-!
# Sv39 translation

The page-table walk over guest RAM and the two set-associative TLBs of a hart.
A walk sets the accessed bit of every entry on the path and, for a write, the
dirty bit of the leaf. The compare-exchange of the source is kept together
with its failure branch; with one hart running it fails only when the expected
value is itself out of date.
-/

namespace Pyremu

open ByteMem

/-! ## Page-table entries -/

structure Sv39Vpn where
  vpn2 : Word
  vpn1 : Word
  vpn0 : Word
  offset : Word
  deriving DecidableEq, Repr

structure PteFields where
  ppn : Word
  perm : BitVec 8
  v : Bool
  isLeaf : Bool
  isPtr : Bool
  deriving DecidableEq, Repr

namespace Pte

def V : Word := 0x01
def R : Word := 0x02
def W : Word := 0x04
def X : Word := 0x08
def U : Word := 0x10
def A : Word := 0x40
def D : Word := 0x80

end Pte

def sv39DecomposeVa (va : Word) : Sv39Vpn where
  vpn2 := (va >>> 30) &&& 0x1FF
  vpn1 := (va >>> 21) &&& 0x1FF
  vpn0 := (va >>> 12) &&& 0x1FF
  offset := va &&& 0xFFF

def pteParse (raw : Word) : PteFields :=
  let v := decide (raw &&& Pte.V ≠ 0)
  let rOrX := raw &&& (Pte.R ||| Pte.X)
  { ppn := (raw >>> 10) &&& 0xFFFFFFFFFFF
    perm := (raw &&& (Pte.R ||| Pte.W ||| Pte.X ||| Pte.U)).setWidth 8
    v := v
    isLeaf := v && decide (rOrX ≠ 0)
    isPtr := v && decide (rOrX = 0) }

/-- The kinds of access, with the bits each of them requests. -/
inductive Rwx where
  | read | write | exec
  deriving DecidableEq, Repr

def hasRead : Rwx → Bool
  | .read => true
  | .write => true
  | .exec => false

def hasWrite : Rwx → Bool
  | .write => true
  | _ => false

def hasExec : Rwx → Bool
  | .exec => true
  | _ => false

structure TranslateResult where
  pa : Word
  perm : BitVec 8
  level : BitVec 8
  deriving DecidableEq, Repr

inductive TranslateFault where
  | pageFault (cause : Word)
  | accessFault
  deriving DecidableEq, Repr

/-- `mstatus.SUM`. -/
def sum (mstatus : Word) : Bool := mstatus.getLsbD 18

/-- `mstatus.MXR`. -/
def mxr (mstatus : Word) : Bool := mstatus.getLsbD 19

/-- Permission bits the walk itself insists on. -/
def ptePermNeeded (rwx : Rwx) (isMxr : Bool) : BitVec 8 :=
  (if hasRead rwx && !hasExec rwx && !isMxr then Pte.R.setWidth 8 else 0) |||
    (if hasWrite rwx then (Pte.R ||| Pte.W).setWidth 8 else 0)

/-! ## Page-table memory -/

/-- An entry outside RAM reads as zero, that is, as invalid. -/
def readPte (c : WalkCtx) (pa : Word) : Word :=
  match Translate.ramOffset c.toLayout pa 8 with
  | none => 0
  | some off => readLe c.ram off.toNat 8

def writePteCas (c : WalkCtx) (pa expected newVal : Word) : WalkCtx × Bool :=
  if newVal = expected then (c, true)
  else
    match Translate.ramOffset c.toLayout pa 8 with
    | none => (c, false)
    | some off =>
      if readLe c.ram off.toNat 8 = expected then
        ({ c with ram := writeLe c.ram off.toNat 8 newVal }, true)
      else (c, false)

def readPteChecked (s : HartState) (p : PmpCtx) (c : WalkCtx) (addr : Word) :
    Except TranslateFault Word :=
  if pmpOk s addr 8 false false p then .ok (readPte c addr) else .error .accessFault

def writePteCasChecked (s : HartState) (p : PmpCtx) (c : WalkCtx) (addr expected newVal : Word) :
    WalkCtx × Except TranslateFault Bool :=
  if newVal = expected then (c, .ok true)
  else if pmpOk s addr 8 true false p then
    let r := writePteCas c addr expected newVal
    (r.1, .ok r.2)
  else (c, .error .accessFault)

/-! ## The walk -/

/-- Address of entry `idx` of the table page `ppn`. -/
def pteAddr (ppn idx : Word) : Word := (ppn <<< 12) + idx * 8

/-- `pte.v == 0 || pte.is_leaf == 0 && pte.is_ptr == 0`. -/
def PteFields.unusable (pte : PteFields) : Bool := !pte.v || (!pte.isLeaf && !pte.isPtr)

/-- The body shared by `walk_l2` and `walk_l1`: read an entry, set its A bit,
and return the value that was read before the bit was set. -/
def walkLevel (c : WalkCtx) (s : HartState) (p : PmpCtx) (ppn idx : Word) :
    WalkCtx × Except TranslateFault (Option (Word × PteFields)) :=
  let addr := pteAddr ppn idx
  match readPteChecked s p c addr with
  | .error e => (c, .error e)
  | .ok raw =>
    let pte := pteParse raw
    if pte.unusable then (c, .ok none)
    else if raw &&& Pte.A ≠ 0 then (c, .ok (some (raw, pte)))
    else
      match writePteCasChecked s p c addr raw (raw ||| Pte.A) with
      | (c, .error e) => (c, .error e)
      | (c, .ok true) => (c, .ok (some (raw, pte)))
      | (c, .ok false) =>
        match readPteChecked s p c addr with
        | .error e => (c, .error e)
        | .ok raw2 =>
          let pte2 := pteParse raw2
          if pte2.unusable then (c, .ok none) else (c, .ok (some (raw2, pte2)))

def walkL2 (c : WalkCtx) (s : HartState) (p : PmpCtx) (rootPpn vpn2 : Word) :=
  walkLevel c s p rootPpn vpn2

def walkL1 (c : WalkCtx) (s : HartState) (p : PmpCtx) (l2Ppn vpn1 : Word) :=
  walkLevel c s p l2Ppn vpn1

/-- The new value of a leaf: A always, D for a write. -/
def leafUpdate (raw : Word) (rwx : Rwx) : Word :=
  let wantA := decide (raw &&& Pte.A = 0)
  let wantD := hasWrite rwx && decide (raw &&& Pte.D = 0)
  let raw := if wantA then raw ||| Pte.A else raw
  if wantD then raw ||| Pte.D else raw

def superPpn (ppn vpn0 : Word) : Word := (ppn &&& 0xFFFFFFFFFFFFFE00) ||| vpn0

/-- The mapping of a 2 MiB leaf. -/
def l1Result (ppn : Word) (perm : BitVec 8) (vpn0 offset : Word) : TranslateResult :=
  ⟨(superPpn ppn vpn0 <<< 12) ||| offset, perm, 1⟩

/-- The mapping of a 4 KiB leaf. -/
def l0Result (ppn : Word) (perm : BitVec 8) (offset : Word) : TranslateResult :=
  ⟨(ppn <<< 12) ||| offset, perm, 0⟩

/-- `l1Raw` is what `walk_l1` read, before it set the A bit. -/
def walkL1Leaf (c : WalkCtx) (s : HartState) (p : PmpCtx) (l1Addr l1Raw l1Ppn : Word)
    (perm : BitVec 8) (vpn0 offset : Word) (rwx : Rwx) :
    WalkCtx × Except TranslateFault (Option TranslateResult) :=
  let needPerm := ptePermNeeded rwx (mxr s.mstatus)
  if perm &&& needPerm ≠ needPerm then (c, .ok none)
  else
    let wantA := decide (l1Raw &&& Pte.A = 0)
    let wantD := hasWrite rwx && decide (l1Raw &&& Pte.D = 0)
    if !wantA && !wantD then (c, .ok (some (l1Result l1Ppn perm vpn0 offset)))
    else
      match writePteCasChecked s p c l1Addr l1Raw (leafUpdate l1Raw rwx) with
      | (c, .error e) => (c, .error e)
      | (c, .ok true) => (c, .ok (some (l1Result l1Ppn perm vpn0 offset)))
      | (c, .ok false) =>
        match readPteChecked s p c l1Addr with
        | .error e => (c, .error e)
        | .ok raw2 =>
          let pte2 := pteParse raw2
          if !pte2.v || !pte2.isLeaf || decide (pte2.perm &&& needPerm ≠ needPerm) then
            (c, .ok none)
          else (c, .ok (some (l1Result pte2.ppn pte2.perm vpn0 offset)))

def walkL0 (c : WalkCtx) (s : HartState) (p : PmpCtx) (l1Ppn vpn0 offset : Word) (rwx : Rwx) :
    WalkCtx × Except TranslateFault (Option TranslateResult) :=
  let addr := pteAddr l1Ppn vpn0
  match readPteChecked s p c addr with
  | .error e => (c, .error e)
  | .ok raw =>
    let pte := pteParse raw
    let needPerm := ptePermNeeded rwx (mxr s.mstatus)
    if !pte.v || !pte.isLeaf then (c, .ok none)
    else if pte.perm &&& needPerm ≠ needPerm then (c, .ok none)
    else
      let wantA := decide (raw &&& Pte.A = 0)
      let wantD := hasWrite rwx && decide (raw &&& Pte.D = 0)
      if !wantA && !wantD then (c, .ok (some (l0Result pte.ppn pte.perm offset)))
      else
        match writePteCasChecked s p c addr raw (leafUpdate raw rwx) with
        | (c, .error e) => (c, .error e)
        | (c, .ok true) => (c, .ok (some (l0Result pte.ppn pte.perm offset)))
        | (c, .ok false) =>
          match readPteChecked s p c addr with
          | .error e => (c, .error e)
          | .ok raw2 =>
            let pte2 := pteParse raw2
            if !pte2.v || !pte2.isLeaf then (c, .ok none)
            else if pte2.perm &&& needPerm ≠ needPerm then (c, .ok none)
            else (c, .ok (some (l0Result pte2.ppn pte2.perm offset)))

def satpModeSv39 : Word := 8

def satpRootPpn (satp : Word) : Word := satp &&& 0xFFFFFFFFF

def sv39Walk (c : WalkCtx) (s : HartState) (p : PmpCtx) (satp va : Word) (rwx : Rwx) :
    WalkCtx × Except TranslateFault (Option TranslateResult) :=
  if satp >>> 60 ≠ satpModeSv39 then (c, .ok none)
  else
    let vpn := sv39DecomposeVa va
    match walkL2 c s p (satpRootPpn satp) vpn.vpn2 with
    | (c, .error e) => (c, .error e)
    | (c, .ok none) => (c, .ok none)
    | (c, .ok (some (_, l2Pte))) =>
      if !l2Pte.isPtr then (c, .ok none)
      else
        match walkL1 c s p l2Pte.ppn vpn.vpn1 with
        | (c, .error e) => (c, .error e)
        | (c, .ok none) => (c, .ok none)
        | (c, .ok (some (l1Raw, l1Pte))) =>
          if l1Pte.isLeaf then
            walkL1Leaf c s p (pteAddr l2Pte.ppn vpn.vpn1) l1Raw l1Pte.ppn l1Pte.perm
              vpn.vpn0 vpn.offset rwx
          else walkL0 c s p l1Pte.ppn vpn.vpn0 vpn.offset rwx

/-! ## The TLBs -/

def tlbWays : Nat := 4

def tlbSets : Nat := tlbEntries / tlbWays

/-- High bits of a multiplicative hash of the page number. -/
def tlbSet (vpn : Word) : Nat := ((vpn * 0x9E3779B97F4A7C15) >>> 58).toNat

def tlbSlot (set way : Nat) : Nat := set + way * tlbSets

/-- First way of the set whose entry satisfies `f`. -/
def findWay (tlb : Tlb) (set : Nat) (f : TlbEntry → Bool) : Option Nat :=
  ((List.range tlbWays).find? fun w => f (tlb (tlbSlot set w))).map (tlbSlot set)

/-- An empty slot, else one not accessed, else clear the access bits and take way 0. -/
def setVictim (tlb : Tlb) (set : Nat) : Tlb × Nat :=
  match findWay tlb set fun e => !e.valid with
  | some i => (tlb, i)
  | none =>
    match findWay tlb set fun e => !e.accessed with
    | some i => (tlb, i)
    | none =>
      (fun i => if i ∈ (List.range tlbWays).map (tlbSlot set) then
          { tlb i with accessed := false } else tlb i,
        tlbSlot set 0)

inductive TlbResult where
  | hit (idx : Nat)
  | dirtyReuse (idx : Nat)
  | miss
  deriving DecidableEq, Repr

/-- The entry serves `vpn` in address space `asid`; a zero ASID on either side
matches everything. -/
def TlbEntry.serves (e : TlbEntry) (vpn : Word) (asid : BitVec 16) : Bool :=
  e.valid && e.vpn == vpn && (asid == 0 || e.asid == 0 || e.asid == asid)

def tlbLookup (tlb : Tlb) (vpn : Word) (asid : BitVec 16) : Tlb × TlbResult :=
  match findWay tlb (tlbSet vpn) fun e => e.serves vpn asid with
  | none => (tlb, .miss)
  | some i =>
    if (tlb i).dirty then (tlb, .dirtyReuse i)
    else (Function.update tlb i { tlb i with accessed := true }, .hit i)

/-- The slot already holding `vpn`, else a victim. -/
def tlbSlotForInsert (tlb : Tlb) (set : Nat) (vpn : Word) : Tlb × Nat :=
  match findWay tlb set fun e => e.valid && e.vpn == vpn with
  | some i => (tlb, i)
  | none => setVictim tlb set

/-- `prefer` is used only when it lies in the set of `vpn`. -/
def tlbInsertSlot (tlb : Tlb) (prefer : Option Nat) (vpn : Word) : Tlb × Nat :=
  match prefer with
  | some i =>
    if i < tlbEntries ∧ i % tlbSets = tlbSet vpn then (tlb, i)
    else tlbSlotForInsert tlb (tlbSet vpn) vpn
  | none => tlbSlotForInsert tlb (tlbSet vpn) vpn

def tlbInsert (tlb : Tlb) (prefer : Option Nat) (vpn ppn : Word) (perm level : BitVec 8)
    (mdid : Word) (asid : BitVec 16) : Tlb :=
  let r := tlbInsertSlot tlb prefer vpn
  Function.update r.1 r.2
    { vpn := vpn, ppn := ppn, perm := perm, level := level, valid := true, mdid := mdid,
      dirty := false, accessed := true, asid := asid }

def tlbMarkAllDirty (tlb : Tlb) : Tlb :=
  fun i => if (tlb i).valid then { tlb i with dirty := true } else tlb i

def tlbFlushAll (tlb : Tlb) : Tlb :=
  fun i => { tlb i with valid := false, dirty := false, accessed := false }

/-! ## Translation -/

/-- The mode translation runs under, `none` when it is bypassed. -/
def effectiveMode (s : HartState) : Option Mode :=
  if s.mode = .D then none
  else if s.mode ≠ .M then some s.mode
  else if !mprv s.mstatus then none
  else
    match mpp s.mstatus with
    | 0 => some .U
    | 1 => some .S
    | 2 => some .H
    | 3 => none

def checkPtePerm (perm : BitVec 8) (effMode : Mode) (mstatus : Word) (isWrite isExecute : Bool) :
    Bool :=
  let pteU := perm.getLsbD 4
  let pteR := perm.getLsbD 1
  let pteW := perm.getLsbD 2
  let pteX := perm.getLsbD 3
  if effMode = .U ∧ !pteU then false
  else if effMode = .S ∧ pteU ∧ (isExecute ∨ !sum mstatus) then false
  else if isExecute then pteX
  else if isWrite then pteR && pteW
  else pteR || (mxr mstatus && pteX)

def reconstructTlbPa (e : TlbEntry) (va : Word) : Word :=
  let offset := va &&& 0xFFF
  if e.level = 1 then (superPpn e.ppn ((va >>> 12) &&& 0x1FF) <<< 12) ||| offset
  else (e.ppn <<< 12) ||| offset

def faultCode (isExecute isWrite : Bool) : Word :=
  if isExecute then 12 else if isWrite then 15 else 13

inductive TlbProbeResult where
  | hit (r : TranslateResult)
  | fault (f : TranslateFault)
  | walk (reuse : Option Nat)
  deriving DecidableEq, Repr

/-- `cntBefore` and `cntAfter` are the two loads of the flush counter around the
lookup; without a counter both are `none`. -/
def tlbProbe (tlb : Tlb) (vpn va : Word) (asid : BitVec 16) (cntBefore cntAfter : Option Word)
    (effMode : Mode) (mstatus : Word) (isWrite isExecute : Bool) : Tlb × TlbProbeResult :=
  match tlbLookup tlb vpn asid with
  | (tlb, .hit i) =>
    if cntBefore ≠ cntAfter then
      (Function.update tlb i { tlb i with valid := false }, .walk none)
    else if !checkPtePerm (tlb i).perm effMode mstatus isWrite isExecute then
      (tlb, .fault (.pageFault (faultCode isExecute isWrite)))
    else (tlb, .hit ⟨reconstructTlbPa (tlb i) va, (tlb i).perm, (tlb i).level⟩)
  | (tlb, .dirtyReuse i) => (tlb, .walk (some i))
  | (tlb, .miss) => (tlb, .walk none)

def HartState.tlb (s : HartState) (isExecute : Bool) : Tlb := if isExecute then s.itlb else s.dtlb

def HartState.setTlb (s : HartState) (isExecute : Bool) (t : Tlb) : HartState :=
  if isExecute then { s with itlb := t } else { s with dtlb := t }

def recordTlbAccess (s : HartState) (isExecute isHit : Bool) : HartState :=
  match isExecute, isHit with
  | true, true => { s with itlbHits := s.itlbHits + 1 }
  | true, false => { s with itlbMisses := s.itlbMisses + 1 }
  | false, true => { s with dtlbHits := s.dtlbHits + 1 }
  | false, false => { s with dtlbMisses := s.dtlbMisses + 1 }

def TlbProbeResult.isHit : TlbProbeResult → Bool
  | .walk _ => false
  | _ => true

def tlbProbeCounted (cfg : Features) (s : HartState) (c : WalkCtx) (va vpn : Word)
    (asid : BitVec 16) (effMode : Mode) (isWrite isExecute : Bool) : HartState × TlbProbeResult :=
  if cfg.noTlb then (s, .walk none)
  else
    let r := tlbProbe (s.tlb isExecute) vpn va asid c.tlbFlushCnt c.tlbFlushCnt effMode s.mstatus
      isWrite isExecute
    (recordTlbAccess (s.setTlb isExecute r.1) isExecute r.2.isHit, r.2)

/-- The page number stored in the TLB. -/
def TranslateResult.ppnForTlb (r : TranslateResult) : Word :=
  if r.level = 1 then (r.pa >>> 12) &&& 0xFFFFFFFFFFFFFE00 else r.pa >>> 12

def satpAsid (satp : Word) : BitVec 16 := satp.extractLsb' 44 16

/-- The part of `translate_va` after a TLB miss: walk, check, insert. -/
def translateWalk (cfg : Features) (s : HartState) (c : WalkCtx) (va : Word) (rwx : Rwx)
    (p : PmpCtx) (effMode : Mode) (cntBefore : Option Word) (reuse : Option Nat) :
    HartState × WalkCtx × Except TranslateFault TranslateResult :=
  let isWrite := hasWrite rwx
  let isExecute := hasExec rwx
  match sv39Walk c s p s.satp va rwx with
  | (c, .error e) => (s, c, .error e)
  | (c, .ok none) => (s, c, .error (.pageFault (faultCode isExecute isWrite)))
  | (c, .ok (some r)) =>
    if !checkPtePerm r.perm effMode s.mstatus isWrite isExecute then
      (s, c, .error (.pageFault (faultCode isExecute isWrite)))
    else if cntBefore = c.tlbFlushCnt ∧ !cfg.noTlb then
      let tlb := tlbInsert (s.tlb isExecute) reuse (va >>> 12) r.ppnForTlb r.perm r.level s.mdid
        (satpAsid s.satp)
      (s.setTlb isExecute tlb, c, .ok r)
    else (s, c, .ok r)

def translateVa (cfg : Features) (s : HartState) (c : WalkCtx) (va : Word) (rwx : Rwx)
    (p : PmpCtx) : HartState × WalkCtx × Except TranslateFault TranslateResult :=
  if s.mmuMode ≠ 8 then (s, c, .ok ⟨va, 0xF, 0⟩)
  else
    match effectiveMode s with
    | none => (s, c, .ok ⟨va, 0xF, 0⟩)
    | some effMode =>
      match tlbProbeCounted cfg s c va (va >>> 12) (satpAsid s.satp) effMode (hasWrite rwx)
          (hasExec rwx) with
      | (s, .hit r) => (s, c, .ok r)
      | (s, .fault f) => (s, c, .error f)
      | (s, .walk reuse) => translateWalk cfg s c va rwx p effMode c.tlbFlushCnt reuse

end Pyremu
