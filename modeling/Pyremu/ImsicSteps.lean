import Pyremu.Csr
import Pyremu.Lib.Backlog

/-!
# The IMSIC code in atomic steps

One interrupt file of one hart, with the `mip` line it drives, and any number of
harts that work on it. A hart carries the list of atomic accesses it still has
to make; each access may put further ones in front. Two ghosts serve the claim
of an identity: the one `csr_read` has reported, and the identities set since
the reported occurrence was cleared.
-/

namespace Pyremu

structure ImsicShared where
  hart : HartState
  reported : Option (BitVec 32)
  late : List (BitVec 32)

/-- One atomic access, named after the operation of the source. -/
inductive Micro where
  | orEip (num : BitVec 32)
  | orAny
  | orMip
  | andMip
  | ack (iid : BitVec 32)
  | clrEip (num : BitVec 32)
  | dropEip (num : BitVec 32) (first : Bool)
  | raiseEip (num : BitVec 32)
  | storeEip (w : Nat) (v : BitVec 32) (high : Option (BitVec 32))
  | scan (i : Nat)
  | storeAny (any : Bool)
  | peekSync
  | peekClear
  | loadMip
  | peekCleanup
  | topei
  | topeiAny
  | topeiScan (i : Nat)
  | claim (iid : BitVec 32) (first : Bool)
  deriving DecidableEq, Repr

/-- The operations a hart may start. `writeEip`, `setEipNum` and `clrEipNum` are the writes of
`imsic_reg_write` to `eip`, `dropIpi` is one round of `imsic_clear_ipi_on_trap`, `cleanup` the
removal of a stale line in `step_interrupts`, `topei` a CSR instruction on MTOPEI or STOPEI. -/
inductive ImsicOp where
  | eipSet (num : BitVec 32)
  | eipClear (num : BitVec 32)
  | sync
  | cleanup
  | claim (iid : BitVec 32)
  | writeEip (idx : Nat) (v : Word)
  | setEipNum (num : BitVec 32)
  | clrEipNum (num : BitVec 32)
  | dropIpi (iid : BitVec 32)
  | topei

def ImsicOp.steps : ImsicOp → List Micro
  | .eipSet num => if eipWords ≤ eipWordOf num then [] else [.orEip num]
  | .eipClear num => if eipWords ≤ eipWordOf num then [] else [.clrEip num]
  | .sync => [.peekSync]
  | .cleanup => [.loadMip]
  | .claim iid => [.claim iid false]
  | .writeEip idx v =>
    [.storeEip idx (v.setWidth 32) (if idx + 1 < eipWords then some ((v >>> 32).setWidth 32) else none)]
  | .setEipNum num => if num < maxIid then [.raiseEip num] else []
  | .clrEipNum num => if num < maxIid then [.dropEip num false] else []
  | .dropIpi iid => if eipWordOf iid < eipWords then [.dropEip iid false] else []
  | .topei => [.topei]

/-- The bit of `mip` that the file drives. -/
def imsicLine (mfile : Bool) : Nat := if mfile then 11 else 9

/-- The line of `mip` that `handle_csr` clears beside the file's own. -/
def ackMask (mfile : Bool) (iid : BitVec 32) : Word :=
  if mfile ∧ iid = 3 then bit 3
  else if !mfile ∧ iid = 1 then bit 1
  else if !mfile ∧ iid = 5 then bit 5
  else if mfile ∧ iid = 7 then bit 7
  else 0

/-- The stale test of `step_interrupts`. -/
def staleLine (f : ImsicFile) : Bool :=
  if f.eidelivery ≠ 0 then decide (imsicTopeiPeek f = 0)
  else decide (f.eip 0 &&& (1#32 <<< 3 ||| 1#32 <<< 1) = 0)

/-- What `step_interrupts` does about one file: a line that is set and stale is cleared. -/
def clearStaleLine (s : HartState) (mfile : Bool) : HartState :=
  let f := s.imsicFile mfile
  if f.present ∧ s.mip &&& imsicMipBit mfile ≠ 0 then
    if staleLine f then s.clearMip (imsicMipBit mfile) else s
  else s

theorem HartState.imsicFile_setImsicFile (s : HartState) (mfile : Bool) (f : ImsicFile) :
    (s.setImsicFile mfile f).imsicFile mfile = f := by
  cases mfile <;> rfl

theorem HartState.setImsicFile_setImsicFile (s : HartState) (mfile : Bool) (f f' : ImsicFile) :
    (s.setImsicFile mfile f).setImsicFile mfile f' = s.setImsicFile mfile f' := by
  cases mfile <;> rfl

namespace ImsicShared

variable (mfile : Bool) (g : ImsicShared)

def file : ImsicFile := g.hart.imsicFile mfile

def putFile (f : ImsicFile) : ImsicShared := { g with hart := g.hart.setImsicFile mfile f }

def putMip (s : HartState) : ImsicShared := { g with hart := s }

/-- `file.eip[word].fetch_or`. -/
def setEip (num : BitVec 32) : ImsicShared :=
  let f := g.file mfile
  let w := eipWordOf num
  g.putFile mfile { f with eip := Function.update f.eip w (f.eip w ||| eipBitAt num) }

/-- `file.eip[word].fetch_and`. -/
def clearEip (num : BitVec 32) : ImsicShared :=
  let f := g.file mfile
  let w := eipWordOf num
  g.putFile mfile { f with eip := Function.update f.eip w (f.eip w &&& ~~~(eipBitAt num)) }

theorem file_putFile (f : ImsicFile) : (g.putFile mfile f).file mfile = f :=
  g.hart.imsicFile_setImsicFile mfile f

theorem putFile_putFile (f f' : ImsicFile) :
    (g.putFile mfile f).putFile mfile f' = g.putFile mfile f' := by
  simp only [putFile, HartState.setImsicFile_setImsicFile]

theorem putFile_file : g.putFile mfile (g.file mfile) = g := by
  cases mfile <;> rfl

theorem file_setEip (num : BitVec 32) :
    (g.setEip mfile num).file mfile = { g.file mfile with
      eip := Function.update (g.file mfile).eip (eipWordOf num)
        ((g.file mfile).eip (eipWordOf num) ||| eipBitAt num) } :=
  file_putFile ..

theorem file_clearEip (num : BitVec 32) :
    (g.clearEip mfile num).file mfile = { g.file mfile with
      eip := Function.update (g.file mfile).eip (eipWordOf num)
        ((g.file mfile).eip (eipWordOf num) &&& ~~~(eipBitAt num)) } :=
  file_putFile ..

/-- The test of `imsic_topei_claim_iid` before it clears. -/
def claimable (iid : BitVec 32) : Bool :=
  let f := g.file mfile
  let word := eipWordOf iid
  let isSw := decide (iid = iidMIpi ∨ iid = iidSIpi)
  if iid = 0 ∨ maxIid ≤ iid then false
  else if !isSw && f.eidelivery == 0 then false
  else decide (word < eipWords ∧ (if isSw then f.eip word else f.eip word &&& f.eie word) &&& eipBitAt iid ≠ 0)

/-- The answer of `csr_read` and what the rest of the instruction does with it. -/
def report (raw : Word) : ImsicShared × List Micro :=
  let iid : BitVec 32 := (raw >>> 16).setWidth 32
  ({ g with reported := some iid, late := [] },
    if raw ≠ 0 then [.claim iid true, .peekSync, .claim iid false, .ack iid, .peekSync]
    else [.claim iid false, .ack iid, .peekSync])

end ImsicShared

/-- One access, and what it puts in front of the rest. -/
def Micro.exec (mfile : Bool) (g : ImsicShared) : Micro → ImsicShared × List Micro
  | .orEip num => ({ g.setEip mfile num with late := g.late ++ [num] }, [.orAny])
  | .orAny => (g.putFile mfile { g.file mfile with eipExtAny := true }, [.orMip])
  | .orMip => (g.putMip (g.hart.setMip (imsicMipBit mfile)), [])
  | .andMip => (g.putMip (g.hart.clearMip (imsicMipBit mfile)), [])
  | .ack iid => (g.putMip (g.hart.clearMip (ackMask mfile iid)), [])
  | .clrEip num => (g.clearEip mfile num, [.peekClear])
  | .dropEip num first =>
    ({ g.clearEip mfile num with late := if first then [] else g.late }, [.scan 0])
  | .raiseEip num => (g.setEip mfile num, [.scan 0])
  | .storeEip w v high =>
    let f := g.file mfile
    (g.putFile mfile { f with eip := Function.update f.eip w v },
      match high with
      | some v => [.storeEip (w + 1) v none]
      | none => [.scan 0])
  | .scan i =>
    if (g.file mfile).eip i ≠ 0 then (g, [.storeAny true])
    else if i + 1 < eipWords then (g, [.scan (i + 1)])
    else (g, [.storeAny false])
  | .storeAny any => (g.putFile mfile { g.file mfile with eipExtAny := any }, [])
  | .peekSync =>
    let f := g.file mfile
    if !f.present then (g, [])
    else if imsicTopeiPeek f ≠ 0 then (g, [.orMip])
    else if f.eidelivery ≠ 0 then (g, [.andMip])
    else (g, [])
  | .peekClear => if imsicTopeiPeek (g.file mfile) = 0 then (g, [.andMip]) else (g, [])
  | .loadMip =>
    if (g.file mfile).present ∧ g.hart.mip &&& imsicMipBit mfile ≠ 0 then (g, [.peekCleanup]) else (g, [])
  | .peekCleanup => if staleLine (g.file mfile) then (g, [.andMip]) else (g, [])
  | .topei =>
    let ipiPending := (g.file mfile).eip 0 &&& (1#32 <<< 3 ||| 1#32 <<< 1)
    if ipiPending ≠ 0 then g.report (topeiValue (highestBit ipiPending)) else (g, [.topeiAny])
  | .topeiAny =>
    let f := g.file mfile
    if f.eidelivery = 0 ∨ f.eipExtAny = false then g.report 0 else (g, [.topeiScan (eipWords - 1)])
  | .topeiScan i =>
    match topeiWord (g.file mfile) i with
    | some raw => g.report raw
    | none => if i = 0 then g.report 0 else (g, [.topeiScan (i - 1)])
  | .claim iid first => if g.claimable mfile iid then (g, [.dropEip iid first]) else (g, [])

/-! ## One hart alone -/

/-- The accesses, made one after the other, lead from `g` to `g'`. -/
abbrev Completes (mfile : Bool) : ImsicShared → List Micro → ImsicShared → Prop :=
  Backlog.Completes (Micro.exec mfile)

namespace Completes

/-- `imsic_eip_set` from its first access to its last. -/
theorem eipSet (mfile : Bool) (g : ImsicShared) (num : BitVec 32) :
    ∃ g', Completes mfile g (ImsicOp.eipSet num).steps g' ∧ g'.hart = imsicEipSet g.hart (!mfile) num := by
  simp only [ImsicOp.steps, imsicEipSet]
  by_cases hw : eipWords ≤ eipWordOf num
  · rw [if_pos hw, if_pos hw]
    exact ⟨g, .done g, rfl⟩
  · rw [if_neg hw, if_neg hw]
    refine ⟨_, .step (.step (.step (.done _))), ?_⟩
    simp only [Micro.exec, ImsicShared.setEip, ImsicShared.putMip, ImsicShared.putFile,
      ImsicShared.file, HartState.imsicFile_setImsicFile, HartState.setImsicFile_setImsicFile,
      Bool.not_not]

/-- The loop of `imsic_update_eip_ext_any` from word `i` on. -/
theorem scan (mfile : Bool) (g : ImsicShared) (n i : Nat) (hn : i + n = eipWords) (hpos : 0 < n)
    (hz : ∀ j < i, (g.file mfile).eip j = 0) :
    Completes mfile g [.scan i] (g.putFile mfile (imsicUpdateEipExtAny (g.file mfile))) := by
  induction n generalizing i with
  | zero => cases hpos
  | succ n ih =>
    refine .step ?_
    simp only [Micro.exec]
    by_cases h : (g.file mfile).eip i ≠ 0
    · rw [if_pos h]
      refine .step ?_
      have hany : (List.range eipWords).any (fun j => decide ((g.file mfile).eip j ≠ 0)) = true := by
        rw [List.any_eq_true]
        exact ⟨i, List.mem_range.mpr (by omega), decide_eq_true h⟩
      simp only [Micro.exec, imsicUpdateEipExtAny, hany]
      exact .done _
    · rw [if_neg h]
      have hz' : ∀ j < i + 1, (g.file mfile).eip j = 0 := by
        intro j hj
        rcases Nat.lt_succ_iff_lt_or_eq.mp hj with hlt | rfl
        · exact hz j hlt
        · exact not_not.mp h
      by_cases hi : i + 1 < eipWords
      · rw [if_pos hi]
        exact ih (i + 1) (by omega) (by omega) hz'
      · rw [if_neg hi]
        refine .step ?_
        have hany : (List.range eipWords).any (fun j => decide ((g.file mfile).eip j ≠ 0)) = false := by
          rw [List.any_eq_false]
          intro j hj
          simp only [hz' j (by have := List.mem_range.mp hj; omega), ne_eq, not_true, decide_false,
            Bool.false_eq_true, not_false_eq_true]
        simp only [Micro.exec, imsicUpdateEipExtAny, hany]
        exact .done _

theorem update (mfile : Bool) (g : ImsicShared) :
    Completes mfile g [.scan 0] (g.putFile mfile (imsicUpdateEipExtAny (g.file mfile))) :=
  scan mfile g eipWords 0 (Nat.zero_add _) (by decide) fun j hj => absurd hj (Nat.not_lt_zero j)

/-- The summary is brought up to date after a change of the file. -/
theorem update_putFile (mfile : Bool) (g : ImsicShared) (f : ImsicFile) :
    Completes mfile (g.putFile mfile f) [.scan 0] (g.putFile mfile (imsicUpdateEipExtAny f)) := by
  have h := update mfile (g.putFile mfile f)
  rwa [ImsicShared.file_putFile, ImsicShared.putFile_putFile] at h

/-- A bit of `eip` is cleared and the summary brought up to date. -/
theorem dropEip (mfile : Bool) (g : ImsicShared) (num : BitVec 32) (first : Bool) :
    ∃ g', Completes mfile g [.dropEip num first] g' ∧
      g'.hart = (g.putFile mfile (imsicUpdateEipExtAny { g.file mfile with
        eip := Function.update (g.file mfile).eip (eipWordOf num)
          ((g.file mfile).eip (eipWordOf num) &&& ~~~(eipBitAt num)) })).hart :=
  ⟨_, .step (update_putFile mfile { g with late := if first then [] else g.late } _), rfl⟩

/-- `imsic_topei_claim_iid`. -/
theorem claim (mfile : Bool) (g : ImsicShared) (iid : BitVec 32) (first : Bool) :
    ∃ g', Completes mfile g [.claim iid first] g' ∧
      g'.hart = (g.putFile mfile (imsicTopeiClaimIid (g.file mfile) iid)).hart := by
  by_cases hc : g.claimable mfile iid = true
  · obtain ⟨g', hrun, hg'⟩ := dropEip mfile g iid first
    refine ⟨g', .step ?_, ?_⟩
    · simp only [Micro.exec, if_pos hc]
      exact hrun
    · simp only [ImsicShared.claimable] at hc
      split at hc
      · cases hc
      · split at hc
        · cases hc
        · rename_i h0 hd
          simp only [imsicTopeiClaimIid, if_neg h0, if_neg hd, if_pos (of_decide_eq_true hc)]
          exact hg'
  · refine ⟨g, .step ?_, ?_⟩
    · simp only [Micro.exec, if_neg hc]
      exact .done g
    · have hf : imsicTopeiClaimIid (g.file mfile) iid = g.file mfile := by
        simp only [ImsicShared.claimable] at hc
        simp only [imsicTopeiClaimIid]
        split
        · rfl
        · rename_i h0
          rw [if_neg h0] at hc
          split
          · rfl
          · rename_i hd
            rw [if_neg hd] at hc
            exact if_neg fun h => hc (decide_eq_true h)
      rw [hf, ImsicShared.putFile_file]

/-- `sync_imsic_one`. -/
theorem sync (mfile : Bool) (g : ImsicShared) :
    Completes mfile g [.peekSync] (g.putMip (syncImsicOne g.hart mfile)) := by
  have hs : syncImsicOne g.hart mfile =
      if !(g.file mfile).present then g.hart
      else if (g.file mfile).eidelivery ≠ 0 then
        if imsicTopeiPeek (g.file mfile) ≠ 0 then g.hart.setMip (imsicMipBit mfile)
        else g.hart.clearMip (imsicMipBit mfile)
      else if imsicTopeiPeek (g.file mfile) ≠ 0 then g.hart.setMip (imsicMipBit mfile)
      else g.hart := rfl
  refine .step ?_
  simp only [Micro.exec]
  by_cases hp : (!(g.file mfile).present) = true
  · rw [if_pos hp] at hs
    rw [if_pos hp, hs]
    exact .done g
  · rw [if_neg hp] at hs
    rw [if_neg hp]
    by_cases hk : imsicTopeiPeek (g.file mfile) ≠ 0
    · simp only [if_pos hk, ite_self] at hs
      rw [if_pos hk, hs]
      exact .step (.done _)
    · rw [if_neg hk]
      by_cases hd : (g.file mfile).eidelivery ≠ 0
      · simp only [if_pos hd, if_neg hk] at hs
        rw [if_pos hd, hs]
        exact .step (.done _)
      · simp only [if_neg hd, if_neg hk] at hs
        rw [if_neg hd, hs]
        exact .done g

/-- `imsic_eip_clear`. -/
theorem eipClear (mfile : Bool) (g : ImsicShared) (num : BitVec 32) :
    ∃ g', Completes mfile g (ImsicOp.eipClear num).steps g' ∧
      g'.hart = imsicEipClear g.hart (!mfile) num := by
  simp only [ImsicOp.steps, imsicEipClear]
  by_cases hw : eipWords ≤ eipWordOf num
  · rw [if_pos hw, if_pos hw]
    exact ⟨g, .done g, rfl⟩
  · rw [if_neg hw, if_neg hw]
    simp only [Bool.not_not]
    by_cases hk : imsicTopeiPeek ((g.clearEip mfile num).file mfile) = 0
    · have hrun : Completes mfile (g.clearEip mfile num) [.peekClear]
          ((g.clearEip mfile num).putMip ((g.clearEip mfile num).hart.clearMip (imsicMipBit mfile))) := by
        refine .step ?_
        simp only [Micro.exec, if_pos hk]
        exact .step (.done _)
      refine ⟨_, .step hrun, ?_⟩
      rw [ImsicShared.file_clearEip] at hk
      exact (if_pos hk).symm
    · have hrun : Completes mfile (g.clearEip mfile num) [.peekClear] (g.clearEip mfile num) := by
        refine .step ?_
        simp only [Micro.exec, if_neg hk]
        exact .done _
      refine ⟨_, .step hrun, ?_⟩
      rw [ImsicShared.file_clearEip] at hk
      exact (if_neg hk).symm

/-- The writes of `imsic_reg_write` to the pending array. -/
theorem writeEip (mfile : Bool) (g : ImsicShared) (select : BitVec 32) (v : Word)
    (hs : 0x80 ≤ select ∧ select ≤ 0xBF) :
    ∃ g', Completes mfile g (ImsicOp.writeEip (select - 0x80).toNat v).steps g' ∧
      g'.hart = (g.putFile mfile (imsicRegWrite (g.file mfile) select v)).hart := by
  have h70 : select ≠ 0x70 := by rintro rfl; exact absurd hs.1 (by decide)
  have h72 : select ≠ 0x72 := by rintro rfl; exact absurd hs.1 (by decide)
  simp only [imsicRegWrite, if_neg h70, if_neg h72, if_pos hs, ImsicOp.steps, writePair]
  by_cases hi : (select - 0x80).toNat + 1 < eipWords
  · rw [if_pos hi, if_pos hi]
    refine ⟨_, .step (.step ?_), rfl⟩
    have h := update_putFile mfile g { g.file mfile with
      eip := Function.update (Function.update (g.file mfile).eip (select - 0x80).toNat (v.setWidth 32))
        ((select - 0x80).toNat + 1) ((v >>> 32).setWidth 32) }
    simp only [Micro.exec, ImsicShared.file_putFile, ImsicShared.putFile_putFile]
    exact h
  · rw [if_neg hi, if_neg hi]
    exact ⟨_, .step (update_putFile mfile g _), rfl⟩

theorem setEipNum (mfile : Bool) (g : ImsicShared) (v : Word) :
    ∃ g', Completes mfile g (ImsicOp.setEipNum (v.setWidth 32)).steps g' ∧
      g'.hart = (g.putFile mfile (imsicRegWrite (g.file mfile) 0x58 v)).hart := by
  have hreg : imsicRegWrite (g.file mfile) 0x58 v = if v.setWidth 32 < maxIid then
      imsicUpdateEipExtAny { g.file mfile with eip := numWrite (g.file mfile).eip (v.setWidth 32) true }
      else g.file mfile := rfl
  rw [hreg, ImsicOp.steps]
  by_cases hn : v.setWidth 32 < maxIid
  · rw [if_pos hn, if_pos hn]
    exact ⟨_, .step (update_putFile mfile g _), rfl⟩
  · rw [if_neg hn, if_neg hn, ImsicShared.putFile_file]
    exact ⟨g, .done g, rfl⟩

theorem clrEipNum (mfile : Bool) (g : ImsicShared) (v : Word) :
    ∃ g', Completes mfile g (ImsicOp.clrEipNum (v.setWidth 32)).steps g' ∧
      g'.hart = (g.putFile mfile (imsicRegWrite (g.file mfile) 0x59 v)).hart := by
  have hreg : imsicRegWrite (g.file mfile) 0x59 v = if v.setWidth 32 < maxIid then
      imsicUpdateEipExtAny { g.file mfile with eip := numWrite (g.file mfile).eip (v.setWidth 32) false }
      else g.file mfile := rfl
  rw [hreg, ImsicOp.steps]
  by_cases hn : v.setWidth 32 < maxIid
  · rw [if_pos hn, if_pos hn]
    exact dropEip mfile g _ false
  · rw [if_neg hn, if_neg hn, ImsicShared.putFile_file]
    exact ⟨g, .done g, rfl⟩

/-- One round of `imsic_clear_ipi_on_trap`. -/
theorem dropIpi (mfile : Bool) (g : ImsicShared) (iid : BitVec 32) :
    ∃ g', Completes mfile g (ImsicOp.dropIpi iid).steps g' ∧
      g'.hart = (g.putFile mfile (clearEip (g.file mfile) iid)).hart := by
  simp only [ImsicOp.steps, clearEip]
  by_cases hw : eipWordOf iid < eipWords
  · rw [if_pos hw, if_pos hw]
    exact dropEip mfile g iid false
  · rw [if_neg hw, if_neg hw, ImsicShared.putFile_file]
    exact ⟨g, .done g, rfl⟩

/-- The removal of a stale line by `step_interrupts`. -/
theorem cleanup (mfile : Bool) (g : ImsicShared) :
    Completes mfile g ImsicOp.cleanup.steps (g.putMip (clearStaleLine g.hart mfile)) := by
  have hs : clearStaleLine g.hart mfile =
      if (g.file mfile).present ∧ g.hart.mip &&& imsicMipBit mfile ≠ 0 then
        if staleLine (g.file mfile) then g.hart.clearMip (imsicMipBit mfile) else g.hart
      else g.hart := rfl
  refine .step ?_
  simp only [Micro.exec]
  by_cases hp : (g.file mfile).present ∧ g.hart.mip &&& imsicMipBit mfile ≠ 0
  · rw [if_pos hp] at hs
    rw [if_pos hp]
    refine .step ?_
    simp only [Micro.exec]
    by_cases hk : staleLine (g.file mfile) = true
    · rw [if_pos hk] at hs
      rw [if_pos hk, hs]
      exact .step (.done _)
    · rw [if_neg hk] at hs
      rw [if_neg hk, hs]
      exact .done _
  · rw [if_neg hp] at hs
    rw [if_neg hp, hs]
    exact .done _

/-- The loop of `imsic_topei_peek` from word `i` down. -/
theorem topeiScan {mfile : Bool} {g g' : ImsicShared} (i : Nat)
    (h : Completes mfile
      (g.report (((List.range (i + 1)).reverse.findSome? (topeiWord (g.file mfile))).getD 0)).1
      (g.report (((List.range (i + 1)).reverse.findSome? (topeiWord (g.file mfile))).getD 0)).2 g') :
    Completes mfile g [.topeiScan i] g' := by
  induction i with
  | zero =>
    refine .step ?_
    simp only [Micro.exec]
    rw [List.range_succ, List.range_zero, List.nil_append, List.reverse_singleton, List.findSome?_cons] at h
    cases hw : topeiWord (g.file mfile) 0 with
    | some raw =>
      rw [hw] at h
      simpa only [List.append_nil, Option.getD_some] using h
    | none =>
      rw [hw] at h
      simpa only [List.append_nil, List.findSome?_nil, Option.getD_none, if_true] using h
  | succ i ih =>
    refine .step ?_
    simp only [Micro.exec]
    rw [List.range_succ, List.reverse_append, List.reverse_singleton, List.singleton_append,
      List.findSome?_cons] at h
    cases hw : topeiWord (g.file mfile) (i + 1) with
    | some raw =>
      rw [hw] at h
      simpa only [List.append_nil, Option.getD_some] using h
    | none =>
      rw [hw] at h
      rw [if_neg (Nat.succ_ne_zero i)]
      exact ih h

/-- `imsic_topei_peek`, load by load, as `csr_read` calls it. -/
theorem topeiPeek {mfile : Bool} {g g' : ImsicShared}
    (h : Completes mfile (g.report (imsicTopeiPeek (g.file mfile))).1
      (g.report (imsicTopeiPeek (g.file mfile))).2 g') : Completes mfile g [.topei] g' := by
  simp only [imsicTopeiPeek] at h
  refine .step ?_
  simp only [Micro.exec]
  by_cases hipi : (g.file mfile).eip 0 &&& (1#32 <<< 3 ||| 1#32 <<< 1) ≠ 0
  · rw [if_pos hipi] at h ⊢
    rwa [List.append_nil]
  · rw [if_neg hipi] at h ⊢
    have hany : Completes mfile g [.topeiAny] g' := by
      refine .step ?_
      simp only [Micro.exec]
      by_cases hoff : (g.file mfile).eidelivery = 0 ∨ (g.file mfile).eipExtAny = false
      · rw [if_pos hoff] at h ⊢
        rwa [List.append_nil]
      · rw [if_neg hoff] at h ⊢
        exact topeiScan _ h
    exact hany

/-- The claim, the acknowledgement and the synchronisation of `handle_csr`. -/
theorem claimAck (mfile : Bool) (g : ImsicShared) (iid : BitVec 32) :
    ∃ g', Completes mfile g [.claim iid false, .ack iid, .peekSync] g' ∧
      g'.hart = syncImsicOne ((g.hart.setImsicFile mfile
        (imsicTopeiClaimIid (g.hart.imsicFile mfile) iid)).clearMip (ackMask mfile iid)) mfile := by
  obtain ⟨g₁, hclaim, hg₁⟩ := claim mfile g iid false
  have hack : Completes mfile g₁ [.ack iid, .peekSync] _ := .step (sync mfile _)
  refine ⟨_, hclaim.append hack, ?_⟩
  simp only [ImsicShared.putMip, Micro.exec, hg₁]
  rfl

end Completes

section Topei

/-- Two states with the same interrupt files and the same `mip`. -/
def SameLines (s s' : HartState) : Prop :=
  s.imsicM = s'.imsicM ∧ s.imsicS = s'.imsicS ∧ s.mip = s'.mip

theorem SameLines.sync {s s' : HartState} (h : SameLines s s') (mfile : Bool) :
    SameLines (syncImsicOne s mfile) (syncImsicOne s' mfile) := by
  obtain ⟨hM, hS, hmip⟩ := h
  have hf : s.imsicFile mfile = s'.imsicFile mfile := by
    simp only [HartState.imsicFile, hM, hS]
  simp only [syncImsicOne, hf]
  split_ifs
  · exact ⟨hM, hS, hmip⟩
  · exact ⟨hM, hS, congrArg (· ||| _) hmip⟩
  · exact ⟨hM, hS, congrArg (· &&& _) hmip⟩
  · exact ⟨hM, hS, congrArg (· ||| _) hmip⟩
  · exact ⟨hM, hS, hmip⟩

theorem clearMip_zero (s : HartState) : s.clearMip 0 = s := by
  have h : s.mip &&& ~~~(0 : Word) = s.mip := by
    rw [show ~~~(0 : Word) = BitVec.allOnes 64 by decide, BitVec.and_allOnes]
  simp only [HartState.clearMip, h]

/-- The lines that `handle_csr` clears, up to the timer registers it may move. -/
theorem ack_sameLines (c : CsrCtx) (s : HartState) (mfile : Bool) (iid : BitVec 32) (mtime : Word) :
    SameLines (s.clearMip (ackMask mfile iid))
      (if mfile ∧ iid = 7 then
        (c.setState ((ackStimer (ackSoft s mfile iid) mfile iid mtime).clearMip (bit 7))).bumpExpiredMtimecmp
        else c.setState (ackStimer (ackSoft s mfile iid) mfile iid mtime)).state := by
  cases mfile with
  | true =>
    simp only [ackMask, ackSoft, ackStimer, true_and, Bool.not_true, Bool.false_eq_true, false_and, if_false]
    by_cases h3 : iid = 3
    · have h7 : iid ≠ 7 := by rintro rfl; cases h3
      rw [if_pos h3, if_pos h3, if_neg h7]
      exact ⟨rfl, rfl, rfl⟩
    · rw [if_neg h3, if_neg h3]
      by_cases h7 : iid = 7
      · rw [if_pos h7, if_pos h7, CsrCtx.bumpExpiredMtimecmp_state]
        exact ⟨rfl, rfl, rfl⟩
      · rw [if_neg h7, if_neg h7, clearMip_zero]
        exact ⟨rfl, rfl, rfl⟩
  | false =>
    simp only [ackMask, ackSoft, ackStimer, Bool.not_false, Bool.false_eq_true, true_and, false_and, if_false]
    by_cases h1 : iid = 1
    · have h5 : iid ≠ 5 := by rintro rfl; cases h1
      rw [if_pos h1, if_pos h1, if_neg h5]
      exact ⟨rfl, rfl, rfl⟩
    · rw [if_neg h1, if_neg h1]
      by_cases h5 : iid = 5
      · rw [if_pos h5, if_pos h5]
        split <;> exact ⟨rfl, rfl, rfl⟩
      · rw [if_neg h5, if_neg h5, clearMip_zero]
        exact ⟨rfl, rfl, rfl⟩

/-- The accesses of a CSR instruction on MTOPEI or STOPEI add up to the read and the
acknowledgement of `handle_csr`. -/
theorem Completes.topei (c : CsrCtx) (mfile : Bool) (g : ImsicShared) (hg : g.hart = c.state) :
    ∃ g', Completes mfile g ImsicOp.topei.steps g' ∧
      SameLines g'.hart (topeiAck (c.setState (topeiRead c.state mfile).1) mfile
        (topeiRead c.state mfile).2).state := by
  have hfile : g.file mfile = c.state.imsicFile mfile := congrArg (HartState.imsicFile · mfile) hg
  have hack : ∀ g₁ : ImsicShared, g₁.hart = (topeiRead c.state mfile).1 →
      ∃ g', Completes mfile g₁ [.claim (((topeiRead c.state mfile).2 >>> 16).setWidth 32) false,
          .ack (((topeiRead c.state mfile).2 >>> 16).setWidth 32), .peekSync] g' ∧
        SameLines g'.hart (topeiAck (c.setState (topeiRead c.state mfile).1) mfile
          (topeiRead c.state mfile).2).state := by
    intro g₁ hg₁
    obtain ⟨g', hrun, hg'⟩ := claimAck mfile g₁ (((topeiRead c.state mfile).2 >>> 16).setWidth 32)
    refine ⟨g', hrun, ?_⟩
    rw [hg', hg₁]
    exact (ack_sameLines _ _ _ _ _).sync mfile
  by_cases hraw : imsicTopeiPeek (g.file mfile) ≠ 0
  · have hread : topeiRead c.state mfile =
        (syncImsicOne (c.state.setImsicFile mfile (imsicTopeiClaimIid (c.state.imsicFile mfile)
          ((imsicTopeiPeek (g.file mfile) >>> 16).setWidth 32))) mfile, imsicTopeiPeek (g.file mfile)) := by
      rw [hfile] at hraw ⊢
      exact if_pos hraw
    rw [hread] at hack ⊢
    obtain ⟨g₁, hclaim, hg₁⟩ := claim mfile (g.report (imsicTopeiPeek (g.file mfile))).1
      ((imsicTopeiPeek (g.file mfile) >>> 16).setWidth 32) true
    obtain ⟨g', hrun, hg'⟩ := hack (g₁.putMip (syncImsicOne g₁.hart mfile)) (by
      rw [← hfile, ← hg]
      exact congrArg (syncImsicOne · mfile) hg₁)
    refine ⟨g', topeiPeek ?_, hg'⟩
    simp only [ImsicShared.report, if_pos hraw]
    exact hclaim.append ((sync mfile g₁).append hrun)
  · have hread : topeiRead c.state mfile = (c.state, imsicTopeiPeek (g.file mfile)) := by
      rw [hfile] at hraw ⊢
      exact if_neg hraw
    rw [hread] at hack ⊢
    obtain ⟨g', hrun, hg'⟩ := hack (g.report (imsicTopeiPeek (g.file mfile))).1 hg
    refine ⟨g', topeiPeek ?_, hg'⟩
    simp only [ImsicShared.report, if_neg hraw]
    exact hrun

end Topei

end Pyremu
