import Pyremu.Frames
import Pyremu.ImsicPython

/-!
# CSR instructions that only read

CSRRS and CSRRC with `x0`, and their immediate forms with 0, have nothing to
set or clear, yet `handle_csr` stores the value it has just read. Most registers
store back what they hold. The four top-interrupt registers acknowledge what
they report; the rest re-derive other state when they are written.
-/

namespace Pyremu

/-- `csrr`: the set and clear forms with an empty operand. -/
def IsCsrRead (funct3 : BitVec 3) (rs1 : BitVec 5) : Prop :=
  (funct3.extractLsb' 0 2 = 2 ∨ funct3.extractLsb' 0 2 = 3) ∧ rs1 = 0

/-- The register exists on this platform and is usable in this state. -/
def csrPresent (cfg : Features) (s : HartState) : CsrReg → Bool
  | .stimecmp => s.isaExts.isSstc
  | .fflags | .frm | .fcsr => !fpOff s
  | .miselect | .mireg | .siselect | .sireg | .mtopei | .stopei | .mtopi | .stopi => cfg.aia
  | .pmpcfgOdd | .unknown => false
  | _ => true

/-- The mode may read the register. -/
structure CsrLegal (cfg : Features) (s : HartState) (addr : BitVec 12) : Prop where
  priv : csrPrivOk s.mode (csrPrivReq addr) = true
  counter : counterOk s addr = true
  present : csrPresent cfg s (csrDecode addr) = true

/-- The top-interrupt registers. -/
def CsrReg.isTop : CsrReg → Bool
  | .mtopei | .stopei | .mtopi | .stopi => true
  | _ => false

theorem csrNewVal_read {funct3 : BitVec 3} {rs1 : BitVec 5} (h : IsCsrRead funct3 rs1) (s : HartState)
    (old : Word) : csrNewVal funct3 old (csrOperand s funct3 rs1) = some old := by
  obtain ⟨hf, rfl⟩ := h
  have hop : csrOperand s funct3 0 = 0 := by
    simp only [csrOperand, readGpr]
    split <;> rfl
  rw [hop, csrNewVal]
  rcases hf with hf | hf
  · rw [hf]
    exact congrArg some BitVec.or_zero
  · rw [hf]
    exact congrArg some BitVec.and_allOnes

theorem CsrLegal.read {cfg : Features} {c : CsrCtx} {addr : BitVec 12} (h : CsrLegal cfg c.state addr) :
    csrRead cfg c addr = csrReadReg cfg c (csrDecode addr) := by
  simp [csrRead, h.priv, h.counter]

/-- These are the accesses that `csr_read` accepts. -/
theorem csrLegal_iff (cfg : Features) (c : CsrCtx) (addr : BitVec 12) :
    CsrLegal cfg c.state addr ↔ (csrRead cfg c addr).2.2 = .ok := by
  have hstatus : ∀ r, (csrReadReg cfg c r).2.2 = .ok ↔ csrPresent cfg c.state r = true := by
    intro r
    cases r with
    | fflags | frm | fcsr =>
      cases hf : fpOff c.state
      all_goals simp [csrReadReg, csrPresent, hf]
    | stimecmp =>
      cases hon : c.state.isaExts.isSstc
      all_goals simp [csrReadReg, csrPresent, hon]
    | miselect | mireg | siselect | sireg | mtopei | stopei | mtopi | stopi =>
      cases hon : cfg.aia
      all_goals simp [csrReadReg, csrPresent, hon]
    | _ => simp [csrReadReg, csrPresent]
  cases hp : csrPrivOk c.state.mode (csrPrivReq addr) with
  | false => exact iff_of_false (fun h => by rw [h.priv] at hp; cases hp) (by simp [csrRead, hp])
  | true =>
    cases hc : counterOk c.state addr with
    | false => exact iff_of_false (fun h => by rw [h.counter] at hc; cases hc) (by simp [csrRead, hp, hc])
    | true =>
      have hread : csrRead cfg c addr = csrReadReg cfg c (csrDecode addr) := by simp [csrRead, hp, hc]
      rw [hread, hstatus]
      exact ⟨fun h => h.present, fun h => ⟨hp, hc, h⟩⟩

/-! ## Registers that hold what their write path stores -/

section Settled

/-- FS is Dirty and SD is set. -/
def FpDirty (s : HartState) : Prop := s.mstatus ||| mstatusFs ||| mstatusSd = s.mstatus

/-- `eip_ext_any` as it is recomputed. -/
def SummaryExact (f : ImsicFile) : Prop :=
  f.eipExtAny = (List.range eipWords).any fun i => decide (f.eip i ≠ 0)

/-- The selected register holds what a write of its value stores: the delivery switch is 0 or 1, a
pending word comes with the right summary, and a numbered register, which reads 0, finds bit 0 as
it would leave it. -/
def FileSettled (f : ImsicFile) : Prop :=
  if f.select = 0x70 then f.eidelivery ≤ 1
  else if 0x80 ≤ f.select ∧ f.select ≤ 0xBF then SummaryExact f
  else if f.select = 0x58 then eipBit f.eip 0 = true ∧ SummaryExact f
  else if f.select = 0x59 then eipBit f.eip 0 = false ∧ SummaryExact f
  else if f.select = 0x5A then eipBit f.eie 0 = true
  else if f.select = 0x5B then eipBit f.eie 0 = false
  else True

/-- The file's line in `mip` is as `sync_imsic_one` leaves it. -/
def LineSettled (s : HartState) (mfile : Bool) : Prop :=
  (s.imsicFile mfile).present = true →
    (imsicTopeiPeek (s.imsicFile mfile) ≠ 0 → s.mip ||| imsicMipBit mfile = s.mip) ∧
    ((s.imsicFile mfile).eidelivery ≠ 0 → imsicTopeiPeek (s.imsicFile mfile) = 0 →
      s.mip &&& imsicMipBit mfile = 0)

/-- The write path of the register stores what is there already. -/
def Settled (c : CsrCtx) : CsrReg → Prop
  | .fflags | .frm => FpDirty c.state
  | .fcsr => FpDirty c.state ∧ c.state.fcsr &&& 0xFF = c.state.fcsr
  | .sip => c.state.mip &&& bit 1 &&& ~~~c.state.mideleg = 0
  | .satp =>
    c.state.satp &&& (0xFFFF#64 <<< 44) = 0 ∧ c.state.mmuMode = (c.state.satp >>> 60).setWidth 8 ∧
      ∀ i, (c.state.itlb i).valid = false ∧ (c.state.dtlb i).valid = false
  | .stimecmp =>
    writeTimecmp c.state (bit 5) c.clint.mtime c.state.stimecmp c.clint.timebaseHz =
      (c.state.stipDeadline, c.state.mip)
  | .mireg => FileSettled c.state.imsicM ∧ LineSettled c.state true
  | .sireg => FileSettled c.state.imsicS ∧ LineSettled c.state false
  | _ => True

variable {s : HartState} {f : ImsicFile} {mfile : Bool} {c : CsrCtx}

theorem and_not_of_disjoint {x m : Word} (h : x &&& m = 0) : x &&& ~~~m = x := by
  apply BitVec.eq_of_getLsbD_eq
  intro i hi
  have hb : (x &&& m).getLsbD i = false := by rw [h]; exact BitVec.getLsbD_zero
  rw [BitVec.getLsbD_and] at hb
  rw [BitVec.getLsbD_and, BitVec.getLsbD_not, decide_eq_true hi]
  cases hx : x.getLsbD i
  · simp
  · rw [hx, Bool.true_and] at hb
    simp [hb]

/-- A field put back under any mask. -/
theorem put_back {w : Nat} (x m : BitVec w) : (x &&& ~~~m) ||| (x &&& m) = x := by
  apply BitVec.eq_of_getLsbD_eq
  intro i hi
  rw [BitVec.getLsbD_or, BitVec.getLsbD_and, BitVec.getLsbD_and, BitVec.getLsbD_not, decide_eq_true hi]
  cases x.getLsbD i <;> cases m.getLsbD i <;> rfl

/-- The same when the value was read through a view that covers the field. -/
theorem put_back_view {x m n : Word} (h : m &&& ~~~n &&& x = 0) : (x &&& ~~~m) ||| ((x &&& n) &&& m) = x := by
  apply BitVec.eq_of_getLsbD_eq
  intro i hi
  have hb : (m &&& ~~~n &&& x).getLsbD i = false := by rw [h]; exact BitVec.getLsbD_zero
  rw [BitVec.getLsbD_and, BitVec.getLsbD_and, BitVec.getLsbD_not, decide_eq_true hi] at hb
  rw [BitVec.getLsbD_or, BitVec.getLsbD_and, BitVec.getLsbD_and, BitVec.getLsbD_and, BitVec.getLsbD_not,
    decide_eq_true hi]
  revert hb
  cases x.getLsbD i <;> cases m.getLsbD i <;> cases n.getLsbD i <;> decide

theorem LineSettled.sync (h : LineSettled s mfile) : syncImsicOne s mfile = s := by
  simp only [syncImsicOne]
  by_cases hp : (s.imsicFile mfile).present = true
  · obtain ⟨hset, hclear⟩ := h hp
    have hput : imsicTopeiPeek (s.imsicFile mfile) ≠ 0 → s.setMip (imsicMipBit mfile) = s := by
      intro hne
      rw [HartState.setMip, hset hne]
    rw [hp, Bool.not_true, if_neg Bool.false_ne_true]
    by_cases hd : (s.imsicFile mfile).eidelivery ≠ 0
    · rw [if_pos hd]
      by_cases hne : imsicTopeiPeek (s.imsicFile mfile) ≠ 0
      · rw [if_pos hne, hput hne]
      · rw [if_neg hne, HartState.clearMip, and_not_of_disjoint (hclear hd (not_not.mp hne))]
    · rw [if_neg hd]
      by_cases hne : imsicTopeiPeek (s.imsicFile mfile) ≠ 0
      · rw [if_pos hne, hput hne]
      · rw [if_neg hne]
  · rw [Bool.not_eq_true] at hp
    rw [hp, Bool.not_false, if_pos rfl]

/-- A pair of words written back. -/
theorem writePair_readPair (a : Nat → BitVec 32) (i : Nat) : writePair a i (readPair a i) = a := by
  have hlow : (readPair a i).setWidth 32 = a i := by
    apply BitVec.eq_of_getLsbD_eq
    intro k hk
    rw [BitVec.getLsbD_setWidth, readPair, BitVec.getLsbD_or, BitVec.getLsbD_shiftLeft,
      BitVec.getLsbD_setWidth]
    simp [hk, show k < 64 by omega]
  have hhigh : i + 1 < eipWords → (readPair a i >>> 32).setWidth 32 = a (i + 1) := by
    intro hi
    rw [readPair, if_pos hi]
    apply BitVec.eq_of_getLsbD_eq
    intro k hk
    rw [BitVec.getLsbD_setWidth, BitVec.getLsbD_ushiftRight, BitVec.getLsbD_or, BitVec.getLsbD_shiftLeft,
      BitVec.getLsbD_setWidth, BitVec.getLsbD_setWidth]
    simp [hk, show 32 + k < 64 by omega, show k < 64 by omega]
  rw [writePair, hlow, Function.update_eq_self]
  by_cases hi : i + 1 < eipWords
  · rw [if_pos hi, hhigh hi, Function.update_eq_self]
  · rw [if_neg hi]

theorem SummaryExact.update (h : SummaryExact f) : imsicUpdateEipExtAny f = f := by
  rw [imsicUpdateEipExtAny, ← h]

/-- Bit 0 written to what it is. -/
theorem numWrite_zero {a : Nat → BitVec 32} {set : Bool} (h : eipBit a 0 = set) : numWrite a 0 set = a := by
  have hw : eipWordOf 0 = 0 := rfl
  have hb : eipBitAt 0 = 1 := rfl
  have hbit : (a 0).getLsbD 0 = set := h
  rw [numWrite, hw, hb]
  cases set with
  | true =>
    rw [if_pos rfl]
    have hsame : a 0 ||| 1 = a 0 := by
      apply BitVec.eq_of_getLsbD_eq
      intro i hi
      rw [BitVec.getLsbD_or, BitVec.ofNat_eq_ofNat, BitVec.getLsbD_one]
      by_cases h0 : i = 0
      · subst h0
        simp [hbit]
      · simp [h0]
    rw [hsame, Function.update_eq_self]
  | false =>
    rw [if_neg Bool.false_ne_true]
    have hsame : a 0 &&& ~~~1 = a 0 := by
      apply BitVec.eq_of_getLsbD_eq
      intro i hi
      rw [BitVec.getLsbD_and, BitVec.getLsbD_not, BitVec.ofNat_eq_ofNat, BitVec.getLsbD_one]
      by_cases h0 : i = 0
      · subst h0
        rw [hbit, Bool.false_and]
      · simp [h0, hi]
    rw [hsame, Function.update_eq_self]

theorem FileSettled.write (h : FileSettled f) : imsicRegWrite f f.select (imsicRegRead f f.select) = f := by
  rw [FileSettled] at h
  by_cases h70 : f.select = 0x70
  · have hread : imsicRegRead f f.select = f.eidelivery.setWidth 64 := if_pos h70
    rw [if_pos h70] at h
    have hsame : ((f.eidelivery.setWidth 64 &&& 1).setWidth 8 : BitVec 8) = f.eidelivery := by
      generalize f.eidelivery = d at h
      have hle : d.toNat ≤ 1 := BitVec.le_def.mp h
      rcases Nat.le_one_iff_eq_zero_or_eq_one.mp hle with h0 | h0
      · obtain rfl : d = 0 := BitVec.eq_of_toNat_eq h0
        rfl
      · obtain rfl : d = 1 := BitVec.eq_of_toNat_eq h0
        rfl
    rw [hread]
    apply (if_pos h70).trans
    rw [hsame]
  by_cases h72 : f.select = 0x72
  · have hread : imsicRegRead f f.select = f.eithreshold.setWidth 64 :=
      (if_neg h70).trans (if_pos h72)
    have hsame : ((f.eithreshold.setWidth 64 &&& 0x3FF).setWidth 8 : BitVec 8) = f.eithreshold := by
      apply BitVec.eq_of_getLsbD_eq
      intro i hi
      have hmask : (0x3FF : Word).getLsbD i = true :=
        (by decide : ∀ k < 8, (0x3FF : Word).getLsbD k = true) i hi
      rw [BitVec.getLsbD_setWidth, BitVec.getLsbD_and, BitVec.getLsbD_setWidth, hmask]
      simp [hi, show i < 64 by omega]
    rw [hread]
    apply ((if_neg h70).trans (if_pos h72)).trans
    rw [hsame]
  rw [if_neg h70] at h
  by_cases heip : 0x80 ≤ f.select ∧ f.select ≤ 0xBF
  · have hread : imsicRegRead f f.select = readPair f.eip (f.select - 0x80).toNat :=
      (if_neg h70).trans ((if_neg h72).trans (if_pos heip))
    rw [if_pos heip] at h
    rw [hread]
    apply ((if_neg h70).trans ((if_neg h72).trans (if_pos heip))).trans
    rw [writePair_readPair]
    exact h.update
  rw [if_neg heip] at h
  by_cases heie : 0xC0 ≤ f.select ∧ f.select ≤ 0xFF
  · have hread : imsicRegRead f f.select = readPair f.eie (f.select - 0xC0).toNat :=
      (if_neg h70).trans ((if_neg h72).trans ((if_neg heip).trans (if_pos heie)))
    rw [hread]
    apply ((if_neg h70).trans ((if_neg h72).trans ((if_neg heip).trans (if_pos heie)))).trans
    rw [writePair_readPair]
  -- the numbered registers read 0, so the write goes to identity 0
  have hread : imsicRegRead f f.select = 0 :=
    (if_neg h70).trans ((if_neg h72).trans ((if_neg heip).trans (if_neg heie)))
  have hnum : ((0 : Word).setWidth 32 : BitVec 32) = 0 := rfl
  have hlt : (0 : BitVec 32) < maxIid := by decide
  rw [hread, imsicRegWrite, if_neg h70, if_neg h72, if_neg heip, if_neg heie]
  simp only [hnum, if_pos hlt]
  by_cases h58 : f.select = 0x58
  · rw [if_pos h58] at h ⊢
    rw [numWrite_zero h.1]
    exact h.2.update
  rw [if_neg h58] at h ⊢
  by_cases h59 : f.select = 0x59
  · rw [if_pos h59] at h ⊢
    rw [numWrite_zero h.1]
    exact h.2.update
  rw [if_neg h59] at h ⊢
  by_cases h5a : f.select = 0x5A
  · rw [if_pos h5a] at h ⊢
    rw [numWrite_zero h]
  rw [if_neg h5a] at h ⊢
  by_cases h5b : f.select = 0x5B
  · rw [if_pos h5b] at h ⊢
    rw [numWrite_zero h]
  · rw [if_neg h5b]

/-- A settled register reads without an effect and takes its value back without one. -/
theorem Settled.write_back (cfg : Features) {r : CsrReg} (hr : r.isTop = false)
    (hp : csrPresent cfg c.state r = true) (hs : Settled c r) :
    ∃ old, csrReadReg cfg c r = (c, old, .ok) ∧ csrWriteReg cfg c r old = (c, .ok) := by
  cases r with
  | mtopei | stopei | mtopi | stopi => cases hr
  | pmpcfgOdd | unknown => cases hp
  | mstatus =>
    refine ⟨_, rfl, ?_⟩
    simp only [csrWriteReg, put_back]
    rfl
  | mip =>
    refine ⟨_, rfl, ?_⟩
    simp only [csrWriteReg]
    rw [BitVec.or_comm, put_back]
    rfl
  | sstatus =>
    refine ⟨_, rfl, ?_⟩
    have hview : sstatusWriteMask &&& ~~~sstatusReadMask &&& c.state.mstatus = 0 := by
      rw [show sstatusWriteMask &&& ~~~sstatusReadMask = 0 by decide]
      exact BitVec.zero_and
    simp only [csrWriteReg, put_back_view hview]
    rfl
  | sie =>
    refine ⟨_, rfl, ?_⟩
    have hview : c.state.mideleg &&& ~~~c.state.mideleg &&& c.state.mie = 0 := by
      rw [BitVec.and_not_self]
      exact BitVec.zero_and
    simp only [csrWriteReg, put_back_view hview]
    rfl
  | sip =>
    refine ⟨_, rfl, ?_⟩
    have hview : bit 1 &&& ~~~c.state.mideleg &&& c.state.mip = 0 := by
      rw [← show c.state.mip &&& bit 1 &&& ~~~c.state.mideleg = 0 from hs]
      ac_rfl
    simp only [csrWriteReg, put_back_view hview]
    rfl
  | satp =>
    obtain ⟨hasid, hmode, htlb⟩ := hs
    refine ⟨_, rfl, ?_⟩
    have hitlb : (fun i => { c.state.itlb i with valid := false }) = c.state.itlb := by
      funext i
      rw [← (htlb i).1]
    have hdtlb : (fun i => { c.state.dtlb i with valid := false }) = c.state.dtlb := by
      funext i
      rw [← (htlb i).2]
    simp only [csrWriteReg, satpWrite, tlbFlushInline, and_not_of_disjoint hasid, ← hmode, hitlb, hdtlb]
    rfl
  | stimecmp =>
    have hon : c.state.isaExts.isSstc = true := hp
    refine ⟨c.state.stimecmp, by simp [csrReadReg, hon], ?_⟩
    have hsame : writeTimecmp c.state (bit 5) c.clint.mtime c.state.stimecmp c.clint.timebaseHz =
      (c.state.stipDeadline, c.state.mip) := hs
    simp only [csrWriteReg, hon, Bool.not_true, Bool.false_eq_true, if_false, writeStimecmp]
    rw [show writeTimecmp { c.state with stimecmp := c.state.stimecmp } (bit 5) c.clint.mtime c.state.stimecmp
      c.clint.timebaseHz = _ from hsame]
    rfl
  | fflags =>
    have hon : fpOff c.state = false := by simpa [csrPresent] using hp
    refine ⟨_, by simp only [csrReadReg, hon]; rfl, ?_⟩
    have hf : (c.state.fcsr &&& ~~~0x1F#32) |||
        (((c.state.fcsr &&& 0x1F).setWidth 64 : Word).setWidth 32 &&& 0x1F) = c.state.fcsr := by
      rw [BitVec.setWidth_setWidth_of_le _ (by decide), BitVec.setWidth_eq]
      simp only [BitVec.and_assoc, BitVec.and_self]
      exact put_back _ _
    simp only [csrWriteReg, hon, hf]
    rw [fcsrWrite, show c.state.mstatus ||| mstatusFs ||| mstatusSd = _ from hs]
    rfl
  | frm =>
    have hon : fpOff c.state = false := by simpa [csrPresent] using hp
    refine ⟨_, by simp only [csrReadReg, hon]; rfl, ?_⟩
    have hf : (c.state.fcsr &&& ~~~0xE0#32) |||
        ((((c.state.fcsr >>> 5) &&& 7).setWidth 64 : Word).setWidth 32 &&& 7) <<< 5 = c.state.fcsr := by
      rw [BitVec.setWidth_setWidth_of_le _ (by decide), BitVec.setWidth_eq]
      simp only [BitVec.and_assoc, BitVec.and_self]
      have hshift : ((c.state.fcsr >>> 5) &&& 7) <<< 5 = c.state.fcsr &&& 0xE0 := by
        apply BitVec.eq_of_getLsbD_eq
        intro i hi
        have hmask : (0xE0 : BitVec 32).getLsbD i = (!decide (i < 5) && (7 : BitVec 32).getLsbD (i - 5)) :=
          (by decide : ∀ k < 32, (0xE0 : BitVec 32).getLsbD k =
            (!decide (k < 5) && (7 : BitVec 32).getLsbD (k - 5))) i hi
        rw [BitVec.getLsbD_shiftLeft, BitVec.getLsbD_and, BitVec.getLsbD_ushiftRight, BitVec.getLsbD_and,
          hmask, decide_eq_true hi]
        by_cases h5 : i < 5
        · simp [h5]
        · simp [h5, show 5 + (i - 5) = i by omega]
      rw [hshift]
      exact put_back _ _
    simp only [csrWriteReg, hon, hf]
    rw [fcsrWrite, show c.state.mstatus ||| mstatusFs ||| mstatusSd = _ from hs]
    rfl
  | fcsr =>
    obtain ⟨hdirty, hlow⟩ := hs
    have hon : fpOff c.state = false := by simpa [csrPresent] using hp
    refine ⟨_, by simp only [csrReadReg, hon]; rfl, ?_⟩
    have hf : ((c.state.fcsr &&& 0xFF).setWidth 64 : Word).setWidth 32 &&& 0xFF = c.state.fcsr := by
      rw [BitVec.setWidth_setWidth_of_le _ (by decide), BitVec.setWidth_eq, hlow, hlow]
    simp only [csrWriteReg, hon, hf]
    rw [fcsrWrite, show c.state.mstatus ||| mstatusFs ||| mstatusSd = _ from hdirty]
    rfl
  | pmpsplit =>
    refine ⟨_, rfl, ?_⟩
    simp only [csrWriteReg, BitVec.setWidth_setWidth_of_le _ (by decide : 8 ≤ 64), BitVec.setWidth_eq]
    rfl
  | miselect | siselect =>
    have hon : cfg.aia = true := hp
    refine ⟨_, by simp only [csrReadReg, hon]; rfl, ?_⟩
    simp only [csrWriteReg, hon, BitVec.setWidth_setWidth_of_le _ (by decide : 32 ≤ 64), BitVec.setWidth_eq]
    rfl
  | mireg =>
    have hon : cfg.aia = true := hp
    obtain ⟨hfile, hline⟩ := hs
    refine ⟨_, by simp only [csrReadReg, hon]; rfl, ?_⟩
    simp only [csrWriteReg, hon, hfile.write]
    apply (if_pos trivial).trans
    exact congrArg (fun s => (c.setState s, CsrStatus.ok)) hline.sync
  | sireg =>
    have hon : cfg.aia = true := hp
    obtain ⟨hfile, hline⟩ := hs
    refine ⟨_, by simp only [csrReadReg, hon]; rfl, ?_⟩
    simp only [csrWriteReg, hon, hfile.write]
    apply (if_pos trivial).trans
    exact congrArg (fun s => (c.setState s, CsrStatus.ok)) hline.sync
  | pmpcfg base =>
    refine ⟨_, rfl, ?_⟩
    simp only [csrWriteReg, pmpcfgWrite, pmpcfgRead]
    rw [ByteMem.writeLe_readLe _ _ _ (Nat.min_le_right _ _)]
  | pmpaddr n =>
    refine ⟨_, rfl, ?_⟩
    simp only [csrWriteReg]
    by_cases hn : n < c.pmp.num.toNat
    · rw [if_pos hn, if_pos hn, Function.update_eq_self]
    · rw [if_neg hn]
  | _ => exact ⟨_, rfl, rfl⟩

end Settled

/-! ## Registers that acknowledge what they report -/

/-- The major identities of a level's software and timer interrupts. -/
def softIid (mfile : Bool) : BitVec 32 := if mfile then 3 else 1
def timerIid (mfile : Bool) : BitVec 32 := if mfile then 7 else 5

/-- The bit of `mip` that goes with a reported identity, if it is one of these. -/
def ownMip (mfile : Bool) (iid : BitVec 32) : Word :=
  if iid = softIid mfile ∨ iid = timerIid mfile then bit iid.toNat else 0

/-- `c'` is `c` after an acknowledgement of `iid` at the level of one file: the pending bit of `iid`
and the summary of that file, the bits `mask` of `mip` and the expired comparator of the level's
timer may have changed, nothing else. -/
structure CsrAcks (mfile : Bool) (iid : BitVec 32) (mask : Word) (c c' : CsrCtx) : Prop where
  rest : ∃ mip imsicM imsicS stimecmp stipDeadline mtimecmp,
    c' = { c with
      state := { c.state with mip := mip, imsicM := imsicM, imsicS := imsicS, stimecmp := stimecmp,
                              stipDeadline := stipDeadline }
      clint := { c.clint with mtimecmp := mtimecmp } }
  otherFile : c'.state.imsicFile (!mfile) = c.state.imsicFile (!mfile)
  registers : ∃ eip any,
    c'.state.imsicFile mfile = { c.state.imsicFile mfile with eip := eip, eipExtAny := any }
  pending : ∀ m, m ≠ iid ∨ iid = 0 →
    eipBit (c'.state.imsicFile mfile).eip m = eipBit (c.state.imsicFile mfile).eip m
  lines : c'.state.mip &&& ~~~mask = c.state.mip &&& ~~~mask
  stimer : ¬ (mfile = false ∧ iid = timerIid false) →
    c'.state.stimecmp = c.state.stimecmp ∧ c'.state.stipDeadline = c.state.stipDeadline
  mtimer : ∀ i, ¬ (mfile = true ∧ iid = timerIid true ∧ i = c.externHartId) →
    c'.clint.mtimecmp i = c.clint.mtimecmp i

section Acknowledge

variable {mfile : Bool} {iid : BitVec 32} {mask : Word} {c c' c'' : CsrCtx}

theorem CsrAcks.refl (c : CsrCtx) : CsrAcks mfile iid mask c c :=
  ⟨⟨_, _, _, _, _, _, rfl⟩, rfl, ⟨_, _, rfl⟩, fun _ _ => rfl, rfl, fun _ => ⟨rfl, rfl⟩, fun _ _ => rfl⟩

theorem CsrAcks.trans (h : CsrAcks mfile iid mask c c') (h' : CsrAcks mfile iid mask c' c'') :
    CsrAcks mfile iid mask c c'' := by
  have hid : c'.externHartId = c.externHartId := by
    obtain ⟨_, _, _, _, _, _, rfl⟩ := h.rest
    rfl
  constructor
  · obtain ⟨_, _, _, _, _, _, hc'⟩ := h.rest
    obtain ⟨_, _, _, _, _, _, hc''⟩ := h'.rest
    rw [hc'', hc']
    exact ⟨_, _, _, _, _, _, rfl⟩
  · exact h'.otherFile.trans h.otherFile
  · obtain ⟨_, _, hf⟩ := h.registers
    obtain ⟨_, _, hf'⟩ := h'.registers
    rw [hf', hf]
    exact ⟨_, _, rfl⟩
  · intro m hm
    exact (h'.pending m hm).trans (h.pending m hm)
  · exact h'.lines.trans h.lines
  · intro hn
    exact ⟨(h'.stimer hn).1.trans (h.stimer hn).1, (h'.stimer hn).2.trans (h.stimer hn).2⟩
  · intro i hi
    apply (h'.mtimer i _).trans (h.mtimer i hi)
    rw [hid]
    exact hi

/-- A change of `mip` within the mask. -/
theorem CsrAcks.mip {m : Word} (h : m &&& ~~~mask = c.state.mip &&& ~~~mask) :
    CsrAcks mfile iid mask c (c.setState { c.state with mip := m }) where
  rest := ⟨_, _, _, _, _, _, rfl⟩
  otherFile := by cases mfile <;> rfl
  registers := by cases mfile <;> exact ⟨_, _, rfl⟩
  pending := fun _ _ => by cases mfile <;> rfl
  lines := h
  stimer := fun _ => ⟨rfl, rfl⟩
  mtimer := fun _ _ => rfl

theorem and_not_clear {x m mask : Word} (h : m &&& ~~~mask = 0) : (x &&& ~~~m) &&& ~~~mask = x &&& ~~~mask := by
  apply BitVec.eq_of_getLsbD_eq
  intro i hi
  have hb : (m &&& ~~~mask).getLsbD i = false := by rw [h]; exact BitVec.getLsbD_zero
  rw [BitVec.getLsbD_and, BitVec.getLsbD_not, decide_eq_true hi] at hb
  simp only [BitVec.getLsbD_and, BitVec.getLsbD_not, decide_eq_true hi]
  revert hb
  cases x.getLsbD i <;> cases m.getLsbD i <;> cases mask.getLsbD i <;> decide

theorem and_not_set {x m mask : Word} (h : m &&& ~~~mask = 0) : (x ||| m) &&& ~~~mask = x &&& ~~~mask := by
  apply BitVec.eq_of_getLsbD_eq
  intro i hi
  have hb : (m &&& ~~~mask).getLsbD i = false := by rw [h]; exact BitVec.getLsbD_zero
  rw [BitVec.getLsbD_and, BitVec.getLsbD_not, decide_eq_true hi] at hb
  simp only [BitVec.getLsbD_and, BitVec.getLsbD_or, BitVec.getLsbD_not, decide_eq_true hi]
  revert hb
  cases x.getLsbD i <;> cases m.getLsbD i <;> cases mask.getLsbD i <;> decide

theorem CsrAcks.clearMip {m : Word} (h : m &&& ~~~mask = 0) :
    CsrAcks mfile iid mask c (c.setState (c.state.clearMip m)) :=
  .mip (and_not_clear h)

theorem CsrAcks.sync (h : imsicMipBit mfile &&& ~~~mask = 0) :
    CsrAcks mfile iid mask c (c.setState (syncImsicOne c.state mfile)) := by
  have hset : CsrAcks mfile iid mask c (c.setState (c.state.setMip (imsicMipBit mfile))) :=
    .mip (and_not_set h)
  have hclear : CsrAcks mfile iid mask c (c.setState (c.state.clearMip (imsicMipBit mfile))) :=
    .clearMip h
  simp only [syncImsicOne]
  split
  · exact .refl c
  · split
    · split
      · exact hset
      · exact hclear
    · split
      · exact hset
      · exact .refl c

/-- A claim touches the claimed bit at most. -/
theorem eipBit_claim_other {f : ImsicFile} {m : BitVec 32} (h : m ≠ iid ∨ iid = 0) :
    eipBit (imsicTopeiClaimIid f iid).eip m = eipBit f.eip m := by
  rw [imsicTopeiClaimIid]
  split
  · rfl
  · rename_i hguard
    have hne : m ≠ iid := h.resolve_right fun h0 => hguard (.inl h0)
    dsimp only
    split_ifs
    all_goals first
      | rfl
      | skip
    all_goals
      simp only [imsicUpdateEipExtAny, eipBit]
      by_cases hw : eipWordOf m = eipWordOf iid
      · have hb : (m &&& 31).toNat ≠ (iid &&& 31).toNat := fun hb => hne (eq_of_same_bit hw hb)
        have hlt : (m &&& 31).toNat < 32 := by
          rw [toNat_and_31]
          omega
        rw [hw, Function.update_self, BitVec.getLsbD_and, BitVec.getLsbD_not, getLsbD_eipBitAt]
        rw [decide_eq_true hlt, decide_eq_false hb, Bool.not_false, Bool.and_self, Bool.and_true]
      · rw [Function.update_of_ne hw]

theorem CsrAcks.claim :
    CsrAcks mfile iid mask c
      (c.setState (c.state.setImsicFile mfile (imsicTopeiClaimIid (c.state.imsicFile mfile) iid))) where
  rest := by cases mfile <;> exact ⟨_, _, _, _, _, _, rfl⟩
  otherFile := by cases mfile <;> rfl
  registers := by
    simp only [CsrCtx.setState, HartState.imsicFile_setImsicFile]
    exact claim_registers _ _
  pending := fun m hm => by
    simp only [CsrCtx.setState, HartState.imsicFile_setImsicFile]
    exact eipBit_claim_other hm
  lines := by cases mfile <;> rfl
  stimer := fun _ => by cases mfile <;> exact ⟨rfl, rfl⟩
  mtimer := fun _ _ => by cases mfile <;> rfl

/-- Moving the machine timer's comparator. -/
theorem CsrAcks.bump : CsrAcks true (timerIid true) mask c c.bumpExpiredMtimecmp := by
  simp only [CsrCtx.bumpExpiredMtimecmp]
  split
  · refine ⟨⟨_, _, _, _, _, _, rfl⟩, rfl, ⟨_, _, rfl⟩, fun _ _ => rfl, rfl, fun _ => ⟨rfl, rfl⟩, ?_⟩
    intro i hi
    have hne : i ≠ c.externHartId := fun h => hi ⟨rfl, rfl, h⟩
    exact Function.update_of_ne hne _ _
  · exact .refl c

/-- Moving the supervisor timer's comparator. -/
theorem CsrAcks.stimecmp {m : Word} (h : m &&& ~~~mask = c.state.mip &&& ~~~mask) (cmp deadline : Word) :
    CsrAcks false (timerIid false) mask c
      (c.setState { c.state with mip := m, stimecmp := cmp, stipDeadline := deadline }) where
  rest := ⟨_, _, _, _, _, _, rfl⟩
  otherFile := rfl
  registers := ⟨_, _, rfl⟩
  pending := fun _ _ => rfl
  lines := h
  stimer := fun hn => absurd ⟨rfl, rfl⟩ hn
  mtimer := fun _ _ => rfl

/-! ### The registers -/

/-- A part of the mask does not leave it. -/
theorem and_not_or_left (x y : Word) : x &&& ~~~(x ||| y) = 0 := by
  rw [BitVec.not_or, ← BitVec.and_assoc, BitVec.and_not_self]
  exact BitVec.zero_and

theorem and_not_or_right (x y : Word) : y &&& ~~~(x ||| y) = 0 := by
  rw [BitVec.or_comm]
  exact and_not_or_left y x

theorem ackSoft_acknowledges (c : CsrCtx) (mfile : Bool) (iid : BitVec 32) (line : Word) :
    CsrAcks mfile iid (line ||| ownMip mfile iid) c (c.setState (ackSoft c.state mfile iid)) := by
  simp only [ackSoft]
  by_cases hm : mfile = true ∧ iid = 3
  · obtain ⟨rfl, rfl⟩ := hm
    exact .clearMip (and_not_or_right line (bit 3))
  · rw [if_neg hm]
    by_cases hs : (!mfile) = true ∧ iid = 1
    · obtain ⟨hf, rfl⟩ := hs
      rw [Bool.not_eq_true'] at hf
      subst hf
      exact .clearMip (and_not_or_right line (bit 1))
    · rw [if_neg hs]
      exact .refl c

theorem ackStimer_acknowledges (c : CsrCtx) (mfile : Bool) (iid : BitVec 32) (line : Word) :
    CsrAcks mfile iid (line ||| ownMip mfile iid) c
      (c.setState (ackStimer c.state mfile iid c.clint.mtime)) := by
  simp only [ackStimer]
  by_cases hs : (!mfile) = true ∧ iid = 5
  · obtain ⟨hf, rfl⟩ := hs
    rw [Bool.not_eq_true'] at hf
    subst hf
    have hclear := and_not_clear (and_not_or_right line (bit 5)) (x := c.state.mip)
    rw [if_pos ⟨rfl, rfl⟩]
    split
    · exact CsrAcks.stimecmp hclear _ _
    · exact .clearMip (and_not_or_right line (bit 5))
  · rw [if_neg hs]
    exact .refl c

/-- `csr_read` and `handle_csr` claim the reported identity and acknowledge it; nothing else moves. -/
theorem topei_acknowledges (c : CsrCtx) (mfile : Bool) :
    CsrAcks mfile (reportedIdentity (topeiRead c.state mfile).2)
      (imsicMipBit mfile ||| ownMip mfile (reportedIdentity (topeiRead c.state mfile).2)) c
      (topeiAck (c.setState (topeiRead c.state mfile).1) mfile (topeiRead c.state mfile).2) := by
  have hread : CsrAcks mfile (reportedIdentity (topeiRead c.state mfile).2)
      (imsicMipBit mfile ||| ownMip mfile (reportedIdentity (topeiRead c.state mfile).2)) c
      (c.setState (topeiRead c.state mfile).1) := by
    simp only [topeiRead]
    split
    · exact CsrAcks.claim.trans (.sync (and_not_or_left _ _))
    · exact .refl c
  apply hread.trans
  generalize (topeiRead c.state mfile).2 = raw
  generalize c.setState (topeiRead c.state mfile).1 = c
  simp only [topeiAck, reportedIdentity]
  generalize (raw >>> 16).setWidth 32 = iid
  have hclaim : CsrAcks mfile iid (imsicMipBit mfile ||| ownMip mfile iid) c _ := .claim
  generalize c.state.setImsicFile mfile (imsicTopeiClaimIid (c.state.imsicFile mfile) iid) = s at hclaim ⊢
  have hsoft := hclaim.trans (ackSoft_acknowledges (c.setState s) mfile iid (imsicMipBit mfile))
  have htimer := hsoft.trans (ackStimer_acknowledges _ mfile iid (imsicMipBit mfile))
  simp only [CsrCtx.setState] at htimer ⊢
  generalize ackStimer (ackSoft s mfile iid) mfile iid c.clint.mtime = s at htimer ⊢
  by_cases h7 : mfile = true ∧ iid = 7
  · obtain ⟨rfl, rfl⟩ := h7
    rw [if_pos ⟨rfl, rfl⟩]
    have hbit : bit 7 &&& ~~~(imsicMipBit true ||| ownMip true 7) = 0 := and_not_or_right _ (bit 7)
    exact ((htimer.trans (.clearMip hbit)).trans .bump).trans (.sync (and_not_or_left _ _))
  · rw [if_neg h7]
    exact htimer.trans (.sync (and_not_or_left _ _))

/-- A claim clears pending bits and sets none. -/
theorem eipBit_claim_le {f : ImsicFile} {m : BitVec 32} (h : eipBit f.eip m = false) :
    eipBit (imsicTopeiClaimIid f iid).eip m = false := by
  by_cases hm : m ≠ iid ∨ iid = 0
  · rw [eipBit_claim_other hm, h]
  · rw [not_or, not_not] at hm
    obtain ⟨rfl, hm⟩ := hm
    rw [imsicTopeiClaimIid]
    split
    · exact h
    · dsimp only
      split_ifs
      all_goals first
        | exact h
        | skip
      all_goals
        simp only [imsicUpdateEipExtAny, eipBit, Function.update_self, BitVec.getLsbD_and]
        rw [show (f.eip (eipWordOf m)).getLsbD (m &&& 31).toNat = false from h, Bool.false_and]

/-- The file after the acknowledgement is the file after the second claim. -/
theorem imsicFile_topeiAck (c : CsrCtx) (mfile : Bool) (old : Word) :
    (topeiAck c mfile old).state.imsicFile mfile =
      imsicTopeiClaimIid (c.state.imsicFile mfile) (reportedIdentity old) := by
  have hsoft : ∀ s iid, (ackSoft s mfile iid).imsicFile mfile = s.imsicFile mfile := by
    intro s iid
    simp only [ackSoft]
    split
    · exact imsicFile_clearMip s mfile _
    · split
      · exact imsicFile_clearMip s mfile _
      · rfl
  have htimer : ∀ s iid now, (ackStimer s mfile iid now).imsicFile mfile = s.imsicFile mfile := by
    intro s iid now
    simp only [ackStimer]
    split
    · split
      · cases mfile <;> rfl
      · exact imsicFile_clearMip s mfile _
    · rfl
  simp only [topeiAck, CsrCtx.setState]
  rw [imsicFile_syncImsicOne]
  split
  · rw [CsrCtx.bumpExpiredMtimecmp_state]
    simp only
    rw [imsicFile_clearMip, htimer, hsoft, HartState.imsicFile_setImsicFile]
    rfl
  · simp only
    rw [htimer, hsoft, HartState.imsicFile_setImsicFile]
    rfl

/-- The identity that was reported is no longer pending. -/
theorem topei_claims (c : CsrCtx) (mfile : Bool) (h : (topeiRead c.state mfile).2 ≠ 0) :
    eipBit ((topeiAck (c.setState (topeiRead c.state mfile).1) mfile (topeiRead c.state mfile).2).state.imsicFile
      mfile).eip (reportedIdentity (topeiRead c.state mfile).2) = false := by
  have hvalue : (topeiRead c.state mfile).2 = imsicTopeiPeek (c.state.imsicFile mfile) := by
    simp only [topeiRead]
    split <;> rfl
  rw [imsicFile_topeiAck]
  apply eipBit_claim_le
  rw [hvalue] at h ⊢
  have hfile : (topeiRead c.state mfile).1.imsicFile mfile =
      imsicTopeiClaimIid (c.state.imsicFile mfile) (reportedIdentity (imsicTopeiPeek (c.state.imsicFile mfile))) := by
    simp only [topeiRead, if_pos h]
    rw [imsicFile_syncImsicOne, HartState.imsicFile_setImsicFile]
    rfl
  have hfile' : (c.setState (topeiRead c.state mfile).1).state.imsicFile mfile = _ := hfile
  rw [hfile', eipBit_engineClaim h]
  simp

/-- What a read of `mtopi` or `stopi` that reports `old` does: the software interrupt is acknowledged
with its file's line, the timer interrupt with its comparator, and the pending bits stay. -/
def AcksMajor (mfile : Bool) (c c' : CsrCtx) (old : Word) : Prop :=
  let iid := reportedIdentity old
  if iid = softIid mfile then
    CsrAcks mfile iid (imsicMipBit mfile ||| ownMip mfile iid) c c' ∧
      c'.state.imsicFile mfile = c.state.imsicFile mfile
  else if iid = timerIid mfile then
    CsrAcks mfile iid (ownMip mfile iid) c c' ∧ c'.state.imsicFile mfile = c.state.imsicFile mfile
  else c' = c

/-- No software interrupt is claimed from a file that offers nothing. -/
theorem claim_soft_of_peek {f : ImsicFile} (h : imsicTopeiPeek f = 0) (hi : iid = 1 ∨ iid = 3) :
    imsicTopeiClaimIid f iid = f := by
  have hipi : ¬ ipiPending f ≠ 0 := fun hne => peek_ne_zero_iff.mpr (.inl hne) h
  have hzero : ∀ b : BitVec 32, (1#32 <<< 3 ||| 1#32 <<< 1) &&& b = b → f.eip 0 &&& b = 0 := by
    intro b hb
    rw [← hb, ← BitVec.and_assoc, show f.eip 0 &&& (1#32 <<< 3 ||| 1#32 <<< 1) = 0 from not_not.mp hipi]
    exact BitVec.zero_and
  rcases hi with rfl | rfl
  · have h0 : f.eip 0 &&& eipBitAt 1 = 0 := hzero _ (by decide)
    have hfin : imsicTopeiClaimIid f 1 = if eipWordOf 1 < eipWords ∧ f.eip 0 &&& eipBitAt 1 ≠ 0 then _ else f :=
      rfl
    rw [hfin]
    exact if_neg fun hc => hc.2 h0
  · have h0 : f.eip 0 &&& eipBitAt 3 = 0 := hzero _ (by decide)
    have hfin : imsicTopeiClaimIid f 3 = if eipWordOf 3 < eipWords ∧ f.eip 0 &&& eipBitAt 3 ≠ 0 then _ else f :=
      rfl
    rw [hfin]
    exact if_neg fun hc => hc.2 h0

/-- A major identity above a priority byte. -/
theorem major_shift (k x : Word) (hk : k.toNat < 2048) : (k <<< 16 ||| (x &&& 0xFF)) >>> 16 = k := by
  apply BitVec.eq_of_getLsbD_eq
  intro i hi
  have hmask : (0xFF : Word).getLsbD (16 + i) = false :=
    (by decide : ∀ j < 64, (0xFF : Word).getLsbD (16 + j) = false) i hi
  rw [BitVec.getLsbD_ushiftRight, BitVec.getLsbD_or, BitVec.getLsbD_and, hmask, BitVec.getLsbD_shiftLeft]
  by_cases h64 : 16 + i < 64
  · simp [h64, show 16 + i - 16 = i by omega]
  · have hhigh : k.getLsbD i = false := by
      rw [← BitVec.testBit_toNat]
      exact Nat.testBit_lt_two_pow (hk.trans_le (Nat.pow_le_pow_right (n := 2) (by decide) (by omega : 11 ≤ i)))
    simp [h64, hhigh]

theorem AcksMajor.soft {mfile : Bool} {c c' : CsrCtx} {old : Word} (hid : reportedIdentity old = softIid mfile)
    (h : CsrAcks mfile (softIid mfile) (imsicMipBit mfile ||| ownMip mfile (softIid mfile)) c c')
    (hf : c'.state.imsicFile mfile = c.state.imsicFile mfile) : AcksMajor mfile c c' old := by
  simp only [AcksMajor, hid]
  exact (if_pos trivial).mpr ⟨h, hf⟩

theorem AcksMajor.timer {mfile : Bool} {c c' : CsrCtx} {old : Word} (hid : reportedIdentity old = timerIid mfile)
    (h : CsrAcks mfile (timerIid mfile) (ownMip mfile (timerIid mfile)) c c')
    (hf : c'.state.imsicFile mfile = c.state.imsicFile mfile) : AcksMajor mfile c c' old := by
  have hne : timerIid mfile ≠ softIid mfile := by cases mfile <;> decide
  simp only [AcksMajor, hid, if_neg hne]
  exact (if_pos trivial).mpr ⟨h, hf⟩

theorem AcksMajor.other {mfile : Bool} {c : CsrCtx} {old : Word} (hs : reportedIdentity old ≠ softIid mfile)
    (ht : reportedIdentity old ≠ timerIid mfile) : AcksMajor mfile c c old := by
  simp only [AcksMajor, if_neg hs, if_neg ht]

/-- The software interrupt, which the file does not offer, is acknowledged. -/
theorem soft_acknowledges {c : CsrCtx} {mfile : Bool} (hpeek : imsicTopeiPeek (c.state.imsicFile mfile) = 0)
    {old : Word} (hid : reportedIdentity old = softIid mfile) :
    AcksMajor mfile c
      (c.setState ((claimAndSync (c.state.clearMip (ownMip mfile (softIid mfile))) mfile (softIid mfile)).clearMip
        (ownMip mfile (softIid mfile)))) old := by
  have hsoft : softIid mfile = 1 ∨ softIid mfile = 3 := by cases mfile <;> decide
  have hown := and_not_or_right (imsicMipBit mfile) (ownMip mfile (softIid mfile))
  have hclear : CsrAcks mfile (softIid mfile) (imsicMipBit mfile ||| ownMip mfile (softIid mfile)) c
      (c.setState (c.state.clearMip (ownMip mfile (softIid mfile)))) := .clearMip hown
  have hclaim := (hclear.trans .claim).trans (.sync (and_not_or_left _ _))
  apply AcksMajor.soft hid
  · exact hclaim.trans (.clearMip hown)
  · simp only [CsrCtx.setState]
    rw [imsicFile_clearMip, claimAndSync, imsicFile_syncImsicOne, HartState.imsicFile_setImsicFile, imsicFile_clearMip,
      claim_soft_of_peek hpeek hsoft]

/-- What `mtopi` reports: the file's interrupt, the software interrupt, the timer, or nothing. -/
theorem computeMtopi_cases (s : HartState) :
    (∃ prio, computeMtopi s = (s, (11#64 <<< 16) ||| (prio &&& 0xFF))) ∨
    (imsicTopeiPeek s.imsicM = 0 ∧ computeMtopi s = (s.clearMip (bit 3), (3#64 <<< 16) ||| 1)) ∨
    computeMtopi s = (s, (7#64 <<< 16) ||| 1) ∨ computeMtopi s = (s, 0) := by
  simp only [computeMtopi]
  split
  · exact .inl ⟨_, rfl⟩
  · rename_i hraw
    split
    · exact .inr (.inl ⟨not_not.mp hraw, rfl⟩)
    · split
      · exact .inr (.inr (.inl rfl))
      · exact .inr (.inr (.inr rfl))

theorem computeStopi_cases (s : HartState) (now : Word) :
    (∃ prio, computeStopi s now = (s, (9#64 <<< 16) ||| (prio &&& 0xFF))) ∨
    (imsicTopeiPeek s.imsicS = 0 ∧ computeStopi s now = (s.clearMip (bit 1), (1#64 <<< 16) ||| 1)) ∨
    computeStopi s now = (s, (5#64 <<< 16) ||| 1) ∨ computeStopi s now = (s, 0) := by
  simp only [computeStopi]
  generalize (if s.stimecmp = 0 then _ else _ : Bool) = pending
  split
  · exact .inl ⟨_, rfl⟩
  · rename_i hraw
    split
    · exact .inr (.inl ⟨not_not.mp hraw, rfl⟩)
    · split
      · exact .inr (.inr (.inl rfl))
      · exact .inr (.inr (.inr rfl))

theorem mtopi_acknowledges (c : CsrCtx) :
    AcksMajor true c (mtopiWrite (c.setState (computeMtopi c.state).1) (computeMtopi c.state).2)
      (computeMtopi c.state).2 := by
  rcases computeMtopi_cases c.state with ⟨prio, hval⟩ | ⟨hpeek, hval⟩ | hval | hval
  · -- an identity of the file is only reported
    have hid := major_shift 11#64 prio (by decide)
    have hwrite : mtopiWrite c ((11#64 <<< 16) ||| (prio &&& 0xFF)) = c := by
      rw [mtopiWrite, iidOf, hid]
      rfl
    rw [hval]
    simp only [CsrCtx.setState]
    rw [hwrite]
    apply AcksMajor.other
    · rw [reportedIdentity, hid]
      decide
    · rw [reportedIdentity, hid]
      decide
  · rw [hval]
    have hid : reportedIdentity ((3#64 <<< 16) ||| 1) = softIid true := by decide
    have hwrite : mtopiWrite (c.setState (c.state.clearMip (bit 3))) ((3#64 <<< 16) ||| 1) =
        c.setState ((claimAndSync (c.state.clearMip (bit 3)) true 3).clearMip (bit 3)) := rfl
    show AcksMajor true c (mtopiWrite (c.setState (c.state.clearMip (bit 3))) ((3#64 <<< 16) ||| 1)) _
    rw [hwrite]
    exact @soft_acknowledges c true hpeek _ hid
  · rw [hval]
    have hid : reportedIdentity ((7#64 <<< 16) ||| 1) = timerIid true := by decide
    have hwrite : mtopiWrite (c.setState c.state) ((7#64 <<< 16) ||| 1) =
        (c.setState (c.state.clearMip (bit 7))).bumpExpiredMtimecmp := rfl
    have hbump : CsrAcks true (timerIid true) (ownMip true (timerIid true)) c
        (c.setState (c.state.clearMip (bit 7))).bumpExpiredMtimecmp :=
      CsrAcks.trans (.clearMip (by decide)) .bump
    apply AcksMajor.timer hid
    · rw [hwrite]
      exact hbump
    · rw [hwrite, CsrCtx.bumpExpiredMtimecmp_state]
      rfl
  · rw [hval]
    have hid : reportedIdentity 0 ≠ softIid true ∧ reportedIdentity 0 ≠ timerIid true := by decide
    have hwrite : mtopiWrite (c.setState c.state) 0 = c := rfl
    show AcksMajor true c (mtopiWrite (c.setState c.state) 0) 0
    rw [hwrite]
    exact AcksMajor.other hid.1 hid.2

theorem writeTimecmp_mip (s : HartState) (line now val hz : Word) :
    (writeTimecmp s line now val hz).2 &&& ~~~line = s.mip &&& ~~~line := by
  have hself : line &&& ~~~line = 0 := BitVec.and_not_self line
  rw [writeTimecmp]
  split
  · exact and_not_clear hself
  · split
    · exact and_not_set hself
    · exact and_not_clear hself

theorem stopi_acknowledges (c : CsrCtx) :
    AcksMajor false c (stopiWrite (c.setState (computeStopi c.state c.clint.mtime).1)
      (computeStopi c.state c.clint.mtime).2) (computeStopi c.state c.clint.mtime).2 := by
  rcases computeStopi_cases c.state c.clint.mtime with ⟨prio, hval⟩ | ⟨hpeek, hval⟩ | hval | hval
  · have hid := major_shift 9#64 prio (by decide)
    have hwrite : stopiWrite c ((9#64 <<< 16) ||| (prio &&& 0xFF)) = c := by
      rw [stopiWrite, iidOf, hid]
      rfl
    rw [hval]
    simp only [CsrCtx.setState]
    rw [hwrite]
    apply AcksMajor.other
    · rw [reportedIdentity, hid]
      decide
    · rw [reportedIdentity, hid]
      decide
  · rw [hval]
    have hid : reportedIdentity ((1#64 <<< 16) ||| 1) = softIid false := by decide
    have hwrite : stopiWrite (c.setState (c.state.clearMip (bit 1))) ((1#64 <<< 16) ||| 1) =
        c.setState ((claimAndSync (c.state.clearMip (bit 1)) false 1).clearMip (bit 1)) := rfl
    show AcksMajor false c (stopiWrite (c.setState (c.state.clearMip (bit 1))) ((1#64 <<< 16) ||| 1)) _
    rw [hwrite]
    exact @soft_acknowledges c false hpeek _ hid
  · rw [hval]
    have hid : reportedIdentity ((5#64 <<< 16) ||| 1) = timerIid false := by decide
    have hwrite : stopiWrite (c.setState c.state) ((5#64 <<< 16) ||| 1) =
        if 0 < c.state.stimecmp ∧ c.state.stimecmp ≤ c.clint.mtime then
          c.setState (writeStimecmp { c.state.clearMip (bit 5) with stimecmp := c.clint.mtime + 4 } c.clint.mtime
            (c.clint.mtime + 4) c.clint.timebaseHz)
        else c.setState (c.state.clearMip (bit 5)) := rfl
    have hown : bit 5 &&& ~~~(ownMip false (timerIid false)) = 0 := by decide
    rw [hwrite]
    by_cases hexp : 0 < c.state.stimecmp ∧ c.state.stimecmp ≤ c.clint.mtime
    · rw [if_pos hexp]
      apply AcksMajor.timer hid
      · apply CsrAcks.stimecmp
        apply (writeTimecmp_mip _ (bit 5) _ _ _).trans
        exact and_not_clear hown
      · rfl
    · rw [if_neg hexp]
      apply AcksMajor.timer hid
      · exact .clearMip hown
      · rfl
  · rw [hval]
    have hid : reportedIdentity 0 ≠ softIid false ∧ reportedIdentity 0 ≠ timerIid false := by decide
    have hwrite : stopiWrite (c.setState c.state) 0 = c := rfl
    show AcksMajor false c (stopiWrite (c.setState c.state) 0) 0
    rw [hwrite]
    exact AcksMajor.other hid.1 hid.2

end Acknowledge

/-! ## The instruction -/

/-- A read of `mtopei` or `stopei` that reports `old` claims the identity in it. -/
def ClaimsReported (mfile : Bool) (c c' : CsrCtx) (old : Word) : Prop :=
  let iid := reportedIdentity old
  CsrAcks mfile iid (imsicMipBit mfile ||| ownMip mfile iid) c c' ∧
    (old ≠ 0 → eipBit (c'.state.imsicFile mfile).eip iid = false)

/-- What a read that reports `old` leaves: everything, but for the top-interrupt registers. -/
def CsrReadEffect (c c' : CsrCtx) (old : Word) : CsrReg → Prop
  | .mtopei => ClaimsReported true c c' old
  | .stopei => ClaimsReported false c c' old
  | .mtopi => AcksMajor true c c' old
  | .stopi => AcksMajor false c c' old
  | _ => c' = c

section Instruction

variable (cfg : Features) {c : CsrCtx} {rd rs1 : BitVec 5} {addr : BitVec 12} {funct3 : BitVec 3}
  (instr : BitVec 32) (g : InstrToBeExec)

/-- The instruction on any register but `mtopei` and `stopei`: the value read is written back. -/
theorem handleCsr_write_back (hread : IsCsrRead funct3 rs1) {c₁ c₂ : CsrCtx} {old : Word}
    (hr : csrRead cfg c addr = (c₁, old, .ok)) (hn : ¬ (csrDecode addr = .mtopei ∨ csrDecode addr = .stopei))
    (hw : csrWrite cfg c₁ addr old = (c₂, .ok)) :
    handleCsr cfg c rd rs1 addr funct3 instr g = (c₂.setState (writeGpr c₂.state rd old), g, 4) := by
  simp only [handleCsr, hr, csrNewVal_read hread, if_neg hn, hw]

theorem handleCsr_topei (hread : IsCsrRead funct3 rs1) {c₁ : CsrCtx} {old : Word} {mfile : Bool}
    (hr : csrRead cfg c addr = (c₁, old, .ok))
    (hn : csrDecode addr = if mfile then .mtopei else .stopei) :
    handleCsr cfg c rd rs1 addr funct3 instr g =
      ((topeiAck c₁ mfile old).setState (writeGpr (topeiAck c₁ mfile old).state rd old), g, 4) := by
  have hor : csrDecode addr = .mtopei ∨ csrDecode addr = .stopei := by
    cases mfile
    · exact .inr hn
    · exact .inl hn
  have hfile : decide (csrDecode addr = .mtopei) = mfile := by
    rw [hn]
    cases mfile <;> rfl
  simp only [handleCsr, hr, csrNewVal_read hread, if_pos hor, hfile]

/-- The write path checks the same privilege, in a mode that reads do not change. -/
theorem csrWrite_after_read (hl : CsrLegal cfg c.state addr) {s : HartState} (h : InterruptFrame c.state s)
    (v : Word) : csrWrite cfg (c.setState s) addr v = csrWriteReg cfg (c.setState s) (csrDecode addr) v := by
  have hmode : csrPrivOk (c.setState s).state.mode (csrPrivReq addr) = true := by
    rw [show (c.setState s).state.mode = c.state.mode from h.mode]
    exact hl.priv
  rw [csrWrite, hmode]
  rfl

/-- **A CSR read leaves everything but `rd` as it was**, on a register that holds what its own
write path stores; a top-interrupt register acknowledges what it reports and nothing else. -/
theorem csr_read_effect (hl : CsrLegal cfg c.state addr) (hread : IsCsrRead funct3 rs1)
    (hs : Settled c (csrDecode addr)) :
    ∃ c', CsrReadEffect c c' (csrRead cfg c addr).2.1 (csrDecode addr) ∧
      handleCsr cfg c rd rs1 addr funct3 instr g =
        (c'.setState (writeGpr c'.state rd (csrRead cfg c addr).2.1), g, 4) := by
  have hp := hl.present
  by_cases htop : (csrDecode addr).isTop = false
  · obtain ⟨old, hr, hw⟩ := hs.write_back cfg htop hp
    rw [← hl.read] at hr
    have hne : ¬ (csrDecode addr = .mtopei ∨ csrDecode addr = .stopei) := by
      rintro (h | h)
      all_goals
        rw [h] at htop
        cases htop
    have hwrite := csrWrite_after_read cfg hl (.refl c.state) old
    rw [hr]
    refine ⟨c, ?_, handleCsr_write_back cfg instr g hread hr hne (hwrite.trans hw)⟩
    generalize csrDecode addr = r at htop
    cases r
    all_goals first
      | exact rfl
      | cases htop
  · generalize hd : csrDecode addr = r at htop hp
    cases r with
    | mtopei =>
      have haia : cfg.aia = true := hp
      have hr : csrRead cfg c addr = (c.setState (topeiRead c.state true).1, (topeiRead c.state true).2, .ok) := by
        rw [hl.read, hd]
        exact if_pos haia
      rw [hr]
      exact ⟨_, ⟨topei_acknowledges c true, topei_claims c true⟩,
        handleCsr_topei cfg instr g hread hr (hd.trans (if_pos rfl).symm)⟩
    | stopei =>
      have haia : cfg.aia = true := hp
      have hr : csrRead cfg c addr = (c.setState (topeiRead c.state false).1, (topeiRead c.state false).2, .ok) := by
        rw [hl.read, hd]
        exact if_pos haia
      rw [hr]
      exact ⟨_, ⟨topei_acknowledges c false, topei_claims c false⟩,
        handleCsr_topei cfg instr g hread hr hd⟩
    | mtopi =>
      have haia : cfg.aia = true := hp
      have hr : csrRead cfg c addr = (c.setState (computeMtopi c.state).1, (computeMtopi c.state).2, .ok) := by
        rw [hl.read, hd]
        exact if_pos haia
      have hne : ¬ (csrDecode addr = .mtopei ∨ csrDecode addr = .stopei) := by
        rw [hd]
        decide
      have hwrite := csrWrite_after_read cfg hl (.computeMtopi c.state) (computeMtopi c.state).2
      rw [hd] at hwrite
      rw [hr]
      exact ⟨_, mtopi_acknowledges c,
        handleCsr_write_back cfg instr g hread hr hne (hwrite.trans (if_pos haia))⟩
    | stopi =>
      have haia : cfg.aia = true := hp
      have hr : csrRead cfg c addr = (c.setState (computeStopi c.state c.clint.mtime).1,
          (computeStopi c.state c.clint.mtime).2, .ok) := by
        rw [hl.read, hd]
        exact if_pos haia
      have hne : ¬ (csrDecode addr = .mtopei ∨ csrDecode addr = .stopei) := by
        rw [hd]
        decide
      have hwrite := csrWrite_after_read cfg hl (.computeStopi c.state c.clint.mtime)
        (computeStopi c.state c.clint.mtime).2
      rw [hd] at hwrite
      rw [hr]
      exact ⟨_, stopi_acknowledges c,
        handleCsr_write_back cfg instr g hread hr hne (hwrite.trans (if_pos haia))⟩
    | _ => exact absurd rfl htop

end Instruction

/-- A hart of a platform with AIA and the F extension on. -/
def readHart : CsrCtx where
  state := { HartState.zeroed with
    mscratch := 0xCAFE
    imsicM := { ImsicFile.empty with eip := Function.update (fun _ => 0) 0 8 } }
  externHartId := 0
  pmp := ⟨fun _ => 0, fun _ => 0, 0⟩
  clint := ⟨0, 0, fun _ => 0, fun _ => 0, 10000000, 1, none⟩

def aiaOn : Features := ⟨true, false, false, 0⟩

/-- `csrrs x5, mscratch, x0`. -/
theorem mscratch_read_only :
    handleCsr aiaOn readHart 5 0 0x340 2 0x340022F3 ⟨.normal, 0⟩ =
      (readHart.setState (writeGpr readHart.state 5 0xCAFE), ⟨.normal, 0⟩, 4) := by
  have hl : CsrLegal aiaOn readHart.state 0x340 := ⟨by decide, by decide, by decide⟩
  have hread : IsCsrRead 2 0 := ⟨.inl rfl, rfl⟩
  obtain ⟨c', rfl, h⟩ := @csr_read_effect aiaOn readHart 5 0 0x340 2 0x340022F3 ⟨.normal, 0⟩ hl hread trivial
  exact h

/-- `csrrs x5, mtopei, x0` takes the pending bit of the identity that it reports. -/
theorem mtopei_read_claims :
    CsrLegal aiaOn readHart.state 0x35C ∧ IsCsrRead 2 0 ∧
      (handleCsr aiaOn readHart 5 0 0x35C 2 0x35C022F3 ⟨.normal, 0⟩).1.state.gprs 5 = 0x30003 ∧
      readHart.state.imsicM.eip 0 = 8 ∧
      (handleCsr aiaOn readHart 5 0 0x35C 2 0x35C022F3 ⟨.normal, 0⟩).1.state.imsicM.eip 0 = 0 := by
  refine ⟨⟨by decide, by decide, by decide⟩, ⟨.inl rfl, rfl⟩, by decide +kernel, by decide +kernel,
    by decide +kernel⟩

end Pyremu
