import Pyremu.Frames
import Pyremu.Lib.Bits
import Mathlib.Logic.Relation

/-!
# Results of a translation

Facts about `translate_va` that hold whatever the page tables contain: a page
fault carries the code of the access kind, a physical address keeps the page
offset of the virtual one, and of the shared context only RAM may change.
-/

namespace Pyremu

open ByteMem

/-- Low twelve bits. -/
def pageOffset (a : Word) : Nat := a.toNat % 4096

theorem pageOffset_or (x va : Word) :
    pageOffset ((x <<< 12) ||| (va &&& 0xFFF)) = pageOffset va := by
  have hbit : ∀ i, ((((x <<< 12) ||| (va &&& 0xFFF)).toNat) % 2 ^ 12).testBit i =
      (va.toNat % 2 ^ 12).testBit i := by
    intro i
    simp only [Nat.testBit_mod_two_pow]
    by_cases hi : i < 12
    · have hmask : (0xFFF : Word).getLsbD i = true := by
        have : i = 0 ∨ i = 1 ∨ i = 2 ∨ i = 3 ∨ i = 4 ∨ i = 5 ∨ i = 6 ∨ i = 7 ∨ i = 8 ∨ i = 9 ∨
          i = 10 ∨ i = 11 := by omega
        rcases this with rfl | rfl | rfl | rfl | rfl | rfl | rfl | rfl | rfl | rfl | rfl | rfl <;>
          decide
      have h : ((x <<< 12) ||| (va &&& 0xFFF)).getLsbD i = va.getLsbD i := by
        rw [BitVec.getLsbD_or, BitVec.getLsbD_and, hmask, BitVec.getLsbD_shiftLeft]
        simp [hi]
      simpa [hi, BitVec.getLsbD] using h
    · simp [hi]
  exact Nat.eq_of_testBit_eq hbit

/-- A result of the walk for `va`: a fault of the right kind, no mapping, or an
address with the offset of `va`. -/
def WalkResultOk (va : Word) : Except TranslateFault (Option TranslateResult) → Prop
  | .error e => e = .accessFault
  | .ok none => True
  | .ok (some r) => pageOffset r.pa = pageOffset va

section Walk

variable {c c' : WalkCtx} {s : HartState} {p : PmpCtx} {addr ppn idx : Word} {e : TranslateFault}

theorem readPteChecked_error (h : readPteChecked s p c addr = .error e) : e = .accessFault := by
  simp only [readPteChecked] at h
  split at h
  · cases h
  · cases h; rfl

theorem writePteCasChecked_error {x n : Word} (h : writePteCasChecked s p c addr x n = (c', .error e)) :
    e = .accessFault := by
  simp only [writePteCasChecked] at h
  split at h
  · cases h
  · split at h
    · cases h
    · cases h; rfl

theorem walkLevel_error (h : walkLevel c s p ppn idx = (c', .error e)) : e = .accessFault := by
  simp only [walkLevel] at h
  split at h
  · rename_i hr; cases h; exact readPteChecked_error hr
  · split at h
    · cases h
    · split at h
      · cases h
      · split at h
        · rename_i hw; cases h; exact writePteCasChecked_error hw
        · cases h
        · split at h
          · rename_i hr; cases h; exact readPteChecked_error hr
          · split at h <;> cases h

theorem l0Result_offset (ppn : Word) (perm : BitVec 8) (va : Word) :
    pageOffset (l0Result ppn perm (sv39DecomposeVa va).offset).pa = pageOffset va :=
  pageOffset_or _ va

theorem l1Result_offset (ppn : Word) (perm : BitVec 8) (vpn0 va : Word) :
    pageOffset (l1Result ppn perm vpn0 (sv39DecomposeVa va).offset).pa = pageOffset va :=
  pageOffset_or _ va

theorem walkL1Leaf_result (l1Addr l1Raw l1Ppn : Word) (perm : BitVec 8) (vpn0 va : Word)
    (rwx : Rwx) :
    WalkResultOk va (walkL1Leaf c s p l1Addr l1Raw l1Ppn perm vpn0 (sv39DecomposeVa va).offset rwx).2 := by
  simp only [walkL1Leaf]
  split
  · trivial
  · split
    · exact l1Result_offset _ _ _ va
    · split
      · rename_i hw; exact writePteCasChecked_error hw
      · exact l1Result_offset _ _ _ va
      · split
        · rename_i hr; exact readPteChecked_error hr
        · split
          · trivial
          · exact l1Result_offset _ _ _ va

theorem walkL0_result (l1Ppn vpn0 va : Word) (rwx : Rwx) :
    WalkResultOk va (walkL0 c s p l1Ppn vpn0 (sv39DecomposeVa va).offset rwx).2 := by
  simp only [walkL0]
  split
  · rename_i hr; exact readPteChecked_error hr
  · split
    · trivial
    · split
      · trivial
      · split
        · exact l0Result_offset _ _ va
        · split
          · rename_i hw; exact writePteCasChecked_error hw
          · exact l0Result_offset _ _ va
          · split
            · rename_i hr; exact readPteChecked_error hr
            · split
              · trivial
              · split
                · trivial
                · exact l0Result_offset _ _ va

theorem sv39Walk_result (c : WalkCtx) (s : HartState) (p : PmpCtx) (satp va : Word) (rwx : Rwx) :
    WalkResultOk va (sv39Walk c s p satp va rwx).2 := by
  simp only [sv39Walk, walkL2, walkL1]
  split
  · trivial
  · split
    · rename_i h2; exact walkLevel_error h2
    · trivial
    · split
      · trivial
      · split
        · rename_i h1; exact walkLevel_error h1
        · trivial
        · split
          · exact walkL1Leaf_result _ _ _ _ _ va rwx
          · exact walkL0_result _ _ va rwx

end Walk

/-- A result of `translate_va` for `va` and `rwx`. -/
def TranslateOk (va : Word) (rwx : Rwx) : Except TranslateFault TranslateResult → Prop
  | .error (.pageFault cause) => cause = faultCode (hasExec rwx) (hasWrite rwx)
  | .error .accessFault => True
  | .ok r => pageOffset r.pa = pageOffset va

/-- The same for an answer of the TLB. -/
def ProbeOk (va : Word) (rwx : Rwx) : TlbProbeResult → Prop
  | .hit r => TranslateOk va rwx (.ok r)
  | .fault f => TranslateOk va rwx (.error f)
  | .walk _ => True

theorem tlbProbe_result (tlb : Tlb) (vpn va : Word) (asid : BitVec 16) (b a : Option Word) (m : Mode)
    (ms : Word) (rwx : Rwx) :
    ProbeOk va rwx (tlbProbe tlb vpn va asid b a m ms (hasWrite rwx) (hasExec rwx)).2 := by
  simp only [tlbProbe]
  split
  · split
    · trivial
    · split
      · rfl
      · simp only [ProbeOk, TranslateOk, reconstructTlbPa]
        split <;> exact pageOffset_or _ va
  · trivial
  · trivial

theorem tlbProbeCounted_result (cfg : Features) (s : HartState) (c : WalkCtx) (va vpn : Word)
    (asid : BitVec 16) (m : Mode) (rwx : Rwx) :
    ProbeOk va rwx (tlbProbeCounted cfg s c va vpn asid m (hasWrite rwx) (hasExec rwx)).2 := by
  simp only [tlbProbeCounted]
  split
  · trivial
  · exact tlbProbe_result _ _ _ _ _ _ _ _ rwx

theorem translateWalk_result (cfg : Features) (s : HartState) (c : WalkCtx) (va : Word) (rwx : Rwx)
    (p : PmpCtx) (m : Mode) (cnt : Option Word) (reuse : Option Nat) :
    TranslateOk va rwx (translateWalk cfg s c va rwx p m cnt reuse).2.2 := by
  have hw := sv39Walk_result c s p s.satp va rwx
  simp only [translateWalk]
  split <;> rename_i heq <;> rw [heq] at hw
  · simp only [WalkResultOk] at hw
    subst hw
    trivial
  · rfl
  · split
    · rfl
    · split <;> exact hw

theorem translateVa_result (cfg : Features) (s : HartState) (c : WalkCtx) (va : Word) (rwx : Rwx)
    (p : PmpCtx) : TranslateOk va rwx (translateVa cfg s c va rwx p).2.2 := by
  simp only [translateVa]
  split
  · rfl
  · split
    · rfl
    · rename_i m _
      have hp := tlbProbeCounted_result cfg s c va (va >>> 12) (satpAsid s.satp) m rwx
      split <;> rename_i heq <;> rw [heq] at hp
      · exact hp
      · exact hp
      · exact translateWalk_result _ _ _ _ _ _ _ _ _

/-! ## The memory a walk touches -/

/-- The bits that an access sets in a leaf. -/
def adBits (rwx : Rwx) : Word := if hasWrite rwx then Pte.A ||| Pte.D else Pte.A

theorem adBits_low (rwx : Rwx) (i : Nat) (h : 8 ≤ i) : (adBits rwx).getLsbD i = false := by
  have hlt : (adBits rwx).toNat < 2 ^ i :=
    Nat.lt_of_lt_of_le (by cases rwx <;> decide : (adBits rwx).toNat < 2 ^ 8)
      (Nat.pow_le_pow_right (by decide) h)
  exact Nat.testBit_lt_two_pow hlt

theorem and_A_eq_zero (raw : Word) : raw &&& Pte.A = 0 ↔ raw.getLsbD 6 = false :=
  BitFields.and_twoPow_eq_zero (i := 6) (by decide)

theorem and_D_eq_zero (raw : Word) : raw &&& Pte.D = 0 ↔ raw.getLsbD 7 = false :=
  BitFields.and_twoPow_eq_zero (i := 7) (by decide)

theorem or_A {raw : Word} (h : ¬ raw &&& Pte.A = 0) : raw ||| Pte.A = raw :=
  BitFields.or_twoPow_of_getLsbD (i := 6) (by simpa using mt (and_A_eq_zero raw).mpr h)

theorem or_D {raw : Word} (h : ¬ raw &&& Pte.D = 0) : raw ||| Pte.D = raw :=
  BitFields.or_twoPow_of_getLsbD (i := 7) (by simpa using mt (and_D_eq_zero raw).mpr h)

theorem leafUpdate_eq (raw : Word) (rwx : Rwx) : leafUpdate raw rwx = raw ||| adBits rwx := by
  have hA : (if decide (raw &&& Pte.A = 0) = true then raw ||| Pte.A else raw) = raw ||| Pte.A := by
    by_cases h : raw &&& Pte.A = 0
    · rw [if_pos (decide_eq_true h)]
    · rw [if_neg (by simpa using h), or_A h]
  simp only [leafUpdate, adBits, hA]
  cases hasWrite rwx with
  | false => rfl
  | true =>
    by_cases h : raw &&& Pte.D = 0
    · rw [if_pos (by simpa using h), if_pos rfl, BitVec.or_assoc]
    · rw [if_neg (by simpa using h), if_pos rfl, BitVec.or_comm Pte.A, ← BitVec.or_assoc, or_D h]

/-- Set the bits `d` in the low byte of the entry at `pa`. -/
def setPteBits (c : WalkCtx) (pa d : Word) : WalkCtx :=
  match Translate.ramOffset c.toLayout pa 8 with
  | none => c
  | some off => { c with ram := orByte c.ram off.toNat (d.setWidth 8) }

/-- One update of a page-table entry. -/
def AdStep (c c' : WalkCtx) : Prop :=
  ∃ (pa : Word) (rwx : Rwx), pa.toNat % 8 = 0 ∧ c' = setPteBits c pa (adBits rwx)

/-- The two differ by updates of page-table entries. -/
def RamFrame : WalkCtx → WalkCtx → Prop := Relation.ReflTransGen AdStep

theorem setPteBits_ram (c : WalkCtx) (pa d : Word) :
    ∃ ram, setPteBits c pa d = { c with ram := ram } ∧ Grows c.ram ram := by
  simp only [setPteBits]
  split
  · exact ⟨_, rfl, .refl _⟩
  · exact ⟨_, rfl, .orByte _ _ _⟩

theorem pteAddr_aligned (ppn idx : Word) : (pteAddr ppn idx).toNat % 8 = 0 := by
  simp only [pteAddr, BitVec.toNat_add, BitVec.toNat_mul, BitVec.toNat_shiftLeft, Nat.shiftLeft_eq]
  have h8 : (8 : Word).toNat = 8 := rfl
  rw [h8]
  omega

namespace RamFrame

variable {c c' c'' : WalkCtx}

theorem refl (c : WalkCtx) : RamFrame c c := Relation.ReflTransGen.refl

theorem trans (h : RamFrame c c') (h' : RamFrame c' c'') : RamFrame c c'' :=
  Relation.ReflTransGen.trans h h'

theorem setPteBits (c : WalkCtx) {pa : Word} (ha : pa.toNat % 8 = 0) (rwx : Rwx) :
    RamFrame c (setPteBits c pa (adBits rwx)) :=
  Relation.ReflTransGen.single ⟨pa, rwx, ha, rfl⟩

/-- Only the bytes of RAM differ, and there bits were only set. -/
theorem ram (h : RamFrame c c') : ∃ ram, c' = { c with ram := ram } ∧ Grows c.ram ram := by
  induction h with
  | refl => exact ⟨_, rfl, .refl _⟩
  | tail _ hs ih =>
    obtain ⟨_, rfl, hg⟩ := ih
    obtain ⟨pa, rwx, _, rfl⟩ := hs
    obtain ⟨ram, heq, hg'⟩ := setPteBits_ram _ pa (adBits rwx)
    exact ⟨ram, heq, hg.trans hg'⟩

theorem toLayout (h : RamFrame c c') : c'.toLayout = c.toLayout := by
  obtain ⟨_, rfl, _⟩ := h.ram; rfl
theorem tlbFlushCnt (h : RamFrame c c') : c'.tlbFlushCnt = c.tlbFlushCnt := by
  obtain ⟨_, rfl, _⟩ := h.ram; rfl
theorem grows (h : RamFrame c c') : Grows c.ram c'.ram := by
  obtain ⟨_, rfl, hg⟩ := h.ram; exact hg

theorem writePteCas (c : WalkCtx) {a : Word} (ha : a.toNat % 8 = 0) (x : Word) (rwx : Rwx) :
    RamFrame c (writePteCas c a x (x ||| adBits rwx)).1 := by
  have hset := setPteBits c ha rwx
  simp only [Pyremu.setPteBits] at hset
  simp only [Pyremu.writePteCas]
  split
  · exact refl c
  · split <;> rename_i hoff <;> rw [hoff] at hset
    · exact refl c
    · split
      · rename_i hx
        rw [← hx, writeLe_or _ _ (adBits_low rwx)]
        exact hset
      · exact refl c

theorem writePteCasChecked (s : HartState) (p : PmpCtx) (c : WalkCtx) {a : Word}
    (ha : a.toNat % 8 = 0) (x : Word) (rwx : Rwx) :
    RamFrame c (writePteCasChecked s p c a x (x ||| adBits rwx)).1 := by
  simp only [Pyremu.writePteCasChecked]
  split
  · exact refl c
  · split
    · exact writePteCas c ha x rwx
    · exact refl c

/-- Whatever follows a compare-exchange and keeps its memory is in the frame. -/
theorem of_cas {s : HartState} {p : PmpCtx} {a x : Word} {rwx : Rwx} {r : Except TranslateFault Bool}
    (ha : a.toNat % 8 = 0)
    (h : Pyremu.writePteCasChecked s p c a x (x ||| adBits rwx) = (c', r)) : RamFrame c c' := by
  have hf := writePteCasChecked s p c ha x rwx
  rwa [h] at hf

theorem walkLevel (c : WalkCtx) (s : HartState) (p : PmpCtx) (ppn idx : Word) :
    RamFrame c (walkLevel c s p ppn idx).1 := by
  have hcas : ∀ {x : Word} c' r,
      Pyremu.writePteCasChecked s p c (pteAddr ppn idx) x (x ||| Pte.A) = (c', r) → RamFrame c c' :=
    fun _ _ hw => @of_cas _ _ _ _ _ _ .read _ (pteAddr_aligned _ _) hw
  simp only [Pyremu.walkLevel]
  split
  · exact refl c
  · split
    · exact refl c
    · split
      · exact refl c
      · split <;> rename_i hw
        · exact hcas _ _ hw
        · exact hcas _ _ hw
        · split
          · exact hcas _ _ hw
          · split <;> exact hcas _ _ hw

theorem walkL1Leaf (c : WalkCtx) (s : HartState) (p : PmpCtx) {a : Word} (ha : a.toNat % 8 = 0)
    (raw ppn : Word) (perm : BitVec 8)
    (vpn0 off : Word) (rwx : Rwx) :
    RamFrame c (walkL1Leaf c s p a raw ppn perm vpn0 off rwx).1 := by
  simp only [Pyremu.walkL1Leaf, leafUpdate_eq]
  split
  · exact refl c
  · split
    · exact refl c
    · split <;> rename_i hw
      · exact of_cas ha hw
      · exact of_cas ha hw
      · split
        · exact of_cas ha hw
        · split <;> exact of_cas ha hw

theorem walkL0 (c : WalkCtx) (s : HartState) (p : PmpCtx) (ppn vpn0 off : Word) (rwx : Rwx) :
    RamFrame c (walkL0 c s p ppn vpn0 off rwx).1 := by
  simp only [Pyremu.walkL0, leafUpdate_eq]
  split
  · exact refl c
  · split
    · exact refl c
    · split
      · exact refl c
      · split
        · exact refl c
        · split <;> rename_i hw
          · exact of_cas (pteAddr_aligned _ _) hw
          · exact of_cas (pteAddr_aligned _ _) hw
          · split
            · exact of_cas (pteAddr_aligned _ _) hw
            · split
              · exact of_cas (pteAddr_aligned _ _) hw
              · split <;> exact of_cas (pteAddr_aligned _ _) hw

theorem sv39Walk (c : WalkCtx) (s : HartState) (p : PmpCtx) (satp va : Word) (rwx : Rwx) :
    RamFrame c (sv39Walk c s p satp va rwx).1 := by
  have level : ∀ {c c' ppn idx r}, Pyremu.walkLevel c s p ppn idx = (c', r) → RamFrame c c' := by
    intro c c' ppn idx r h
    have hf := walkLevel c s p ppn idx
    rwa [h] at hf
  simp only [Pyremu.sv39Walk, walkL2, walkL1]
  split
  · exact refl c
  · split <;> rename_i h2
    · exact level h2
    · exact level h2
    · split
      · exact level h2
      · split <;> rename_i h1
        · exact (level h2).trans (level h1)
        · exact (level h2).trans (level h1)
        · split
          · exact ((level h2).trans (level h1)).trans (walkL1Leaf _ s p (pteAddr_aligned _ _) _ _ _ _ _ rwx)
          · exact ((level h2).trans (level h1)).trans (walkL0 _ s p _ _ _ rwx)

theorem translateWalk (cfg : Features) (s : HartState) (c : WalkCtx) (va : Word) (rwx : Rwx)
    (p : PmpCtx) (m : Mode) (cnt : Option Word) (reuse : Option Nat) :
    RamFrame c (translateWalk cfg s c va rwx p m cnt reuse).2.1 := by
  have hw := sv39Walk c s p s.satp va rwx
  simp only [Pyremu.translateWalk]
  split <;> rename_i heq <;> rw [heq] at hw
  · exact hw
  · exact hw
  · split
    · exact hw
    · split <;> exact hw

theorem translateVa (cfg : Features) (s : HartState) (c : WalkCtx) (va : Word) (rwx : Rwx)
    (p : PmpCtx) : RamFrame c (translateVa cfg s c va rwx p).2.1 := by
  simp only [Pyremu.translateVa]
  split
  · exact refl c
  · split
    · exact refl c
    · split
      · exact refl c
      · exact refl c
      · exact translateWalk cfg _ c va rwx p _ _ _

end RamFrame

end Pyremu
