import Pyremu.LoadStore
import Pyremu.Walk

/-!
# Fetching an instruction

The fetch always asks for four bytes. At the end of a page it translates and
checks the next page as well, before it knows the length of the instruction.
-/

namespace Pyremu

open ByteMem

/-- `check_bp_hit`. -/
def checkBpHit (pc : Word) (breakpoints : List Word) (fetchPa : Option Word) : Bool :=
  if breakpoints.isEmpty then false
  else if breakpoints.any (· = pc) then true
  else
    match fetchPa with
    | some pa => if pa ≠ pc then breakpoints.any (· = pa) else false
    | none => false

/-- How the main loop goes on after a fetch that gave nothing. -/
inductive Step where
  | continue
  | exit
  deriving DecidableEq, Repr

inductive FetchWord where
  | word (w : BitVec 32)
  | notMainRam
  | fault
  deriving DecidableEq, Repr

namespace World

variable (w : World)

def stopAt (reason : ExitReason) (pc : Word) (instr : BitVec 32) : World :=
  { w with module := w.module.requestStop ⟨reason, BitVec.ofNat 8 w.hartId, pc, instr⟩ }

/-- `post_instr_checks`; whether the loop goes on comes with the state. -/
def postInstrChecks (breakpoints : List Word) : World × Step :=
  let w := w.setHart { w.hart with totalInstrs := w.hart.totalInstrs + 1 }
  if checkBpHit w.hart.pc breakpoints none then (w.stopAt .breakpoint w.hart.pc 0, .exit) else (w, .continue)

/-- `translate_fetch_pc_concurrent`: no address after a trap. -/
def translateFetchPc (cfg : Features) (pc : Word) : World × Option Word :=
  if w.hart.mmuMode = 0 ∨ w.hart.mode = .M ∨ w.hart.mode = .D then (w, some pc)
  else
    match w.translate cfg pc .exec with
    | (w, .error f) => (w.fault f Exc.instrAccessFault pc, none)
    | (w, .ok t) => (w, some t.pa)

/-- `fetch_instr_word`. -/
def fetchInstrWord (cfg : Features) (pcBefore pageOffset fetchPa : Word) : World × FetchWord :=
  if pageOffset < 0xffe then
    match fetchInstr w.mem fetchPa with
    | some word => (w, .word word)
    | none => (w, .notMainRam)
  else
    match w.translateFetchPc cfg (pcBefore + 2) with
    | (w, none) => (w, .fault)
    | (w, some fetchPa2) =>
      if !pmpOk w.hart fetchPa2 4 false true w.pmp then (w.trap Exc.instrAccessFault pcBefore, .fault)
      else if (HartSched.ramOffset w.mem.toLayout fetchPa 2).isNone ∨
          (HartSched.ramOffset w.mem.toLayout fetchPa2 2).isNone then (w, .notMainRam)
      else
        let lo := (ramReadRaw w.mem fetchPa 2).setWidth 32
        let hi := (ramReadRaw w.mem fetchPa2 2).setWidth 32
        (w, .word (lo ||| (hi <<< 16)))

/-- `step_fetch_instr`: the address and the word, or how the loop goes on. -/
def stepFetchInstr (cfg : Features) (breakpoints : List Word) : World × Except Step (Word × BitVec 32) :=
  let pcBefore := w.hart.pc
  let pageOffset := pcBefore &&& 0xfff
  let checked (w : World) : World × Except Step (Word × BitVec 32) :=
    let r := w.postInstrChecks breakpoints
    (r.1, .error r.2)
  match w.translateFetchPc cfg pcBefore with
  | (w, none) => checked w
  | (w, some fetchPa) =>
    if !pmpOk w.hart fetchPa 4 false true w.pmp then checked (w.trap Exc.instrAccessFault pcBefore)
    else
      match w.fetchInstrWord cfg pcBefore pageOffset fetchPa with
      | (w, .fault) => checked w
      | (w, .notMainRam) => (w.stopAt .notMainram pcBefore 0, .error .exit)
      | (w, .word instr) =>
        if checkBpHit pcBefore breakpoints (some fetchPa) then
          (w.stopAt .breakpoint pcBefore instr, .error .exit)
        else (w, .ok (pcBefore, instr))

end World

/-! ## A compressed instruction -/

/-- The two bytes at a physical address. -/
def parcelAt (c : WalkCtx) (pa : Word) : BitVec 16 := (ramReadRaw c pa 2).setWidth 16

/-- The parcel at `pc` is a compressed instruction, and nothing stands against its two bytes: `pc`
translates to `pa`, they are in RAM and PMP permits their execution. `w₁` is the state after the
translation. -/
structure ShortAt (cfg : Features) (w w₁ : World) (pa : Word) : Prop where
  translated : w.translateFetchPc cfg w.hart.pc = (w₁, some pa)
  inRam : w₁.mem.ramBase ≤ pa ∧ pa + 2 ≤ w₁.mem.ramBase + w₁.mem.ramSize
  permitted : pmpOk w₁.hart pa 2 false true w₁.pmp = true
  short : parcelAt w₁.mem pa &&& 3 ≠ 3

/-- The fetch succeeds and delivers the parcel. -/
def DeliversParcel (cfg : Features) (breakpoints : List Word) (w w₁ : World) (pa : Word) : Prop :=
  ∃ w' instr, w.stepFetchInstr cfg breakpoints = (w', .ok (w.hart.pc, instr)) ∧
    instr.setWidth 16 = parcelAt w₁.mem pa

/-- The next page can be fetched as well, and its translation leaves the parcel as it is. -/
def NextPage (cfg : Features) (w w₁ : World) (pa : Word) : Prop :=
  ∃ w₂ pa₂, w₁.translateFetchPc cfg (w.hart.pc + 2) = (w₂, some pa₂) ∧
    pmpOk w₂.hart pa₂ 4 false true w₂.pmp = true ∧
      (HartSched.ramOffset w₂.mem.toLayout pa₂ 2).isSome = true ∧ parcelAt w₂.mem pa = parcelAt w₁.mem pa

/-- What the fetch asks for beyond the two bytes. -/
structure FourBytes (cfg : Features) (breakpoints : List Word) (w w₁ : World) (pa : Word) : Prop where
  unbroken : checkBpHit w.hart.pc breakpoints (some pa) = false
  permitted : pmpOk w₁.hart pa 4 false true w₁.pmp = true
  inRam : w.hart.pc &&& 0xfff < 0xffe → (pa - w₁.mem.ramBase).toNat ≤ w₁.mem.ramSize.toNat - 4
  next : ¬ w.hart.pc &&& 0xfff < 0xffe → NextPage cfg w w₁ pa

section

variable {cfg : Features} {breakpoints : List Word} {w w₁ : World} {pa : Word}

theorem translateFetchPc_layout (w : World) (pc : Word) {w' : World} {pa : Word}
    (h : w.translateFetchPc cfg pc = (w', some pa)) : w'.mem.toLayout = w.mem.toLayout := by
  simp only [World.translateFetchPc] at h
  split_ifs at h
  · cases h
    rfl
  · split at h
    · cases h
    · rename_i w'' t heq
      cases h
      have hmem : w'.mem = (translateVa cfg w.hart w.mem pc .exec w.pmp).2.1 :=
        (congrArg (fun r => r.1.mem) heq).symm
      rw [hmem]
      exact (RamFrame.translateVa cfg w.hart w.mem pc .exec w.pmp).toLayout

theorem ramOffset_of_inRam {l : Layout} (h : l.ramBase ≤ pa ∧ pa + 2 ≤ l.ramBase + l.ramSize) :
    HartSched.ramOffset l pa 2 = some (pa - l.ramBase) := if_pos h

/-- Four bytes begin with the two that the parcel has. -/
theorem readLe_four_low (m : Mem) (off : Nat) :
    ((readLe m off 4).setWidth 32).setWidth 16 = (readLe m off 2).setWidth 16 := by
  apply BitVec.eq_of_getLsbD_eq
  intro i hi
  simp only [BitVec.getLsbD_setWidth, getLsbD_readLe]
  have h4 : i < 8 * 4 := by omega
  have h2 : i < 8 * 2 := by omega
  have h32 : i < 32 := by omega
  simp [h4, h2, h32, hi]

theorem parcelAt_eq (c : WalkCtx) (h : c.ramBase ≤ pa ∧ pa + 2 ≤ c.ramBase + c.ramSize) :
    parcelAt c pa = (readLe c.ram (pa - c.ramBase).toNat 2).setWidth 16 := by
  rw [parcelAt, ramReadRaw, ramOffset_of_inRam h]
  rfl

theorem fetchInstr_low (c : WalkCtx) (h : c.ramBase ≤ pa ∧ pa + 2 ≤ c.ramBase + c.ramSize) {instr : BitVec 32}
    (hf : fetchInstr c pa = some instr) : instr.setWidth 16 = parcelAt c pa := by
  simp only [fetchInstr] at hf
  split_ifs at hf
  cases hf
  rw [parcelAt_eq c h, readLe_four_low]

theorem fetchInstr_isSome_iff (c : WalkCtx) :
    (fetchInstr c pa).isSome = true ↔ (pa - c.ramBase).toNat ≤ c.ramSize.toNat - 4 := by
  have hlt := c.ramSize.isLt
  simp only [fetchInstr, BitVec.lt_def, BitVec.toNat_ofNat]
  rw [Nat.mod_eq_of_lt (by omega : c.ramSize.toNat - 4 < 2 ^ 64)]
  split_ifs with h
  · simp only [Option.isSome_none, Bool.false_eq_true, false_iff]
    omega
  · simp only [Option.isSome_some, true_iff]
    omega

/-- A word put together from two parcels begins with the first. -/
theorem splice_low (a b : Word) : (a.setWidth 32 ||| (b.setWidth 32 <<< 16)).setWidth 16 = (a.setWidth 16 : BitVec 16) := by
  apply BitVec.eq_of_getLsbD_eq
  intro i hi
  have h32 : i < 32 := by omega
  simp [BitVec.getLsbD_setWidth, BitVec.getLsbD_or, BitVec.getLsbD_shiftLeft, hi, h32]

/-- The word of the first page, or of the two pages, begins with the parcel. -/
theorem fetchInstrWord_iff (h : ShortAt cfg w w₁ pa) :
    (∃ w' instr, w₁.fetchInstrWord cfg w.hart.pc (w.hart.pc &&& 0xfff) pa = (w', .word instr) ∧
        instr.setWidth 16 = parcelAt w₁.mem pa) ↔
      (w.hart.pc &&& 0xfff < 0xffe → (pa - w₁.mem.ramBase).toNat ≤ w₁.mem.ramSize.toNat - 4) ∧
        (¬ w.hart.pc &&& 0xfff < 0xffe → NextPage cfg w w₁ pa) := by
  simp only [World.fetchInstrWord]
  by_cases hoff : w.hart.pc &&& 0xfff < 0xffe
  · rw [if_pos hoff, and_iff_left fun hn => absurd hoff hn, forall_prop_of_true hoff, ← fetchInstr_isSome_iff]
    cases hf : fetchInstr w₁.mem pa with
    | none => simp
    | some instr =>
      simp only [Option.isSome_some, iff_true]
      exact ⟨w₁, instr, rfl, fetchInstr_low w₁.mem h.inRam hf⟩
  · rw [if_neg hoff, and_iff_right fun ho => absurd ho hoff, forall_prop_of_true hoff, NextPage]
    cases htr : w₁.translateFetchPc cfg (w.hart.pc + 2) with
    | mk w₂ r =>
      cases r with
      | none => simp
      | some pa₂ =>
        have hlayout := translateFetchPc_layout w₁ _ htr
        have hpa : HartSched.ramOffset w₂.mem.toLayout pa 2 = some (pa - w₁.mem.ramBase) := by
          rw [hlayout]
          exact ramOffset_of_inRam h.inRam
        have hnext : (∃ w₂' pa₂', ((w₂, some pa₂) : World × Option Word) = (w₂', some pa₂') ∧
            pmpOk w₂'.hart pa₂' 4 false true w₂'.pmp = true ∧
              (HartSched.ramOffset w₂'.mem.toLayout pa₂' 2).isSome = true ∧
                parcelAt w₂'.mem pa = parcelAt w₁.mem pa) ↔
            pmpOk w₂.hart pa₂ 4 false true w₂.pmp = true ∧
              (HartSched.ramOffset w₂.mem.toLayout pa₂ 2).isSome = true ∧
                parcelAt w₂.mem pa = parcelAt w₁.mem pa := by
          constructor
          · rintro ⟨w₂', pa₂', heq, hrest⟩
            cases heq
            exact hrest
          · exact fun hrest => ⟨w₂, pa₂, rfl, hrest⟩
        rw [hnext]
        dsimp only
        cases hp : pmpOk w₂.hart pa₂ 4 false true w₂.pmp with
        | false => simp
        | true =>
          cases ho : HartSched.ramOffset w₂.mem.toLayout pa₂ 2 with
          | none => simp [hpa]
          | some off =>
            simp only [hpa, Bool.not_true, Bool.false_eq_true, Option.isNone_some, or_self, if_false,
              Option.isSome_some, true_and]
            constructor
            · rintro ⟨w', instr, heq, hlow⟩
              cases heq
              rw [← hlow, splice_low]
              rfl
            · intro hsame
              refine ⟨w₂, _, rfl, ?_⟩
              rw [splice_low, ← hsame]
              rfl

/-- A compressed instruction is delivered exactly when the four bytes can be fetched. -/
theorem compressed_fetch_iff (h : ShortAt cfg w w₁ pa) :
    DeliversParcel cfg breakpoints w w₁ pa ↔ FourBytes cfg breakpoints w w₁ pa := by
  have hword := fetchInstrWord_iff h
  cases hperm : pmpOk w₁.hart pa 4 false true w₁.pmp with
  | false =>
    refine iff_of_false ?_ fun hf => Bool.noConfusion (hperm.symm.trans hf.permitted)
    rintro ⟨w', instr, heq, _⟩
    simp only [World.stepFetchInstr, h.translated, hperm, Bool.not_false, if_true] at heq
    cases heq
  | true =>
    have hstep : w.stepFetchInstr cfg breakpoints =
        match w₁.fetchInstrWord cfg w.hart.pc (w.hart.pc &&& 0xfff) pa with
        | (w', .fault) => ((w'.postInstrChecks breakpoints).1, .error (w'.postInstrChecks breakpoints).2)
        | (w', .notMainRam) => (w'.stopAt .notMainram w.hart.pc 0, .error .exit)
        | (w', .word instr) =>
          if checkBpHit w.hart.pc breakpoints (some pa) then
            (w'.stopAt .breakpoint w.hart.pc instr, .error .exit)
          else (w', .ok (w.hart.pc, instr)) := by
      simp only [World.stepFetchInstr, h.translated, hperm, Bool.not_true, Bool.false_eq_true, if_false]
    constructor
    · rintro ⟨w', instr, heq, hlow⟩
      rw [hstep] at heq
      split at heq
      · cases heq
      · cases heq
      · rename_i w'' instr' hfetch
        split_ifs at heq with hbp
        · cases heq
        · cases heq
          obtain ⟨hram, hnext⟩ := hword.mp ⟨w', instr, hfetch, hlow⟩
          exact ⟨Bool.eq_false_of_not_eq_true hbp, hperm, hram, hnext⟩
    · intro hf
      obtain ⟨w', instr, hfetch, hlow⟩ := hword.mpr ⟨hf.inRam, hf.next⟩
      refine ⟨w', instr, ?_, hlow⟩
      rw [hstep, hfetch]
      exact if_neg (by rw [hf.unbroken]; decide)

end

/-- Two pages of RAM that hold C.NOP everywhere, a hart in U mode without translation, and one PMP
entry that permits reading and executing the first page. -/
def nopPage (pc : Word) : World :=
  let w := World.zeroed ⟨0x80000000, 0x2000, 0x80000000, 0⟩
  { w with
    hart := { w.hart with mode := .U, pc := pc }
    mem := { w.mem with ram := fun i => if i % 2 = 0 then 1 else 0 }
    pmp := ⟨fun _ => 0x1D, fun _ => 0x200001FF, 1⟩ }

theorem shortAt_nopPage (cfg : Features) {pc : Word}
    (hram : 0x80000000 ≤ pc ∧ pc + 2 ≤ 0x80000000 + 0x2000)
    (hpmp : pmpOk (nopPage pc).hart pc 2 false true (nopPage pc).pmp = true)
    (hnop : parcelAt (nopPage pc).mem pc = 1) : ShortAt cfg (nopPage pc) (nopPage pc) pc where
  translated := if_pos (.inl rfl)
  inRam := hram
  permitted := hpmp
  short := by
    rw [hnop]
    decide

theorem nop_fetched :
    DeliversParcel ⟨true, false, false, 0⟩ [] (nopPage 0x80000FFC) (nopPage 0x80000FFC) 0x80000FFC := by
  apply (compressed_fetch_iff (shortAt_nopPage _ (by decide) (by decide +kernel) (by decide +kernel))).mpr
  constructor
  · decide +kernel
  · decide +kernel
  · decide +kernel
  · exact fun h => absurd (by decide +kernel) h

/-- C.NOP in the last two bytes that may be executed is not delivered. -/
theorem nop_at_page_end :
    ¬ ∀ (cfg : Features) (w w₁ : World) (pa : Word), ShortAt cfg w w₁ pa → DeliversParcel cfg [] w w₁ pa := by
  intro h
  obtain ⟨w', instr, heq, _⟩ := h ⟨true, false, false, 0⟩ (nopPage 0x80000FFE) (nopPage 0x80000FFE) 0x80000FFE
    (shortAt_nopPage _ (by decide) (by decide +kernel) (by decide +kernel))
  have hok : ((nopPage 0x80000FFE).stepFetchInstr ⟨true, false, false, 0⟩ []).2.isOk = true := by
    rw [heq]
    rfl
  exact absurd hok (by decide +kernel)

end Pyremu
