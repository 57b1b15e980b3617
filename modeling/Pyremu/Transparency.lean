import Pyremu.TlbSound

/-!
# Transparency of the TLBs

Runs of one hart that translate, write satp and fence. Along such a run the
answer of a translation is the answer that empty TLBs would give, except that
an answer from the TLB skips the PMP checks of the walk: the reads of the
entries on the path, and the write that sets the dirty bit.
-/

namespace Pyremu

open ByteMem

/-! ## Runs -/

/-- What a hart does with its TLBs. `enter` sets the privilege mode and the status
register before the next translation. -/
inductive TlbOp where
  | enter (mode : Mode) (mstatus : Word)
  | translate (va : Word) (rwx : Rwx)
  | writeSatp (v : Word)
  | sfenceVma
  | mfenceDid
  | markAllDirty (isExecute : Bool)
  deriving DecidableEq, Repr

def TlbOp.step (cfg : Features) (w : World) : TlbOp → World
  | .enter mode mstatus => w.setHart { w.hart with mode := mode, mstatus := mstatus }
  | .translate va rwx => (w.translate cfg va rwx).1
  | .writeSatp v => w.setHart (csrWrite cfg w.csrCtx 0x180 v).1.state
  | .sfenceVma => Pyremu.sfenceVma w
  | .mfenceDid => w.setHart (Pyremu.mfenceDid w.hart)
  | .markAllDirty isExecute =>
    w.setHart (w.hart.setTlb isExecute (tlbMarkAllDirty (w.hart.tlb isExecute)))

/-- The step changes page tables in A and D bits only. -/
def FixedPages (cfg : Features) (w : World) (op : TlbOp) : Prop :=
  SamePages w.mem (op.step cfg w).mem

/-- The invariant of a run. -/
def World.TlbsSound (w : World) : Prop := w.hart.TlbsSound w.mem

theorem World.tlbsSound_of_empty {w : World} (h : w.hart.TlbsEmpty) : w.TlbsSound :=
  fun b => .of_invalid (h b)

theorem csrWrite_satp (cfg : Features) (c : CsrCtx) (v : Word) :
    (csrWrite cfg c 0x180 v).1.state = c.state ∨
      (csrWrite cfg c 0x180 v).1.state = satpWrite c.state v := by
  simp only [csrWrite]
  split
  · exact .inl rfl
  · exact .inr rfl

theorem tlbMarkAllDirty_clean (t : Tlb) (i : Nat) (hd : (tlbMarkAllDirty t i).dirty = false) :
    tlbMarkAllDirty t i = t i := by
  simp only [tlbMarkAllDirty] at hd ⊢
  split at hd
  · cases hd
  · rename_i h
    rw [if_neg h]

theorem tlbInvalidateDid_clean (t : Tlb) (mdid : Word) (i : Nat)
    (hv : (tlbInvalidateDid t mdid i).valid = true) : tlbInvalidateDid t mdid i = t i := by
  simp only [tlbInvalidateDid] at hv ⊢
  split at hv
  · cases hv
  · rename_i h
    rw [if_neg h]

theorem TlbOp.step_sound (cfg : Features) (w : World) (op : TlbOp) (h : w.TlbsSound)
    (hs : FixedPages cfg w op) : (op.step cfg w).TlbsSound := by
  cases op with
  | enter mode mstatus => exact h
  | translate va rwx => exact translateVa_sound h hs
  | writeSatp v =>
    obtain heq | heq := csrWrite_satp cfg w.csrCtx v <;>
      simp only [World.TlbsSound, step, World.setHart, heq]
    · exact h
    · intro b
      exact .of_invalid fun i => by cases b <;> rfl
  | sfenceVma =>
    intro b
    exact .of_invalid fun i => by cases b <;> rfl
  | mfenceDid =>
    intro b
    apply (h b).of_clean
    intro i hv _
    cases b with
    | false => exact tlbInvalidateDid_clean _ _ i hv
    | true => exact tlbInvalidateDid_clean _ _ i hv
  | markAllDirty x =>
    intro b
    simp only [step, World.setHart, HartState.setTlb_tlb, (TlbFrame.setTlb _ _ _).satp]
    split
    · rename_i hb
      subst hb
      exact (h b).of_clean fun i _ hd => tlbMarkAllDirty_clean _ i hd
    · exact h b

/-- Nothing but translations touches RAM. -/
theorem TlbOp.step_frame (cfg : Features) (w : World) (op : TlbOp) :
    (op.step cfg w).mem.toLayout = w.mem.toLayout ∧
      (w.mem.Aligned → FixedPages cfg w op) := by
  cases op with
  | translate va rwx =>
    have hf := RamFrame.translateVa cfg w.hart w.mem va rwx w.pmp
    exact ⟨hf.toLayout, hf.samePages⟩
  | sfenceVma => exact ⟨rfl, fun _ _ _ => rfl⟩
  | enter mode mstatus => exact ⟨rfl, fun _ => .refl _⟩
  | writeSatp v => exact ⟨rfl, fun _ => .refl _⟩
  | mfenceDid => exact ⟨rfl, fun _ => .refl _⟩
  | markAllDirty x => exact ⟨rfl, fun _ => .refl _⟩

/-- With aligned RAM every run keeps its page tables. -/
theorem fixedPages_of_aligned (cfg : Features) {w : World} (h : w.mem.Aligned) (ops : List TlbOp) :
    Run.Along (TlbOp.step cfg) (FixedPages cfg) w ops :=
  Run.along_of_invariant (I := fun w => w.mem.Aligned)
    (fun w op hw => by rw [(op.step_frame cfg w).1]; exact hw)
    (fun w op hw => (op.step_frame cfg w).2 hw) h

/-! ## The answer with empty TLBs -/

/-- The outcome of a translation: a physical address or a fault. -/
def World.outcome (cfg : Features) (w : World) (va : Word) (rwx : Rwx) : Except TranslateFault Word :=
  (w.translate cfg va rwx).2.map TranslateResult.pa

/-- The same machine with both TLBs emptied. -/
def World.emptyTlbs (w : World) : World :=
  w.setHart { w.hart with itlb := tlbFlushAll w.hart.itlb, dtlb := tlbFlushAll w.hart.dtlb }

/-- A translation gives what it would give with both TLBs emptied before. -/
def Transparent (cfg : Features) (w : World) : TlbOp → Prop
  | .translate va rwx => w.outcome cfg va rwx = w.emptyTlbs.outcome cfg va rwx
  | _ => True

/-- Bits R and W. -/
def PageLeaf.Writable (c : WalkCtx) (l : PageLeaf) : Prop :=
  (l.pte c).perm.getLsbD 1 = true ∧ (l.pte c).perm.getLsbD 2 = true

/-- PMP would let a walk reach the leaf and, for a write to a clean writable page, set
its dirty bit. -/
def PageLeaf.WalkAllowed (w : World) (rwx : Rwx) (l : PageLeaf) : Prop :=
  l.Readable w.hart w.pmp ∧ (hasWrite rwx = true → l.Writable w.mem → ¬ l.Dirty w.mem →
    pmpOk w.hart l.addr 8 true false w.pmp = true)

/-- Translation is on. -/
def HartState.Translates (s : HartState) : Prop := s.mmuMode = 8 ∧ effectiveMode s ≠ none

/-- A translation that a clean entry serves is one that the walk would be allowed. -/
def HitAllowed (cfg : Features) (w : World) : TlbOp → Prop
  | .translate va rwx => w.hart.Translates → tlbHit cfg w.hart va rwx ≠ none →
      ∀ l, leafOf w.mem w.hart.satp va = some l → l.WalkAllowed w rwx
  | _ => True

section Answer

variable {cfg : Features} {w : World} {s : HartState} {c : WalkCtx} {p : PmpCtx} {va : Word} {rwx : Rwx}
  {m : Mode} {l : PageLeaf}

theorem HartState.TlbsEmpty.tlbHit (h : s.TlbsEmpty) : Pyremu.tlbHit cfg s va rwx = none := by
  simp only [Pyremu.tlbHit, tlbLookup_empty (h _)]
  split <;> rfl

theorem translateVa_off (h : ¬ s.Translates) :
    translateVa cfg s c va rwx p = (s, c, .ok ⟨va, 0xF, 0⟩) := by
  simp only [translateVa]
  split
  · rfl
  · rename_i hm
    cases he : effectiveMode s with
    | none => rfl
    | some m => exact absurd ⟨not_not.mp hm, by simp [he]⟩ h

theorem outcome_emptyTlbs (hm : w.hart.mmuMode = 8) (he : effectiveMode w.hart = some m) :
    w.emptyTlbs.outcome cfg va rwx =
      (walkAnswer w.hart w.mem va rwx w.pmp m).map TranslateResult.pa := by
  have hempty : w.emptyTlbs.hart.TlbsEmpty := by
    intro b i
    cases b <;> rfl
  have hf : TlbFrame w.hart w.emptyTlbs.hart := ⟨_, _, _, _, _, _, rfl⟩
  have ha := (@translateVa_answer cfg w.emptyTlbs.hart w.mem va rwx w.pmp m hm he).1
  rw [hempty.tlbHit, hf.walkAnswer] at ha
  exact congrArg (Except.map TranslateResult.pa) ha

theorem outcome_eq (hm : w.hart.mmuMode = 8) (he : effectiveMode w.hart = some m) :
    w.outcome cfg va rwx =
      (match tlbHit cfg w.hart va rwx with
      | some e => permChecked (e.answer va) w.hart m rwx
      | none => walkAnswer w.hart w.mem va rwx w.pmp m).map TranslateResult.pa :=
  congrArg (Except.map TranslateResult.pa) (translateVa_answer hm he).1

/-- The entry that serves an access is sound. -/
theorem TlbSound.hit (h : w.TlbsSound) {e : TlbEntry} (he : tlbHit cfg w.hart va rwx = some e) :
    ∃ l, leafOf w.mem w.hart.satp va = some l ∧ l.Accessed w.mem ∧ e.answer va = l.result w.mem va := by
  simp only [tlbHit] at he
  split at he
  · cases he
  · split at he
    · rename_i i hi
      cases he
      obtain ⟨hv, hd, hvpn⟩ := tlbLookup_hit hi
      exact h _ i hv hd va hvpn.symm
    · cases he

theorem ptePermNeeded_write (perm : BitVec 8) (b : Bool) :
    perm &&& ptePermNeeded .write b = ptePermNeeded .write b ↔
      perm.getLsbD 1 = true ∧ perm.getLsbD 2 = true := by
  revert perm b
  decide

theorem ptePermNeeded_read (perm : BitVec 8) (b : Bool) :
    perm &&& ptePermNeeded .read b = ptePermNeeded .read b ↔ b = true ∨ perm.getLsbD 1 = true := by
  revert perm b
  decide

/-- The permission check asks for at least what the walk asks for. -/
theorem checkPtePerm_needed {perm : BitVec 8} {m : Mode} {ms : Word} {rwx : Rwx}
    (h : checkPtePerm perm m ms (hasWrite rwx) (hasExec rwx) = true) :
    perm &&& ptePermNeeded rwx (mxr ms) = ptePermNeeded rwx (mxr ms) := by
  simp only [checkPtePerm] at h
  split at h
  · cases h
  · split at h
    · cases h
    · cases rwx with
      | exec => simp [ptePermNeeded, hasRead, hasWrite]
      | write =>
        rw [ptePermNeeded_write]
        simpa [hasExec, hasWrite] using h
      | read =>
        rw [ptePermNeeded_read]
        simp only [hasExec, hasWrite, Bool.false_eq_true, ↓reduceIte, Bool.or_eq_true,
          Bool.and_eq_true] at h
        exact h.elim .inr fun h => .inl h.1

theorem permChecked_ne (r : TranslateResult) (s : HartState) (m : Mode) (rwx : Rwx) :
    (permChecked r s m rwx).map TranslateResult.pa ≠ .error .accessFault := by
  simp only [permChecked]
  split <;> simp [Except.map]

theorem PageLeaf.result_perm (c : WalkCtx) (va : Word) (l : PageLeaf) :
    (l.result c va).perm = (l.pte c).perm := by
  simp only [PageLeaf.result]
  split <;> rfl

/-- With A set the walk has to write exactly for a write to a clean page. -/
theorem PageLeaf.Accessed.update (hA : l.Accessed c) (rwx : Rwx) :
    readPte c l.addr ||| adBits rwx = readPte c l.addr ↔ (hasWrite rwx = true → l.Dirty c) := by
  have hA' := hA l.addr (by simp [PageLeaf.path])
  simp only [adBits]
  cases hasWrite rwx with
  | false => simpa using hA'
  | true =>
    rw [if_pos rfl, or_ad_iff, or_D_iff, and_D_eq_zero, Bool.not_eq_false]
    simp [hA', PageLeaf.Dirty]

/-- An answer from the leaf is the answer of the walk exactly when PMP allows the walk. -/
theorem walkAnswer_leaf (hl : leafOf w.mem w.hart.satp va = some l) (hA : l.Accessed w.mem) :
    (permChecked (l.result w.mem va) w.hart m rwx).map TranslateResult.pa =
        (walkAnswer w.hart w.mem va rwx w.pmp m).map TranslateResult.pa ↔
      l.WalkAllowed w rwx := by
  simp only [walkAnswer, sv39Walk_accessed hl hA, PageLeaf.WalkAllowed]
  by_cases hr : l.Readable w.hart w.pmp
  · rw [if_neg (not_not.mpr hr)]
    by_cases hperm : (l.pte w.mem).perm &&& ptePermNeeded rwx (mxr w.hart.mstatus) =
        ptePermNeeded rwx (mxr w.hart.mstatus)
    · rw [if_neg (not_not.mpr hperm)]
      by_cases hw : readPte w.mem l.addr ||| adBits rwx = readPte w.mem l.addr ∨
          pmpOk w.hart l.addr 8 true false w.pmp = true
      · rw [if_pos hw]
        rw [hA.update] at hw
        refine iff_of_true rfl ⟨hr, fun hwr _ hd => ?_⟩
        exact hw.resolve_left fun h => hd (h hwr)
      · rw [if_neg hw]
        refine iff_of_false (permChecked_ne _ _ _ _) fun h => hw (.inr ?_)
        rw [hA.update, not_or, Classical.not_imp] at hw
        obtain ⟨⟨hwr, hd⟩, _⟩ := hw
        cases rwx with
        | read => cases hwr
        | exec => cases hwr
        | write => exact h.2 hwr ((ptePermNeeded_write _ _).mp hperm) hd
    · rw [if_pos hperm]
      -- neither the entry nor the walk allows the access
      have hcheck : ¬ checkPtePerm (l.result w.mem va).perm m w.hart.mstatus (hasWrite rwx)
          (hasExec rwx) = true := by
        rw [PageLeaf.result_perm]
        exact mt checkPtePerm_needed hperm
      rw [permChecked, if_neg hcheck]
      refine iff_of_true rfl ⟨hr, fun hwr hwrite _ => ?_⟩
      cases rwx with
      | read => cases hwr
      | exec => cases hwr
      | write => exact absurd ((ptePermNeeded_write _ _).mpr hwrite) hperm
  · rw [if_pos hr]
    exact iff_of_false (permChecked_ne _ _ _ _) fun h => hr h.1

/-- One step: the TLBs are transparent exactly when PMP allows the walk they replace. -/
theorem transparent_iff (h : w.TlbsSound) (op : TlbOp) : Transparent cfg w op ↔ HitAllowed cfg w op := by
  cases op with
  | translate va rwx =>
    simp only [Transparent, HitAllowed]
    by_cases ht : w.hart.Translates
    · obtain ⟨hm, he⟩ := ht
      obtain ⟨m, he'⟩ := Option.ne_none_iff_exists'.mp he
      rw [outcome_emptyTlbs hm he', outcome_eq hm he']
      cases hh : tlbHit cfg w.hart va rwx with
      | none => exact iff_of_true rfl fun _ h => absurd rfl h
      | some e =>
        obtain ⟨l, hl, hA, hans⟩ := TlbSound.hit h hh
        dsimp only
        rw [hans, walkAnswer_leaf hl hA]
        constructor
        · intro hw _ _ l' hl'
          rw [hl] at hl'
          cases hl'
          exact hw
        · intro hw
          exact hw ⟨hm, he⟩ (by simp) l hl
    · have ht' : ¬ w.emptyTlbs.hart.Translates := ht
      refine iff_of_true ?_ fun h => absurd h ht
      simp only [World.outcome, World.translate, translateVa_off ht, translateVa_off ht']
  | _ => exact Iff.rfl

end Answer

/-- Runs from empty TLBs: every answer is the answer with the TLBs emptied exactly when
every answer from the TLB is one for which PMP allows the walk. -/
theorem tlb_transparent_iff (cfg : Features) (w : World) (ops : List TlbOp)
    (hempty : w.hart.TlbsEmpty) (hfix : Run.Along (TlbOp.step cfg) (FixedPages cfg) w ops) :
    Run.Along (TlbOp.step cfg) (Transparent cfg) w ops ↔
      Run.Along (TlbOp.step cfg) (HitAllowed cfg) w ops :=
  Run.along_congr (I := World.TlbsSound) (fun w op => op.step_sound cfg w)
    (fun _ op h _ => transparent_iff h op) (World.tlbsSound_of_empty hempty) hfix

/-- A supervisor with one page at address zero. Its three entries lie in RAM from
`0x80001000` on, the last with the flags `leaf`, and one PMP entry gives all of
memory the permissions `perm`. -/
def onePage (leaf : Word) (perm : BitVec 8) : World :=
  let w := World.zeroed ⟨0x80000000, 0x10000, 0, 0⟩
  { w with
    hart := { HartState.zeroed with mode := .S, satp := 0x8000000000080001, mmuMode := 8 }
    mem := { w.mem with
      ram := writeLe (writeLe (writeLe w.mem.ram 0x1000 8 0x20000841) 0x2000 8 0x20000C41)
        0x3000 8 (0x20001000 ||| leaf) }
    pmp := ⟨fun _ => Pmp.aNapot ||| perm, fun _ => BitVec.allOnes 64, 1⟩ }

theorem onePage_aligned (leaf : Word) (perm : BitVec 8) : (onePage leaf perm).mem.Aligned :=
  ⟨(by decide : (0x80000000 : Word).toNat % 8 = 0), (by decide : (0 : Word).toNat % 8 = 0)⟩

theorem onePage_empty (leaf : Word) (perm : BitVec 8) : (onePage leaf perm).hart.TlbsEmpty := by
  intro b i
  cases b <;> rfl

/-- Page tables that PMP lets the hart read but not write. A read puts the page into the
TLB; the write after it is served from there, while the walk may not set D. -/
theorem tlb_hit_skips_pmp :
    let cfg : Features := ⟨false, false, false, 0⟩
    let w := onePage 0x47 Pmp.R
    let ops : List TlbOp := [.translate 0x10 .read, .translate 0x10 .write]
    w.hart.TlbsEmpty ∧ Run.Along (TlbOp.step cfg) (FixedPages cfg) w ops ∧
      ¬ Run.Along (TlbOp.step cfg) (Transparent cfg) w ops := by
  refine ⟨onePage_empty _ _, fixedPages_of_aligned _ (onePage_aligned _ _) _, ?_⟩
  rintro ⟨_, h, _⟩
  revert h
  simp only [Transparent]
  decide

/-- With write permission as well the same run is transparent. -/
theorem read_write_transparent :
    let cfg : Features := ⟨false, false, false, 0⟩
    Run.Along (TlbOp.step cfg) (Transparent cfg) (onePage 0x47 (Pmp.R ||| Pmp.W))
      [.translate 0x10 .read, .translate 0x10 .write] := by
  intro cfg
  refine (tlb_transparent_iff cfg _ _ (onePage_empty _ _)
    (fixedPages_of_aligned cfg (onePage_aligned _ _) _)).mpr ⟨?_, ?_, trivial⟩
  · exact fun _ h => absurd (by decide) h
  · intro _ _ l hl
    have hleaf : leafOf (TlbOp.step cfg (onePage 0x47 (Pmp.R ||| Pmp.W)) (.translate 0x10 .read)).mem
        0x8000000000080001 0x10 = some ⟨0x80001000, 0x80002000, 0x80003000, 0⟩ := by decide
    cases hleaf.symm.trans hl
    have hf := TlbFrame.translateVa cfg (onePage 0x47 (Pmp.R ||| Pmp.W)).hart
      (onePage 0x47 (Pmp.R ||| Pmp.W)).mem 0x10 .read (onePage 0x47 (Pmp.R ||| Pmp.W)).pmp
    have hread : ∀ a ∈ ([0x80001000, 0x80002000, 0x80003000] : List Word),
        pmpOk (onePage 0x47 (Pmp.R ||| Pmp.W)).hart a 8 false false
          (onePage 0x47 (Pmp.R ||| Pmp.W)).pmp = true := by
      simp only [List.forall_mem_cons, List.not_mem_nil, IsEmpty.forall_iff, implies_true, and_true]
      decide
    exact ⟨fun a ha => (hf.pmpOk ..).trans (hread a ha), fun _ _ _ => (hf.pmpOk ..).trans (by decide)⟩

end Pyremu
