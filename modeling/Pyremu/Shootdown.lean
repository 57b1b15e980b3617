import Pyremu.WalkSteps
import Pyremu.Transparency
import Pyremu.Lib.Interleave

/-!
# TLB shootdown

Harts that translate, store and fence in atomic steps, in any order. SFENCE.VMA
empties the TLBs of its own hart and advances a counter; every other hart compares
the counter with the value it saw last before it fetches its next instruction. The
ghost `epoch` counts the increments without wrapping around: an entry read before
increment number `n` has a `readEpoch` below `n`.
-/

namespace Pyremu

open ByteMem

/-! ## The machine -/

/-- A translation under way, with the counter as `translate_va` loaded it. -/
structure Translation where
  va : Word
  rwx : Rwx
  mode : Mode
  cntBefore : Option Word

/-- Where a hart stands, one constructor before each atomic step. -/
inductive TlbPhase where
  | idle
  | ready
  | loaded (t : Translation)
  | probing (t : Translation) (cnt : Option Word)
  | found (t : Translation) (cnt : Option Word) (i : Nat)
  | walking (t : Translation) (reuse : Option Nat) (pc : WalkPc) (readEpoch : Nat)
  | walked (t : Translation) (reuse : Option Nat) (r : TranslateResult) (readEpoch : Nat)
  | inserting (t : Translation) (reuse : Option Nat) (r : TranslateResult) (readEpoch : Nat)
  | answered (rwx : Rwx) (slot : Option Nat) (r : Except TranslateFault TranslateResult)
  | fencing
  | fenced (cnt : Word) (epoch : Nat)

/-- A hart with its slot of `tlb_flush_cnt_per_hart`. The epochs are ghosts: of the value
seen last, of the start of the instruction, of its own last SFENCE.VMA, and of the first
page-table read behind each entry. -/
structure SmpHart where
  hart : HartState
  phase : TlbPhase
  seen : Word
  seenEpoch : Nat
  markEpoch : Nat
  fenceEpoch : Nat
  readEpoch : Bool → Nat → Nat

structure SmpShared where
  mem : WalkCtx
  pmp : PmpCtx
  epoch : Nat

/-- What a hart may do. `compute` stands for everything that leaves TLBs and RAM alone. -/
inductive SmpAct where
  | start
  | translate (va : Word) (rwx : Rwx)
  | sfenceVma
  | mfenceDid
  | writeSatp (v : Word)
  | store (pa v : Word) (size : Nat)
  | compute (s : HartState) (p : PmpCtx)
  | finish
  | next

namespace SmpHart

def goto (x : SmpHart) (phase : TlbPhase) : SmpHart := { x with phase := phase }

/-- `mark_tlb_dirty_if_stale`, at the start of an instruction. -/
def markTlbDirtyIfStale (g : SmpShared) (x : SmpHart) : SmpHart :=
  let cnt := g.mem.tlbFlushCnt.getD 0
  let x := { x with markEpoch := g.epoch, phase := .ready }
  if x.seen = cnt then x
  else
    { x with
      hart := { x.hart with itlb := tlbMarkAllDirty x.hart.itlb, dtlb := tlbMarkAllDirty x.hart.dtlb }
      seen := cnt
      seenEpoch := g.epoch }

/-- `translate_va` up to the load of the counter. -/
def translate (g : SmpShared) (x : SmpHart) (va : Word) (rwx : Rwx) : SmpHart :=
  if x.hart.mmuMode ≠ 8 then x.goto (.answered rwx none (.ok ⟨va, 0xF, 0⟩))
  else
    match effectiveMode x.hart with
    | none => x.goto (.answered rwx none (.ok ⟨va, 0xF, 0⟩))
    | some m => x.goto (.loaded ⟨va, rwx, m, g.mem.tlbFlushCnt⟩)

def request (x : SmpHart) (t : Translation) : WalkReq := ⟨x.hart.satp, t.va, t.rwx⟩

def walk (g : SmpShared) (x : SmpHart) (t : Translation) (reuse : Option Nat) : SmpHart :=
  x.goto (.walking t reuse (x.request t).start g.epoch)

/-- A probe has been decided: record it and go on. -/
def probed (x : SmpHart) (t : Translation) (tlb : Tlb) (isHit : Bool) : SmpHart :=
  { x with hart := recordTlbAccess (x.hart.setTlb (hasExec t.rwx) tlb) (hasExec t.rwx) isHit }

/-- The lookup of `tlb_probe`. -/
def lookup (g : SmpShared) (x : SmpHart) (t : Translation) (cnt : Option Word) : SmpHart :=
  match tlbLookup (x.hart.tlb (hasExec t.rwx)) (t.va >>> 12) (satpAsid x.hart.satp) with
  | (tlb, .hit i) =>
    { x with hart := x.hart.setTlb (hasExec t.rwx) tlb, phase := .found t cnt i }
  | (tlb, .dirtyReuse i) => (x.probed t tlb false).walk g t (some i)
  | (tlb, .miss) => (x.probed t tlb false).walk g t none

/-- The second load of `tlb_probe`, after a hit. -/
def confirm (g : SmpShared) (x : SmpHart) (t : Translation) (cnt : Option Word) (i : Nat) : SmpHart :=
  let tlb := x.hart.tlb (hasExec t.rwx)
  if cnt ≠ g.mem.tlbFlushCnt then
    (x.probed t (Function.update tlb i { tlb i with valid := false }) false).walk g t none
  else
    (x.probed t tlb true).goto
      (.answered t.rwx (some i) (permChecked ((tlb i).answer t.va) x.hart t.mode t.rwx))

/-- One access of the walk, or the checks after it. -/
def walkOn (g : SmpShared) (x : SmpHart) (t : Translation) (reuse : Option Nat) (readEpoch : Nat) :
    WalkPc → SmpShared × SmpHart
  | .done (.error f) => (g, x.goto (.answered t.rwx none (.error f)))
  | .done (.ok none) =>
    (g, x.goto (.answered t.rwx none
      (.error (.pageFault (faultCode (hasExec t.rwx) (hasWrite t.rwx))))))
  | .done (.ok (some r)) =>
    if !checkPtePerm r.perm t.mode x.hart.mstatus (hasWrite t.rwx) (hasExec t.rwx) then
      (g, x.goto (.answered t.rwx none
        (.error (.pageFault (faultCode (hasExec t.rwx) (hasWrite t.rwx))))))
    else (g, x.goto (.walked t reuse r readEpoch))
  | .read true addr =>
    let r := (x.request t).step x.hart g.pmp g.mem (.read true addr)
    ({ g with mem := r.1 }, x.goto (.walking t reuse r.2 g.epoch))
  | pc =>
    let r := (x.request t).step x.hart g.pmp g.mem pc
    ({ g with mem := r.1 }, x.goto (.walking t reuse r.2 readEpoch))

def insert (x : SmpHart) (t : Translation) (reuse : Option Nat) (r : TranslateResult)
    (readEpoch : Nat) : SmpHart :=
  let b := hasExec t.rwx
  let vpn := t.va >>> 12
  { x with
    hart := x.hart.setTlb b (tlbInsert (x.hart.tlb b) reuse vpn r.ppnForTlb r.perm r.level
      x.hart.mdid (satpAsid x.hart.satp))
    readEpoch := Function.update x.readEpoch b
      (Function.update (x.readEpoch b) (tlbInsertSlot (x.hart.tlb b) reuse vpn).2 readEpoch)
    phase := .answered t.rwx none (.ok r) }

/-- The next atomic step of what is under way. -/
def next (cfg : Features) (g : SmpShared) (x : SmpHart) : SmpShared × SmpHart :=
  match x.phase with
  | .idle | .ready => (g, x)
  | .loaded t =>
    if cfg.noTlb then (g, x.walk g t none) else (g, x.goto (.probing t g.mem.tlbFlushCnt))
  | .probing t cnt => (g, x.lookup g t cnt)
  | .found t cnt i => (g, x.confirm g t cnt i)
  | .walking t reuse pc readEpoch => x.walkOn g t reuse readEpoch pc
  | .walked t reuse r readEpoch =>
    if t.cntBefore = g.mem.tlbFlushCnt ∧ !cfg.noTlb then (g, x.goto (.inserting t reuse r readEpoch))
    else (g, x.goto (.answered t.rwx none (.ok r)))
  | .inserting t reuse r readEpoch => (g, x.insert t reuse r readEpoch)
  | .answered _ _ _ => (g, x.goto .ready)
  | .fencing =>
    let cnt := g.mem.tlbFlushCnt.getD 0 + 1
    ({ g with mem := { g.mem with tlbFlushCnt := g.mem.tlbFlushCnt.map fun _ => cnt },
              epoch := g.epoch + 1 },
      { x with phase := .fenced cnt (g.epoch + 1), fenceEpoch := g.epoch + 1 })
  | .fenced cnt epoch => (g, { x with phase := .idle, seen := cnt, seenEpoch := epoch })

/-- What an instruction starts from `ready`. -/
def begin (g : SmpShared) (x : SmpHart) : SmpAct → SmpShared × SmpHart
  | .translate va rwx => (g, x.translate g va rwx)
  | .sfenceVma =>
    (g, { x with
      hart := { x.hart with itlb := tlbFlushAll x.hart.itlb, dtlb := tlbFlushAll x.hart.dtlb }
      phase := .fencing })
  | .mfenceDid => (g, { x with hart := Pyremu.mfenceDid x.hart })
  | .writeSatp v => (g, { x with hart := satpWrite x.hart v })
  | .store pa v size => ({ g with mem := ramWriteRaw g.mem pa v size }, x)
  | .compute s p =>
    ({ g with pmp := p }, { x with hart := { s with itlb := x.hart.itlb, dtlb := x.hart.dtlb } })
  | .finish => (g, x.goto .idle)
  | .start | .next => (g, x)

def step (cfg : Features) (g : SmpShared) (x : SmpHart) : SmpAct → SmpShared × SmpHart
  | .next => x.next cfg g
  | .start =>
    match x.phase with
    | .idle => (g, x.markTlbDirtyIfStale g)
    | _ => (g, x)
  | a =>
    match x.phase with
    | .ready => x.begin g a
    | _ => (g, x)

end SmpHart

/-! ## One hart alone -/

namespace SmpHart

/-- A number of steps of one hart. -/
def Alone (cfg : Features) : SmpShared × SmpHart → SmpShared × SmpHart → Prop :=
  Relation.ReflTransGen fun a b => b = a.2.next cfg a.1

section Alone

variable {cfg : Features} {g : SmpShared} {x : SmpHart} {t : Translation}

/-- Alone, the hart comes to the answer `r`, with the TLBs and the memory that go with it. -/
def Answers (cfg : Features) (g : SmpShared) (a : SmpShared × SmpHart) (rwx : Rwx)
    (r : HartState × WalkCtx × Except TranslateFault TranslateResult) : Prop :=
  ∃ x slot, Alone cfg a ({ g with mem := r.2.1 }, x) ∧ x.hart = r.1 ∧ x.phase = .answered rwx slot r.2.2

theorem Answers.head {a : SmpShared × SmpHart} {rwx : Rwx}
    {r : HartState × WalkCtx × Except TranslateFault TranslateResult}
    (h : Answers cfg g (a.2.next cfg a.1) rwx r) : Answers cfg g a rwx r := by
  obtain ⟨x, slot, ha, hx⟩ := h
  exact ⟨x, slot, Relation.ReflTransGen.head rfl ha, hx⟩

theorem walkOn_step (g : SmpShared) (x : SmpHart) (t : Translation) (reuse : Option Nat) (e : Nat)
    (pc : WalkPc) (h : ∀ r, pc ≠ .done r) :
    ∃ e', x.walkOn g t reuse e pc =
      ({ g with mem := ((x.request t).step x.hart g.pmp g.mem pc).1 },
        x.goto (.walking t reuse ((x.request t).step x.hart g.pmp g.mem pc).2 e')) := by
  cases pc with
  | done r => exact absurd rfl (h r)
  | read top addr =>
    cases top with
    | true => exact ⟨g.epoch, rfl⟩
    | false => exact ⟨e, rfl⟩
  | _ => exact ⟨e, rfl⟩

theorem alone_walking (g : SmpShared) (x : SmpHart) (t : Translation) (reuse : Option Nat)
    {a b : WalkCtx × WalkPc} (h : (x.request t).Reaches x.hart g.pmp a b) (e : Nat) :
    ∃ e', Alone cfg ({ g with mem := a.1 }, x.goto (.walking t reuse a.2 e))
      ({ g with mem := b.1 }, x.goto (.walking t reuse b.2 e')) := by
  induction h with
  | refl => exact ⟨e, .refl⟩
  | tail _ hs ih =>
    rename_i b d _
    obtain ⟨e1, ih⟩ := ih
    by_cases hd : ∃ r, b.2 = .done r
    · obtain ⟨r, hr⟩ := hd
      rw [hr] at hs
      refine ⟨e1, ?_⟩
      rw [hs]
      rwa [hr] at ih
    · obtain ⟨e2, h2⟩ := walkOn_step { g with mem := b.1 } x t reuse e1 b.2 (not_exists.mp hd)
      refine ⟨e2, ih.tail ?_⟩
      rw [hs]
      exact h2.symm

/-- The walk of `translate_va` and what follows it. -/
theorem alone_walk (cfg : Features) (g : SmpShared) (x : SmpHart) (t : Translation)
    (reuse : Option Nat) :
    Answers cfg g (g, x.walk g t reuse) t.rwx
      (translateWalk cfg x.hart g.mem t.va t.rwx g.pmp t.mode t.cntBefore reuse) := by
  obtain ⟨e, h⟩ := @alone_walking cfg g x t reuse _ _
    ((x.request t).reaches_sv39Walk x.hart g.pmp g.mem) g.epoch
  simp only [translateWalk]
  simp only [request, WalkReq.walkEnd] at h
  rcases heq : sv39Walk g.mem x.hart g.pmp x.hart.satp t.va t.rwx with ⟨c, f | _ | r⟩ <;> rw [heq] at h
  · exact ⟨x.goto (.answered t.rwx none (.error f)), none, h.tail rfl, rfl, rfl⟩
  · exact ⟨x.goto (.answered t.rwx none (.error (.pageFault _))), none, h.tail rfl, rfl, rfl⟩
  · dsimp only at h ⊢
    by_cases hp : (!checkPtePerm r.perm t.mode x.hart.mstatus (hasWrite t.rwx) (hasExec t.rwx)) = true
    · rw [if_pos hp]
      refine ⟨x.goto (.answered t.rwx none (.error (.pageFault _))), none, h.tail ?_, rfl, rfl⟩
      exact (if_pos hp).symm
    · rw [if_neg hp]
      have h1 : Alone cfg (g, x.walk g t reuse) ({ g with mem := c }, x.goto (.walked t reuse r e)) :=
        h.tail (if_neg hp).symm
      by_cases hc : t.cntBefore = c.tlbFlushCnt ∧ (!cfg.noTlb) = true
      · rw [if_pos hc]
        have h2 := h1.tail (c := ({ g with mem := c }, x.goto (.inserting t reuse r e)))
          (if_pos hc).symm
        exact ⟨(x.goto (.inserting t reuse r e)).insert t reuse r e, none, h2.tail rfl, rfl, rfl⟩
      · rw [if_neg hc]
        exact ⟨x.goto (.answered t.rwx none (.ok r)), none, h1.tail (if_neg hc).symm, rfl, rfl⟩

/-- Alone, the steps of a translation add up to `translate_va`. -/
theorem alone_translate (cfg : Features) (g : SmpShared) (x : SmpHart) (va : Word) (rwx : Rwx) :
    Answers cfg g (g, x.translate g va rwx) rwx (translateVa cfg x.hart g.mem va rwx g.pmp) := by
  simp only [translateVa, SmpHart.translate]
  by_cases hm : x.hart.mmuMode ≠ 8
  · rw [if_pos hm, if_pos hm]
    exact ⟨_, none, .refl, rfl, rfl⟩
  · rw [if_neg hm, if_neg hm]
    cases he : effectiveMode x.hart with
    | none => exact ⟨_, none, .refl, rfl, rfl⟩
    | some m =>
      apply Answers.head
      simp only [next, goto, tlbProbeCounted]
      cases hn : cfg.noTlb with
      | true =>
        exact alone_walk cfg g (x.goto (.loaded ⟨va, rwx, m, g.mem.tlbFlushCnt⟩))
          ⟨va, rwx, m, g.mem.tlbFlushCnt⟩ none
      | false =>
        simp only [Bool.false_eq_true, ↓reduceIte]
        apply Answers.head
        simp only [next, lookup, tlbProbe]
        rcases heq : tlbLookup (x.hart.tlb (hasExec rwx)) (va >>> 12) (satpAsid x.hart.satp) with
          ⟨tlb, i | i | _⟩
        · apply Answers.head
          have htlb : (x.hart.setTlb (hasExec rwx) tlb).tlb (hasExec rwx) = tlb := by
            rw [HartState.setTlb_tlb, if_pos rfl]
          have hset : (x.hart.setTlb (hasExec rwx) tlb).setTlb (hasExec rwx) tlb =
              x.hart.setTlb (hasExec rwx) tlb := by
            cases hasExec rwx <;> rfl
          have hms : (x.hart.setTlb (hasExec rwx) tlb).mstatus = x.hart.mstatus :=
            (TlbFrame.setTlb _ _ _).mstatus
          simp only [next, confirm, probed, goto, htlb, hset, permChecked, hms, TlbEntry.answer]
          rw [if_neg (not_not.mpr rfl), if_neg (not_not.mpr rfl)]
          by_cases hp : checkPtePerm (tlb i).perm m x.hart.mstatus (hasWrite rwx) (hasExec rwx) = true
          · simp only [hp, Bool.not_true, Bool.false_eq_true, ↓reduceIte]
            exact ⟨_, some i, .refl, rfl, rfl⟩
          · simp only [hp, Bool.not_false, Bool.false_eq_true, ↓reduceIte]
            exact ⟨_, some i, .refl, rfl, rfl⟩
        · exact alone_walk cfg g _ ⟨va, rwx, m, g.mem.tlbFlushCnt⟩ (some i)
        · exact alone_walk cfg g _ ⟨va, rwx, m, g.mem.tlbFlushCnt⟩ none

end Alone

end SmpHart

/-! ## The invariant -/

theorem writePteCasChecked_cnt (s : HartState) (p : PmpCtx) (c : WalkCtx) (a x n : Word) :
    (writePteCasChecked s p c a x n).1.tlbFlushCnt = c.tlbFlushCnt := by
  simp only [writePteCasChecked, writePteCas]
  split
  · rfl
  · split
    · split
      · rfl
      · split <;> rfl
    · rfl

theorem WalkReq.step_cnt (q : WalkReq) (s : HartState) (p : PmpCtx) (c : WalkCtx) (pc : WalkPc) :
    (q.step s p c pc).1.tlbFlushCnt = c.tlbFlushCnt := by
  cases pc with
  | read top addr =>
    simp only [WalkReq.step]
    split
    · rfl
    · split
      · rfl
      · split <;> rfl
  | reread top addr =>
    simp only [WalkReq.step]
    split
    · rfl
    · split <;> rfl
  | leafRead addr =>
    simp only [WalkReq.step]
    split
    · rfl
    · split <;> rfl
  | leafReread big addr =>
    simp only [WalkReq.step]
    split
    · rfl
    · split
      · rfl
      · split <;> rfl
  | setA top addr raw =>
    have h := writePteCasChecked_cnt s p c addr raw (raw ||| Pte.A)
    simp only [WalkReq.step]
    split <;> rename_i heq <;> rw [heq] at h <;> exact h
  | leafCas big addr raw =>
    have h := writePteCasChecked_cnt s p c addr raw (leafUpdate raw q.rwx)
    simp only [WalkReq.step]
    split <;> rename_i heq <;> rw [heq] at h <;> exact h
  | done r => rfl

theorem ramWriteRaw_cnt (c : WalkCtx) (pa v : Word) (size : Nat) :
    (ramWriteRaw c pa v size).tlbFlushCnt = c.tlbFlushCnt := by
  simp only [ramWriteRaw]
  split <;> rfl

/-- The counter is the epoch modulo `2^64`. -/
def SmpShared.Counts (g : SmpShared) : Prop := g.mem.tlbFlushCnt = some (BitVec.ofNat 64 g.epoch)

namespace SmpHart

/-- The instruction has marked its TLBs. -/
def Marked (x : SmpHart) : Prop := x.markEpoch ≤ x.seenEpoch ∧ x.fenceEpoch ≤ x.seenEpoch

/-- The entry in slot `i` was read after everything the hart has seen. -/
def Fresh (x : SmpHart) (rwx : Rwx) (i : Nat) : Prop := x.seenEpoch ≤ x.readEpoch (hasExec rwx) i

def PhaseOk (g : SmpShared) (x : SmpHart) : Prop :=
  match x.phase with
  | .idle => True
  | .ready | .loaded _ | .probing _ _ | .answered _ none _ => x.Marked
  | .found t _ i => x.Marked ∧ x.Fresh t.rwx i
  | .walking _ _ _ e | .walked _ _ _ e | .inserting _ _ _ e => x.Marked ∧ x.seenEpoch ≤ e
  | .answered rwx (some i) _ => x.Marked ∧ x.Fresh rwx i
  | .fencing => x.hart.TlbsEmpty
  | .fenced cnt e => x.hart.TlbsEmpty ∧ cnt = BitVec.ofNat 64 e ∧ e ≤ g.epoch

/-- The invariant of one hart: clean entries are at least as fresh as the counter value the
hart has seen. -/
structure Inv (g : SmpShared) (x : SmpHart) : Prop where
  counts : g.Counts
  entries : ∀ b i, (x.hart.tlb b i).valid = true → (x.hart.tlb b i).dirty = false →
    x.seenEpoch ≤ x.readEpoch b i
  seen : x.seen = BitVec.ofNat 64 x.seenEpoch
  seen_le : x.seenEpoch ≤ g.epoch
  fence_le : x.fenceEpoch ≤ g.epoch
  phase : x.PhaseOk g

end SmpHart

/-- A valid clean entry of `s'` was one of `s`. -/
def CleanSub (s s' : HartState) : Prop :=
  ∀ b i, (s'.tlb b i).valid = true → (s'.tlb b i).dirty = false →
    (s.tlb b i).valid = true ∧ (s.tlb b i).dirty = false

namespace CleanSub

theorem refl (s : HartState) : CleanSub s s := fun _ _ hv hd => ⟨hv, hd⟩

theorem of_empty (s : HartState) {s' : HartState} (h : s'.TlbsEmpty) : CleanSub s s' := by
  intro b i hv
  rw [h b i] at hv
  cases hv

theorem setTlb {s : HartState} {b : Bool} {t : Tlb}
    (h : ∀ i, (t i).valid = true → (t i).dirty = false →
      (s.tlb b i).valid = true ∧ (s.tlb b i).dirty = false) : CleanSub s (s.setTlb b t) := by
  intro b' i hv hd
  rw [HartState.setTlb_tlb] at hv hd
  split at hv
  · rename_i hb
    subst hb
    rw [if_pos rfl] at hd
    exact h i hv hd
  · rename_i hb
    rw [if_neg hb] at hd
    exact ⟨hv, hd⟩

theorem same {s : HartState} {b : Bool} {t : Tlb} (h : SameEntries (s.tlb b) t) :
    CleanSub s (s.setTlb b t) := by
  apply setTlb
  intro i hv hd
  obtain ⟨a, ha⟩ := h i
  rw [ha] at hv hd
  exact ⟨hv, hd⟩

theorem record {s s' : HartState} (h : CleanSub s s') (b isHit : Bool) :
    CleanSub s (recordTlbAccess s' b isHit) := by
  intro b' i
  rw [recordTlbAccess_tlb]
  exact h b' i

theorem invalidate (s : HartState) (b : Bool) (i : Nat) :
    CleanSub s (s.setTlb b (Function.update (s.tlb b) i { s.tlb b i with valid := false })) := by
  apply setTlb
  intro j hv hd
  by_cases hj : j = i
  · subst hj
    rw [Function.update_self] at hv
    cases hv
  · rw [Function.update_of_ne hj] at hv hd
    exact ⟨hv, hd⟩

theorem mfenceDid (s : HartState) : CleanSub s (Pyremu.mfenceDid s) := by
  have hclean : ∀ (t : Tlb) i, (tlbInvalidateDid t s.mdid i).valid = true →
      (tlbInvalidateDid t s.mdid i).dirty = false → (t i).valid = true ∧ (t i).dirty = false := by
    intro t i hv hd
    simp only [tlbInvalidateDid] at hv hd
    split at hv
    · cases hv
    · rename_i h
      rw [if_neg h] at hd
      exact ⟨hv, hd⟩
  intro b i
  cases b with
  | false => exact hclean _ i
  | true => exact hclean _ i

end CleanSub

namespace SmpHart

variable {cfg : Features} {g g' : SmpShared} {x : SmpHart} {t : Translation}

/-- Steps of other harts only let the epoch grow. -/
theorem Inv.mono (h : Inv g x) (hc : g'.Counts) (he : g.epoch ≤ g'.epoch) : Inv g' x := by
  refine ⟨hc, h.entries, h.seen, Nat.le_trans h.seen_le he, Nat.le_trans h.fence_le he, ?_⟩
  have hp := h.phase
  simp only [PhaseOk] at hp ⊢
  generalize x.phase = ph at hp
  cases ph with
  | fenced cnt e => exact ⟨hp.1, hp.2.1, Nat.le_trans hp.2.2 he⟩
  | answered rwx slot r => cases slot <;> exact hp
  | _ => exact hp

/-- A step that adds no clean entry and goes to a phase that fits. -/
theorem Inv.move (h : Inv g x) {s : HartState} (hs : CleanSub x.hart s) {ph : TlbPhase}
    (hp : PhaseOk g { x with hart := s, phase := ph }) : Inv g { x with hart := s, phase := ph } :=
  ⟨h.counts, fun b i hv hd => h.entries b i (hs b i hv hd).1 (hs b i hv hd).2, h.seen, h.seen_le,
    h.fence_le, hp⟩

theorem Inv.goto (h : Inv g x) {ph : TlbPhase} (hp : PhaseOk g (x.goto ph)) : Inv g (x.goto ph) :=
  h.move (.refl _) hp

/-- Epochs that agree modulo `2^64` and do not lie a multiple of `2^64` apart. -/
theorem epoch_eq {m n : Nat} (hle : m ≤ n) (hw : ∀ k, 0 < k → n ≠ m + k * 2 ^ 64)
    (h : BitVec.ofNat 64 m = BitVec.ofNat 64 n) : m = n := by
  have hmod : m % 2 ^ 64 = n % 2 ^ 64 := by
    have := congrArg BitVec.toNat h
    simpa using this
  by_contra hne
  have hk := hw (n / 2 ^ 64 - m / 2 ^ 64)
  omega

theorem tlbMarkAllDirty_dirty (tlb : Tlb) (i : Nat) (hv : (tlbMarkAllDirty tlb i).valid = true) :
    (tlbMarkAllDirty tlb i).dirty = true := by
  simp only [tlbMarkAllDirty] at hv ⊢
  split
  · rfl
  · rename_i h
    rw [if_neg h] at hv
    exact absurd hv h

theorem Inv.mark (h : Inv g x) (hw : ∀ k, 0 < k → g.epoch ≠ x.seenEpoch + k * 2 ^ 64) :
    Inv g (x.markTlbDirtyIfStale g) := by
  have hcnt : g.mem.tlbFlushCnt.getD 0 = BitVec.ofNat 64 g.epoch := by
    rw [h.counts]
    rfl
  simp only [markTlbDirtyIfStale, hcnt]
  split
  · rename_i heq
    rw [h.seen] at heq
    have he := epoch_eq h.seen_le hw heq
    refine ⟨h.counts, h.entries, h.seen, h.seen_le, h.fence_le, ?_, ?_⟩
    · exact Nat.le_of_eq he.symm
    · exact he ▸ h.fence_le
  · refine ⟨h.counts, fun b i hv hd => ?_, rfl, Nat.le_refl _, h.fence_le, Nat.le_refl _, h.fence_le⟩
    cases b with
    | false => exact absurd (hd.symm.trans (tlbMarkAllDirty_dirty _ i hv)) Bool.false_ne_true
    | true => exact absurd (hd.symm.trans (tlbMarkAllDirty_dirty _ i hv)) Bool.false_ne_true

theorem Inv.translate (h : Inv g x) (hm : x.Marked) (va : Word) (rwx : Rwx) :
    Inv g (x.translate g va rwx) := by
  simp only [SmpHart.translate]
  split
  · exact h.goto hm
  · split
    · exact h.goto hm
    · exact h.goto hm

theorem Inv.walk (h : Inv g x) (hm : x.Marked) (reuse : Option Nat) : Inv g (x.walk g t reuse) :=
  h.goto ⟨hm, h.seen_le⟩

theorem Inv.lookup (h : Inv g x) (hm : x.Marked) (cnt : Option Word) : Inv g (x.lookup g t cnt) := by
  have hsame := tlbLookup_same (x.hart.tlb (hasExec t.rwx)) (t.va >>> 12) (satpAsid x.hart.satp)
  simp only [SmpHart.lookup]
  rcases heq : tlbLookup (x.hart.tlb (hasExec t.rwx)) (t.va >>> 12) (satpAsid x.hart.satp) with
    ⟨tlb, i | i | _⟩ <;> rw [heq] at hsame
  · obtain ⟨hv, hd, _⟩ := tlbLookup_hit (congrArg Prod.snd heq)
    exact h.move (.same hsame) ⟨hm, h.entries _ i hv hd⟩
  · exact h.move ((CleanSub.same hsame).record _ _) ⟨hm, h.seen_le⟩
  · exact h.move ((CleanSub.same hsame).record _ _) ⟨hm, h.seen_le⟩

theorem Inv.confirm (h : Inv g x) (hm : x.Marked) (cnt : Option Word) {i : Nat} (hf : x.Fresh t.rwx i) :
    Inv g (x.confirm g t cnt i) := by
  simp only [SmpHart.confirm]
  split
  · exact h.move ((CleanSub.invalidate _ _ _).record _ _) ⟨hm, h.seen_le⟩
  · exact h.move ((CleanSub.same (.refl _)).record _ _) ⟨hm, hf⟩

theorem Inv.insert (h : Inv g x) (hm : x.Marked) (reuse : Option Nat) (r : TranslateResult) {e : Nat}
    (he : x.seenEpoch ≤ e) : Inv g (x.insert t reuse r e) := by
  refine ⟨h.counts, fun b i hv hd => ?_, h.seen, h.seen_le, h.fence_le, hm⟩
  simp only [SmpHart.insert] at hv hd ⊢
  rw [HartState.setTlb_tlb] at hv hd
  by_cases hb : b = hasExec t.rwx
  · subst hb
    rw [if_pos rfl] at hv hd
    rw [Function.update_self]
    simp only [tlbInsert] at hv hd
    by_cases hi : i = (tlbInsertSlot (x.hart.tlb (hasExec t.rwx)) reuse (t.va >>> 12)).2
    · rw [hi, Function.update_self]
      exact he
    · rw [Function.update_of_ne hi] at hv hd ⊢
      obtain ⟨a, ha⟩ := tlbInsertSlot_same (x.hart.tlb (hasExec t.rwx)) reuse (t.va >>> 12) i
      rw [ha] at hv hd
      exact h.entries _ i hv hd
  · rw [if_neg hb] at hv hd
    rw [Function.update_of_ne hb]
    exact h.entries b i hv hd

/-- A step of the walk. -/
theorem Inv.walkOn (h : Inv g x) (hm : x.Marked) (reuse : Option Nat) {e : Nat}
    (he : x.seenEpoch ≤ e) (pc : WalkPc) :
    Inv (x.walkOn g t reuse e pc).1 (x.walkOn g t reuse e pc).2 := by
  have hmem : ∀ c : WalkCtx, c.tlbFlushCnt = g.mem.tlbFlushCnt →
      ∀ e', x.seenEpoch ≤ e' → ∀ pc', Inv { g with mem := c } (x.goto (.walking t reuse pc' e')) := by
    intro c hc e' he' pc'
    have h' : Inv { g with mem := c } x := h.mono (hc.trans h.counts) (Nat.le_refl _)
    exact h'.goto ⟨hm, he'⟩
  cases pc with
  | done r =>
    rcases r with f | _ | r
    · exact h.goto hm
    · exact h.goto hm
    · simp only [SmpHart.walkOn]
      split
      · exact h.goto hm
      · exact h.goto ⟨hm, he⟩
  | read top addr =>
    cases top with
    | true => exact hmem _ (WalkReq.step_cnt _ _ _ _ _) _ h.seen_le _
    | false => exact hmem _ (WalkReq.step_cnt _ _ _ _ _) _ he _
  | _ => exact hmem _ (WalkReq.step_cnt _ _ _ _ _) _ he _

theorem Inv.next (h : Inv g x) : Inv (x.next cfg g).1 (x.next cfg g).2 := by
  have hp := h.phase
  simp only [PhaseOk] at hp
  simp only [SmpHart.next]
  cases hph : x.phase <;> simp only [hph] at hp ⊢
  case idle => exact h
  case ready => exact h
  case loaded t =>
    split
    · exact h.walk hp none
    · exact h.goto hp
  case probing t cnt => exact h.lookup hp cnt
  case found t cnt i => exact h.confirm hp.1 cnt hp.2
  case walking t reuse pc e => exact h.walkOn hp.1 reuse hp.2 pc
  case walked t reuse r e =>
    split
    · exact h.goto hp
    · exact h.goto hp.1
  case inserting t reuse r e => exact h.insert hp.1 reuse r hp.2
  case answered rwx slot r =>
    apply h.goto
    cases slot with
    | none => exact hp
    | some i => exact hp.1
  case fencing =>
    have hcnt : g.mem.tlbFlushCnt.getD 0 + 1 = BitVec.ofNat 64 (g.epoch + 1) := by
      rw [h.counts, BitVec.ofNat_add]
      rfl
    refine ⟨?_, h.entries, h.seen, Nat.le_succ_of_le h.seen_le, Nat.le_refl _, hp, hcnt, Nat.le_refl _⟩
    rw [SmpShared.Counts, h.counts]
    rw [h.counts] at hcnt
    exact congrArg some hcnt
  case fenced cnt e =>
    refine ⟨h.counts, fun b i hv => ?_, hp.2.1, hp.2.2, h.fence_le, trivial⟩
    rw [hp.1 b i] at hv
    cases hv

theorem Inv.begin (h : Inv g x) (hr : x.phase = .ready) (a : SmpAct) :
    Inv (x.begin g a).1 (x.begin g a).2 := by
  have hm : x.Marked := by
    have hp := h.phase
    simp only [PhaseOk, hr] at hp
    exact hp
  have hready : ∀ s, CleanSub x.hart s → Inv g { x with hart := s } := by
    intro s hs
    have := @Inv.move _ _ h _ hs .ready hm
    rwa [← hr] at this
  cases a with
  | start => exact h
  | next => exact h
  | translate va rwx => exact h.translate hm va rwx
  | sfenceVma =>
    have hempty : HartState.TlbsEmpty
        { x.hart with itlb := tlbFlushAll x.hart.itlb, dtlb := tlbFlushAll x.hart.dtlb } := by
      intro b i
      cases b <;> rfl
    exact h.move (.of_empty _ hempty) hempty
  | mfenceDid => exact hready _ (.mfenceDid _)
  | writeSatp v =>
    have hempty : (satpWrite x.hart v).TlbsEmpty := by
      intro b i
      cases b <;> rfl
    exact hready _ (.of_empty _ hempty)
  | store pa v size => exact h.mono ((ramWriteRaw_cnt _ _ _ _).trans h.counts) (Nat.le_refl _)
  | compute s p =>
    have hs : CleanSub x.hart { s with itlb := x.hart.itlb, dtlb := x.hart.dtlb } := by
      intro b i hv hd
      cases b <;> exact ⟨hv, hd⟩
    exact (hready _ hs).mono h.counts (Nat.le_refl _)
  | finish => exact h.goto trivial

/-- One step of the hart that moves. The condition is used only where an instruction starts. -/
theorem Inv.step (h : Inv g x) (a : SmpAct)
    (hw : a = .start → ∀ k, 0 < k → g.epoch ≠ x.seenEpoch + k * 2 ^ 64) :
    Inv (x.step cfg g a).1 (x.step cfg g a).2 := by
  cases a with
  | next => exact h.next
  | start =>
    simp only [SmpHart.step]
    split
    · exact h.mark (hw rfl)
    · exact h
  | _ =>
    simp only [SmpHart.step]
    split
    · rename_i hr
      exact h.begin hr _
    · exact h

end SmpHart

/-! ## Runs -/

variable {ι : Type}

/-- Any number of harts. -/
abbrev Smp (ι : Type) := Interleave.Config SmpShared SmpHart ι

namespace Smp

def step [DecidableEq ι] (cfg : Features) : Smp ι → ι × SmpAct → Smp ι :=
  Interleave.step fun _ g x a => x.step cfg g a

/-- No instruction is under way, the TLBs are empty, and the ghosts stand for the counter and
for the values the harts have seen. -/
structure Initial (c : Smp ι) : Prop where
  counts : c.shared.Counts
  idle : ∀ h, (c.proc h).phase = .idle
  empty : ∀ h, (c.proc h).hart.TlbsEmpty
  seen : ∀ h, (c.proc h).seen = BitVec.ofNat 64 (c.proc h).seenEpoch
  seen_le : ∀ h, (c.proc h).seenEpoch ≤ c.shared.epoch
  fence_le : ∀ h, (c.proc h).fenceEpoch ≤ c.shared.epoch

/-- A hart that has been answered from a TLB entry. The entry was read after every increment
that came before the start of the instruction, and after the hart's own last SFENCE.VMA. -/
def Safe (c : Smp ι) : Prop :=
  ∀ h rwx i r, (c.proc h).phase = .answered rwx (some i) r →
    (c.proc h).markEpoch ≤ (c.proc h).readEpoch (hasExec rwx) i ∧
      (c.proc h).fenceEpoch ≤ (c.proc h).readEpoch (hasExec rwx) i

/-- A hart that starts an instruction has not missed a positive multiple of `2^64` increments. -/
def NoWrap (c : Smp ι) (l : ι × SmpAct) : Prop :=
  l.2 = .start → ∀ k, 0 < k → c.shared.epoch ≠ (c.proc l.1).seenEpoch + k * 2 ^ 64

def Inv : Smp ι → Prop := Interleave.All fun _ => SmpHart.Inv

theorem Initial.inv {c : Smp ι} (h : c.Initial) : c.Inv := by
  intro i
  refine ⟨h.counts, fun b j hv => ?_, h.seen i, h.seen_le i, h.fence_le i, ?_⟩
  · rw [h.empty i b j] at hv
    cases hv
  · simp only [SmpHart.PhaseOk, h.idle i]

theorem Inv.safe {c : Smp ι} (h : c.Inv) : c.Safe := by
  intro i rwx slot r hph
  have hp := (h i).phase
  simp only [SmpHart.PhaseOk, hph] at hp
  obtain ⟨⟨hm, hf⟩, hfresh⟩ := hp
  exact ⟨Nat.le_trans hm hfresh, Nat.le_trans hf hfresh⟩

theorem walkOn_epoch (g : SmpShared) (x : SmpHart) (t : Translation) (reuse : Option Nat) (e : Nat)
    (pc : WalkPc) : (x.walkOn g t reuse e pc).1.epoch = g.epoch := by
  cases pc with
  | done r =>
    rcases r with f | _ | r
    · rfl
    · rfl
    · simp only [SmpHart.walkOn]
      split <;> rfl
  | read top addr => cases top <;> rfl
  | _ => rfl

theorem next_epoch (cfg : Features) (g : SmpShared) (x : SmpHart) :
    (x.next cfg g).1.epoch = g.epoch ∨ (x.next cfg g).1.epoch = g.epoch + 1 := by
  simp only [SmpHart.next]
  split
  case h_6 => exact .inl (walkOn_epoch _ _ _ _ _ _)
  case h_10 => exact .inr rfl
  all_goals first
    | exact .inl rfl
    | split <;> exact .inl rfl

theorem step_epoch (cfg : Features) (g : SmpShared) (x : SmpHart) (a : SmpAct) :
    (x.step cfg g a).1.epoch = g.epoch ∨ (x.step cfg g a).1.epoch = g.epoch + 1 := by
  cases a with
  | next => exact next_epoch cfg g x
  | _ =>
    simp only [SmpHart.step]
    split <;> exact .inl rfl

theorem Inv.step [DecidableEq ι] {c : Smp ι} (cfg : Features) (h : c.Inv) (l : ι × SmpAct) (hw : c.NoWrap l) :
    (c.step cfg l).Inv := by
  have hown := @SmpHart.Inv.step cfg _ _ (h l.1) l.2 hw
  exact Interleave.All.step h hown fun j _ hj =>
    hj.mono hown.counts (by have := step_epoch cfg c.shared (c.proc l.1) l.2; omega)

end Smp

/-- Shootdown: from an initial state, in every interleaving of any number of harts in which no
hart misses a positive multiple of `2^64` increments, no translation is answered from an entry
read before an increment that the instruction, or the hart's own SFENCE.VMA, came after. -/
theorem shootdown_safe [DecidableEq ι] (cfg : Features) (c : Smp ι) (run : List (ι × SmpAct)) (hc : c.Initial)
    (hw : Run.Along (Smp.step cfg) Smp.NoWrap c run) : Run.Always (Smp.step cfg) Smp.Safe c run :=
  Run.always_of_invariant (I := Smp.Inv) (fun _ l h hl => h.step cfg l hl) (fun _ h => h.safe) hc.inv hw

/-! ## A counter that wraps around -/

/-- The slot a translation was answered from. -/
def TlbPhase.hit : TlbPhase → Option (Rwx × Nat)
  | .answered rwx (some i) _ => some (rwx, i)
  | _ => none

theorem TlbPhase.hit_eq_some {ph : TlbPhase} {rwx : Rwx} {i : Nat} (h : ph.hit = some (rwx, i)) :
    ∃ r, ph = .answered rwx (some i) r := by
  unfold TlbPhase.hit at h
  split at h
  · rename_i rwx' j r
    obtain ⟨rfl, rfl⟩ := Prod.mk.inj (Option.some.inj h)
    exact ⟨r, rfl⟩
  · cases h

/-- The steps of a hart that executes nothing but SFENCE.VMA. -/
def fenceActs : List SmpAct := [.start, .sfenceVma, .next, .next]

theorem fence_alone (cfg : Features) (g : SmpShared) (x : SmpHart) {cnt : Word}
    (hx : x.phase = .idle) (hg : g.mem.tlbFlushCnt = some cnt) :
    ∃ x', fenceActs.foldl (fun r a => SmpHart.step cfg r.1 r.2 a) (g, x) =
        ({ g with mem := { g.mem with tlbFlushCnt := some (cnt + 1) }, epoch := g.epoch + 1 }, x') ∧
      x'.phase = .idle := by
  simp only [fenceActs, List.foldl_cons, List.foldl_nil, SmpHart.step, hx, SmpHart.markTlbDirtyIfStale,
    hg, Option.getD_some]
  by_cases hs : x.seen = cnt
  · simp only [if_pos hs, SmpHart.begin, SmpHart.next, hg]
    exact ⟨_, rfl, rfl⟩
  · simp only [if_neg hs, SmpHart.begin, SmpHart.next, hg]
    exact ⟨_, rfl, rfl⟩

theorem fences_alone (cfg : Features) (n : Nat) (g : SmpShared) (x : SmpHart) {cnt : Word}
    (hx : x.phase = .idle) (hg : g.mem.tlbFlushCnt = some cnt) :
    ((List.replicate n fenceActs).flatten.foldl (fun r a => SmpHart.step cfg r.1 r.2 a) (g, x)).1 =
      { g with mem := { g.mem with tlbFlushCnt := some (cnt + BitVec.ofNat 64 n) },
               epoch := g.epoch + n } := by
  induction n generalizing g x cnt with
  | zero =>
    simp [← hg]
  | succ n ih =>
    obtain ⟨x', h, hx'⟩ := fence_alone cfg g x hx hg
    rw [List.replicate_succ, List.flatten_cons, List.foldl_append, h, ih _ x' hx' rfl]
    have hc : cnt + 1 + BitVec.ofNat 64 n = cnt + BitVec.ofNat 64 (n + 1) := by
      rw [BitVec.ofNat_add, BitVec.add_assoc, BitVec.add_comm 1]
      rfl
    simp only [hc, Nat.add_assoc, Nat.add_comm 1]

def freshHart (s : HartState) : SmpHart := ⟨s, .idle, 0, 0, 0, 0, fun _ _ => 0⟩

def twoHarts : Smp Bool :=
  let w := onePage 0x47 (Pmp.R ||| Pmp.W)
  ⟨⟨w.mem, w.pmp, 0⟩, fun _ => freshHart w.hart⟩

def readActs : List SmpAct :=
  [.start, .translate 0x10 .read, .next, .next, .next, .next, .next, .next, .next, .next, .next, .finish]

def readAgain : List SmpAct := [.start, .translate 0x10 .read, .next, .next, .next]

theorem twoHarts_initial : twoHarts.Initial where
  counts := rfl
  idle _ := rfl
  empty _ b i := by cases b <;> rfl
  seen _ := rfl
  seen_le _ := Nat.le_refl _
  fence_le _ := Nat.le_refl _

/-- The hart after it has read the page, with the memory. -/
def readPage : SmpShared × SmpHart :=
  readActs.foldl (fun r a => SmpHart.step ⟨false, false, false, 0⟩ r.1 r.2 a)
    (twoHarts.shared, twoHarts.proc true)

/-- The hart reads the page again in epoch `e`, when the counter shows zero again. -/
def reread (e : Nat) : SmpHart :=
  (readAgain.foldl (fun r a => SmpHart.step ⟨false, false, false, 0⟩ r.1 r.2 a)
    ({ readPage.1 with mem := { readPage.1.mem with tlbFlushCnt := some 0 }, epoch := e }, readPage.2)).2

theorem reread_stale :
    (reread 0x10000000000000000).phase.hit = some (.read, 0) ∧
      ¬ (reread 0x10000000000000000).markEpoch ≤ (reread 0x10000000000000000).readEpoch false 0 := by
  decide

theorem readPage_epochs : readPage.1.epoch = 0 ∧ readPage.1.mem.tlbFlushCnt = some 0 := by decide

/-- One hart reads the page, the other executes `n` fences, the first reads the page again. -/
def wrapRun (n : Nat) : List (Bool × SmpAct) :=
  readActs.map (Prod.mk true) ++ (List.replicate n fenceActs).flatten.map (Prod.mk false) ++
    readAgain.map (Prod.mk true)

theorem wrapRun_end (n : Nat) (hn : BitVec.ofNat 64 n = 0) :
    ((wrapRun n).foldl (Smp.step ⟨false, false, false, 0⟩) twoHarts).proc true = reread n := by
  obtain ⟨he, hc⟩ := readPage_epochs
  have hread : readActs.foldl (fun r a => SmpHart.step ⟨false, false, false, 0⟩ r.1 r.2 a)
      (twoHarts.shared, twoHarts.proc true) = readPage := rfl
  simp only [wrapRun, Smp.step, List.foldl_append, Interleave.foldl_own, Function.update_self,
    Function.update_of_ne (by decide : true ≠ false), Function.update_of_ne (by decide : false ≠ true)]
  rw [hread, fences_alone _ n _ _ rfl hc, hn]
  simp only [reread, he, Nat.zero_add]
  rfl

theorem not_safe_wrapRun {n : Nat} (hn : BitVec.ofNat 64 n = 0)
    (hs : (reread n).phase.hit = some (.read, 0) ∧
      ¬ (reread n).markEpoch ≤ (reread n).readEpoch false 0) :
    ¬ Run.Always (Smp.step ⟨false, false, false, 0⟩) Smp.Safe twoHarts (wrapRun n) := by
  intro h
  obtain ⟨r, hr⟩ := TlbPhase.hit_eq_some hs.1
  have hlast := Run.Always.last h true .read 0 r
  rw [wrapRun_end n hn] at hlast
  exact hs.2 (hlast hr).1

/-- A hart that sleeps through `2^64` increments finds the counter as it left it and is answered
from an entry that all of them should have thrown out. -/
theorem missed_two_pow_64 :
    twoHarts.Initial ∧ ¬ Run.Always (Smp.step ⟨false, false, false, 0⟩) Smp.Safe twoHarts
      (wrapRun 0x10000000000000000) :=
  ⟨twoHarts_initial, not_safe_wrapRun (by decide) reread_stale⟩

/-- A run too short to bring the counter around. -/
theorem Smp.noWrap_of_short [DecidableEq ι] (cfg : Features) (c : Smp ι) (run : List (ι × SmpAct))
    (h : c.shared.epoch + run.length < 2 ^ 64) : Run.Along (Smp.step cfg) Smp.NoWrap c run := by
  induction run generalizing c with
  | nil => trivial
  | cons l run ih =>
    rw [List.length_cons] at h
    refine ⟨fun _ k hk => ?_, ih _ ?_⟩
    · omega
    · have he : (c.step cfg l).shared.epoch = c.shared.epoch ∨
          (c.step cfg l).shared.epoch = c.shared.epoch + 1 :=
        Smp.step_epoch cfg c.shared (c.proc l.1) l.2
      omega

/-- One fence between the two reads is not missed. -/
theorem one_fence_seen :
    Run.Always (Smp.step ⟨false, false, false, 0⟩) Smp.Safe twoHarts (wrapRun 1) :=
  shootdown_safe _ twoHarts _ twoHarts_initial (Smp.noWrap_of_short _ _ _ (by decide))

end Pyremu
