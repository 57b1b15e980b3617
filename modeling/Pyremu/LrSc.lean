import Pyremu.AtomInstr
import Pyremu.Lib.Interleave

/-!
# LR and SC between harts

LR, SC, AMO and stores of any number of harts, one constructor of `LrPhase`
before each atomic step. LR publishes its reservation after the load, SC checks
the reservation before it clears all of them and swaps, and a store clears all
reservations before it writes. The ghost `writes` lists the memory writes of
stores, SCs and AMOs in order; a hart remembers how long the list was when its
last LR loaded.
-/

namespace Pyremu

open ByteMem

/-! ## The machine -/

/-- Some bytes of RAM. -/
structure Bytes where
  off : Nat
  size : Nat

namespace Bytes

/-- The two have a byte in common. -/
def Overlaps (a b : Bytes) : Prop := max a.off b.off < min (a.off + a.size) (b.off + b.size)

instance (a b : Bytes) : Decidable (a.Overlaps b) := inferInstanceAs (Decidable (_ < _))

end Bytes

/-- An LR, SC or AMO whose address has passed all checks. -/
structure AmoReq where
  width : Nat
  rs2Val : Word
  rd : BitVec 5
  pa : Word
  off : Nat
  deriving DecidableEq

def AmoReq.bytes (q : AmoReq) : Bytes := ⟨q.off, q.width⟩

/-- The checks of `handle_amo_concurrent` that decide where the access goes. -/
def amoReq (l : Layout) (func3 : BitVec 3) (rs2Val : Word) (rd : BitVec 5) (pa : Word) :
    Option AmoReq :=
  match amoWidth func3 with
  | none => none
  | some width =>
    if !aligned pa width then none
    else
      match HartSched.ramOffset l pa width with
      | none => none
      | some off => some ⟨width, rs2Val, rd, pa, off.toNat⟩

/-- The bytes `ram_write_raw` writes. -/
def storedBytes (off size : Nat) : Bytes :=
  ⟨off, if size = 1 ∨ size = 2 ∨ size = 4 ∨ size = 8 then size else 0⟩

inductive LrPhase where
  | idle
  | loaded (q : AmoReq)
  | storing (off size : Nat) (v : Word)
  | modifying (funct5 : BitVec 5) (q : AmoReq)
  | checked (q : AmoReq)
  | swapping (q : AmoReq)
  deriving DecidableEq

/-- A hart with two ghosts: the bytes its last LR loaded, and the number of writes before. -/
structure LrHart where
  hart : HartState
  phase : LrPhase
  reserved : Bytes
  since : Nat

structure LrShared (ι : Type) where
  mem : WalkCtx
  writes : List (ι × Bytes)

/-- `trap` drops the hart's own reservation; `other` stands for what else may change RAM, such as
a page-table walk or a device. -/
inductive LrAct where
  | store (pa v : Word) (size : Nat)
  | amo (funct5 : BitVec 5) (func3 : BitVec 3) (rs2Val : Word) (rd : BitVec 5) (pa : Word)
  | trap
  | other (ram : Mem)
  | next

variable {ι : Type}

namespace LrShared

def clear (g : LrShared ι) : LrShared ι := { g with mem := lrClearAll g.mem }

def write (g : LrShared ι) (i : ι) (b : Bytes) (ram : Mem) : LrShared ι :=
  { mem := { g.mem with ram := ram }, writes := g.writes ++ [(i, b)] }

end LrShared

namespace LrHart

/-- The slot of the shared table, `mhartid as u8`. -/
def slot (x : LrHart) : Nat := (x.hart.mhartid.setWidth 8).toNat

def goto (x : LrHart) (phase : LrPhase) : LrHart := { x with phase := phase }

/-- `exec_lr` up to the call of `lr_set`. -/
def load (g : LrShared ι) (x : LrHart) (q : AmoReq) : LrHart :=
  let raw := readLe g.mem.ram q.off q.width
  let loaded := if q.width = 4 then (raw.setWidth 32).signExtend 64 else raw
  { hart := { x.hart with
      reservationValid := true, reservationAddr := q.pa, reservationValue := loaded }
    phase := .loaded q
    reserved := q.bytes
    since := g.writes.length }

/-- The rest of `exec_lr`. -/
def publish (g : LrShared ι) (x : LrHart) (q : AmoReq) : LrShared ι × LrHart :=
  ({ g with mem := lrSet g.mem x.slot q.pa },
    { x with
      hart := { x.hart with
        gprs := Function.update x.hart.gprs q.rd (if q.rd ≠ 0 then x.hart.reservationValue else 0) }
      phase := .idle })

/-- The end of `exec_sc`. -/
def finishSc (x : LrHart) (q : AmoReq) (code : Word) : LrHart :=
  { x with hart := writeGpr { x.hart with reservationValid := false } q.rd code, phase := .idle }

/-- `exec_sc` up to the call of `lr_clear_all`. -/
def check (g : LrShared ι) (x : LrHart) (q : AmoReq) : LrHart :=
  if !lrCheck g.mem x.slot q.pa ∨ !x.hart.reservationValid ∨ x.hart.reservationAddr ≠ q.pa then
    x.finishSc q 1
  else x.goto (.checked q)

/-- The compare-exchange finds the reserved value. -/
def finds (g : LrShared ι) (x : LrHart) (q : AmoReq) : Bool :=
  decide (readLe g.mem.ram q.off q.width = amoTrunc q.width x.hart.reservationValue)

/-- The compare-exchange of `exec_sc`. -/
def swap (i : ι) (g : LrShared ι) (x : LrHart) (q : AmoReq) : LrShared ι × LrHart :=
  if x.finds g q then
    (g.write i q.bytes (writeLe g.mem.ram q.off q.width q.rs2Val), x.finishSc q 0)
  else (g, x.finishSc q 1)

/-- The atomic operation of `exec_amo_rmw`. -/
def modify (i : ι) (g : LrShared ι) (x : LrHart) (funct5 : BitVec 5) (q : AmoReq) :
    LrShared ι × LrHart :=
  let cur := readLe g.mem.ram q.off q.width
  match amoNew funct5 q.width cur q.rs2Val with
  | some new =>
    (g.write i q.bytes (writeLe g.mem.ram q.off q.width new),
      { x with hart := writeGpr x.hart q.rd cur, phase := .idle })
  | none => (g, { x with hart := writeGpr x.hart q.rd 0, phase := .idle })

def next (i : ι) (g : LrShared ι) (x : LrHart) : LrShared ι × LrHart :=
  match x.phase with
  | .idle => (g, x)
  | .loaded q => x.publish g q
  | .storing off size v =>
    (g.write i (storedBytes off size) (storeSized g.mem.ram off size v), x.goto .idle)
  | .modifying funct5 q => x.modify i g funct5 q
  | .checked q => (g.clear, x.goto (.swapping q))
  | .swapping q => x.swap i g q

/-- What an idle hart starts. -/
def begin (g : LrShared ι) (x : LrHart) : LrAct → LrShared ι × LrHart
  | .store pa v size =>
    match HartSched.ramOffset g.mem.toLayout pa size with
    | none => (g, x)
    | some off => (g.clear, x.goto (.storing off.toNat size v))
  | .amo funct5 func3 rs2Val rd pa =>
    match amoReq g.mem.toLayout func3 rs2Val rd pa with
    | none => (g, x)
    | some q =>
      if isLr funct5 then (g, x.load g q)
      else if isSc funct5 then (g, x.check g q)
      else if isRmw funct5 then (g.clear, x.goto (.modifying funct5 q))
      else (g, x)
  | .trap => (g, { x with hart := { x.hart with reservationValid := false, reservationAddr := 0 } })
  | .other ram => ({ g with mem := { g.mem with ram := ram } }, x)
  | .next => (g, x)

def step (i : ι) (g : LrShared ι) (x : LrHart) : LrAct → LrShared ι × LrHart
  | .next => x.next i g
  | a =>
    match x.phase with
    | .idle => x.begin g a
    | _ => (g, x)

end LrHart

/-! ## One hart alone -/

namespace LrHart

/-- Alone, the steps of a store add up to `ram_write_raw`. -/
theorem store_alone (i : ι) (g : LrShared ι) (x : LrHart) (pa v : Word) (size : Nat)
    (hx : x.phase = .idle) :
    let r := [LrAct.store pa v size, .next].foldl (fun r a => r.2.step i r.1 a) (g, x)
    r.1.mem = ramWriteRaw g.mem pa v size ∧ r.2 = x := by
  simp only [List.foldl_cons, List.foldl_nil, step, hx, begin, ramWriteRaw]
  cases HartSched.ramOffset g.mem.toLayout pa size with
  | none => simp only [next, hx, and_self]
  | some off =>
    refine ⟨rfl, ?_⟩
    simp only [next, goto, ← hx]

theorem sc_alone (i : ι) (g : LrShared ι) (x : LrHart) (q : AmoReq) :
    let r := (x.check g q).next i g
    let r := r.2.next i r.1
    let e := execSc x.hart q.width q.rs2Val q.rd q.pa q.off g.mem
    r.1.mem = e.2 ∧ r.2.hart = e.1 ∧ r.2.phase = .idle := by
  simp only [execSc]
  by_cases hc : !lrCheck g.mem (x.hart.mhartid.setWidth 8).toNat q.pa ∨ !x.hart.reservationValid ∨
      x.hart.reservationAddr ≠ q.pa
  · have hcheck : x.check g q = x.finishSc q 1 := if_pos hc
    rw [hcheck, if_pos hc]
    exact ⟨rfl, rfl, rfl⟩
  · have hcheck : x.check g q = x.goto (.checked q) := if_neg hc
    rw [hcheck, if_neg hc]
    simp only [next, goto, swap, finds, LrShared.clear, lrClearAll_ram]
    by_cases hv : readLe g.mem.ram q.off q.width = amoTrunc q.width x.hart.reservationValue
    · simp only [hv, decide_true, ↓reduceIte]
      exact ⟨rfl, rfl, rfl⟩
    · simp only [hv, decide_false, Bool.false_eq_true, ↓reduceIte]
      exact ⟨trivial, rfl, rfl⟩

/-- Alone, the steps of an LR, SC or AMO add up to `exec_amo_op`. -/
theorem amo_alone (i : ι) (g : LrShared ι) (x : LrHart) (funct5 : BitVec 5) (func3 : BitVec 3)
    (rs2Val : Word) (rd : BitVec 5) (pa : Word) (q : AmoReq) (hx : x.phase = .idle)
    (hq : amoReq g.mem.toLayout func3 rs2Val rd pa = some q) :
    let r := [LrAct.amo funct5 func3 rs2Val rd pa, .next, .next].foldl
      (fun r a => r.2.step i r.1 a) (g, x)
    let e := execAmoOp x.hart funct5 q.width q.rs2Val q.rd q.pa q.off g.mem
    r.1.mem = e.2.1 ∧ r.2.hart = e.1 ∧ r.2.phase = .idle := by
  simp only [List.foldl_cons, List.foldl_nil, step, hx, begin, hq, execAmoOp]
  split
  · exact ⟨rfl, rfl, rfl⟩
  · split
    · exact sc_alone i g x q
    · split
      · simp only [next, goto, modify, execAmoRmw, LrShared.clear, lrClearAll_ram]
        cases amoNew funct5 q.width (readLe g.mem.ram q.off q.width) q.rs2Val <;> exact ⟨rfl, rfl, rfl⟩
      · simp only [next, hx, and_self]

end LrHart

/-! ## What a step can do -/

namespace LrPhase

/-- Between the two steps of LR, or after the check of SC. -/
def Exposed : LrPhase → Prop
  | .loaded _ | .checked _ | .swapping _ => True
  | _ => False

/-- What the hart has cleared the reservations for and not yet written. -/
def pending : LrPhase → Option Bytes
  | .storing off size _ => some (storedBytes off size)
  | .modifying _ q | .swapping q => some q.bytes
  | _ => none

end LrPhase

namespace LrHart

/-- The bytes the next step writes. -/
def nextWrite (g : LrShared ι) (x : LrHart) : Option Bytes :=
  match x.phase with
  | .storing off size _ => some (storedBytes off size)
  | .modifying funct5 q =>
    (amoNew funct5 q.width (readLe g.mem.ram q.off q.width) q.rs2Val).map fun _ => q.bytes
  | .swapping q => if x.finds g q then some q.bytes else none
  | _ => none

theorem pending_of_nextWrite {g : LrShared ι} {x : LrHart} {b : Bytes} (h : x.nextWrite g = some b) :
    x.phase.pending = some b := by
  unfold nextWrite at h
  split at h
  · rename_i hp
    rw [hp]
    exact h
  · rename_i hp
    rw [hp]
    obtain ⟨_, _, hb⟩ := Option.map_eq_some_iff.mp h
    exact congrArg some hb
  · rename_i hp
    rw [hp]
    split at h
    · exact h
    · cases h
  · cases h

/-- Every step of one hart is one of these. -/
inductive Moves (i : ι) (g : LrShared ι) (x : LrHart) (a : LrAct) : LrShared ι × LrHart → Prop where
  | keep (ram : Mem) (s : HartState) (ph : LrPhase) (hs : s.mhartid = x.hart.mhartid)
    (hp : ph = x.phase ∨ ph = .idle ∧ ∀ q, x.phase ≠ .loaded q) :
    Moves i g x a ({ g with mem := { g.mem with ram := ram } }, { x with hart := s, phase := ph })
  | load (q : AmoReq) : Moves i g x a (g, x.load g q)
  | publish (q : AmoReq) (ha : a = .next) (hp : x.phase = .loaded q) :
    Moves i g x a (x.publish g q)
  | check (q : AmoReq) (hp : x.phase = .idle) (hc : lrCheck g.mem x.slot q.pa = true) :
    Moves i g x a (g, x.goto (.checked q))
  | clear (ph : LrPhase) (hp : ∀ q, ph ≠ .loaded q) (he : ph.Exposed → x.phase.Exposed) :
    Moves i g x a (g.clear, x.goto ph)
  | write (b : Bytes) (ram : Mem) (s : HartState) (hs : s.mhartid = x.hart.mhartid)
    (ha : a = .next) (hb : x.nextWrite g = some b) :
    Moves i g x a (g.write i b ram, { x with hart := s, phase := .idle })

theorem writeGpr_mhartid (s : HartState) (rd : BitVec 5) (v : Word) :
    (writeGpr s rd v).mhartid = s.mhartid := by
  simp only [writeGpr]
  split <;> rfl

theorem Moves.stay (i : ι) (g : LrShared ι) (x : LrHart) (a : LrAct) : Moves i g x a (g, x) :=
  .keep g.mem.ram x.hart x.phase rfl (.inl rfl)

theorem Moves.finishSc (i : ι) (g : LrShared ι) (x : LrHart) (a : LrAct) (q : AmoReq) (code : Word)
    (hx : ∀ q, x.phase ≠ .loaded q) : Moves i g x a (g, x.finishSc q code) :=
  .keep g.mem.ram _ .idle (writeGpr_mhartid _ _ _) (.inr ⟨rfl, hx⟩)

theorem next_moves (i : ι) (g : LrShared ι) (x : LrHart) : Moves i g x .next (x.next i g) := by
  unfold next
  split
  case h_1 => exact .stay i g x _
  case h_2 q hp => exact .publish q rfl hp
  case h_3 off size v hp =>
    refine .write _ _ x.hart rfl rfl ?_
    simp only [nextWrite, hp]
  case h_4 funct5 q hp =>
    simp only [modify]
    split
    · rename_i new hnew
      refine .write _ _ _ (writeGpr_mhartid _ _ _) rfl ?_
      simp only [nextWrite, hp, hnew, Option.map_some]
    · refine .keep g.mem.ram _ .idle (writeGpr_mhartid _ _ _) (.inr ⟨rfl, fun q' h => ?_⟩)
      rw [hp] at h
      cases h
  case h_5 q hp =>
    refine .clear _ (fun _ h => ?_) fun _ => ?_
    · cases h
    · rw [hp]
      trivial
  case h_6 q hp =>
    simp only [swap]
    split
    · rename_i hf
      refine .write _ _ _ (writeGpr_mhartid _ _ _) rfl ?_
      simp only [nextWrite, hp, hf, ↓reduceIte]
    · refine .finishSc i g x _ q 1 fun q' h => ?_
      rw [hp] at h
      cases h

theorem begin_moves (i : ι) (g : LrShared ι) (x : LrHart) (hx : x.phase = .idle) (a : LrAct) :
    Moves i g x a (x.begin g a) := by
  have hl : ∀ q, x.phase ≠ .loaded q := by
    intro q h
    rw [hx] at h
    cases h
  cases a with
  | store pa v size =>
    simp only [begin]
    split
    · exact .stay i g x _
    · exact .clear _ (fun _ h => by cases h) False.elim
  | amo funct5 func3 rs2Val rd pa =>
    simp only [begin]
    split
    · exact .stay i g x _
    · rename_i q _
      split
      · exact .load q
      · split
        · simp only [check]
          split
          · exact .finishSc i g x _ q 1 hl
          · rename_i hc
            simp only [not_or, Bool.not_eq_true', Bool.not_eq_false] at hc
            exact .check q hx hc.1
        · split
          · exact .clear _ (fun _ h => by cases h) False.elim
          · exact .stay i g x _
  | trap => exact .keep g.mem.ram _ x.phase rfl (.inl rfl)
  | other ram => exact .keep ram x.hart x.phase rfl (.inl rfl)
  | next => exact .stay i g x _

theorem step_moves (i : ι) (g : LrShared ι) (x : LrHart) (a : LrAct) :
    Moves i g x a (x.step i g a) := by
  cases a with
  | next => exact next_moves i g x
  | _ =>
    simp only [step]
    split
    · rename_i hx
      exact begin_moves i g x hx _
    · exact .stay i g x _

end LrHart

/-! ## The invariant -/

namespace LrHart

/-- Another hart has written into the bytes of the last LR since it loaded them. -/
def Tainted (h : ι) (g : LrShared ι) (x : LrHart) : Prop :=
  ∃ w ∈ g.writes.drop x.since, w.1 ≠ h ∧ w.2.Overlaps x.reserved

instance [DecidableEq ι] (h : ι) (g : LrShared ι) (x : LrHart) : Decidable (x.Tainted h g) :=
  inferInstanceAs (Decidable (∃ w ∈ g.writes.drop x.since, w.1 ≠ h ∧ w.2.Overlaps x.reserved))

/-- The table shows a reservation, and LR is not about to replace it. -/
def Armed (g : LrShared ι) (x : LrHart) : Prop :=
  (∀ q, x.phase ≠ .loaded q) ∧ ∃ t, g.mem.lrReserved = some t ∧ t x.slot ≠ 0

structure Inv (h : ι) (g : LrShared ι) (x : LrHart) : Prop where
  since_le : x.since ≤ g.writes.length
  slot_lt : x.slot < g.mem.numHarts
  reserved : ∀ q, x.phase = .loaded q → x.reserved = q.bytes
  untainted : x.phase.Exposed ∨ x.Armed g → ¬ x.Tainted h g

/-- No write is under way into a published reservation. -/
structure Apart (g : LrShared ι) (x y : LrHart) : Prop where
  slots : x.slot ≠ y.slot
  pending : x.Armed g → ∀ b, y.phase.pending = some b → ¬ b.Overlaps x.reserved

variable {h i : ι} {g : LrShared ι} {x y : LrHart} {a : LrAct} {r : LrShared ι × LrHart}

theorem Tainted.write {b : Bytes} {ram : Mem} (hs : x.since ≤ g.writes.length)
    (ht : x.Tainted h (g.write i b ram)) : x.Tainted h g ∨ i ≠ h ∧ b.Overlaps x.reserved := by
  obtain ⟨w, hw, hne, ho⟩ := ht
  simp only [LrShared.write] at hw
  rw [List.drop_append_of_le_length hs, List.mem_append] at hw
  rcases hw with hw | hw
  · exact .inl ⟨w, hw, hne, ho⟩
  · obtain rfl := List.mem_singleton.mp hw
    exact .inr ⟨hne, ho⟩

theorem not_armed_clear (hx : x.slot < g.mem.numHarts) : ¬ x.Armed g.clear := by
  rintro ⟨_, t, ht, hne⟩
  simp only [LrShared.clear, lrClearAll] at ht
  obtain ⟨t', _, rfl⟩ := Option.map_eq_some_iff.mp ht
  exact hne (if_pos hx)

theorem Moves.numHarts (hm : Moves i g x a r) : r.1.mem.numHarts = g.mem.numHarts := by
  cases hm <;> rfl

theorem Moves.slot (hm : Moves i g x a r) : r.2.slot = x.slot := by
  cases hm with
  | keep ram s ph hs hp => simp only [LrHart.slot, hs]
  | write b ram s hs ha hb => simp only [LrHart.slot, hs]
  | _ => rfl

/-- A step of another hart publishes no reservation of this one. -/
theorem Moves.armed (hm : Moves i g y a r) (hne : x.slot ≠ y.slot) (hlt : x.slot < g.mem.numHarts)
    (ha : x.Armed r.1) : x.Armed g := by
  cases hm with
  | publish q _ hp =>
    obtain ⟨hl, t, ht, hz⟩ := ha
    obtain ⟨t', ht', rfl⟩ := Option.map_eq_some_iff.mp ht
    refine ⟨hl, t', ht', ?_⟩
    rwa [Function.update_of_ne hne] at hz
  | clear ph hp he => exact absurd ha (not_armed_clear hlt)
  | _ => exact ha

theorem loaded_exposed {q : AmoReq} (hp : x.phase = .loaded q) : x.phase.Exposed := by
  rw [hp]
  trivial

theorem nextWrite_not_loaded {b : Bytes} (hb : x.nextWrite g = some b) (q : AmoReq) :
    x.phase ≠ .loaded q := by
  intro hp
  have h := pending_of_nextWrite hb
  rw [hp] at h
  cases h

/-- The hart that moves. -/
theorem Inv.own (hx : Inv i g x) (hm : Moves i g x a r) : Inv i r.1 r.2 := by
  have hn : r.2.slot < r.1.mem.numHarts := by
    rw [hm.slot, hm.numHarts]
    exact hx.slot_lt
  cases hm with
  | keep ram s ph hs hp =>
    refine ⟨hx.since_le, hn, fun q hq => ?_, ?_⟩
    · rcases hp with hp | hp
      · exact hx.reserved q (hp.symm.trans hq)
      · cases hp.1.symm.trans hq
    · rintro (he | ⟨_, t, ht, hz⟩)
      · rcases hp with rfl | ⟨rfl, _⟩
        · exact hx.untainted (.inl he)
        · exact False.elim he
      · rcases hp with rfl | ⟨rfl, hl⟩
        · refine hx.untainted (.inr ⟨‹_›, t, ht, ?_⟩)
          simpa only [LrHart.slot, hs] using hz
        · refine hx.untainted (.inr ⟨hl, t, ht, ?_⟩)
          simpa only [LrHart.slot, hs] using hz
  | load q =>
    refine ⟨Nat.le_refl _, hn, fun q' hq => ?_, fun _ ht => ?_⟩
    · cases hq
      rfl
    · obtain ⟨w, hw, _⟩ := ht
      simp only [LrHart.load, List.drop_length, List.not_mem_nil] at hw
  | publish q _ hp =>
    exact ⟨hx.since_le, hn, fun q' hq => (by cases hq), fun _ => hx.untainted (.inl (loaded_exposed hp))⟩
  | check q hp hc =>
    refine ⟨hx.since_le, hn, fun q' hq => (by cases hq), fun _ => hx.untainted (.inr ⟨fun q' hq => ?_, ?_⟩)⟩
    · cases hp.symm.trans hq
    · simp only [lrCheck] at hc
      cases ht : g.mem.lrReserved with
      | none => simp only [ht, Bool.false_eq_true] at hc
      | some t =>
        simp only [ht, Bool.and_eq_true, bne_iff_ne, beq_iff_eq] at hc
        refine ⟨t, rfl, ?_⟩
        rw [hc.2]
        exact hc.1
  | clear ph hp he =>
    refine ⟨hx.since_le, hn, fun q hq => absurd hq (hp q), ?_⟩
    rintro (h | h)
    · exact hx.untainted (.inl (he h))
    · exact absurd h (not_armed_clear hx.slot_lt)
  | write b ram s hs _ hb =>
    refine ⟨?_, hn, fun q hq => (by cases hq), ?_⟩
    · simp only [LrShared.write, List.length_append]
      exact Nat.le_add_right_of_le hx.since_le
    · rintro (he | ⟨_, t, ht, hz⟩) htaint
      · exact he
      · rcases Tainted.write hx.since_le htaint with h | h
        · refine hx.untainted (.inr ⟨nextWrite_not_loaded hb, t, ht, ?_⟩) h
          simpa only [LrHart.slot, hs] using hz
        · exact h.1 rfl

/-- A hart that looks on. The write that could taint it finds it neither exposed nor armed. -/
theorem Inv.other (hx : Inv h g x) (hy : x.Apart g y) (hm : Moves i g y a r)
    (hq : ∀ b, a = .next → y.nextWrite g = some b → b.Overlaps x.reserved → ¬ x.phase.Exposed) :
    Inv h r.1 x := by
  have hn : x.slot < r.1.mem.numHarts := by
    rw [hm.numHarts]
    exact hx.slot_lt
  have harm := hm.armed hy.slots hx.slot_lt
  cases hm with
  | write b ram s hs ha hb =>
    refine ⟨?_, hn, hx.reserved, fun hea htaint => ?_⟩
    · simp only [LrShared.write, List.length_append]
      exact Nat.le_add_right_of_le hx.since_le
    · have hea' : x.phase.Exposed ∨ x.Armed g := hea.imp_right harm
      rcases Tainted.write hx.since_le htaint with ht | ⟨_, ho⟩
      · exact hx.untainted hea' ht
      · rcases hea' with he | ha'
        · exact hq b ha hb ho he
        · exact hy.pending ha' b (pending_of_nextWrite hb) ho
  | _ => exact ⟨hx.since_le, hn, hx.reserved, fun hea => hx.untainted (hea.imp_right harm)⟩

/-- The first of the two moves. It publishes only when no write is under way. -/
theorem Apart.first (hx : Inv i g x) (hy : x.Apart g y) (hm : Moves i g x a r)
    (hq : ∀ q, a = .next → x.phase = .loaded q → ∀ b, y.phase.pending = some b → ¬ b.Overlaps q.bytes) :
    r.2.Apart r.1 y := by
  refine ⟨hm.slot ▸ hy.slots, ?_⟩
  cases hm with
  | keep ram s ph hs hp =>
    rintro ⟨hl, t, ht, hz⟩
    refine hy.pending ⟨?_, t, ht, ?_⟩
    · rcases hp with rfl | hp
      · exact hl
      · exact hp.2
    · simpa only [LrHart.slot, hs] using hz
  | load q => exact fun ha => absurd rfl (ha.1 q)
  | publish q ha hp =>
    intro _ b hb
    have hr : x.reserved = q.bytes := hx.reserved q hp
    simp only [LrHart.publish, hr]
    exact hq q ha hp b hb
  | check q hp hc =>
    rintro ⟨_, ht⟩
    refine hy.pending ⟨fun q' hq' => ?_, ht⟩
    cases hp.symm.trans hq'
  | clear ph hp he => exact fun ha => absurd ha (not_armed_clear hx.slot_lt)
  | write b ram s hs ha hb =>
    rintro ⟨_, t, ht, hz⟩
    refine hy.pending ⟨nextWrite_not_loaded hb, t, ht, ?_⟩
    simpa only [LrHart.slot, hs] using hz

/-- The second of the two moves. Where it starts to write it has cleared the table. -/
theorem Apart.second (hx : Inv h g x) (hy : x.Apart g y) (hm : Moves i g y a r) : x.Apart r.1 r.2 := by
  refine ⟨?_, fun ha => ?_⟩
  · rw [hm.slot]
    exact hy.slots
  · have hp := hy.pending (hm.armed hy.slots hx.slot_lt ha)
    cases hm with
    | keep ram s ph hs hph =>
      rcases hph with rfl | ⟨rfl, _⟩
      · exact hp
      · exact fun b hb => by cases hb
    | clear ph _ _ => exact absurd ha (not_armed_clear hx.slot_lt)
    | _ => exact fun b hb => by cases hb

end LrHart

/-! ## Runs -/

/-- Any number of harts. -/
abbrev LrSc (ι : Type) := Interleave.Config (LrShared ι) LrHart ι

namespace LrSc

def step [DecidableEq ι] : LrSc ι → ι × LrAct → LrSc ι :=
  Interleave.step fun i g x a => x.step i g a

/-- No instruction is under way, nothing is reserved, and every hart has a slot of the table. -/
structure Initial (c : LrSc ι) : Prop where
  idle : ∀ h, (c.proc h).phase = .idle
  clear : c.shared.mem.lrReserved = some fun _ => 0
  slots : ∀ h, (c.proc h).slot < c.shared.mem.numHarts
  since : ∀ h, (c.proc h).since = c.shared.writes.length

/-- The step is the compare-exchange of an SC that succeeds. -/
def Succeeds (c : LrSc ι) (l : ι × LrAct) : Prop :=
  l.2 = .next ∧ ∃ q, (c.proc l.1).phase = .swapping q ∧ (c.proc l.1).finds c.shared q = true

/-- An SC that succeeds finds no other hart's write since the load of its LR. -/
def Atomic (c : LrSc ι) (l : ι × LrAct) : Prop :=
  c.Succeeds l → ¬ (c.proc l.1).Tainted l.1 c.shared

/-- A step of no consequence for the reservations of the other harts: it writes no bytes that a
hart has loaded with LR and not yet published, or is about to swap, and it publishes no
reservation while another hart is about to write into it. -/
structure Orderly (c : LrSc ι) (l : ι × LrAct) : Prop where
  writes : ∀ b, l.2 = .next → (c.proc l.1).nextWrite c.shared = some b →
    ∀ h, h ≠ l.1 → b.Overlaps (c.proc h).reserved → ¬ (c.proc h).phase.Exposed
  publishes : ∀ q, l.2 = .next → (c.proc l.1).phase = .loaded q →
    ∀ h, h ≠ l.1 → ∀ b, (c.proc h).phase.pending = some b → ¬ b.Overlaps q.bytes

structure Inv (c : LrSc ι) : Prop where
  each : Interleave.All LrHart.Inv c
  pairs : Interleave.Pairs (fun _ _ => LrHart.Apart) c

theorem Initial.inv {c : LrSc ι} (hc : c.Initial) (hd : ∀ i j, i ≠ j → (c.proc i).slot ≠ (c.proc j).slot) :
    c.Inv := by
  have hidle : ∀ h q, (c.proc h).phase ≠ .loaded q := by
    intro h q hq
    cases (hc.idle h).symm.trans hq
  have hno : ∀ h, ¬ (c.proc h).Armed c.shared := by
    rintro h ⟨_, t, ht, hz⟩
    rw [hc.clear] at ht
    cases ht
    exact hz rfl
  refine ⟨fun h => ⟨Nat.le_of_eq (hc.since h), hc.slots h, fun q hq => absurd hq (hidle h q), ?_⟩,
    fun i j hij => ⟨hd i j hij, fun ha => absurd ha (hno i)⟩⟩
  rintro (he | ha)
  · rw [hc.idle h] at he
    exact False.elim he
  · exact absurd ha (hno h)

theorem Inv.step [DecidableEq ι] {c : LrSc ι} (hc : c.Inv) (l : ι × LrAct) (ho : c.Orderly l) :
    (c.step l).Inv := by
  have hm := (c.proc l.1).step_moves l.1 c.shared l.2
  constructor
  · apply Interleave.All.step hc.each ((hc.each l.1).own hm)
    intro j hj hx
    exact hx.other (hc.pairs j l.1 hj) hm fun b ha hb => ho.writes b ha hb j hj
  · refine Interleave.Pairs.step hc.pairs ?_ ?_ ?_
    · intro j hj hap
      exact hap.first (hc.each l.1) hm fun q ha hq => ho.publishes q ha hq j hj
    · intro j hj hap
      exact hap.second (hc.each j) hm
    · intro j k hj _ _ hap
      exact ⟨hap.slots, fun ha => hap.pending (hm.armed (hc.pairs j l.1 hj).slots (hc.each j).slot_lt ha)⟩

theorem Inv.atomic {c : LrSc ι} (hc : c.Inv) (l : ι × LrAct) : c.Atomic l := by
  rintro ⟨_, q, hq, _⟩
  refine (hc.each l.1).untainted (.inl ?_)
  rw [hq]
  trivial

end LrSc

/-- In every interleaving of any number of harts with slots of their own, an SC that succeeds
comes after no other hart's write to the bytes of its LR, as long as every step is orderly. -/
theorem lr_sc_atomic [DecidableEq ι] (c : LrSc ι) (run : List (ι × LrAct)) (hc : c.Initial)
    (hd : ∀ i j, i ≠ j → (c.proc i).slot ≠ (c.proc j).slot)
    (ho : Run.Along LrSc.step LrSc.Orderly c run) : Run.Along LrSc.step LrSc.Atomic c run :=
  Run.along_of_promised (fun _ l h hl => h.step l hl) (fun _ l h _ => h.atomic l) (hc.inv hd) ho

/-- Two harts, sixteen bytes of RAM. -/
def lrPair : LrSc Bool :=
  ⟨⟨{ ramBase := 0x80000000, ramSize := 16, shadowBase := 0, shadowSize := 0, ram := fun _ => 0,
      tlbFlushCnt := none, lrReserved := some fun _ => 0, numHarts := 2 }, []⟩,
    fun b => ⟨{ HartState.zeroed with mhartid := if b then 1 else 0 }, .idle, ⟨0, 0⟩, 0⟩⟩

theorem lrPair_initial : lrPair.Initial where
  idle _ := rfl
  clear := rfl
  slots h := by cases h <;> decide
  since _ := rfl

theorem lrPair_slots (i j : Bool) (h : i ≠ j) : (lrPair.proc i).slot ≠ (lrPair.proc j).slot := by
  revert i j
  decide

/-- A hart that runs alone takes orderly steps. -/
theorem LrSc.alone_orderly [DecidableEq ι] (c : LrSc ι) (i : ι) (as : List LrAct)
    (h : ∀ j, j ≠ i → (c.proc j).phase = .idle) :
    Run.Along LrSc.step LrSc.Orderly c (as.map (Prod.mk i)) := by
  induction as generalizing c with
  | nil => trivial
  | cons a as ih =>
    refine ⟨⟨fun b _ _ j hj _ he => ?_, fun q _ _ j hj b hb => ?_⟩, ih _ fun j hj => ?_⟩
    · rw [h j hj] at he
      exact he
    · rw [h j hj] at hb
      cases hb
    · have hstep : (c.step (i, a)).proc j = c.proc j := Interleave.step_proc_other hj
      rw [hstep]
      exact h j hj

/-- LR.D, and SC.D up to its last step. -/
def lrThenSc : List LrAct :=
  [.amo 0b00010 0b011 0 0 0x80000000, .next, .amo 0b00011 0b011 5 0 0x80000000, .next]

theorem lr_then_sc_atomic :
    ((lrThenSc.map (Prod.mk true)).foldl LrSc.step lrPair).Succeeds (true, .next) ∧
      Run.Along LrSc.step LrSc.Atomic lrPair ((lrThenSc ++ [LrAct.next]).map (Prod.mk true)) :=
  ⟨⟨rfl, ⟨8, 5, 0, 0x80000000, 0⟩, by decide, by decide⟩,
    lr_sc_atomic lrPair _ lrPair_initial lrPair_slots
      (LrSc.alone_orderly lrPair true _ fun _ _ => rfl)⟩

/-- One hart reads with LR.D; before it publishes the reservation, the other hart stores 1 and
then 0 again. -/
def abaRun : List (Bool × LrAct) :=
  [(true, .amo 0b00010 0b011 0 0 0x80000000),
    (false, .store 0x80000000 1 8), (false, .next), (false, .store 0x80000000 0 8), (false, .next),
    (true, .next), (true, .amo 0b00011 0b011 5 0 0x80000000), (true, .next)]

/-- The SC that follows succeeds all the same. -/
theorem aba_sc_succeeds :
    lrPair.Initial ∧ (∀ i j, i ≠ j → (lrPair.proc i).slot ≠ (lrPair.proc j).slot) ∧
      ¬ Run.Along LrSc.step LrSc.Atomic lrPair (abaRun ++ [(true, .next)]) := by
  refine ⟨lrPair_initial, lrPair_slots, fun h => ?_⟩
  have hlast := Run.Along.last h
  refine hlast ⟨rfl, ⟨8, 5, 0, 0x80000000, 0⟩, by decide, by decide⟩ (by decide)

end Pyremu
