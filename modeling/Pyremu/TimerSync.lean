import Pyremu.Clint
import Pyremu.Lib.Run

/-!
# Timer bits at an instruction boundary

`sync_mtip` drives `mip.MTIP` from `mtimecmp` and `mip.STIP` from `stimecmp`. A
waiting hart and a timer without a deadline compare with the shared clock; an
armed timer looks at the clock only when the hart has retired as many
instructions as the deadline says, or when the bit is set.
-/

namespace Pyremu

/-! ## One timer -/

/-- `set_mip_bit`. -/
def setMipBit (s : HartState) (b : Word) : HartState := if s.mip &&& b = 0 then s.setMip b else s

/-- `clear_mip_bit`. -/
def clearMipBit (s : HartState) (b : Word) : HartState := if s.mip &&& b ≠ 0 then s.clearMip b else s

def syncTimerBitShared (s : HartState) (clint : Clint) (b cmp : Word) : HartState :=
  if cmp = 0 then clearMipBit s b
  else if cmp ≤ clint.mtime then setMipBit s b
  else clearMipBit s b

/-- The hart after the comparison and the deadline that is kept or armed again. -/
def confirmTimerDeadline (s : HartState) (clint : Clint) (b cmp deadline : Word) : HartState × Word :=
  if cmp ≠ 0 ∧ cmp ≤ clint.mtime then (setMipBit s b, deadline)
  else (clearMipBit s b, timerDeadlineOwn s.totalInstrs clint.mtime cmp clint.timebaseHz)

def needsTimerConfirm (s : HartState) (b deadline : Word) : Bool :=
  decide (deadline ≤ s.totalInstrs) || decide (s.mip &&& b ≠ 0)

/-- The part of `sync_mtip` for one timer, which is the same for both. -/
def syncTimer (s : HartState) (clint : Clint) (b cmp deadline : Word) : HartState × Word :=
  if s.waiting then (syncTimerBitShared s clint b cmp, deadline)
  else if deadline ≠ 0 ∧ needsTimerConfirm s b deadline then confirmTimerDeadline s clint b cmp deadline
  else if deadline = 0 then (syncTimerBitShared s clint b cmp, deadline)
  else (s, deadline)

/-- With `stimecmp` at 0, STIP belongs to the machine-mode software. -/
def syncMtip (s : HartState) (clint : Clint) : HartState :=
  let cmp := clint.mtimecmp s.mhartid.toNat
  let sstcCmp := s.stimecmp
  let r := syncTimer s clint (bit 7) cmp s.mtipDeadline
  let s := { r.1 with mtipDeadline := r.2 }
  if sstcCmp = 0 then s
  else
    let r := syncTimer s clint (bit 5) sstcCmp s.stipDeadline
    { r.1 with stipDeadline := r.2 }

/-! ## What a timer promises -/

/-- The pending bit says that the comparator has been reached; where the deadline does not keep the
hart from looking, it is set as soon as that is so. -/
structure TimerExact (pending : Bool) (cmp now deadline total : Word) (waiting : Bool) : Prop where
  sound : pending = true → cmp ≠ 0 ∧ cmp ≤ now
  reached : cmp ≠ 0 → cmp ≤ now → waiting = true ∨ deadline = 0 ∨ deadline ≤ total → pending = true

/-- Instructions that cover the remaining ticks, rounded up, with the saturation of the source. -/
def countTo (now cmp hz : Word) : Nat :=
  saturate (saturate ((cmp - now).toNat * nsPerSec) + (saturate (hz.toNat * nsPerInstr) - 1)) /
    saturate (hz.toNat * nsPerInstr)

/-- A deadline armed at `total` instructions: it lies after them by the instructions to go, unless the
sum passes the end of the counter. -/
structure Rearmed (total now cmp hz deadline : Word) : Prop where
  sum : deadline = total + BitVec.ofNat 64 (countTo now cmp hz)
  pos : 0 < countTo now cmp hz
  after : total < deadline ↔ total.toNat + countTo now cmp hz < 2 ^ 64

section Timer

variable {s : HartState} {clint : Clint} {total now cmp hz deadline : Word} {k : Nat}

theorem setMipBit_eq (s : HartState) (b : Word) : setMipBit s b = { s with mip := (setMipBit s b).mip } := by
  rw [setMipBit]
  split <;> rfl

theorem clearMipBit_eq (s : HartState) (b : Word) :
    clearMipBit s b = { s with mip := (clearMipBit s b).mip } := by
  rw [clearMipBit]
  split <;> rfl

theorem setMipBit_same (hk : k < 64) : (setMipBit s (bit k)).mip.getLsbD k = true := by
  rw [setMipBit]
  by_cases h : s.mip &&& bit k = 0
  · rw [if_pos h, HartState.setMip, BitVec.getLsbD_or, getLsbD_bit k k hk]
    simp
  · rw [if_neg h]
    exact Bool.of_not_eq_false fun hb => h ((and_bit_eq_zero _ hk).mpr hb)

theorem clearMipBit_same (hk : k < 64) : (clearMipBit s (bit k)).mip.getLsbD k = false := by
  rw [clearMipBit]
  by_cases h : s.mip &&& bit k ≠ 0
  · rw [if_pos h, HartState.clearMip, BitVec.getLsbD_and, BitVec.getLsbD_not, getLsbD_bit k k hk]
    simp
  · rw [if_neg h]
    exact (and_bit_eq_zero _ hk).mp (not_not.mp h)

theorem setMipBit_other {i : Nat} (hk : k < 64) (h : i ≠ k) :
    (setMipBit s (bit k)).mip.getLsbD i = s.mip.getLsbD i := by
  rw [setMipBit]
  split
  · exact getLsbD_or_bit s.mip hk h
  · rfl

theorem clearMipBit_other {i : Nat} (hk : k < 64) (h : i ≠ k) :
    (clearMipBit s (bit k)).mip.getLsbD i = s.mip.getLsbD i := by
  rw [clearMipBit]
  split
  · exact getLsbD_and_not_bit s.mip hk h
  · rfl

/-! ### Deadlines -/

theorem saturate_pos {n : Nat} (h : 0 < n) : 0 < saturate n := by
  rw [saturate]
  omega

theorem saturate_lt (n : Nat) : saturate n < 2 ^ 64 := by
  rw [saturate]
  omega

theorem scale_pos (h : hz ≠ 0) : 0 < saturate (hz.toNat * nsPerInstr) := by
  have hpos : 0 < hz.toNat := Nat.pos_of_ne_zero fun h0 => h (BitVec.eq_of_toNat_eq h0)
  apply saturate_pos
  rw [nsPerInstr]
  omega

/-- At least one instruction is left while a tick is. -/
theorem countTo_pos (hz0 : hz ≠ 0) (h : now < cmp) : 0 < countTo now cmp hz := by
  have hscale := scale_pos hz0
  have hlt := saturate_lt (hz.toNat * nsPerInstr)
  have hticks : 0 < (cmp - now).toNat := by bv_omega
  have hns : 0 < saturate ((cmp - now).toNat * nsPerSec) := by
    apply saturate_pos
    rw [nsPerSec]
    omega
  rw [countTo]
  generalize saturate (hz.toNat * nsPerInstr) = scale at hscale hlt
  generalize saturate ((cmp - now).toNat * nsPerSec) = ns at hns
  apply Nat.div_pos _ hscale
  rw [saturate]
  omega

theorem countTo_lt (hz0 : hz ≠ 0) : countTo now cmp hz < 2 ^ 64 := by
  have hscale := scale_pos hz0
  rw [countTo]
  exact (Nat.div_le_self _ _).trans_lt (saturate_lt _)

/-- A deadline is armed for a comparator ahead of the clock, and only where time passes at all. -/
theorem timerDeadlineOwn_cases (total now cmp hz : Word) :
    timerDeadlineOwn total now cmp hz = 0 ∨ Rearmed total now cmp hz (timerDeadlineOwn total now cmp hz) := by
  rw [timerDeadlineOwn]
  by_cases hdue : cmp = 0 ∨ cmp ≤ now
  · exact .inl (if_pos hdue)
  rw [if_neg hdue]
  by_cases hz0 : hz = 0
  · left
    rw [hz0]
    rfl
  right
  have hlt : now < cmp := by
    have hle := (not_or.mp hdue).2
    bv_omega
  have hscale := scale_pos hz0
  have hval : (let scale := saturate (hz.toNat * nsPerInstr)
      if scale = 0 then 0
      else
        let ticks := (cmp - now).toNat
        let offset := saturate (saturate (ticks * nsPerSec) + (scale - 1)) / scale
        total + BitVec.ofNat 64 offset) = total + BitVec.ofNat 64 (countTo now cmp hz) := if_neg (by omega)
  rw [hval]
  have hpos := countTo_pos hz0 hlt
  have hbound : countTo now cmp hz < 2 ^ 64 := countTo_lt hz0
  refine ⟨rfl, hpos, ?_⟩
  generalize countTo now cmp hz = n at hpos hbound
  have ht := total.isLt
  rw [BitVec.lt_def, BitVec.toNat_add, BitVec.toNat_ofNat, Nat.mod_eq_of_lt hbound]
  by_cases hsum : total.toNat + n < 2 ^ 64
  · rw [Nat.mod_eq_of_lt hsum]
    exact iff_of_true (by omega) hsum
  · apply iff_of_false _ hsum
    omega

/-! ### The synchronisation of one timer -/

/-- What the part of `sync_mtip` for the timer with bit `k` does. -/
structure Synchronised (s : HartState) (clint : Clint) (k : Nat) (cmp deadline : Word) (s' : HartState)
    (deadline' : Word) : Prop where
  rest : s' = { s with mip := s'.mip }
  others : ∀ i, i ≠ k → s'.mip.getLsbD i = s.mip.getLsbD i
  timer : TimerExact (s'.mip.getLsbD k) cmp clint.mtime deadline' s.totalInstrs s.waiting
  deadline : deadline' = deadline ∨ deadline' = 0 ∨
    Rearmed s.totalInstrs clint.mtime cmp clint.timebaseHz deadline'

theorem syncTimerBitShared_spec (hk : k < 64) (s : HartState) (clint : Clint) (cmp deadline : Word) :
    Synchronised s clint k cmp deadline (syncTimerBitShared s clint (bit k) cmp) deadline := by
  rw [syncTimerBitShared]
  by_cases h0 : cmp = 0
  · rw [if_pos h0]
    refine ⟨clearMipBit_eq s _, fun i hi => clearMipBit_other hk hi, ⟨?_, ?_⟩, .inl rfl⟩
    · intro hset
      rw [clearMipBit_same hk] at hset
      cases hset
    · intro hne
      exact absurd h0 hne
  rw [if_neg h0]
  by_cases hle : cmp ≤ clint.mtime
  · rw [if_pos hle]
    exact ⟨setMipBit_eq s _, fun i hi => setMipBit_other hk hi,
      ⟨fun _ => ⟨h0, hle⟩, fun _ _ _ => setMipBit_same hk⟩, .inl rfl⟩
  · rw [if_neg hle]
    refine ⟨clearMipBit_eq s _, fun i hi => clearMipBit_other hk hi, ⟨?_, ?_⟩, .inl rfl⟩
    · intro hset
      rw [clearMipBit_same hk] at hset
      cases hset
    · intro _ hle'
      exact absurd hle' hle

theorem confirmTimerDeadline_spec (hk : k < 64) (s : HartState) (clint : Clint) (cmp deadline : Word) :
    Synchronised s clint k cmp deadline (confirmTimerDeadline s clint (bit k) cmp deadline).1
      (confirmTimerDeadline s clint (bit k) cmp deadline).2 := by
  rw [confirmTimerDeadline]
  by_cases hdue : cmp ≠ 0 ∧ cmp ≤ clint.mtime
  · rw [if_pos hdue]
    exact ⟨setMipBit_eq s _, fun i hi => setMipBit_other hk hi,
      ⟨fun _ => hdue, fun _ _ _ => setMipBit_same hk⟩, .inl rfl⟩
  · rw [if_neg hdue]
    refine ⟨clearMipBit_eq s _, fun i hi => clearMipBit_other hk hi, ⟨?_, ?_⟩,
      .inr (timerDeadlineOwn_cases _ _ _ _)⟩
    · intro hset
      rw [clearMipBit_same hk] at hset
      cases hset
    · intro h0 hle
      exact absurd ⟨h0, hle⟩ hdue

theorem syncTimer_spec (hk : k < 64) (s : HartState) (clint : Clint) (cmp deadline : Word) :
    Synchronised s clint k cmp deadline (syncTimer s clint (bit k) cmp deadline).1
      (syncTimer s clint (bit k) cmp deadline).2 := by
  rw [syncTimer]
  by_cases hw : s.waiting = true
  · rw [if_pos hw]
    exact syncTimerBitShared_spec hk s clint cmp deadline
  rw [if_neg hw]
  by_cases hconf : deadline ≠ 0 ∧ needsTimerConfirm s (bit k) deadline = true
  · rw [if_pos hconf]
    exact confirmTimerDeadline_spec hk s clint cmp deadline
  rw [if_neg hconf]
  by_cases h0 : deadline = 0
  · rw [if_pos h0]
    exact syncTimerBitShared_spec hk s clint cmp deadline
  · rw [if_neg h0]
    -- armed, the deadline ahead and the bit clear: nothing to look at
    have hquiet : ¬ deadline ≤ s.totalInstrs ∧ s.mip &&& bit k = 0 := by
      have hn : ¬ needsTimerConfirm s (bit k) deadline = true := fun h => hconf ⟨h0, h⟩
      rw [needsTimerConfirm, Bool.or_eq_true, decide_eq_true_iff, decide_eq_true_iff, not_or, not_not] at hn
      exact hn
    have hclear : s.mip.getLsbD k = false := (and_bit_eq_zero _ hk).mp hquiet.2
    refine ⟨rfl, fun _ _ => rfl, ⟨?_, ?_⟩, .inl rfl⟩
    · intro hset
      rw [hclear] at hset
      cases hset
    · rintro _ _ (hwait | hzero | hpast)
      · exact absurd hwait hw
      · exact absurd hzero h0
      · exact absurd hpast hquiet.1

end Timer

/-! ## Both timers -/

/-- MTIP follows `mtimecmp` of this hart; STIP follows `stimecmp` where that is in use. -/
structure TimersExact (s : HartState) (clint : Clint) : Prop where
  mtip : TimerExact (s.mip.getLsbD 7) (clint.mtimecmp s.mhartid.toNat) clint.mtime s.mtipDeadline s.totalInstrs
    s.waiting
  stip : s.stimecmp ≠ 0 →
    TimerExact (s.mip.getLsbD 5) s.stimecmp clint.mtime s.stipDeadline s.totalInstrs s.waiting

/-- `sync_mtip` leaves both bits exact and arms deadlines ahead. -/
theorem syncMtip_spec (s : HartState) (clint : Clint) :
    TimersExact (syncMtip s clint) clint ∧
      ((syncMtip s clint).mtipDeadline = s.mtipDeadline ∨ (syncMtip s clint).mtipDeadline = 0 ∨
        Rearmed s.totalInstrs clint.mtime (clint.mtimecmp s.mhartid.toNat) clint.timebaseHz
          (syncMtip s clint).mtipDeadline) ∧
      ((syncMtip s clint).stipDeadline = s.stipDeadline ∨ (syncMtip s clint).stipDeadline = 0 ∨
        Rearmed s.totalInstrs clint.mtime s.stimecmp clint.timebaseHz (syncMtip s clint).stipDeadline) := by
  have hm := syncTimer_spec (by decide : 7 < 64) s clint (clint.mtimecmp s.mhartid.toNat) s.mtipDeadline
  simp only [syncMtip]
  generalize syncTimer s clint (bit 7) (clint.mtimecmp s.mhartid.toNat) s.mtipDeadline = r at hm ⊢
  obtain ⟨s₁, d₁⟩ := r
  obtain ⟨hrest, hothers, htimer, hdeadline⟩ := hm
  simp only at hrest hothers htimer hdeadline ⊢
  generalize s₁.mip = m at hrest hothers htimer
  subst hrest
  by_cases h0 : s.stimecmp = 0
  · rw [if_pos h0]
    exact ⟨⟨htimer, fun hne => absurd h0 hne⟩, hdeadline, .inl rfl⟩
  · rw [if_neg h0]
    have hs := syncTimer_spec (by decide : 5 < 64) { s with mip := m, mtipDeadline := d₁ } clint s.stimecmp
      s.stipDeadline
    generalize syncTimer { s with mip := m, mtipDeadline := d₁ } clint (bit 5) s.stimecmp s.stipDeadline = r
      at hs ⊢
    obtain ⟨s₂, d₂⟩ := r
    obtain ⟨hrest', hothers', htimer', hdeadline'⟩ := hs
    simp only at hrest' hothers' htimer' hdeadline' ⊢
    generalize s₂.mip = m₂ at hrest' hothers' htimer'
    subst hrest'
    refine ⟨⟨?_, fun _ => htimer'⟩, hdeadline, hdeadline'⟩
    have h7 : m₂.getLsbD 7 = m.getLsbD 7 := hothers' 7 (by decide)
    simp only [h7]
    exact htimer

/-! ## Runs -/

/-- One hart and the registers it shares with the others. -/
structure TimerWorld where
  hart : HartState
  clint : Clint

/-- What happens to the timers: the shared clock is advanced by any hart, a comparator is written by
any hart, the hart retires instructions, goes to sleep or wakes, is replaced by a state carried in
from outside, or reaches an instruction boundary. -/
inductive TimerOp where
  | advance (target : Word)
  | writeMtimecmp (target : Nat) (val : Word)
  | writeStimecmp (val : Word)
  | retire (n : Word)
  | setWaiting (waiting : Bool)
  | carryIn (hart : HartState)
  | sync

namespace TimerWorld

def step (w : TimerWorld) : TimerOp → TimerWorld
  | .advance target =>
    -- `fetch_max`: the clock only goes up
    if w.clint.mtime < target then { w with clint := { w.clint with mtime := target } } else w
  | .writeMtimecmp target val =>
    let clint := { w.clint with mtimecmp := Function.update w.clint.mtimecmp target val }
    if target = w.hart.mhartid.toNat then
      ⟨writeMtimecmp w.hart w.clint.mtime val w.clint.timebaseHz, clint⟩
    else { w with clint := clint }
  | .writeStimecmp val =>
    { w with hart := writeStimecmp { w.hart with stimecmp := val } w.clint.mtime val w.clint.timebaseHz }
  | .retire n => { w with hart := { w.hart with totalInstrs := w.hart.totalInstrs + n } }
  | .setWaiting waiting => { w with hart := { w.hart with waiting := waiting } }
  | .carryIn hart => { w with hart := hart }
  | .sync => { w with hart := syncMtip w.hart w.clint }

/-- What an operation does to the deadlines: a comparator ahead of the clock arms one, a
synchronisation may arm one again, everything else leaves them. -/
def ArmsAhead (w : TimerWorld) (op : TimerOp) : Prop :=
  let s := w.hart
  let s' := (w.step op).hart
  match op with
  | .writeMtimecmp target val =>
    (if target = s.mhartid.toNat then
      s'.mtipDeadline = 0 ∨ Rearmed s.totalInstrs w.clint.mtime val w.clint.timebaseHz s'.mtipDeadline
    else s'.mtipDeadline = s.mtipDeadline) ∧ s'.stipDeadline = s.stipDeadline
  | .writeStimecmp val =>
    (s'.stipDeadline = 0 ∨ Rearmed s.totalInstrs w.clint.mtime val w.clint.timebaseHz s'.stipDeadline) ∧
      s'.mtipDeadline = s.mtipDeadline
  | .sync =>
    (s'.mtipDeadline = s.mtipDeadline ∨ s'.mtipDeadline = 0 ∨
      Rearmed s.totalInstrs w.clint.mtime (w.clint.mtimecmp s.mhartid.toNat) w.clint.timebaseHz
        s'.mtipDeadline) ∧
    (s'.stipDeadline = s.stipDeadline ∨ s'.stipDeadline = 0 ∨
      Rearmed s.totalInstrs w.clint.mtime s.stimecmp w.clint.timebaseHz s'.stipDeadline)
  | .carryIn _ => True
  | _ => s'.mtipDeadline = s.mtipDeadline ∧ s'.stipDeadline = s.stipDeadline

/-- Right after `sync_mtip` the bits are exact. -/
def SyncExact (w : TimerWorld) (op : TimerOp) : Prop :=
  op = .sync → TimersExact (w.step op).hart (w.step op).clint

theorem writeTimecmp_deadline (s : HartState) (line now val hz : Word) :
    (writeTimecmp s line now val hz).1 = 0 ∨ Rearmed s.totalInstrs now val hz (writeTimecmp s line now val hz).1 := by
  rw [writeTimecmp]
  split
  · exact .inl rfl
  · split
    · exact .inl rfl
    · exact timerDeadlineOwn_cases _ _ _ _

theorem step_armsAhead (w : TimerWorld) (op : TimerOp) : w.ArmsAhead op := by
  cases op with
  | advance target =>
    simp only [ArmsAhead, step]
    split <;> exact ⟨rfl, rfl⟩
  | writeMtimecmp target val =>
    simp only [ArmsAhead, step]
    by_cases hown : target = w.hart.mhartid.toNat
    · rw [if_pos hown, if_pos hown]
      exact ⟨writeTimecmp_deadline w.hart (bit 7) _ _ _, rfl⟩
    · rw [if_neg hown, if_neg hown]
      exact ⟨rfl, rfl⟩
  | writeStimecmp val => exact ⟨writeTimecmp_deadline { w.hart with stimecmp := val } (bit 5) _ _ _, rfl⟩
  | retire n => exact ⟨rfl, rfl⟩
  | setWaiting waiting => exact ⟨rfl, rfl⟩
  | carryIn hart => trivial
  | sync => exact (syncMtip_spec w.hart w.clint).2

theorem step_syncExact (w : TimerWorld) (op : TimerOp) : w.SyncExact op := by
  rintro rfl
  exact (syncMtip_spec w.hart w.clint).1

/-- **Timer bits are exact after every synchronisation, and every armed deadline lies ahead of the
hart by the instructions that are left**, modulo the width of the counter. -/
theorem timer_bits_exact (w : TimerWorld) (ops : List TimerOp) :
    Run.Along step (fun w op => w.SyncExact op ∧ w.ArmsAhead op) w ops := by
  induction ops generalizing w with
  | nil => trivial
  | cons op ops ih => exact ⟨⟨step_syncExact w op, step_armsAhead w op⟩, ih (w.step op)⟩

/-- A hart that never ran, under a clock of 10 MHz. -/
def fresh : TimerWorld where
  hart := HartState.zeroed
  clint := ⟨0, 0, fun _ => 0, fun _ => 0, 10000000, 1, none⟩

/-- After 2^64 - 1 instructions the deadline of a timer one tick ahead is the fourth instruction, which
is not ahead. -/
theorem deadline_wraps :
    let w := [.retire (BitVec.allOnes 64), .writeMtimecmp 0 1].foldl step fresh
    w.hart.totalInstrs = BitVec.allOnes 64 ∧ w.hart.mtipDeadline = 4 ∧
      ¬ w.hart.totalInstrs < w.hart.mtipDeadline := by
  decide +kernel

end TimerWorld

end Pyremu
