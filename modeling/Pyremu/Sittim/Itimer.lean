import Mathlib.Tactic.Ring
import Pyremu.Sittim.Signal
import Pyremu.Sittim.Process

/-!
# Interval timers

A request in seconds and microseconds is rounded down to ticks. The timer then
expires on a grid that starts there: a check that comes late posts late, and
the next expiry is where it would have been. The frequency of the clock is a
parameter here.
-/

namespace Pyremu.Sittim

/-! ## The timer of a process -/

structure Itimer where
  next : Word
  interval : Word
  deriving DecidableEq, Repr

/-- The four words of a `struct itimerval`: the interval, then the value. -/
structure Itimerval where
  isec : Word
  iusec : Word
  vsec : Word
  vusec : Word
  deriving DecidableEq, Repr

namespace Itimer

variable (freq : Nat)

def toTicks (sec usec : Word) : Word :=
  Runtime.saturatingMul sec freq + BitVec.ofNat 64 ((Runtime.saturatingMul usec freq).toNat / 1000000)

/-- `from_ticks`: seconds and microseconds. -/
def fromTicks (ticks : Word) : Word × Word :=
  (BitVec.ofNat 64 (ticks.toNat / freq), BitVec.ofNat 64 (ticks.toNat % freq * 1000000 / freq))

/-- What `setitimer` makes of a request. -/
def set (now : Word) (q : Itimerval) : Itimer :=
  if toTicks freq q.vsec q.vusec = 0 then ⟨0, 0⟩
  else ⟨now + toTicks freq q.vsec q.vusec, toTicks freq q.isec q.iusec⟩

def remaining (t : Itimer) (now : Word) : Word := if t.next ≤ now then 0 else t.next - now

/-- What `setitimer` reports of the old timer. -/
def report (t : Itimer) (now : Word) : Itimerval :=
  ⟨(fromTicks freq t.interval).1, (fromTicks freq t.interval).2, (fromTicks freq (t.remaining now)).1,
    (fromTicks freq (t.remaining now)).2⟩

/-- `advance_itimer`, and whether it posts. -/
def advance (t : Itimer) (now : Word) : Itimer × Bool :=
  if t.next = 0 ∨ now < t.next then (t, false)
  else (⟨if t.interval ≠ 0 then t.next + t.interval else 0, t.interval⟩, true)

/-- The timer after checks at these times, and the times at which `SIGALRM` was posted. -/
def checks (t : Itimer) : List Word → Itimer × List Word
  | [] => (t, [])
  | now :: l => ((checks (t.advance now).1 l).1, if (t.advance now).2 then now :: (checks (t.advance now).1 l).2
      else (checks (t.advance now).1 l).2)

end Itimer

/-! ## In the runtime -/

namespace Runtime

variable (s : Runtime)

def itimerOf (p : ProcSlot) : Itimer := ⟨(s.procs p).itimerNext, (s.procs p).itimerInterval⟩

def itimervalAt (addr : Word) : Itimerval :=
  ⟨readU64 s.mem addr, readU64 s.mem (addr + 8), readU64 s.mem (addr + 16), readU64 s.mem (addr + 24)⟩

/-- The old value is written before the new one is read. -/
def writeItimerval (addr : Word) (q : Itimerval) : Runtime :=
  if addr = 0 then s else { s with mem := writeWords s.mem addr [q.isec, q.iusec, q.vsec, q.vusec] }

theorem itimerOf_setProc (p : ProcSlot) (f : ProcCtl → ProcCtl) :
    (s.setProc p f).itimerOf p = ⟨(f (s.procs p)).itimerNext, (f (s.procs p)).itimerInterval⟩ := by
  rw [itimerOf, setProc]
  dsimp only
  rw [Function.update_self]

/-- `setitimer` of the real-time timer is the one above, at the frequency of the machine. -/
theorem setitimer_eq (now newValue oldValue : Word) (hnew : newValue ≠ 0) :
    (s.setitimer now 0 newValue oldValue).1.itimerOf s.currentProc =
      Itimer.set TIMER_FREQ now
        ((s.writeItimerval oldValue ((s.itimerOf s.currentProc).report TIMER_FREQ now)).itimervalAt newValue) := by
  have hgo : ¬ ((0 : Word) ≠ 0 ∨ newValue = 0) := by
    rintro (h | h)
    · exact h rfl
    · exact hnew h
  have hticks : ∀ sec usec, Itimer.toTicks TIMER_FREQ sec usec = toTicks sec usec := fun _ _ => rfl
  have hreport : (s.itimerOf s.currentProc).report TIMER_FREQ now =
      ⟨(fromTicks (s.procs s.currentProc).itimerInterval).1, (fromTicks (s.procs s.currentProc).itimerInterval).2,
        (fromTicks ((s.itimerOf s.currentProc).remaining now)).1,
        (fromTicks ((s.itimerOf s.currentProc).remaining now)).2⟩ := rfl
  have hmem : ∀ s' : Runtime, (s'.setProc s.currentProc fun c =>
        if toTicks (readU64 s'.mem (newValue + 16)) (readU64 s'.mem (newValue + 24)) = 0 then
          { c with itimerNext := 0, itimerInterval := 0 }
        else
          { c with
            itimerNext := now + toTicks (readU64 s'.mem (newValue + 16)) (readU64 s'.mem (newValue + 24))
            itimerInterval := toTicks (readU64 s'.mem newValue) (readU64 s'.mem (newValue + 8)) }).itimerOf
          s.currentProc = Itimer.set TIMER_FREQ now (s'.itimervalAt newValue) := by
    intro s'
    have hset : ∀ value interval : Word, (s'.setProc s.currentProc fun c =>
        if value = 0 then { c with itimerNext := 0, itimerInterval := 0 }
        else { c with itimerNext := now + value, itimerInterval := interval }).itimerOf s.currentProc =
          if value = 0 then ⟨0, 0⟩ else ⟨now + value, interval⟩ := by
      intro value interval
      rw [itimerOf_setProc]
      split_ifs <;> rfl
    rw [hset, Itimer.set, hticks, hticks]
    rfl
  rw [setitimer, writeItimerval, hreport, Itimer.remaining, itimerOf]
  dsimp only
  rw [if_neg hgo]
  by_cases hold : oldValue = 0
  · rw [if_pos hold, if_pos hold]
    exact hmem s
  · rw [if_neg hold, if_neg hold]
    exact hmem _

/-- A check in the timer interrupt is the one above, for a process that has not exited. -/
theorem tickProc_eq (now : Word) (p : ProcSlot) (hused : (s.procs p).used = true) (hexited : (s.procs p).exited = false) :
    (s.tickProc now p).itimerOf p = ((s.itimerOf p).advance now).1 ∧
      ((s.tickProc now p).procs p).sig =
        if ((s.itimerOf p).advance now).2 then (s.procs p).sig.post SIGALRM else (s.procs p).sig := by
  rw [tickProc, Itimer.advance, hused, hexited, Bool.not_true, Bool.false_or, Bool.false_or, ← Bool.decide_or]
  by_cases hdue : (s.procs p).itimerNext = 0 ∨ now < (s.procs p).itimerNext
  · have hidle : (s.itimerOf p).next = 0 ∨ now < (s.itimerOf p).next := hdue
    rw [if_pos hidle, if_pos (decide_eq_true hdue)]
    exact ⟨rfl, rfl⟩
  · have hfires : ¬ ((s.itimerOf p).next = 0 ∨ now < (s.itimerOf p).next) := hdue
    rw [if_neg hfires, if_neg (by rw [decide_eq_false hdue]; exact Bool.false_ne_true)]
    have hset := itimerOf_setProc s p fun c =>
      { c with
        itimerNext := if c.itimerInterval ≠ 0 then c.itimerNext + c.itimerInterval else 0
        sig := c.sig.post SIGALRM }
    refine ⟨hset, ?_⟩
    rw [if_pos rfl, wakeProcess, setProc]
    dsimp only
    rw [Function.update_self]

end Runtime

/-! ## Ticks -/

namespace Itimer

variable {freq : Nat} {sec usec now : Word} {t t' : Itimer} {q : Itimerval} {l : List Word} {a i : Nat}

/-- Seconds and microseconds, rounded down to ticks. -/
def ticksOf (freq : Nat) (sec usec : Word) : Nat := sec.toNat * freq + usec.toNat * freq / 1000000

/-- Nothing saturates and the sum can be represented. -/
structure Exact (freq : Nat) (sec usec : Word) : Prop where
  secs : sec.toNat * freq < 2 ^ 64
  usecs : usec.toNat * freq < 2 ^ 64
  sum : ticksOf freq sec usec < 2 ^ 64

theorem saturatingMul_toNat {a : Word} {k : Nat} (h : a.toNat * k < 2 ^ 64) :
    (Runtime.saturatingMul a k).toNat = a.toNat * k := by
  rw [Runtime.saturatingMul, BitVec.toNat_ofNat]
  omega

theorem toTicks_toNat (h : Exact freq sec usec) : (toTicks freq sec usec).toNat = ticksOf freq sec usec := by
  have hsum := h.sum
  rw [ticksOf] at hsum ⊢
  rw [toTicks, BitVec.toNat_add, saturatingMul_toNat h.secs, saturatingMul_toNat h.usecs, BitVec.toNat_ofNat]
  omega

/-- The timer expires at `a`, and then every `i` ticks. -/
structure Armed (t : Itimer) (a i : Nat) : Prop where
  next : t.next.toNat = a
  interval : t.interval.toNat = i
  pos : 0 < a

/-- The value is at least one tick, and neither the request nor its sum with the clock exceeds 64 bits. -/
structure Sound (freq : Nat) (now : Word) (q : Itimerval) : Prop where
  value : Exact freq q.vsec q.vusec
  interval : Exact freq q.isec q.iusec
  pos : 0 < ticksOf freq q.vsec q.vusec
  clock : now.toNat + ticksOf freq q.vsec q.vusec < 2 ^ 64

theorem set_armed (h : Sound freq now q) :
    (set freq now q).Armed (now.toNat + ticksOf freq q.vsec q.vusec) (ticksOf freq q.isec q.iusec) := by
  have hvalue := toTicks_toNat h.value
  have hpos := h.pos
  have hclock := h.clock
  have hne : toTicks freq q.vsec q.vusec ≠ 0 := by
    intro hzero
    rw [hzero] at hvalue
    have hz : (0 : Word).toNat = 0 := rfl
    omega
  rw [set, if_neg hne]
  refine ⟨?_, toTicks_toNat h.interval, by omega⟩
  rw [BitVec.toNat_add, hvalue, Nat.mod_eq_of_lt hclock]

/-- A check fires exactly when the expiry has come, and moves it on by the interval. -/
theorem Armed.advance (h : t.Armed a i) (hclock : now.toNat + i < 2 ^ 64) :
    if a ≤ now.toNat then
      (t.advance now).2 = true ∧
        if i = 0 then (t.advance now).1.next = 0 else (t.advance now).1.Armed (a + i) i
    else t.advance now = (t, false) := by
  have hnext := h.next
  have hpos := h.pos
  have hinterval := h.interval
  have hz : (0 : Word).toNat = 0 := rfl
  split
  · rename_i hle
    have hdue : ¬ (t.next = 0 ∨ now < t.next) := by
      rintro (hzero | hlt)
      · rw [hzero] at hnext
        omega
      · rw [BitVec.lt_def] at hlt
        omega
    rw [Itimer.advance, if_neg hdue]
    refine ⟨rfl, ?_⟩
    split
    · rename_i hi
      have hzero : t.interval = 0 := BitVec.eq_of_toNat_eq (hinterval.trans hi)
      exact if_neg (not_not.mpr hzero)
    · rename_i hi
      have hne : t.interval ≠ 0 := by
        intro hzero
        rw [hzero] at hinterval
        exact hi hinterval.symm
      refine ⟨?_, hinterval, by omega⟩
      rw [if_pos hne, BitVec.toNat_add, hnext, hinterval]
      omega
  · rename_i hlt
    rw [Itimer.advance, if_pos]
    right
    rw [BitVec.lt_def]
    omega

theorem advance_idle (h : t.next = 0) : t.advance now = (t, false) := by
  rw [Itimer.advance, if_pos (.inl h)]

theorem checks_idle (h : t.next = 0) : t.checks l = (t, []) := by
  induction l with
  | nil => rfl
  | cons now l ih =>
    rw [checks, advance_idle h, ih]
    rfl

theorem checks_fired (h : (t.advance now).2 = true) :
    t.checks (now :: l) = (((t.advance now).1.checks l).1, now :: ((t.advance now).1.checks l).2) := by
  rw [checks, if_pos h]

theorem checks_waited (h : t.advance now = (t, false)) : t.checks (now :: l) = t.checks l := by
  rw [checks, h]
  rfl

theorem checks_interval (t : Itimer) (l : List Word) : (t.checks l).1.interval = t.interval := by
  induction l generalizing t with
  | nil => rfl
  | cons now l ih =>
    rw [checks, ih, advance]
    split <;> rfl

/-- The post number `k`, counted from 0, is no earlier than `k` intervals after the expiry. -/
theorem Armed.posts (h : t.Armed a i) (hclock : ∀ now ∈ l, now.toNat + i < 2 ^ 64) {k : Nat}
    (hk : (t.checks l).2[k]? = some now) : a + k * i ≤ now.toNat ∧ (i = 0 → k = 0) := by
  induction l generalizing t a k with
  | nil => cases hk
  | cons now' l ih =>
    obtain ⟨hnow, hl⟩ := List.forall_mem_cons.mp hclock
    have hadvance := h.advance hnow
    by_cases hle : a ≤ now'.toNat
    · rw [if_pos hle] at hadvance
      obtain ⟨hfired, hafter⟩ := hadvance
      rw [checks_fired hfired] at hk
      cases k with
      | zero =>
        obtain rfl : now' = now := Option.some.inj hk
        exact ⟨by omega, fun _ => rfl⟩
      | succ k =>
        rw [List.getElem?_cons_succ] at hk
        split at hafter
        · rw [checks_idle hafter] at hk
          cases hk
        · rename_i hi
          obtain ⟨hge, _⟩ := ih hafter hl hk
          refine ⟨?_, fun hzero => absurd hzero hi⟩
          rw [Nat.succ_mul]
          omega
    · rw [if_neg hle] at hadvance
      rw [checks_waited hadvance] at hk
      exact ih h hl hk

/-- After `n` posts the timer is armed for the place `n` of the grid, or idle where there is no interval. -/
theorem Armed.checks (h : t.Armed a i) (hclock : ∀ now ∈ l, now.toNat + i < 2 ^ 64) :
    if i = 0 ∧ (t.checks l).2 ≠ [] then (t.checks l).1.next = 0
    else (t.checks l).1.Armed (a + (t.checks l).2.length * i) i := by
  induction l generalizing t a with
  | nil =>
    rw [if_neg fun h => h.2 rfl]
    exact ⟨h.next.trans (by rw [Itimer.checks, List.length_nil, Nat.zero_mul, Nat.add_zero]), h.interval,
      Nat.add_pos_left h.pos _⟩
  | cons now l ih =>
    obtain ⟨hnow, hl⟩ := List.forall_mem_cons.mp hclock
    have hadvance := h.advance hnow
    by_cases hle : a ≤ now.toNat
    · rw [if_pos hle] at hadvance
      obtain ⟨hfired, hafter⟩ := hadvance
      rw [checks_fired hfired]
      by_cases hi : i = 0
      · rw [if_pos hi] at hafter
        rw [if_pos ⟨hi, List.cons_ne_nil _ _⟩, checks_idle hafter]
        exact hafter
      · rw [if_neg hi] at hafter
        have hrest := ih hafter hl
        rw [if_neg fun h => hi h.1] at hrest ⊢
        rw [List.length_cons, Nat.succ_mul, Nat.add_comm (_ * i), ← Nat.add_assoc]
        exact hrest
    · rw [if_neg hle] at hadvance
      rw [checks_waited hadvance]
      exact ih h hl

/-- The next check posts exactly when the place of the grid has come that was not posted yet. -/
theorem Armed.fires_iff (h : t.Armed a i) (hclock : ∀ now ∈ l, now.toNat + i < 2 ^ 64) (hnow : now.toNat + i < 2 ^ 64) :
    ((t.checks l).1.advance now).2 = true ↔
      a + (t.checks l).2.length * i ≤ now.toNat ∧ (i = 0 → (t.checks l).2 = []) := by
  have hafter := h.checks hclock
  split at hafter
  · rename_i hdone
    rw [advance_idle hafter]
    constructor
    · intro hfalse
      cases hfalse
    · rintro ⟨_, hnil⟩
      exact absurd (hnil hdone.1) hdone.2
  · rename_i hgoes
    have hadvance := hafter.advance hnow
    have hnil : i = 0 → (t.checks l).2 = [] := by
      intro hi
      by_contra hne
      exact hgoes ⟨hi, hne⟩
    split at hadvance
    · rename_i hle
      exact iff_of_true hadvance.1 ⟨hle, hnil⟩
    · rename_i hlt
      rw [hadvance]
      constructor
      · intro hfalse
        cases hfalse
      · rintro ⟨hle, _⟩
        exact absurd hle hlt

/-! ## The report -/

/-- Microseconds of a time in seconds and microseconds. -/
def usecOf (p : Word × Word) : Nat := p.1.toNat * 1000000 + p.2.toNat

/-- Ticks are reported rounded down to a microsecond. -/
theorem fromTicks_floor (hfreq : 0 < freq) (ticks : Word) :
    usecOf (fromTicks freq ticks) * freq ≤ ticks.toNat * 1000000 ∧
      ticks.toNat * 1000000 < (usecOf (fromTicks freq ticks) + 1) * freq ∧ (fromTicks freq ticks).2.toNat < 1000000 := by
  have hticks := ticks.isLt
  have hsec : ticks.toNat / freq < 2 ^ 64 := (Nat.div_le_self _ _).trans_lt hticks
  have hrem : ticks.toNat % freq < freq := Nat.mod_lt _ hfreq
  have husec : ticks.toNat % freq * 1000000 / freq < 1000000 := by
    rw [Nat.div_lt_iff_lt_mul hfreq, Nat.mul_comm]
    exact (Nat.mul_lt_mul_left (by decide)).mpr hrem
  have hsplit := Nat.div_add_mod ticks.toNat freq
  have hfloor := Nat.div_add_mod (ticks.toNat % freq * 1000000) freq
  have hpart := Nat.mod_lt (ticks.toNat % freq * 1000000) hfreq
  rw [usecOf, fromTicks]
  dsimp only
  rw [BitVec.toNat_ofNat, BitVec.toNat_ofNat, Nat.mod_eq_of_lt hsec, Nat.mod_eq_of_lt (husec.trans (by decide))]
  generalize ticks.toNat % freq * 1000000 / freq = u at *
  generalize ticks.toNat / freq = w at *
  -- Both bounds are about the ticks beyond the whole seconds.
  have hwhole : (w * 1000000 + u) * freq = freq * w * 1000000 + freq * u := by ring
  have hnext : (w * 1000000 + u + 1) * freq = freq * w * 1000000 + freq * u + freq := by ring
  refine ⟨?_, ?_, husec⟩
  · rw [hwhole]
    omega
  · rw [hnext]
    omega

theorem remaining_toNat (t : Itimer) (now : Word) : (t.remaining now).toNat = t.next.toNat - now.toNat := by
  rw [remaining]
  split
  · rename_i hle
    rw [BitVec.le_def] at hle
    have hz : (0 : Word).toNat = 0 := rfl
    omega
  · rename_i hgt
    rw [BitVec.le_def] at hgt
    exact BitVec.toNat_sub_of_le (BitVec.le_def.mpr (by omega))

/-- The microseconds `u` are the ticks rounded down. -/
def Floors (freq u ticks : Nat) : Prop := u * freq ≤ ticks * 1000000 ∧ ticks * 1000000 < (u + 1) * freq

theorem report_floors (hfreq : 0 < freq) (t : Itimer) (now : Word) :
    Floors freq (usecOf ((t.report freq now).isec, (t.report freq now).iusec)) t.interval.toNat ∧
      Floors freq (usecOf ((t.report freq now).vsec, (t.report freq now).vusec)) (t.next.toNat - now.toNat) := by
  rw [← remaining_toNat]
  exact ⟨⟨(fromTicks_floor hfreq _).1, (fromTicks_floor hfreq _).2.1⟩, (fromTicks_floor hfreq _).1,
    (fromTicks_floor hfreq _).2.1⟩

end Itimer

end Pyremu.Sittim
