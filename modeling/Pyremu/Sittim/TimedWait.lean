import Mathlib.Data.Fintype.Pi
import Pyremu.Lib.Run
import Pyremu.Sittim.Moves

/-!
# Timed waits and the clock

A call that waits is issued once and, when another thread has to run first, is
repeated from its `ecall`. The kernel knows a repeated call by the wait timer
of its thread. Here the calls that are to be repeated are kept beside the
machine, with the time they were issued at.
-/

namespace Pyremu.Sittim

/-! ## The clock -/

/-- The clock is read once, and no object is ready. -/
def Env.once (env : Env) (v : Word) : Env := { env with rounds := [⟨0, v, []⟩] }

/-- An act and the clock at its end. With `again`, user code is back at a call that was to be repeated. -/
structure TimedAct where
  act : Act
  again : Bool
  ends : Word

/-! ## Calls under way -/

/-- A call at its first issue. -/
structure Issue where
  sepc : Word
  gprs : TrapGprs
  since : Word
  ticks : Word

/-- The end of a wait as long as the call asks for. -/
def Issue.due (c : Issue) : Nat := c.since.toNat + c.ticks.toNat

/-- The call is issued with these registers at this address. -/
def Issue.isAt (c : Issue) (e : Entry) : Bool :=
  decide (c.sepc = e.sepc ∧ c.gprs.regs = e.gprs.regs ∧ c.gprs.spBeforeTrap = e.gprs.spBeforeTrap)

/-- What the call asks to wait. -/
def Entry.ticks (e : Entry) : Word := (e.timedLimit.map Runtime.nsecToTicks).getD 0

/-- The call that begins here. -/
def Entry.issue (e : Entry) (env : Env) : Issue := ⟨e.sepc, e.gprs, env.now, e.ticks⟩

/-- The machine, the clock, and for each thread the calls that are to be repeated, the last one first. -/
structure Waits where
  m : Machine
  clock : Word
  opened : ThreadId → List Issue

namespace Waits

variable (w : Waits)

/-- The calls of the running thread from the one that is repeated on. -/
def repeated (e : Entry) (again : Bool) : List Issue :=
  if again then (w.opened w.m.rt.current).dropWhile fun c => !c.isAt e else []

/-- The call that an `ecall` belongs to: a repeated one, or a new one. -/
def call (e : Entry) (env : Env) (again : Bool) : Issue := (w.repeated e again).headD (e.issue env)

/-- The calls that are open around it. -/
def outer (e : Entry) (again : Bool) : List Issue :=
  match w.repeated e again with
  | [] => w.opened w.m.rt.current
  | _ :: calls => calls

/-- The open calls of the running thread after an act. -/
def openedBy (a : TimedAct) : List Issue :=
  let m := Sittim.step w.m a.act
  match a.act, w.m.phase with
  | .ecall e env, .user =>
    if m.phase = .user then w.opened w.m.rt.current
    else if m.rt.isRestartRequested then w.call e env a.again :: w.outer e a.again
    else w.outer e a.again
  | .callFault e _, .user => w.outer e a.again
  -- A call that faults on the way out is not repeated.
  | .netFault, .handled _ _ =>
    if w.m.rt.isRestartRequested then (w.opened w.m.rt.current).tail else w.opened w.m.rt.current
  | _, _ => w.opened w.m.rt.current

/-- One act. The calls of a thread go with the thread. -/
def step (a : TimedAct) : Waits :=
  let m := Sittim.step w.m a.act
  { m := m
    clock := a.ends
    opened := fun t =>
      if (m.rt.threads t).state = .free then []
      else Function.update w.opened w.m.rt.current (w.openedBy a) t }

/-- The clock does not go back during the act. -/
def Clocked (a : TimedAct) : Prop := (w.clock :: (a.act.readings ++ [a.ends])).Pairwise (· ≤ ·)

instance (a : TimedAct) : Decidable (w.Clocked a) :=
  inferInstanceAs (Decidable ((w.clock :: (a.act.readings ++ [a.ends])).Pairwise (· ≤ ·)))

/-- A timed call whose handler returns 0 has waited as long as it was asked to. -/
def Timely (a : TimedAct) : Prop :=
  match a.act with
  | .ecall e env =>
    w.m.phase = .user → e.timedLimit.isSome →
      (Sittim.step w.m a.act).phase = .handled e.sepc 0 →
        (Sittim.step w.m a.act).rt.isRestartRequested = false → (w.call e env a.again).due ≤ a.ends.toNat
  | _ => True

/-- The deadline that a timed call goes by: that of the entry its thread has, or else of the one it sets. -/
def deadline (e : Entry) (env : Env) : Word :=
  if w.m.rt.hasWaitTimer w.m.rt.current then (w.m.rt.timers w.m.rt.current).deadline
  else Runtime.saturatingAdd env.now e.ticks

/-- At every timed call that deadline, or the clock, is as late as the call was to wait. -/
def Meets (a : TimedAct) : Prop :=
  match a.act with
  | .ecall e env =>
    w.m.phase = .user → e.timedLimit.isSome →
      (w.call e env a.again).due ≤ max (w.deadline e env).toNat env.now.toNat
  | _ => True

instance decidableTimely : ∀ a, Decidable (w.Timely a)
  | ⟨.ecall e env, again, ends⟩ => inferInstanceAs (Decidable (w.m.phase = .user →
      e.timedLimit.isSome → (Sittim.step w.m (.ecall e env)).phase = .handled e.sepc 0 →
        (Sittim.step w.m (.ecall e env)).rt.isRestartRequested = false → (w.call e env again).due ≤ ends.toNat))
  | ⟨.timer .., _, _⟩ | ⟨.software .., _, _⟩ | ⟨.otherInterrupt _, _, _⟩ | ⟨.fault .., _, _⟩ | ⟨.callFault .., _, _⟩
  | ⟨.interruptFault _, _, _⟩ | ⟨.netEvent _, _, _⟩ | ⟨.netFault, _, _⟩ | ⟨.deliver, _, _⟩ | ⟨.leave, _, _⟩ =>
    .isTrue trivial

instance decidableMeets : ∀ a, Decidable (w.Meets a)
  | ⟨.ecall e env, again, _⟩ => inferInstanceAs (Decidable (w.m.phase = .user → e.timedLimit.isSome →
      (w.call e env again).due ≤ max (w.deadline e env).toNat env.now.toNat))
  | ⟨.timer .., _, _⟩ | ⟨.software .., _, _⟩ | ⟨.otherInterrupt _, _, _⟩ | ⟨.fault .., _, _⟩ | ⟨.callFault .., _, _⟩
  | ⟨.interruptFault _, _, _⟩ | ⟨.netEvent _, _, _⟩ | ⟨.netFault, _, _⟩ | ⟨.deliver, _, _⟩ | ⟨.leave, _, _⟩ =>
    .isTrue trivial

/-- The machine as the payload gets it, at a time of the clock. -/
def boot (clock entry kstackTop rootPa sstatus : Word) (ctx : TaMemCtx) : Waits :=
  ⟨Sittim.boot entry kstackTop rootPa sstatus ctx, clock, fun _ => []⟩

end Waits

/-! ## What becomes of a timer -/

/-- From `a` to `b` while the clock is read up to `limit`: as it was, elapsed once it was due, or freed. -/
def Timer.Ages (limit : Word) (a b : Timer) : Prop :=
  b.state ≠ .free → a.state ≠ .free ∧ b.deadline = a.deadline ∧
    (b.state = .elapsed → a.state = .elapsed ∨ a.deadline ≤ limit)

section Timers

variable {limit now : Word} {a b c : Timer} {s s' : Runtime} {m : Machine}

theorem Timer.Ages.refl (a : Timer) : a.Ages limit a := fun h => ⟨h, rfl, .inl⟩

theorem Timer.Ages.freed : a.Ages limit .freed := fun h => absurd rfl h

theorem Timer.Ages.trans (h : a.Ages limit b) (h' : b.Ages limit c) : a.Ages limit c := by
  intro hc
  obtain ⟨hb, hd', he'⟩ := h' hc
  obtain ⟨ha, hd, he⟩ := h hb
  refine ⟨ha, hd'.trans hd, fun hec => ?_⟩
  cases he' hec with
  | inl heb => exact he heb
  | inr hle =>
    rw [hd] at hle
    exact .inr hle

theorem Move.ages (h : Move limit s s') (t : ThreadId) : (s.timers t).Ages limit (s'.timers t) := by
  cases h with
  | wake _ timers =>
    rw [timers]
    exact .refl _
  | elapse due hn =>
    rw [Runtime.elapseDue, Option.map_eq_some_iff] at due
    obtain ⟨u, hu, he⟩ := due
    obtain rfl := congrArg Prod.fst he
    have hdue := of_decide_eq_true (List.find?_some (p := s.isDue _) hu)
    by_cases ht : t = u
    · subst ht
      simp only [Function.update_self]
      refine fun _ => ⟨?_, rfl, fun _ => .inr (BitVec.le_trans hdue.2 hn)⟩
      rw [hdue.1]
      exact TimerState.noConfusion
    · simp only [Function.update_of_ne ht]
      exact .refl _
  | sleep | register => exact .refl _
  | release _ htimers =>
    dsimp only
    rcases htimers t with he | hf
    · rw [he]
      exact .refl _
    · rw [hf]
      exact .freed

theorem Moves.ages (h : Moves limit s s') (t : ThreadId) : (s.timers t).Ages limit (s'.timers t) := by
  induction h with
  | refl => exact .refl _
  | tail _ hm ih => exact ih.trans (hm.ages t)

theorem Spawns.timers (h : Spawns s s') : s'.timers = s.timers := by
  cases h with
  | none => rfl
  | one _ _ timers => exact timers

theorem Runtime.lastly_timers (next : Word) : (s.lastly next).timers = s.timers := by
  have hsave : (s.saveCurrent next).timers = s.timers := by
    rw [saveCurrent]
    split_ifs <;> rfl
  have hactivate : ∀ (x : Runtime) p, (x.activate p).timers = x.timers := by
    intro x p
    rw [activate]
    split_ifs <;> rfl
  cases hp : s.pendingTarget with
  | none => rw [lastly_none hp]
  | some target =>
    rw [lastly_some hp, switchTo]
    dsimp only [writeSstatus]
    rw [hactivate]
    exact hsave

theorem Runtime.setWaitTimer_self (now nsec : Word) (t : ThreadId) :
    (s.setWaitTimer now t nsec).timers t = ⟨.waiting, saturatingAdd now (nsecToTicks nsec)⟩ := Function.update_self _ _ _

/-! ## Timers elapse in time -/

/-- A timer that has elapsed was due at `now`. -/
def Runtime.NoneEarly (s : Runtime) (now : Word) : Prop :=
  ∀ t, (s.timers t).state = .elapsed → (s.timers t).deadline ≤ now

namespace Runtime.NoneEarly

theorem mono (h : s.NoneEarly now) (hn : now ≤ limit) : s.NoneEarly limit :=
  fun t ht => BitVec.le_trans (h t ht) hn

theorem of_timers (h : s.NoneEarly limit) (ht : s'.timers = s.timers) : s'.NoneEarly limit := by
  rw [NoneEarly, ht]
  exact h

theorem moves (h : s.NoneEarly limit) (hm : Moves limit s s') : s'.NoneEarly limit := by
  intro t ht
  have hne : (s'.timers t).state ≠ .free := by
    rw [ht]
    exact TimerState.noConfusion
  obtain ⟨-, hd, he⟩ := hm.ages t hne
  rw [hd]
  cases he ht with
  | inl hs => exact h t hs
  | inr hle => exact hle

theorem armed (h : s.NoneEarly limit) (o : Option (Word × Word)) : (s.armed o).NoneEarly limit := by
  cases o with
  | none => exact h
  | some p =>
    rw [Runtime.armed, armWaitTimer]
    split_ifs
    · exact h
    · intro t ht
      by_cases hc : t = s.current
      · subst hc
        rw [setWaitTimer_self] at ht
        cases ht
      · have hkept : (s.setWaitTimer p.1 s.current p.2).timers t = s.timers t := Function.update_of_ne hc _ _
        rw [hkept] at ht ⊢
        exact h t ht

/-- An expired timer was due by the reading that found it expired. -/
theorem expired {t : ThreadId} (h : s.NoneEarly limit) (hn : now ≤ limit) (he : s.isExpired now t = true) :
    (s.timers t).state ≠ .free ∧ (s.timers t).deadline ≤ limit := by
  rw [isExpired] at he
  split at he
  · cases he
  · rename_i hs
    rw [hs]
    exact ⟨TimerState.noConfusion, BitVec.le_trans (of_decide_eq_true he) hn⟩
  · rename_i hs
    rw [hs]
    exact ⟨TimerState.noConfusion, h t hs⟩

end Runtime.NoneEarly

/-- No step elapses a timer before it is due. -/
theorem step_noneEarly (a : Act) (h : m.rt.NoneEarly limit) (ha : ∀ v ∈ a.readings, v ≤ limit) :
    (step m a).rt.NoneEarly limit := by
  cases step_does m a ha with
  | moves o entered handled => exact ((h.moves entered).armed o).moves handled
  | spawns _ _ made => exact (h.moves (Runtime.enter_moves _ true)).of_timers made.timers
  | leaves _ out =>
    rw [out]
    exact h.of_timers (Runtime.lastly_timers _)

namespace Runtime

variable {env : Env}

theorem armWaitTimer_isRestartRequested (now nsec : Word) :
    (s.armWaitTimer now nsec).isRestartRequested = s.isRestartRequested := by
  rw [armWaitTimer]
  split_ifs <;> rfl

/-- A timer that is there and due has expired. -/
theorem isExpired_of_due {t : ThreadId} (hbusy : (s.timers t).state ≠ .free) (hdue : (s.timers t).deadline ≤ now) :
    s.isExpired now t = true := by
  rw [isExpired]
  cases hs : (s.timers t).state with
  | free => exact absurd hs hbusy
  | waiting => exact decide_eq_true hdue
  | elapsed => rfl

/-- Such a call is over with 0 at once when its timer has expired and nothing else is ready. -/
theorem syscallHandler_expired {nsec : Word} {r : Round} {rounds : List Round} (hl : s.timedLimit = some nsec)
    (hr : env.rounds = r :: rounds) (hready : r.ready = 0) (hexp : (s.begun env).isExpired r.now s.current = true) :
    s.syscallHandler env = some (.returned ((s.begun env).resetTimer s.current) 0) := by
  obtain ⟨addr, check, hcheck, he⟩ := syscallHandler_timed env hl
  rw [begun_of_limit env hl, ← armWaitTimer_current env.now nsec] at hexp
  have hstop := hcheck.expires _ r hready hexp
  rw [he, hr, begun_of_limit env hl, waitLoop, hstop, armWaitTimer_current]
  rfl

end Runtime

end Timers

/-! ## Timed waits -/

namespace Waits

variable {w : Waits} {a : TimedAct}

theorem Clocked.ends (h : w.Clocked a) : w.clock ≤ a.ends ∧ ∀ v ∈ a.act.readings, v ≤ a.ends := by
  rw [Clocked, List.pairwise_cons, List.pairwise_append] at h
  obtain ⟨hclock, -, -, hends⟩ := h
  exact ⟨hclock a.ends (List.mem_append_right _ (List.mem_singleton_self _)),
    fun v hv => hends v hv a.ends (List.mem_singleton_self _)⟩

/-- What every state of a run has. -/
def Inv (w : Waits) : Prop := w.m.rt.NoneEarly w.clock

theorem Inv.step (h : w.Inv) (hc : w.Clocked a) : (w.step a).Inv :=
  step_noneEarly a.act (h.mono hc.ends.1) hc.ends.2

theorem boot_inv (clock entry kstackTop rootPa sstatus : Word) (ctx : TaMemCtx) :
    (boot clock entry kstackTop rootPa sstatus ctx).Inv := fun _ h => nomatch h

/-- A timed call that begins to wait has a timer, and goes by its deadline. -/
theorem begun_timer {e : Entry} {nsec : Word} (hl : e.timedLimit = some nsec) (env : Env) :
    (((w.m.rt.enter e true).begun env).timers w.m.rt.current).state ≠ .free ∧
      (((w.m.rt.enter e true).begun env).timers w.m.rt.current).deadline = w.deadline e env := by
  have hhas : (w.m.rt.enter e true).hasWaitTimer (w.m.rt.enter e true).current =
      w.m.rt.hasWaitTimer w.m.rt.current := rfl
  have hticks := congrArg (fun l => (l.map Runtime.nsecToTicks).getD 0) hl
  rw [← Runtime.timedLimit_enter e true] at hl
  rw [Runtime.begun_of_limit env hl, Runtime.armWaitTimer, deadline, hhas]
  split_ifs with h
  · exact ⟨of_decide_eq_true h, rfl⟩
  · have hset : ((w.m.rt.enter e true).setWaitTimer env.now (w.m.rt.enter e true).current nsec).timers w.m.rt.current =
        ⟨.waiting, Runtime.saturatingAdd env.now (Runtime.nsecToTicks nsec)⟩ := Runtime.setWaitTimer_self _ _ _
    rw [hset, Entry.ticks, hticks]
    exact ⟨TimerState.noConfusion, rfl⟩

/-- Where the condition holds a call that is over with 0 has waited long enough. -/
theorem Inv.timely (h : w.Inv) (hc : w.Clocked a) (hm : w.Meets a) : w.Timely a := by
  obtain ⟨act, again, ends⟩ := a
  obtain ⟨hclock, hread⟩ := hc.ends
  cases act with
  | ecall e env =>
    intro hp hlim hret hdone
    obtain ⟨nsec, hl⟩ := Option.isSome_iff_exists.mp hlim
    have henter : (w.m.rt.enter e true).timedLimit = some nsec := (Runtime.timedLimit_enter e true).trans hl
    have hnow : env.now ≤ ends := hread env.now List.mem_cons_self
    have hbegun : ((w.m.rt.enter e true).begun env).NoneEarly ends := by
      rw [Runtime.begun_eq]
      exact ((h.mono hclock).moves (Runtime.enter_moves e true)).armed _
    simp only [Sittim.step, if_pos hp] at hret hdone
    cases hs : (w.m.rt.enter e true).syscallHandler env with
    | none =>
      rw [hs] at hret
      cases hp.symm.trans hret
    | some r =>
      rw [hs] at hret hdone
      obtain ⟨-, hover⟩ := Runtime.syscallHandler_outcome henter hs (rounds_by hread)
      rw [Ending.machine_rt] at hdone
      obtain ⟨-, hzero⟩ := hover hdone
      cases r with
      | ended s code => cases hret
      | returned s ret =>
        obtain rfl : ret = 0 := (Phase.handled.inj hret).2
        obtain ⟨x, r, hr, hx, hexp⟩ := hzero s rfl
        have hdue : (w.deadline e env) ≤ ends := by
          obtain ⟨hbusy, hle⟩ := (hbegun.moves hx).expired (rounds_by hread r hr).1 hexp
          obtain ⟨-, hd, -⟩ := hx.ages w.m.rt.current hbusy
          rw [← (begun_timer hl env).2, ← hd]
          exact hle
        have hmeets := hm hp hlim
        have hdue := BitVec.le_def.mp hdue
        have hnow := BitVec.le_def.mp hnow
        dsimp only at hmeets ⊢
        omega
  | _ => trivial

/-- Where the condition fails, the very call is over too early when it looks at the clock once, as soon as the deadline
has come. -/
theorem early_of_not_meets {e : Entry} {env : Env} {again : Bool} {ends : Word} (hclock : w.clock ≤ env.now)
    (hrestart : w.m.rt.isRestartRequested = false) (h : ¬ w.Meets ⟨.ecall e env, again, ends⟩) :
    ∃ v, w.Clocked ⟨.ecall e (env.once v), again, v⟩ ∧ ¬ w.Timely ⟨.ecall e (env.once v), again, v⟩ := by
  simp only [Meets, not_forall, Nat.not_le] at h
  obtain ⟨hp, hlim, hearly⟩ := h
  obtain ⟨nsec, hl⟩ := Option.isSome_iff_exists.mp hlim
  have henter : (w.m.rt.enter e true).timedLimit = some nsec := (Runtime.timedLimit_enter e true).trans hl
  obtain ⟨v, hv⟩ : ∃ v : Word, v.toNat = max (w.deadline e env).toNat env.now.toNat := by
    cases le_total (w.deadline e env).toNat env.now.toNat with
    | inl hle => exact ⟨env.now, (max_eq_right hle).symm⟩
    | inr hle => exact ⟨w.deadline e env, (max_eq_left hle).symm⟩
  have hnow : env.now ≤ v := BitVec.le_def.mpr (hv ▸ le_max_right _ _)
  have hdue : w.deadline e env ≤ v := BitVec.le_def.mpr (hv ▸ le_max_left _ _)
  refine ⟨v, ?_, fun htimely => ?_⟩
  · have hall := BitVec.le_trans hclock hnow
    simp [Clocked, Act.readings, Round.readings, Env.once, hclock, hnow, hall]
  · obtain ⟨hbusy, hd⟩ := begun_timer hl (env.once v)
    have hexp : ((w.m.rt.enter e true).begun (env.once v)).isExpired v w.m.rt.current = true :=
      Runtime.isExpired_of_due hbusy (hd ▸ hdue)
    have hstep : Sittim.step w.m (.ecall e (env.once v)) =
        ⟨.handled e.sepc 0, ((w.m.rt.enter e true).begun (env.once v)).resetTimer w.m.rt.current⟩ := by
      rw [Sittim.step, if_pos hp, Runtime.syscallHandler_expired henter rfl rfl hexp]
      rfl
    have hnone : ((w.m.rt.enter e true).begun (env.once v)).isRestartRequested = false := by
      rw [Runtime.begun_of_limit _ henter, Runtime.armWaitTimer_isRestartRequested]
      exact hrestart
    have hlate := htimely hp hlim (by rw [hstep]) (by rw [hstep]; exact hnone)
    exact absurd hlate (by rw [hv]; exact Nat.not_le.mpr hearly)

end Waits

/-- In every run on a clock that does not go back, no timed call that was bound by a late enough deadline returns 0
before its time. -/
theorem timed_waits_timely {clock entry kstackTop rootPa sstatus : Word} {ctx : TaMemCtx} {l : List TimedAct}
    (clocked : Run.Along Waits.step Waits.Clocked (Waits.boot clock entry kstackTop rootPa sstatus ctx) l)
    (meets : Run.Along Waits.step Waits.Meets (Waits.boot clock entry kstackTop rootPa sstatus ctx) l) :
    Run.Along Waits.step Waits.Timely (Waits.boot clock entry kstackTop rootPa sstatus ctx) l :=
  Run.along_of_promised (I := Waits.Inv) (fun _ _ h hg => h.step hg.1) (fun _ _ h hg => h.timely hg.1 hg.2)
    (Waits.boot_inv clock entry kstackTop rootPa sstatus ctx) (clocked.and meets)

/-- An `ecall` at `sepc` with a stack, and one word in memory. -/
def waitEntry (num : Word) (args : List Word) (sepc addr v : Word) : Entry :=
  ⟨{ (callEntry num args).gprs with spBeforeTrap := 0x9000 }, writeU64 (fun _ => 0) addr v, sepc, 0⟩

/-- All steps of a call, with the clock at `now`. -/
def callAt (now : Word) (again : Bool) (e : Entry) : List TimedAct :=
  (trapActs e { quietEnv 0x3000 with now := now, rounds := [⟨0, now, [(now, now)]⟩] }).map (⟨·, again, now⟩)

def timerAt (now sepc : Word) : List TimedAct :=
  [.timer (waitEntry 0 [] sepc 0 0) now now, .deliver, .leave].map (⟨·, false, now⟩)

def quietWaits : Waits := Waits.boot 0 0x10000 0x2000 0x80200000 0 ⟨0, 0, 0, 0⟩

/-- A fork; the child yields, a sleep of 10 ticks is put off for the child, and is repeated after 10 ticks. -/
def sleepPutOff : List TimedAct :=
  callAt 0 false (waitEntry 220 [17] 0x10010 0 0) ++ callAt 0 false (waitEntry 124 [] 0x10030 0 0) ++
    callAt 0 false (waitEntry 101 [0x4000] 0x10040 0x4008 100000) ++ timerAt 10 0x10034 ++
    callAt 10 true (waitEntry 101 [0x4000] 0x10040 0x4008 100000)

theorem sleepPutOff_timely : Run.Along Waits.step Waits.Timely quietWaits sleepPutOff :=
  timed_waits_timely (by decide +kernel) (by decide +kernel)

/-- A handler for signal 10, and a fork; the child sends the signal and yields. The sleep of 10 ticks is put off for
the child, the handler is set up, and after 10 ticks the parent goes on in it. The handler sleeps for 1000 ticks. -/
def sleepInHandler : List TimedAct :=
  callAt 0 false (waitEntry 134 [10, 0x4000, 0] 0x10000 0x4000 0x5000) ++
    callAt 0 false (waitEntry 220 [17] 0x10010 0 0) ++ callAt 0 false (waitEntry 129 [1, 10] 0x10020 0 0) ++
    callAt 0 false (waitEntry 124 [] 0x10030 0 0) ++
    callAt 0 false (waitEntry 101 [0x4000] 0x10040 0x4008 100000) ++ timerAt 10 0x10034 ++
    callAt 10 false (waitEntry 101 [0x4000] 0x5000 0x4008 10000000)

/-- The sleep in the handler is over at once: the timer of the interrupted sleep has elapsed. -/
theorem sleep_in_handler_early :
    ¬ ∀ l, Run.Along Waits.step Waits.Clocked quietWaits l → Run.Along Waits.step Waits.Timely quietWaits l :=
  fun h => absurd (h sleepInHandler (by decide +kernel)) (by decide +kernel)

end Pyremu.Sittim
