import Mathlib.Logic.Relation
import Pyremu.Sittim.Steps

/-!
# What a trap is made of

Inside a trap the kernel makes moves of five kinds: it wakes threads, elapses a
timer that is due, puts the running thread to sleep, registers a successor, and
gives slots back. Only `clone` takes a slot, only a call with a time limit sets
a timer, and only the way out of a trap is a switch.
-/

namespace Pyremu.Sittim

open Sweep

/-! ## Calls with a time limit -/

/-- The limit of the call in the registers `a`, if it is one that goes on to its wait timer. -/
def limitOf (a : Fin 32 → Word) (m : ByteMem.Mem) : Option Word :=
  match (a 17).toNat with
  | 73 =>
    if 64 < (a 11).toNat ∨ (a 10 = 0 ∧ a 11 ≠ 0) ∨ a 12 = 0 then none else Runtime.readTimespec m (a 12)
  | 101 => if a 10 = 0 then none else Runtime.readTimespec m (a 10)
  | _ => none

def Entry.timedLimit (e : Entry) : Option Word := limitOf e.gprs.regs e.mem

namespace Runtime

def timedLimit (s : Runtime) : Option Word := limitOf s.gprs.regs s.mem

/-- With the wait timer of the call. -/
def begun (s : Runtime) (env : Env) : Runtime :=
  match s.timedLimit with
  | some nsec => s.armWaitTimer env.now nsec
  | none => s

end Runtime

/-- The test of a timed wait ends it by freeing the timer, and with 0 only when that has expired. When it has, and
nothing else is ready, the wait ends. -/
structure TimedCheck (check : Runtime → Round → Option (Runtime × Word)) : Prop where
  ends : ∀ x r y v, check x r = some (y, v) → y = x.resetTimer x.current ∧ (v = 0 → x.isExpired r.now x.current = true)
  expires : ∀ x r, r.ready = 0 → x.isExpired r.now x.current = true → check x r = some (x.resetTimer x.current, 0)

/-! ## The clock -/

/-- What a round reads from the clock, in order. -/
def Round.readings (r : Round) : List Word := r.now :: r.spins.flatMap fun p => [p.1, p.2]

/-- What an act reads from the clock, in order. -/
def Act.readings : Act → List Word
  | .ecall _ env => env.now :: env.rounds.flatMap Round.readings
  | .timer _ now tickNow => [now, tickNow]
  | .callFault _ armed => (armed.map Prod.fst).toList
  | _ => []

/-- The clock is read up to `limit` in this round. -/
def Round.By (limit : Word) (r : Round) : Prop := r.now ≤ limit ∧ ∀ p ∈ r.spins, p.1 ≤ limit

/-! ## Moves -/

/-- One move, while the clock is read up to `limit`. What no constructor names may change freely. -/
inductive Move (limit : Word) : Runtime → Runtime → Prop where
  | wake {s s' : Runtime} (threads : ∀ t, Woken (s.threads t) (s'.threads t)) (timers : s'.timers = s.timers)
      (current : s'.current = s.current) (currentProc : s'.currentProc = s.currentProc) (rootPa : s'.rootPa = s.rootPa)
      (root : (s'.procs s.currentProc).rootPa = (s.procs s.currentProc).rootPa)
      (pending : s'.pendingTarget = s.pendingTarget) : Move limit s s'
  | elapse {s s' : Runtime} {now : Word} {t : ThreadId} (due : s.elapseDue now = some (s', t)) (hn : now ≤ limit) :
      Move limit s s'
  | sleep {s : Runtime} (addr : Word) :
      Move limit s (s.setThread s.current fun ctl => { ctl with state := .blocked, waitAddr := addr })
  | register {s : Runtime} {n : ThreadId} (hn : s.nextRunnable s.current = some n) :
      Move limit s { s with pendingTarget := some n }
  | release {s : Runtime} {threads : ThreadId → ThreadCtl} {timers : ThreadId → Timer}
      (hthreads : ∀ t, threads t = s.threads t ∨ (threads t).state = .free)
      (htimers : ∀ t, timers t = s.timers t ∨ timers t = .freed) :
      Move limit s { s with threads := threads, timers := timers }

def Moves (limit : Word) : Runtime → Runtime → Prop := Relation.ReflTransGen (Move limit)

/-- A thread is made, and gets the hart next; or nothing has changed. -/
inductive Spawns (s : Runtime) : Runtime → Prop where
  | none : Spawns s s
  | one {s' : Runtime} {t : ThreadId} {c : ThreadCtl} (state : c.state = .runnable)
      (threads : s'.threads = Function.update s.threads t c) (timers : s'.timers = s.timers)
      (current : s'.current = s.current) (currentProc : s'.currentProc = s.currentProc) (rootPa : s'.rootPa = s.rootPa)
      (root : (s.procs s.currentProc).used = true →
        (s'.procs s.currentProc).rootPa = (s.procs s.currentProc).rootPa)
      (pending : s'.pendingTarget = some t) : Spawns s s'

/-- The tables at the end, whichever end it is. -/
def Ending.rt : Ending → Runtime
  | .returned s _ => s
  | .ended s _ => s

theorem Ending.machine_rt (e : Ending) (next : Word → Phase) : (e.machine next).rt = e.rt := by
  cases e <;> rfl

section Moving

variable {limit now : Word} {s s' s'' : Runtime} {n : ThreadId}

theorem Move.current (h : Move limit s s') : s'.current = s.current := by
  cases h with
  | wake _ _ current => exact current
  | elapse due =>
    rw [Runtime.elapseDue, Option.map_eq_some_iff] at due
    obtain ⟨u, _, he⟩ := due
    obtain rfl := congrArg Prod.fst he
    rfl
  | sleep | register | release => rfl

namespace Moves

theorem refl : Moves limit s s := Relation.ReflTransGen.refl

theorem one (h : Move limit s s') : Moves limit s s' := Relation.ReflTransGen.single h

theorem trans (h : Moves limit s s') (h' : Moves limit s' s'') : Moves limit s s'' := Relation.ReflTransGen.trans h h'

theorem current (h : Moves limit s s') : s'.current = s.current := by
  induction h with
  | refl => rfl
  | tail _ hm ih => exact hm.current.trans ih

theorem of_woken (threads : ∀ t, Woken (s.threads t) (s'.threads t)) (timers : s'.timers = s.timers)
    (current : s'.current = s.current) (currentProc : s'.currentProc = s.currentProc) (rootPa : s'.rootPa = s.rootPa)
    (root : (s'.procs s.currentProc).rootPa = (s.procs s.currentProc).rootPa)
    (pending : s'.pendingTarget = s.pendingTarget) : Moves limit s s' :=
  .one (.wake threads timers current currentProc rootPa root pending)

theorem of_tables (threads : s'.threads = s.threads) (timers : s'.timers = s.timers)
    (current : s'.current = s.current) (currentProc : s'.currentProc = s.currentProc) (rootPa : s'.rootPa = s.rootPa)
    (root : (s'.procs s.currentProc).rootPa = (s.procs s.currentProc).rootPa)
    (pending : s'.pendingTarget = s.pendingTarget) : Moves limit s s' := by
  refine of_woken (fun t => ?_) timers current currentProc rootPa root pending
  rw [threads]
  exact .refl _

theorem mem (m : ByteMem.Mem) : Moves limit s { s with mem := m } := of_tables rfl rfl rfl rfl rfl rfl rfl

theorem setProc (p : ProcSlot) {f : ProcCtl → ProcCtl} (hf : ∀ c, (f c).rootPa = c.rootPa) :
    Moves limit s (s.setProc p f) := by
  refine of_tables rfl rfl rfl rfl rfl ?_ rfl
  simp only [Runtime.setProc]
  by_cases hp : s.currentProc = p
  · rw [hp, Function.update_self]
    exact hf _
  · rw [Function.update_of_ne hp]

theorem setCurrentSig (st : SigState) : Moves limit s (s.setCurrentSig st) := setProc _ fun _ => rfl

theorem setThread (t : ThreadId) {f : ThreadCtl → ThreadCtl} (hf : ∀ c, Woken c (f c)) :
    Moves limit s (s.setThread t f) := by
  refine of_woken (fun u => ?_) rfl rfl rfl rfl rfl rfl
  simp only [Runtime.setThread]
  by_cases hu : u = t
  · subst hu
    rw [Function.update_self]
    exact hf _
  · rw [Function.update_of_ne hu]
    exact .refl _

theorem setPending (hn : s.nextRunnable s.current = some n) : Moves limit s { s with pendingTarget := some n } :=
  .one (.register hn)

theorem release {threads : ThreadId → ThreadCtl} {timers : ThreadId → Timer}
    (hthreads : ∀ t, threads t = s.threads t ∨ (threads t).state = .free)
    (htimers : ∀ t, timers t = s.timers t ∨ timers t = .freed) :
    Moves limit s { s with threads := threads, timers := timers } := .one (.release hthreads htimers)

theorem resetTimer (t : ThreadId) : Moves limit s (s.resetTimer t) := by
  refine .release (fun _ => .inl rfl) fun u => ?_
  by_cases hu : u = t
  · rw [hu, Function.update_self]
    exact .inr rfl
  · exact .inl (Function.update_of_ne hu ..)

end Moves

namespace Runtime

variable {env : Env} {v : Word}

/-! ## Waking and waiting -/

theorem wakeBlocked_woken_all (addr nr : Word) (t : ThreadId) :
    Woken (s.threads t) ((s.wakeBlocked addr nr).1.threads t) := by
  rw [wakeBlocked_threads]
  split_ifs with hm
  · have hb := mem_waiters.mp (List.mem_of_mem_take hm)
    exact woken_makeRunnable (of_decide_eq_true hb).1
  · exact .refl _

theorem wakeBlocked_moves (addr nr : Word) : Moves limit s (s.wakeBlocked addr nr).1 :=
  .of_woken (wakeBlocked_woken_all addr nr) rfl rfl rfl rfl rfl rfl

theorem requeueBlocked_moves (addr nrWake nrRequeue target : Word) :
    Moves limit s (s.requeueBlocked addr nrWake nrRequeue target).1 := by
  refine (wakeBlocked_moves addr nrWake).trans (.of_woken (fun t => ?_) rfl rfl rfl rfl rfl rfl)
  simp only [requeueBlocked]
  rw [sweep_apply (List.nodup_finRange 32)]
  split_ifs
  · exact ⟨rfl, rfl, .inl rfl⟩
  · exact .refl _

theorem wakeProcess_moves (p : ProcSlot) : Moves limit s (s.wakeProcess p) := by
  refine .of_woken (fun t => ?_) rfl rfl rfl rfl rfl rfl
  simp only [wakeProcess]
  split_ifs with h
  · exact woken_makeRunnable h.1
  · exact .refl _

theorem wakeThread_moves (t : ThreadId) : Moves limit s (s.wakeThread t).1 := by
  refine .of_woken (wakeThread_woken t) ?_ ?_ ?_ ?_ ?_ ?_
  all_goals
    rw [wakeThread]
    split_ifs <;> rfl

theorem elapseAll_moves (hn : now ≤ limit) (n : Nat) (s : Runtime) (woken : Bool) :
    Moves limit s (elapseAll now n s woken).1 := by
  induction n generalizing s woken with
  | zero => exact .refl
  | succ n ih =>
    rw [elapseAll]
    split
    · exact .refl
    · rename_i hd
      exact ((Moves.one (.elapse hd hn)).trans (wakeThread_moves _)).trans (ih _ _)

theorem pickSwitchTarget_moves (hn : now ≤ limit) (after : ThreadId) :
    Moves limit s (s.pickSwitchTarget now after).1 := by
  rw [pickSwitchTarget]
  split
  · exact .refl
  · exact elapseAll_moves hn 32 s false

/-- The target is the nearest in the state that is left. -/
theorem pickSwitchTarget_next {after : ThreadId} (h : s.pickSwitchTarget now after = (s', some n)) :
    s'.nextRunnable after = some n := by
  rw [pickSwitchTarget] at h
  split at h
  · rename_i hn
    obtain ⟨rfl, he⟩ := Prod.mk.inj h
    rwa [← he]
  · obtain ⟨rfl, he⟩ := Prod.mk.inj h
    split_ifs at he
    exact he

theorem blockLoop_moves {spins : List (Word × Word)} (h : blockLoop s spins = some s')
    (hr : ∀ p ∈ spins, p.1 ≤ limit) : Moves limit s s' := by
  induction spins generalizing s with
  | nil => cases h
  | cons spin spins ih =>
    obtain ⟨hspin, hspins⟩ := List.forall_mem_cons.mp hr
    have hpick := pickSwitchTarget_moves (s := s) hspin s.current
    rw [blockLoop] at h
    split_ifs at h
    · split at h
      · rename_i x next heq
        have hnext := pickSwitchTarget_next heq
        rw [heq] at hpick
        obtain rfl := Option.some.inj h
        rw [← hpick.current] at hnext
        exact hpick.trans (.setPending hnext)
      · rename_i x heq
        rw [heq] at hpick
        split_ifs at h
        · obtain rfl := Option.some.inj h
          exact hpick.trans (wakeThread_moves _)
        · exact hpick.trans (ih h hspins)
    · obtain rfl := Option.some.inj h
      exact .refl

theorem blockCurrent_moves {addr : Word} {spins : List (Word × Word)} (h : s.blockCurrent addr spins = some s')
    (hr : ∀ p ∈ spins, p.1 ≤ limit) : Moves limit s s' :=
  .trans (.one (.sleep addr)) (blockLoop_moves h hr)

/-- A waiting call ends in its own test, or is to be repeated. -/
theorem waitLoop_moves {addr : Word} {check : Runtime → Round → Option (Runtime × Word)} {rounds : List Round}
    (h : waitLoop addr check rounds s = some (s', v)) (hr : ∀ r ∈ rounds, r.By limit) :
    (∃ x, ∃ r ∈ rounds, Moves limit s x ∧ check x r = some (s', v)) ∨
      Moves limit s s' ∧ s'.isRestartRequested = true := by
  induction rounds generalizing s with
  | nil => cases h
  | cons r rounds ih =>
    obtain ⟨hround, hrounds⟩ := List.forall_mem_cons.mp hr
    rw [waitLoop] at h
    split at h
    · rename_i res hres
      obtain rfl := Option.some.inj h
      exact .inl ⟨s, r, List.mem_cons_self, .refl, hres⟩
    · split at h
      · cases h
      · rename_i x hx
        have hblock := blockCurrent_moves hx hround.2
        split_ifs at h
        · obtain ⟨rfl, -⟩ := Prod.mk.inj (Option.some.inj h)
          exact .inr ⟨hblock.trans (.of_tables rfl rfl rfl rfl rfl rfl rfl), rfl⟩
        · cases ih h hrounds with
          | inl hend =>
            obtain ⟨y, q, hq, hy, he⟩ := hend
            exact .inl ⟨y, q, List.mem_cons_of_mem r hq, hblock.trans hy, he⟩
          | inr hagain => exact .inr ⟨hblock.trans hagain.1, hagain.2⟩

/-- A waiting call makes moves when its test does. -/
theorem waitLoop_keeps {addr : Word} {check : Runtime → Round → Option (Runtime × Word)} {rounds : List Round}
    (hcheck : ∀ x r y v, check x r = some (y, v) → Moves limit x y)
    (h : waitLoop addr check rounds s = some (s', v)) (hr : ∀ r ∈ rounds, r.By limit) : Moves limit s s' := by
  cases waitLoop_moves h hr with
  | inl hend =>
    obtain ⟨x, r, -, hx, he⟩ := hend
    exact hx.trans (hcheck x r s' v he)
  | inr hagain => exact hagain.1

theorem recv_moves (h : s.recv env = some (s', v)) (hr : ∀ r ∈ env.rounds, r.By limit) : Moves limit s s' := by
  rw [recv] at h
  split at h
  · obtain ⟨rfl, -⟩ := Prod.mk.inj (Option.some.inj h)
    exact .refl
  · refine waitLoop_keeps ?_ h hr
    intro x r y v hxy
    split_ifs at hxy
    obtain ⟨rfl, -⟩ := Prod.mk.inj (Option.some.inj hxy)
    exact .refl

theorem wait4_moves {pid status options : Word} {rounds : List Round}
    (h : s.wait4 pid status options rounds = some (s', v)) (hr : ∀ r ∈ rounds, r.By limit) : Moves limit s s' := by
  refine waitLoop_keeps ?_ h hr
  intro x r y v hxy
  rw [wait4Scan] at hxy
  dsimp only at hxy
  split at hxy
  · obtain ⟨rfl, -⟩ := Prod.mk.inj (Option.some.inj hxy)
    refine .trans ?_ (.setProc _ fun _ => rfl)
    split_ifs <;> exact .of_tables rfl rfl rfl rfl rfl rfl rfl
  · split_ifs at hxy
    all_goals
      obtain ⟨rfl, -⟩ := Prod.mk.inj (Option.some.inj hxy)
      exact .refl

theorem futex_moves {uaddr op val arg3 uaddr2 : Word} (h : s.futex env uaddr op val arg3 uaddr2 = some (s', v))
    (hr : ∀ r ∈ env.rounds, r.By limit) : Moves limit s s' := by
  rw [futex] at h
  split at h
  · rw [futexWait] at h
    split_ifs at h
    · obtain ⟨rfl, -⟩ := Prod.mk.inj (Option.some.inj h)
      exact .refl
    · obtain ⟨rfl, -⟩ := Prod.mk.inj (Option.some.inj h)
      exact .refl
    · rw [Option.map_eq_some_iff] at h
      obtain ⟨x, hx, he⟩ := h
      obtain ⟨rfl, -⟩ := Prod.mk.inj he
      refine blockCurrent_moves hx ?_
      cases hrounds : env.rounds with
      | nil => simp
      | cons r rounds =>
        rw [hrounds] at hr
        exact (hr r List.mem_cons_self).2
  · obtain ⟨rfl, -⟩ := Prod.mk.inj (Option.some.inj h)
    exact wakeBlocked_moves _ _
  · obtain ⟨rfl, -⟩ := Prod.mk.inj (Option.some.inj h)
    exact requeueBlocked_moves _ _ _ _
  · obtain ⟨rfl, -⟩ := Prod.mk.inj (Option.some.inj h)
    exact .refl

/-! ## Exits -/

theorem goOn_moves (code : Word) : Moves limit s (s.goOn code).rt := by
  rw [goOn]
  split
  · rename_i next hn
    exact .setPending hn
  · exact .refl

theorem markExited_moves (p : ProcSlot) (code : Word) : Moves limit s (s.markExited p code) := by
  have hproc : Moves limit s (s.setProc p fun c =>
      { c with exited := true, exitCode := code, sig := c.sig.clearPending, itimerNext := 0, itimerInterval := 0 }) :=
    .setProc p fun _ => rfl
  have hlog : ∀ (x : Runtime) log, Moves limit x { x with log := log } :=
    fun x log => .of_tables rfl rfl rfl rfl rfl rfl rfl
  refine (hproc.trans (hlog _ _)).trans (.release (fun t => ?_) fun t => ?_)
  · dsimp only
    split_ifs
    · exact .inr rfl
    · exact .inl rfl
  · dsimp only
    split_ifs
    · exact .inr rfl
    · exact .inl rfl

theorem exitProcess_moves (p : ProcSlot) (code : Word) : Moves limit s (s.exitProcess p code).rt := by
  by_cases hp : p = 0
  · rw [exitProcess, if_pos hp]
    exact .refl
  · have hexited : Moves limit (s.markExited p code) (s.exited p code) := by
      rw [exited]
      split
      · exact wakeBlocked_moves _ _
      · exact .refl
    rw [exitProcess_eq hp]
    exact ((markExited_moves p code).trans hexited).trans (goOn_moves code)

theorem releaseSlot_moves (t : ThreadId) : Moves limit s (s.releaseSlot t) := by
  refine .trans (.release (fun u => ?_) fun _ => .inl rfl) (.resetTimer t)
  by_cases hu : u = t
  · subst hu
    rw [Function.update_self]
    exact .inr rfl
  · exact .inl (Function.update_of_ne hu ..)

theorem exitCurrentThread_moves (code : Word) : Moves limit s (s.exitCurrentThread code).rt := by
  by_cases hl : s.liveThreadCount (s.threads s.current).proc ≤ 1
  · rw [exitCurrentThread_last hl]
    exact exitProcess_moves _ code
  · have hwoken : ∀ ctid, Moves limit s (if ctid = 0 then s else ((s.storeUserU32 ctid 0).wakeBlocked ctid 1).1) := by
      intro ctid
      split_ifs
      · exact .refl
      · exact (Moves.mem _).trans (wakeBlocked_moves _ _)
    have hleft : Moves limit s s.leftThread := (hwoken _).trans (releaseSlot_moves s.current)
    rw [exitCurrentThread_eq hl]
    exact hleft.trans (goOn_moves code)

/-! ## Other calls -/

theorem schedYieldCurrent_moves : Moves limit s s.schedYieldCurrent := by
  rw [schedYieldCurrent]
  split
  · rename_i next hn
    exact .setPending hn
  · exact .refl

theorem kill_moves (pid sig : Word) : Moves limit s (s.kill pid sig).1 := by
  have hpost : ∀ p, Moves limit s (s.setProc p fun c => { c with sig := c.sig.post (Fin.ofNat 32 sig.toNat) }) :=
    fun p => .setProc p fun _ => rfl
  rw [kill]
  split_ifs
  · exact .refl
  · exact .refl
  · exact hpost _
  · split
    · exact .refl
    · dsimp only
      split_ifs
      · exact hpost _
      · exact (hpost _).trans (wakeProcess_moves _)

theorem sigaction_moves (sig newAction oldAction : Word) : Moves limit s (s.sigaction sig newAction oldAction).1 := by
  rw [sigaction]
  split_ifs
  · exact .refl
  · exact .refl
  · exact .setCurrentSig _
  · exact Moves.mem _
  · exact (Moves.mem _).trans (.setCurrentSig _)

theorem sigprocmask_moves (how set oldset sigsetsize : Word) :
    Moves limit s (s.sigprocmask how set oldset sigsetsize).1 := by
  have hset : ∀ (m : ByteMem.Mem) (st : SigState), Moves limit s ({ s with mem := m }.setCurrentSig st) :=
    fun m st => (Moves.mem m).trans (.setCurrentSig st)
  rw [sigprocmask]
  dsimp only
  split
  · exact .refl
  · split
    · split
      · exact hset _ _
      · exact .setCurrentSig _
    · split
      · exact Moves.mem _
      · exact .refl

theorem setitimer_moves (when which newValue oldValue : Word) :
    Moves limit s (s.setitimer when which newValue oldValue).1 := by
  have hset : ∀ (x : Runtime) (p : ProcSlot) (value interval : Word),
      Moves limit x (x.setProc p fun c =>
        if value = 0 then { c with itimerNext := 0, itimerInterval := 0 }
        else { c with itimerNext := when + value, itimerInterval := interval }) := by
    intro x p value interval
    refine .setProc _ fun c => ?_
    split_ifs <;> rfl
  rw [setitimer]
  generalize fromTicks _ = i
  generalize fromTicks _ = r
  -- the state after the old value has been written
  have hmem : Moves limit s (if oldValue = 0 then s
      else { s with mem := writeWords s.mem oldValue [i.1, i.2, r.1, r.2] }) := by
    split_ifs
    · exact .refl
    · exact Moves.mem _
  dsimp only
  generalize (if oldValue = 0 then s
    else { s with mem := writeWords s.mem oldValue [i.1, i.2, r.1, r.2] }) = x at hmem ⊢
  split
  · exact hmem
  · exact hmem.trans (hset x _ _ _)

theorem buildFrame_moves (sig : Fin 32) (handler sepc : Word) : Moves limit s (s.buildFrame sig handler sepc).1 := by
  exact ((Moves.mem _).trans (.setCurrentSig _)).trans (.of_tables rfl rfl rfl rfl rfl rfl rfl)

theorem sigreturn_moves : Moves limit s s.sigreturn.1 := by
  have hregs : ∀ (g : TrapGprs) (w : Word), Moves limit s ((s.setGprs g).writeSstatus w) :=
    fun g w => .of_tables rfl rfl rfl rfl rfl rfl rfl
  exact ((hregs _ _).trans (.setCurrentSig _)).trans (.of_tables rfl rfl rfl rfl rfl rfl rfl)

/-! ## A new thread -/

theorem cloneProcess_spawns (flags : Word) : Spawns s (s.cloneProcess env flags).1 := by
  rw [cloneProcess]
  split
  · exact .none
  · split
    · exact .none
    · rename_i child hchild
      split
      · exact .none
      · split
        · exact .none
        · rename_i x t hx
          rw [spawnProcessThread] at hx
          split at hx
          · cases hx
          · rename_i u top hu
            obtain ⟨rfl, rfl⟩ := Prod.mk.inj (Option.some.inj hx)
            refine .one rfl rfl rfl rfl rfl rfl (fun hused => ?_) rfl
            -- the child gets a slot that nobody has
            have hne : s.currentProc ≠ child := by
              rintro rfl
              rw [nextFreeProcSlot_unused hchild] at hused
              cases hused
            dsimp only
            rw [Function.update_of_ne hne]
            rfl

theorem cloneThread_spawns (flags stack ptid tls ctid : Word) :
    Spawns s (s.cloneThread env flags stack ptid tls ctid).1 := by
  rw [cloneThread]
  split
  · exact cloneProcess_spawns flags
  · split
    · exact .none
    · split
      · exact .none
      · split_ifs <;> exact .one rfl rfl rfl rfl rfl rfl (fun _ => rfl) rfl

/-! ## Timed waits -/

/-- The test of `nanosleep`. -/
def sleepCheck (s : Runtime) (r : Round) : Option (Runtime × Word) :=
  if s.isExpired r.now s.current then some (s.resetTimer s.current, 0) else none

/-- The test of `ppoll`. -/
def pollCheck (s : Runtime) (r : Round) : Option (Runtime × Word) :=
  if r.ready ≠ 0 then some (s.resetTimer s.current, r.ready)
  else if s.isExpired r.now s.current then some (s.resetTimer s.current, 0)
  else none

theorem sleepCheck_timed : TimedCheck sleepCheck where
  ends := by
    intro x r y v hxy
    rw [sleepCheck] at hxy
    split_ifs at hxy with hexp
    obtain ⟨rfl, -⟩ := Prod.mk.inj (Option.some.inj hxy)
    exact ⟨rfl, fun _ => hexp⟩
  expires := by
    intro x r _ hexp
    rw [sleepCheck, if_pos hexp]

theorem pollCheck_timed : TimedCheck pollCheck where
  ends := by
    intro x r y v hxy
    rw [pollCheck] at hxy
    split_ifs at hxy with hready hexp
    · obtain ⟨rfl, rfl⟩ := Prod.mk.inj (Option.some.inj hxy)
      exact ⟨rfl, fun hv => absurd hv hready⟩
    · obtain ⟨rfl, -⟩ := Prod.mk.inj (Option.some.inj hxy)
      exact ⟨rfl, fun _ => hexp⟩
  expires := by
    intro x r hready hexp
    rw [pollCheck, if_neg (not_not_intro hready), if_pos hexp]

/-- A call with a limit sets its wait timer and waits. -/
theorem syscallHandler_timed (env : Env) {nsec : Word} (hl : s.timedLimit = some nsec) :
    ∃ addr check, TimedCheck check ∧
      s.syscallHandler env = (waitLoop addr check env.rounds (s.armWaitTimer env.now nsec)).map done := by
  rw [timedLimit, limitOf] at hl
  split at hl
  · rename_i hcall
    split_ifs at hl with hbad
    simp only [not_or] at hbad
    obtain ⟨hnfds, hfds, htimeout⟩ := hbad
    refine ⟨POLL_WAIT_ADDR, pollCheck, pollCheck_timed, ?_⟩
    simp only [syscallHandler, hcall, ppoll, if_neg hnfds, if_neg hfds, if_neg htimeout, hl, Option.map_some]
    rfl
  · rename_i hcall
    split_ifs at hl with hreq
    refine ⟨SLEEP_WAIT_ADDR, sleepCheck, sleepCheck_timed, ?_⟩
    simp only [syscallHandler, hcall, nanosleep, if_neg hreq, hl]
    rfl
  · cases hl

theorem begun_of_limit (env : Env) {nsec : Word} (hl : s.timedLimit = some nsec) :
    s.begun env = s.armWaitTimer env.now nsec := by
  rw [begun, hl]

theorem armWaitTimer_current (now nsec : Word) : (s.armWaitTimer now nsec).current = s.current := by
  rw [armWaitTimer]
  split_ifs <;> rfl

/-- Such a call is to be repeated, or frees its timer when it ends, and it ends with 0 only when the timer has
expired. -/
theorem syscallHandler_outcome {nsec : Word} {e : Ending} (hl : s.timedLimit = some nsec)
    (h : s.syscallHandler env = some e) (hr : ∀ r ∈ env.rounds, r.By limit) :
    Moves limit (s.begun env) e.rt ∧
      (e.rt.isRestartRequested = false →
        (e.rt.timers s.current).state = .free ∧
          ∀ s', e = .returned s' 0 → ∃ x, ∃ r ∈ env.rounds, Moves limit (s.begun env) x ∧
            x.isExpired r.now s.current = true) := by
  obtain ⟨addr, check, hcheck, he⟩ := syscallHandler_timed env hl
  rw [he, Option.map_eq_some_iff] at h
  obtain ⟨⟨y, v⟩, hloop, rfl⟩ := h
  rw [begun_of_limit env hl]
  cases waitLoop_moves hloop hr with
  | inl hend =>
    obtain ⟨x, r, hmem, hx, hres⟩ := hend
    obtain ⟨rfl, hexp⟩ := hcheck.ends x r y v hres
    have hxc : x.current = s.current := hx.current.trans (armWaitTimer_current _ _)
    refine ⟨hx.trans (.resetTimer _), fun _ => ⟨?_, fun s' heq => ?_⟩⟩
    · rw [hxc]
      simp only [done, Ending.rt, resetTimer, Function.update_self]
      rfl
    · obtain ⟨-, rfl⟩ := Ending.returned.inj heq
      refine ⟨x, r, hmem, hx, ?_⟩
      rw [← hxc]
      exact hexp rfl
  | inr hagain =>
    refine ⟨hagain.1, fun hn => ?_⟩
    exact absurd (hagain.2.symm.trans hn) Bool.noConfusion

/-! ## Other calls -/

theorem ppoll_untimed {fds nfds timeout : Word}
    (hl : ¬ (64 < nfds.toNat ∨ (fds = 0 ∧ nfds ≠ 0) ∨ timeout = 0) → readTimespec s.mem timeout = none)
    (h : s.ppoll env fds nfds timeout = some (s', v)) (hr : ∀ r ∈ env.rounds, r.By limit) : Moves limit s s' := by
  rw [ppoll] at h
  split_ifs at h with hn hf ht
  · obtain ⟨rfl, -⟩ := Prod.mk.inj (Option.some.inj h)
    exact .refl
  · obtain ⟨rfl, -⟩ := Prod.mk.inj (Option.some.inj h)
    exact .refl
  · refine waitLoop_keeps ?_ h hr
    intro x r y v hxy
    split_ifs at hxy
    all_goals
      obtain ⟨rfl, -⟩ := Prod.mk.inj (Option.some.inj hxy)
      exact .resetTimer _
  · rw [hl (by simp only [hn, hf, ht, or_self, not_false_eq_true])] at h
    obtain ⟨rfl, -⟩ := Prod.mk.inj (Option.some.inj h)
    exact .refl

theorem nanosleep_untimed {req : Word} (hl : req ≠ 0 → readTimespec s.mem req = none)
    (h : s.nanosleep env req = some (s', v)) : Moves limit s s' := by
  rw [nanosleep] at h
  split_ifs at h with hreq
  · obtain ⟨rfl, -⟩ := Prod.mk.inj (Option.some.inj h)
    exact .refl
  · rw [hl hreq] at h
    obtain ⟨rfl, -⟩ := Prod.mk.inj (Option.some.inj h)
    exact .refl

theorem syscallHandler_untimed {e : Ending} (hl : s.timedLimit = none) (h : s.syscallHandler env = some e)
    (hr : ∀ r ∈ env.rounds, r.By limit) (hcall : (s.gprs.regs 17).toNat ≠ 220) : Moves limit s e.rt := by
  have hmap : ∀ {o : Option (Runtime × Word)}, (∀ y v, o = some (y, v) → Moves limit s y) →
      o.map done = some e → Moves limit s e.rt := by
    intro o ho h
    rw [Option.map_eq_some_iff] at h
    obtain ⟨⟨y, v⟩, hy, rfl⟩ := h
    exact ho y v hy
  have hend : ∀ {e' : Ending}, Moves limit s e'.rt → some e' = some e → Moves limit s e.rt := by
    intro e' ha h
    obtain rfl := Option.some.inj h
    exact ha
  rw [syscallHandler] at h
  split at h
  · rename_i hcall
    refine hmap (fun y v hy => ppoll_untimed (fun hok => ?_) hy hr) h
    simpa only [timedLimit, limitOf, hcall, if_neg hok] using hl
  · exact hend (exitCurrentThread_moves _) h
  · exact hend (exitProcess_moves _ _) h
  · refine hend ?_ h
    rw [Ending.rt]
    apply Moves.setThread
    exact fun _ => ⟨rfl, rfl, .inl rfl⟩
  · exact hmap (fun y v hy => futex_moves hy hr) h
  · rename_i hcall
    refine hmap (fun y v hy => nanosleep_untimed (fun hok => ?_) hy) h
    simpa only [timedLimit, limitOf, hcall, if_neg hok] using hl
  · exact hend (setitimer_moves _ _ _ _) h
  · exact hend schedYieldCurrent_moves h
  · exact hend (kill_moves _ _) h
  · exact hend (kill_moves _ _) h
  · exact hend (kill_moves _ _) h
  · exact hend (sigaction_moves _ _ _) h
  · exact hend (sigprocmask_moves _ _ _ _) h
  · exact hend sigreturn_moves h
  · exact hend (.refl) h
  · exact hend (.refl) h
  · exact hend (.refl) h
  · exact hmap (fun y v hy => recv_moves hy hr) h
  · exact hmap (fun y v hy => recv_moves hy hr) h
  · contradiction
  · exact hmap (fun y v hy => wait4_moves hy hr) h
  · exact hend (.refl) h

theorem syscallHandler_moves {e : Ending} (h : s.syscallHandler env = some e) (hr : ∀ r ∈ env.rounds, r.By limit)
    (hcall : (s.gprs.regs 17).toNat ≠ 220) : Moves limit (s.begun env) e.rt := by
  cases hl : s.timedLimit with
  | none =>
    rw [begun, hl]
    exact syscallHandler_untimed hl h hr hcall
  | some nsec => exact (syscallHandler_outcome hl h hr).1

/-! ## The rest of a trap -/

theorem enter_gprs (e : Entry) (isCall : Bool) : (s.enter e isCall).gprs = e.gprs := Function.update_self ..

theorem timedLimit_enter (e : Entry) (isCall : Bool) : (s.enter e isCall).timedLimit = e.timedLimit := by
  rw [timedLimit, enter_gprs]
  rfl

theorem begun_eq (env : Env) : s.begun env = s.armed (s.timedLimit.map fun nsec => (env.now, nsec)) := by
  rw [begun]
  cases s.timedLimit <;> rfl

theorem enter_moves (e : Entry) (isCall : Bool) : Moves limit s (s.enter e isCall) := by
  have hentry : Moves limit s ({ s with
      sepc := e.sepc, sstatus := userTrapSstatus s.sstatus e.ext, mem := e.mem }.setGprs e.gprs) :=
    .of_tables rfl rfl rfl rfl rfl rfl rfl
  rw [enter]
  apply hentry.trans
  apply Moves.setThread
  exact fun _ => ⟨rfl, rfl, .inl rfl⟩

theorem tickProc_moves (p : ProcSlot) : Moves limit s (tickProc now s p) := by
  rw [tickProc]
  split_ifs
  · exact .refl
  · refine .trans ?_ (wakeProcess_moves p)
    exact .setProc p fun _ => rfl

theorem tick_moves : Moves limit s (s.tick now) := by
  have hfold : ∀ (l : List ProcSlot) (s : Runtime), Moves limit s (l.foldl (tickProc now) s) := by
    intro l
    induction l with
    | nil => exact fun _ => .refl
    | cons p l ih => exact fun s => (tickProc_moves p).trans (ih _)
  exact hfold _ s

theorem timerInterrupt_moves (hn : now ≤ limit) (tickNow : Word) : Moves limit s (s.timerInterrupt now tickNow) :=
  ((elapseAll_moves hn 32 s false).trans tick_moves).trans schedYieldCurrent_moves

theorem checkPendingNetEvent_moves (env : Env) : Moves limit s (s.checkPendingNetEvent env) := by
  have hfold : ∀ (l : List Word) (s : Runtime),
      Moves limit s (l.foldl (fun s i => (s.wakeBlocked (recvWaitAddr i) (BitVec.allOnes 64)).1) s) := by
    intro l
    induction l with
    | nil => exact fun _ => .refl
    | cons i l ih => exact fun s => (wakeBlocked_moves _ _).trans (ih _)
  rw [checkPendingNetEvent]
  split_ifs
  · exact .refl
  · have hflag : Moves limit s { s with isNetEventPending := false } := .of_tables rfl rfl rfl rfl rfl rfl rfl
    exact (hflag.trans (hfold _ _)).trans (wakeBlocked_moves _ _)

theorem softwareInterrupt_moves (flags : Word) (env : Env) : Moves limit s (s.softwareInterrupt flags env).rt := by
  have hflag : Moves limit s { s with isNetEventPending := true } := .of_tables rfl rfl rfl rfl rfl rfl rfl
  rw [softwareInterrupt]
  split_ifs
  · exact .refl
  · exact (hflag.trans (checkPendingNetEvent_moves env)).trans schedYieldCurrent_moves
  · exact schedYieldCurrent_moves

theorem afterSyscall_moves (sepc ret : Word) : Moves limit s (s.afterSyscall sepc ret).1 := by
  rw [afterSyscall]
  split
  · exact .of_tables rfl rfl rfl rfl rfl rfl rfl
  · split_ifs <;> exact .of_tables rfl rfl rfl rfl rfl rfl rfl

theorem bind_moves {e : Ending} {f : Runtime → Word → Ending} (he : Moves limit s e.rt)
    (hf : ∀ x v, Moves limit x (f x v).rt) : Moves limit s (e.bind f).rt := by
  cases e with
  | returned x v => exact he.trans (hf x v)
  | ended x code => exact he

theorem deliverPending_moves (sepc : Word) : Moves limit s (s.deliverPending sepc).rt := by
  rw [deliverPending]
  split
  · exact .refl
  · rename_i st sig _
    have hst : Moves limit s (s.setCurrentSig st) := .setCurrentSig st
    dsimp only
    split
    · exact hst
    · exact hst.trans (bind_moves (exitProcess_moves _ _) fun x _ => .refl)
    · exact hst.trans (buildFrame_moves _ _ _)

theorem moduleFault_moves : Moves limit s s.moduleFault.rt := by
  have hraise : ∀ isCall pc, Moves limit s ((s.abandonCall isCall).raiseSigbus pc).rt := by
    intro isCall pc
    have habandon : Moves limit s (s.abandonCall isCall) := by
      rw [abandonCall]
      split_ifs <;> exact .of_tables rfl rfl rfl rfl rfl rfl rfl
    refine habandon.trans ?_
    rw [raiseSigbus]
    split
    · exact buildFrame_moves _ _ _
    · exact bind_moves (exitProcess_moves _ _) fun x _ => .refl
    · exact .refl
  rw [moduleFault, deliverModuleFault]
  cases (s.threads s.current).trapResume with
  | none => exact .refl
  | ecall next =>
    dsimp only
    rw [Ending.machine_rt]
    exact hraise true next
  | interrupted pc =>
    dsimp only
    rw [Ending.machine_rt]
    exact hraise false pc


end Runtime

/-! ## One step -/

/-- The act makes a thread or a process. -/
def Act.clones : Act → Bool
  | .ecall e _ => decide ((e.gprs.regs 17).toNat = 220)
  | _ => false

/-- What an act does: moves, where a call may have set its timer, or a new thread, or the way out. -/
inductive Does (limit : Word) (m : Machine) (a : Act) (s' : Runtime) : Prop where
  | moves {x : Runtime} (o : Option (Word × Word)) (entered : Moves limit m.rt x) (handled : Moves limit (x.armed o) s')
  | spawns {e : Entry} (clones : a.clones = true) (phase : m.phase = .user) (made : Spawns (m.rt.enter e true) s')
  | leaves {next : Word} (phase : m.phase = .leave next) (out : s' = m.rt.lastly next)

/-- Every round of an act is by the end of the act. -/
theorem rounds_by {e : Entry} {env : Env} (h : ∀ v ∈ (Act.ecall e env).readings, v ≤ limit) :
    ∀ r ∈ env.rounds, r.By limit := by
  intro r hr
  have hround : ∀ v ∈ r.readings, v ≤ limit :=
    fun v hv => h v (List.mem_cons_of_mem _ (List.mem_flatMap.mpr ⟨r, hr, hv⟩))
  refine ⟨hround r.now List.mem_cons_self, fun p hp => ?_⟩
  exact hround p.1 (List.mem_cons_of_mem _ (List.mem_flatMap.mpr ⟨p, hp, List.mem_cons_self⟩))

theorem step_does (m : Machine) (a : Act) (ha : ∀ v ∈ a.readings, v ≤ limit) : Does limit m a (step m a).rt := by
  have hstay : Does limit m a m.rt := .moves none .refl .refl
  have hmoves : ∀ {x s' : Runtime}, Moves limit m.rt x → Moves limit x s' → Does limit m a s' :=
    fun hx h => .moves none hx h
  cases a with
  | ecall e env =>
    rw [step]
    split_ifs with hp
    · split
      · rename_i r hr
        rw [Ending.machine_rt]
        by_cases hcall : (e.gprs.regs 17).toNat = 220
        · rw [Runtime.syscallHandler, Runtime.enter_gprs, hcall] at hr
          obtain rfl := Option.some.inj hr
          exact .spawns (decide_eq_true hcall) hp (Runtime.cloneThread_spawns _ _ _ _ _)
        · rw [← Runtime.enter_gprs (s := m.rt) e true] at hcall
          have hcalled := Runtime.syscallHandler_moves hr (rounds_by ha) hcall
          rw [Runtime.begun_eq] at hcalled
          exact .moves _ (Runtime.enter_moves e true) hcalled
      · exact hstay
    · exact hstay
  | timer e now tickNow =>
    rw [step]
    split_ifs
    · have hnow : now ≤ limit := ha now List.mem_cons_self
      exact hmoves (Runtime.enter_moves e false) (Runtime.timerInterrupt_moves hnow tickNow)
    · exact hstay
  | software e flags env =>
    rw [step]
    split_ifs
    · rw [Ending.machine_rt]
      exact hmoves (Runtime.enter_moves e false) (Runtime.softwareInterrupt_moves flags env)
    · exact hstay
  | otherInterrupt e =>
    rw [step]
    split_ifs
    · exact hmoves (Runtime.enter_moves e false) .refl
    · exact hstay
  | fault e scause isRetried =>
    rw [step]
    split
    · dsimp only
      split
      · exact hmoves (Runtime.enter_moves e false) .refl
      · rw [Ending.machine_rt]
        exact hmoves (Runtime.enter_moves e false) (Runtime.exitProcess_moves _ _)
    · exact hstay
  | callFault e armed =>
    rw [step]
    split_ifs
    · exact .moves armed (Runtime.enter_moves e true) Runtime.moduleFault_moves
    · exact hstay
  | interruptFault e =>
    rw [step]
    split_ifs
    · exact hmoves (Runtime.enter_moves e false) Runtime.moduleFault_moves
    · exact hstay
  | netEvent env =>
    rw [step]
    split
    · exact hmoves (Runtime.checkPendingNetEvent_moves env) (Runtime.afterSyscall_moves _ _)
    · exact hstay
  | netFault =>
    rw [step]
    split
    · exact hmoves .refl Runtime.moduleFault_moves
    · exact hstay
  | deliver =>
    rw [step]
    split
    · rw [Ending.machine_rt]
      exact hmoves .refl (Runtime.deliverPending_moves _)
    · exact hstay
  | leave =>
    rw [step]
    split
    · rename_i next hp
      exact .leaves hp rfl
    · exact hstay

end Moving

end Pyremu.Sittim
