import Pyremu.Sittim.Futex

/-!
# What a handler leaves alone

Most handlers neither make nor end a thread or a process. `Calm` says what such
a handler may change: it wakes threads, it may put the running thread to sleep
once a successor is chosen, and it keeps everything that identifies processes.
-/

namespace Pyremu.Sittim

open Sweep

/-- What identifies a process and its fate. -/
structure Kin where
  used : Bool
  pid : Word
  ppid : Word
  exited : Bool
  exitCode : Word
  parent : Option ProcSlot
  deriving DecidableEq, Repr

def ProcCtl.kin (c : ProcCtl) : Kin := ⟨c.used, c.pid, c.ppid, c.exited, c.exitCode, c.parent⟩

/-- A thread that has the hart, or would get it without being woken. -/
def ThreadState.canRun : ThreadState → Bool
  | .runnable | .running => true
  | _ => false

/-- A control block was touched at most by a wake. -/
structure Woken (c c' : ThreadCtl) : Prop where
  proc : c'.proc = c.proc
  saved : c'.sstatus = c.sstatus
  state : c'.state = c.state ∨ c.state = .blocked ∧ c'.state = .runnable

structure Calm (s s' : Runtime) : Prop where
  current : s'.current = s.current
  currentProc : s'.currentProc = s.currentProc
  nextPid : s'.nextPid = s.nextPid
  log : s'.log = s.log
  sstatus : s'.sstatus = s.sstatus
  kin : ∀ p, (s'.procs p).kin = (s.procs p).kin
  proc : ∀ t, (s'.threads t).proc = (s.threads t).proc
  saved : ∀ t, (s'.threads t).sstatus = (s.threads t).sstatus
  live : ∀ t, (s'.threads t).state = .free ↔ (s.threads t).state = .free
  run : s'.pendingTarget = none → s.pendingTarget = none ∧
    ((s.threads s.current).state.canRun = true → (s'.threads s.current).state.canRun = true)
  target : ∀ t, s'.pendingTarget = some t →
    s.pendingTarget = some t ∨ (s'.threads t).state ≠ .free

theorem Woken.refl (c : ThreadCtl) : Woken c c := ⟨rfl, rfl, .inl rfl⟩

theorem Woken.trans {c c' c'' : ThreadCtl} (h : Woken c c') (h' : Woken c' c'') : Woken c c'' := by
  refine ⟨h'.proc.trans h.proc, h'.saved.trans h.saved, ?_⟩
  rcases h'.state with hs | ⟨hb, hr⟩
  · rw [hs]
    exact h.state
  · rcases h.state with hs' | ⟨_, hr'⟩
    · exact .inr ⟨hs'.symm.trans hb, hr⟩
    · rw [hr'] at hb
      cases hb

theorem Woken.live {c c' : ThreadCtl} (h : Woken c c') : c'.state = .free ↔ c.state = .free := by
  rcases h.state with hs | ⟨hb, hr⟩
  · rw [hs]
  · simp only [hb, hr, reduceCtorEq]

theorem Woken.canRun {c c' : ThreadCtl} (h : Woken c c') (hc : c.state.canRun = true) :
    c'.state.canRun = true := by
  rcases h.state with hs | ⟨_, hr⟩
  · rwa [hs]
  · rw [hr]
    rfl

namespace Calm

variable {s s' s'' : Runtime}

theorem refl (s : Runtime) : Calm s s :=
  ⟨rfl, rfl, rfl, rfl, rfl, fun _ => rfl, fun _ => rfl, fun _ => rfl, fun _ => Iff.rfl,
    fun h => ⟨h, id⟩, fun _ h => .inl h⟩

theorem trans (h : Calm s s') (h' : Calm s' s'') : Calm s s'' where
  current := h'.current.trans h.current
  currentProc := h'.currentProc.trans h.currentProc
  nextPid := h'.nextPid.trans h.nextPid
  log := h'.log.trans h.log
  sstatus := h'.sstatus.trans h.sstatus
  kin p := (h'.kin p).trans (h.kin p)
  proc t := (h'.proc t).trans (h.proc t)
  saved t := (h'.saved t).trans (h.saved t)
  live t := (h'.live t).trans (h.live t)
  run hn := by
    obtain ⟨hn', hr'⟩ := h'.run hn
    obtain ⟨hn'', hr⟩ := h.run hn'
    rw [h.current] at hr'
    exact ⟨hn'', fun hc => hr' (hr hc)⟩
  target t ht := by
    rcases h'.target t ht with ht' | hl
    · rcases h.target t ht' with hs | hl
      · exact .inl hs
      · exact .inr (mt (h'.live t).mp hl)
    · exact .inr hl

theorem live_current (h : Calm s s') (hs : (s.threads s.current).state ≠ .free) :
    (s'.threads s'.current).state ≠ .free := by
  rw [h.current, ne_eq, h.live]
  exact hs

/-- Memory, frames, timers and the like may change freely. -/
theorem of_tables (threads : s'.threads = s.threads) (procs : ∀ p, (s'.procs p).kin = (s.procs p).kin)
    (current : s'.current = s.current) (currentProc : s'.currentProc = s.currentProc)
    (nextPid : s'.nextPid = s.nextPid) (log : s'.log = s.log) (sstatus : s'.sstatus = s.sstatus)
    (pending : s'.pendingTarget = s.pendingTarget) : Calm s s' := by
  constructor
  all_goals try assumption
  · intro t
    rw [threads]
  · intro t
    rw [threads]
  · intro t
    rw [threads]
  · intro h
    rw [pending] at h
    rw [threads]
    exact ⟨h, id⟩
  · intro t ht
    rw [pending] at ht
    exact .inl ht

/-- So may the threads, by wakes. -/
theorem of_woken {threads : ThreadId → ThreadCtl} (h : ∀ t, Woken (s.threads t) (threads t)) :
    Calm s { s with threads := threads } where
  current := rfl
  currentProc := rfl
  nextPid := rfl
  log := rfl
  sstatus := rfl
  kin _ := rfl
  proc t := (h t).proc
  saved t := (h t).saved
  live t := (h t).live
  run hn := ⟨hn, (h s.current).canRun⟩
  target _ ht := .inl ht

theorem mem (m : ByteMem.Mem) : Calm s { s with mem := m } :=
  of_tables rfl (fun _ => rfl) rfl rfl rfl rfl rfl rfl

theorem timers (t : ThreadId → Timer) : Calm s { s with timers := t } :=
  of_tables rfl (fun _ => rfl) rfl rfl rfl rfl rfl rfl

theorem setGprs (g : TrapGprs) : Calm s (s.setGprs g) := of_tables rfl (fun _ => rfl) rfl rfl rfl rfl rfl rfl

theorem setProc {p : ProcSlot} {f : ProcCtl → ProcCtl} (hf : ∀ c, (f c).kin = c.kin) :
    Calm s (s.setProc p f) := by
  apply of_tables
  case procs =>
    intro q
    simp only [Runtime.setProc]
    by_cases hq : q = p
    · subst hq
      rw [Function.update_self, hf]
    · rw [Function.update_of_ne hq]
  all_goals rfl

theorem setCurrentSig (st : SigState) : Calm s (s.setCurrentSig st) := setProc fun _ => rfl

/-- A field of one control block that says nothing about its state. -/
theorem setThread {t : ThreadId} {f : ThreadCtl → ThreadCtl} (hf : ∀ c, Woken c (f c)) :
    Calm s (s.setThread t f) := by
  apply of_woken
  intro u
  by_cases hu : u = t
  · subst hu
    rw [Function.update_self]
    exact hf _
  · rw [Function.update_of_ne hu]
    exact Woken.refl _

/-- A switch to a thread that exists may be registered at any time. -/
theorem setPending {t : ThreadId} (ht : (s.threads t).state ≠ .free) :
    Calm s { s with pendingTarget := some t } :=
  ⟨rfl, rfl, rfl, rfl, rfl, fun _ => rfl, fun _ => rfl, fun _ => rfl, fun _ => Iff.rfl,
    fun h => absurd h (Option.some_ne_none t), fun _ h => .inr (Option.some.inj h ▸ ht)⟩

end Calm

theorem Calm.withPending {s s' : Runtime} (h : Calm s s') (t : ThreadId) :
    Calm { s with pendingTarget := some t } { s' with pendingTarget := some t } :=
  ⟨h.current, h.currentProc, h.nextPid, h.log, h.sstatus, h.kin, h.proc, h.saved, h.live,
    fun hn => absurd hn (Option.some_ne_none t), fun _ ht => .inl ht⟩

/-! ## Wakes -/

namespace Runtime

variable {s : Runtime}

theorem woken_makeRunnable {c : ThreadCtl} (h : c.state = .blocked) : Woken c c.makeRunnable :=
  ⟨rfl, rfl, .inr ⟨h, rfl⟩⟩

theorem wakeBlocked_calm (addr nr : Word) : Calm s (s.wakeBlocked addr nr).1 := by
  apply Calm.of_woken
  intro t
  have ht := wakeBlocked_threads (s := s) addr nr t
  simp only [wakeBlocked] at ht
  rw [ht]
  split_ifs with hm
  · have hb := mem_waiters.mp (List.mem_of_mem_take hm)
    exact woken_makeRunnable (of_decide_eq_true hb).1
  · exact Woken.refl _

theorem requeueBlocked_calm (addr nrWake nrRequeue target : Word) :
    Calm s (s.requeueBlocked addr nrWake nrRequeue target).1 := by
  apply (wakeBlocked_calm addr nrWake).trans
  apply Calm.of_woken
  intro t
  rw [sweep_apply (List.nodup_finRange 32)]
  split_ifs
  · exact ⟨rfl, rfl, .inl rfl⟩
  · exact Woken.refl _

theorem wakeProcess_calm (p : ProcSlot) : Calm s (s.wakeProcess p) := by
  apply Calm.of_woken
  intro t
  split_ifs with h
  · exact woken_makeRunnable h.1
  · exact Woken.refl _

theorem wakeThread_calm (t : ThreadId) : Calm s (s.wakeThread t).1 := by
  simp only [wakeThread]
  split_ifs with h
  · apply Calm.of_woken
    intro u
    by_cases hu : u = t
    · subst hu
      rw [Function.update_self]
      exact woken_makeRunnable (of_decide_eq_true h)
    · rw [Function.update_of_ne hu]
      exact Woken.refl _
  · exact Calm.refl s

theorem elapseDue_calm {now : Word} {s' : Runtime} {t : ThreadId} (h : s.elapseDue now = some (s', t)) :
    Calm s s' := by
  rw [elapseDue, Option.map_eq_some_iff] at h
  obtain ⟨u, _, he⟩ := h
  obtain rfl := congrArg Prod.fst he
  exact Calm.timers _

theorem elapseAll_calm (now : Word) (n : Nat) (s : Runtime) (woken : Bool) :
    Calm s (elapseAll now n s woken).1 := by
  induction n generalizing s woken with
  | zero => exact Calm.refl s
  | succ n ih =>
    rw [elapseAll]
    split
    · exact Calm.refl s
    · rename_i s' t hd
      exact ((elapseDue_calm hd).trans (wakeThread_calm t)).trans (ih _ _)

theorem pickSwitchTarget_calm (now : Word) (after : ThreadId) :
    Calm s (s.pickSwitchTarget now after).1 := by
  rw [pickSwitchTarget]
  split
  · exact Calm.refl s
  · exact elapseAll_calm now 32 s false

theorem nextRunnable_live {after next : ThreadId} (h : s.nextRunnable after = some next) :
    (s.threads next).state ≠ .free := by
  have hr : (s.threads next).state = .runnable := of_decide_eq_true (findBehind_some h).2
  rw [hr]
  exact ThreadState.noConfusion

theorem pickSwitchTarget_live {now : Word} {after next : ThreadId} {s' : Runtime}
    (h : s.pickSwitchTarget now after = (s', some next)) : (s'.threads next).state ≠ .free := by
  rw [pickSwitchTarget] at h
  split at h
  · rename_i n hn
    obtain ⟨rfl, he⟩ := Prod.mk.inj h
    obtain rfl := Option.some.inj he
    exact nextRunnable_live hn
  · obtain ⟨rfl, he⟩ := Prod.mk.inj h
    split_ifs at he
    exact nextRunnable_live he

theorem schedYieldCurrent_calm : Calm s s.schedYieldCurrent := by
  rw [schedYieldCurrent]
  split
  · rename_i next hn
    exact Calm.setPending (nextRunnable_live hn)
  · exact Calm.refl s

theorem checkPendingNetEvent_calm (env : Env) : Calm s (s.checkPendingNetEvent env) := by
  have hfold : ∀ (l : List Word) (s : Runtime),
      Calm s (l.foldl (fun s i => (s.wakeBlocked (recvWaitAddr i) (BitVec.allOnes 64)).1) s) := by
    intro l
    induction l with
    | nil => exact Calm.refl
    | cons i l ih => exact fun s => (wakeBlocked_calm _ _).trans (ih _)
  rw [checkPendingNetEvent]
  split_ifs
  · exact Calm.refl s
  · have hflag : Calm s { s with isNetEventPending := false } :=
      Calm.of_tables rfl (fun _ => rfl) rfl rfl rfl rfl rfl rfl
    exact (hflag.trans (hfold _ _)).trans (wakeBlocked_calm _ _)

/-! ## Waiting -/

theorem wakeThread_woken (t u : ThreadId) : Woken (s.threads u) ((s.wakeThread t).1.threads u) := by
  simp only [wakeThread]
  split_ifs with h
  · by_cases hu : u = t
    · subst hu
      simp only [setThread, Function.update_self]
      exact woken_makeRunnable (of_decide_eq_true h)
    · simp only [setThread, Function.update_of_ne hu]
      exact Woken.refl _
  · exact Woken.refl _

/-- A thread that sleeps or was woken already can run after a wake. -/
theorem wakeThread_state {t : ThreadId}
    (h : (s.threads t).state = .blocked ∨ (s.threads t).state = .runnable) :
    ((s.wakeThread t).1.threads t).state = .runnable := by
  rw [wakeThread]
  rcases h with hb | hr
  · rw [if_pos (show s.isBlocked t = true from decide_eq_true hb)]
    simp only [setThread, Function.update_self, ThreadCtl.makeRunnable]
  · rw [if_neg (by simp [isBlocked, hr])]
    exact hr

theorem elapseDue_threads {now : Word} {s' : Runtime} {t : ThreadId}
    (h : s.elapseDue now = some (s', t)) : s'.threads = s.threads := by
  rw [elapseDue, Option.map_eq_some_iff] at h
  obtain ⟨u, _, he⟩ := h
  obtain rfl := congrArg Prod.fst he
  rfl

theorem elapseAll_woken (now : Word) (n : Nat) (s : Runtime) (woken : Bool) (u : ThreadId) :
    Woken (s.threads u) ((elapseAll now n s woken).1.threads u) := by
  induction n generalizing s woken with
  | zero => exact Woken.refl _
  | succ n ih =>
    rw [elapseAll]
    split
    · exact Woken.refl _
    · rename_i s' t hd
      have hw := wakeThread_woken (s := s') t u
      rw [elapseDue_threads hd] at hw
      exact hw.trans (ih _ _)

theorem pickSwitchTarget_woken (now : Word) (after u : ThreadId) :
    Woken (s.threads u) ((s.pickSwitchTarget now after).1.threads u) := by
  rw [pickSwitchTarget]
  split
  · exact Woken.refl _
  · exact elapseAll_woken now 32 s false u

/-- The loop ends with a successor chosen, or with the thread awake. -/
theorem blockLoop_spec {spins : List (Word × Word)} {s' : Runtime}
    (h : blockLoop s spins = some s')
    (hs : (s.threads s.current).state = .blocked ∨ (s.threads s.current).state = .runnable) :
    Calm s s' ∧ (s'.pendingTarget = none → (s'.threads s.current).state = .runnable) := by
  induction spins generalizing s with
  | nil => cases h
  | cons spin spins ih =>
    rw [blockLoop] at h
    split_ifs at h with hb
    · have hcalm := pickSwitchTarget_calm (s := s) spin.1 s.current
      have hw := pickSwitchTarget_woken (s := s) spin.1 s.current s.current
      have hs' : ((s.pickSwitchTarget spin.1 s.current).1.threads s.current).state = .blocked ∨
          ((s.pickSwitchTarget spin.1 s.current).1.threads s.current).state = .runnable := by
        rcases hw.state with he | ⟨_, hr⟩
        · rwa [he]
        · exact .inr hr
      split at h
      · rename_i x next hpick
        rw [hpick] at hcalm
        obtain rfl := Option.some.inj h
        refine ⟨hcalm.trans (Calm.setPending (pickSwitchTarget_live hpick)), fun hn => ?_⟩
        exact absurd hn (Option.some_ne_none next)
      · rename_i x hpick
        rw [hpick] at hcalm hs'
        have hcur : x.current = s.current := hcalm.current
        split_ifs at h with hexp
        · obtain rfl := Option.some.inj h
          refine ⟨hcalm.trans (wakeThread_calm _), fun _ => ?_⟩
          rw [hcur]
          exact wakeThread_state hs'
        · rw [← hcur] at hs'
          obtain ⟨hc, hn⟩ := ih h hs'
          rw [hcur] at hn
          exact ⟨hcalm.trans hc, hn⟩
    · obtain rfl := Option.some.inj h
      refine ⟨Calm.refl s, fun _ => ?_⟩
      rcases hs with hs | hs
      · exact absurd (decide_eq_true hs) hb
      · exact hs

/-- A live thread that blocks either leaves the hart to a successor or comes back awake. -/
theorem blockCurrent_calm {addr : Word} {spins : List (Word × Word)} {s' : Runtime}
    (h : s.blockCurrent addr spins = some s') (hs : (s.threads s.current).state ≠ .free) :
    Calm s s' := by
  have hself : ((s.setThread s.current fun ctl =>
      { ctl with state := .blocked, waitAddr := addr }).threads s.current).state = .blocked := by
    simp only [setThread, Function.update_self]
  obtain ⟨hc, hn⟩ := blockLoop_spec h (.inl hself)
  have hother : ∀ t, t ≠ s.current → (s.setThread s.current fun ctl =>
      { ctl with state := .blocked, waitAddr := addr }).threads t = s.threads t := by
    intro t ht
    simp only [setThread, Function.update_of_ne ht]
  constructor
  case current => exact hc.current
  case currentProc => exact hc.currentProc
  case nextPid => exact hc.nextPid
  case log => exact hc.log
  case sstatus => exact hc.sstatus
  case kin => exact hc.kin
  case proc =>
    intro t
    rw [hc.proc t]
    by_cases ht : t = s.current
    · subst ht
      simp only [setThread, Function.update_self]
    · rw [hother t ht]
  case saved =>
    intro t
    rw [hc.saved t]
    by_cases ht : t = s.current
    · subst ht
      simp only [setThread, Function.update_self]
    · rw [hother t ht]
  case live =>
    intro t
    rw [hc.live t]
    by_cases ht : t = s.current
    · subst ht
      simp only [hself, reduceCtorEq, hs]
    · rw [hother t ht]
  case run =>
    intro hp
    refine ⟨(hc.run hp).1, fun _ => ?_⟩
    rw [show (s'.threads s.current).state = .runnable from hn hp]
    rfl
  case target => exact hc.target

/-- A waiting call ends in a round of its own test, or asks for its repetition. -/
theorem waitLoop_cases {addr : Word} {check : Runtime → Round → Option (Runtime × Word)}
    (rounds : List Round) {s' : Runtime} {v : Word} (h : waitLoop addr check rounds s = some (s', v))
    (hs : (s.threads s.current).state ≠ .free) :
    (∃ x r, Calm s x ∧ check x r = some (s', v)) ∨
      Calm s s' ∧ v = 0 ∧ s'.isRestartRequested = true ∧ s'.pendingTarget.isSome = true := by
  induction rounds generalizing s with
  | nil => cases h
  | cons r rounds ih =>
    rw [waitLoop] at h
    split at h
    · rename_i res hres
      obtain rfl := Option.some.inj h
      exact .inl ⟨s, r, Calm.refl s, hres⟩
    · split at h
      · cases h
      · rename_i x hx
        have hc := blockCurrent_calm hx hs
        split_ifs at h with hp
        · obtain ⟨rfl, rfl⟩ := Prod.mk.inj (Option.some.inj h)
          have hflag : Calm x { x with isRestartRequested := true } :=
            Calm.of_tables rfl (fun _ => rfl) rfl rfl rfl rfl rfl rfl
          exact .inr ⟨hc.trans hflag, rfl, rfl, hp⟩
        · rcases ih h (hc.live_current hs) with ⟨y, q, hy, he⟩ | ⟨hy, he⟩
          · exact .inl ⟨y, q, hc.trans hy, he⟩
          · exact .inr ⟨hc.trans hy, he⟩

/-- A waiting call is calm when its test is. -/
theorem waitLoop_calm {addr : Word} {check : Runtime → Round → Option (Runtime × Word)}
    (hcheck : ∀ x r y v, check x r = some (y, v) → Calm x y) {rounds : List Round} {s' : Runtime}
    {v : Word} (h : waitLoop addr check rounds s = some (s', v))
    (hs : (s.threads s.current).state ≠ .free) : Calm s s' := by
  rcases waitLoop_cases rounds h hs with ⟨x, r, hx, he⟩ | ⟨hc, _⟩
  · exact hx.trans (hcheck x r s' v he)
  · exact hc

/-! ## Handlers -/

theorem storeUserU32_calm (addr val : Word) : Calm s (s.storeUserU32 addr val) := Calm.mem _

theorem armWaitTimer_calm (now nsec : Word) : Calm s (s.armWaitTimer now nsec) := by
  rw [armWaitTimer]
  split_ifs
  · exact Calm.refl s
  · exact Calm.timers _

variable {s' : Runtime} {v : Word} {env : Env}

theorem nanosleep_calm {req : Word} (h : s.nanosleep env req = some (s', v))
    (hs : (s.threads s.current).state ≠ .free) : Calm s s' := by
  rw [nanosleep] at h
  split_ifs at h
  · obtain ⟨rfl, _⟩ := Prod.mk.inj (Option.some.inj h)
    exact Calm.refl s
  · split at h
    · obtain ⟨rfl, _⟩ := Prod.mk.inj (Option.some.inj h)
      exact Calm.refl s
    · have ha := armWaitTimer_calm (s := s) env.now ‹_›
      apply ha.trans
      apply waitLoop_calm _ h (ha.live_current hs)
      intro x r y v hxy
      split_ifs at hxy
      obtain ⟨rfl, _⟩ := Prod.mk.inj (Option.some.inj hxy)
      exact Calm.timers _

theorem ppoll_calm {fds nfds timeout : Word} (h : s.ppoll env fds nfds timeout = some (s', v))
    (hs : (s.threads s.current).state ≠ .free) : Calm s s' := by
  have hwait : ∀ x, Calm s x → waitLoop POLL_WAIT_ADDR (fun s r =>
      if r.ready ≠ 0 then some (s.resetTimer s.current, r.ready)
      else if s.isExpired r.now s.current then some (s.resetTimer s.current, 0)
      else none) env.rounds x = some (s', v) → Calm s s' := by
    intro x hx hloop
    apply hx.trans
    apply waitLoop_calm _ hloop (hx.live_current hs)
    intro x r y v hxy
    split_ifs at hxy
    all_goals
      obtain ⟨rfl, _⟩ := Prod.mk.inj (Option.some.inj hxy)
      exact Calm.timers _
  rw [ppoll] at h
  split at h
  · obtain ⟨rfl, _⟩ := Prod.mk.inj (Option.some.inj h)
    exact Calm.refl s
  · split at h
    · obtain ⟨rfl, _⟩ := Prod.mk.inj (Option.some.inj h)
      exact Calm.refl s
    · split at h
      · obtain ⟨rfl, _⟩ := Prod.mk.inj (Option.some.inj h)
        exact Calm.refl s
      · rename_i limit _
        cases limit with
        | none => exact hwait s (Calm.refl s) h
        | some nsec => exact hwait _ (armWaitTimer_calm env.now nsec) h

theorem recv_calm (h : s.recv env = some (s', v)) (hs : (s.threads s.current).state ≠ .free) :
    Calm s s' := by
  rw [recv] at h
  split at h
  · obtain ⟨rfl, _⟩ := Prod.mk.inj (Option.some.inj h)
    exact Calm.refl s
  · apply waitLoop_calm _ h hs
    intro x r y v hxy
    split_ifs at hxy
    obtain ⟨rfl, _⟩ := Prod.mk.inj (Option.some.inj hxy)
    exact Calm.refl x

theorem futex_calm {uaddr op val arg3 uaddr2 : Word}
    (h : s.futex env uaddr op val arg3 uaddr2 = some (s', v))
    (hs : (s.threads s.current).state ≠ .free) : Calm s s' := by
  rw [futex] at h
  split at h
  · rw [futexWait] at h
    split_ifs at h
    · obtain ⟨rfl, _⟩ := Prod.mk.inj (Option.some.inj h)
      exact Calm.refl s
    · obtain ⟨rfl, _⟩ := Prod.mk.inj (Option.some.inj h)
      exact Calm.refl s
    · rw [Option.map_eq_some_iff] at h
      obtain ⟨x, hx, he⟩ := h
      obtain ⟨rfl, _⟩ := Prod.mk.inj he
      exact blockCurrent_calm hx hs
  · obtain ⟨rfl, _⟩ := Prod.mk.inj (Option.some.inj h)
    exact wakeBlocked_calm uaddr val
  · obtain ⟨rfl, _⟩ := Prod.mk.inj (Option.some.inj h)
    exact requeueBlocked_calm uaddr val arg3 uaddr2
  · obtain ⟨rfl, _⟩ := Prod.mk.inj (Option.some.inj h)
    exact Calm.refl s

theorem kill_calm (pid sig : Word) : Calm s (s.kill pid sig).1 := by
  have hpost : ∀ p, Calm s (s.setProc p fun c =>
      { c with sig := c.sig.post (Fin.ofNat 32 sig.toNat) }) := fun p => Calm.setProc fun _ => rfl
  rw [kill]
  split_ifs
  · exact Calm.refl s
  · exact Calm.refl s
  · exact hpost _
  · split
    · exact Calm.refl s
    · rename_i p _
      dsimp only
      split_ifs
      · exact hpost p
      · exact (hpost p).trans (wakeProcess_calm p)

theorem sigaction_calm (sig newAction oldAction : Word) :
    Calm s (s.sigaction sig newAction oldAction).1 := by
  rw [sigaction]
  split_ifs
  · exact Calm.refl s
  · exact Calm.refl s
  · exact Calm.setCurrentSig _
  · exact Calm.mem _
  · exact (Calm.mem _).trans (Calm.setCurrentSig _)

theorem sigprocmask_calm (how set oldset sigsetsize : Word) :
    Calm s (s.sigprocmask how set oldset sigsetsize).1 := by
  have hset : ∀ (m : ByteMem.Mem) (st : SigState), Calm s ({ s with mem := m }.setCurrentSig st) :=
    fun m st => (Calm.mem m).trans (Calm.setCurrentSig st)
  rw [sigprocmask]
  dsimp only
  split
  · exact Calm.refl s
  · split
    · split
      · exact hset _ _
      · exact Calm.setCurrentSig _
    · split
      · exact Calm.mem _
      · exact Calm.refl s

theorem setitimer_calm (now which newValue oldValue : Word) :
    Calm s (s.setitimer now which newValue oldValue).1 := by
  have hkin : ∀ (value interval : Word) (c : ProcCtl),
      (if value = 0 then { c with itimerNext := 0, itimerInterval := 0 }
        else { c with itimerNext := now + value, itimerInterval := interval }).kin = c.kin := by
    intro value interval c
    split_ifs <;> rfl
  rw [setitimer]
  dsimp only
  split
  · split
    · exact Calm.refl s
    · exact Calm.mem _
  · split
    · exact Calm.setProc (hkin _ _)
    · exact (Calm.mem _).trans (Calm.setProc (hkin _ _))

theorem tickProc_calm (now : Word) (p : ProcSlot) : Calm s (tickProc now s p) := by
  rw [tickProc]
  split_ifs
  · exact Calm.refl s
  · apply Calm.trans _ (wakeProcess_calm p)
    exact Calm.setProc fun _ => rfl

theorem tick_calm (now : Word) : Calm s (s.tick now) := by
  have hfold : ∀ (l : List ProcSlot) (s : Runtime), Calm s (l.foldl (tickProc now) s) := by
    intro l
    induction l with
    | nil => exact Calm.refl
    | cons p l ih => exact fun s => (tickProc_calm now p).trans (ih _)
  exact hfold _ s

theorem buildFrame_calm (sig : Fin 32) (handler sepc : Word) :
    Calm s (s.buildFrame sig handler sepc).1 :=
  ((Calm.mem _).trans (Calm.setCurrentSig _)).trans (Calm.setGprs _)

end Runtime

end Pyremu.Sittim
