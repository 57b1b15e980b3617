import Pyremu.Sittim.Steps
import Pyremu.Sittim.Family
import Pyremu.Lib.FirstMatch
import Pyremu.Lib.Run
import Mathlib.Order.WellFounded

/-!
# Reaping children

The tables of the runtime keep a family, so `wait4` may be read as a question
about the history: which processes did the caller create, which of them have
ended, and which have been reaped. The scan looks at slots instead. It answers
the question exactly when the entry it meets first is the caller's own, and
some own entry is asked for whenever an entry names the caller's slot.
-/

namespace Pyremu.Sittim

open ByteMem (readLe writeLe)

namespace Runtime

variable {s s' : Runtime}

/-! ## Handlers as operations on the family -/

theorem family_pending (t : Option ThreadId) : { s with pendingTarget := t }.family = s.family := rfl

theorem family_owner_some {t : ThreadId} {p : ProcSlot} :
    s.family.owner t = some p ↔ (s.threads t).state ≠ .free ∧ (s.threads t).proc = p := by
  simp only [family]
  split_ifs with h
  · simp [h]
  · simp [h]

theorem family_thread {t : ThreadId} {c : ThreadCtl} (hc : c.state = .runnable) (o : Option ThreadId) :
    { s with threads := Function.update s.threads t c, pendingTarget := o }.family =
      s.family.spawn t c.proc := by
  rw [family, Family.spawn, Family.mk.injEq]
  refine ⟨rfl, rfl, rfl, ?_⟩
  funext u
  by_cases hu : u = t
  · subst hu
    simp only [Function.update_self, hc, reduceCtorEq, if_false]
  · simp only [Function.update_of_ne hu, family]

theorem family_fork {t : ThreadId} {c : ThreadCtl} {p : ProcSlot} {k : ProcCtl} (hc : c.state = .runnable)
    (hp : c.proc = p) (hk : k.kin = forkKin s) (o : Option ThreadId) :
    { s with
      threads := Function.update s.threads t c
      procs := Function.update s.procs p k
      nextPid := s.nextPid + 1
      pendingTarget := o
      log := .created (s.procs s.currentProc).pid s.nextPid :: s.log }.family =
      s.family.fork s.currentProc p t := by
  rw [family, Family.fork, Family.mk.injEq]
  refine ⟨?_, rfl, rfl, ?_⟩
  · funext q
    by_cases hq : q = p
    · subst hq
      simp only [Function.update_self, hk]
      rfl
    · simp only [Function.update_of_ne hq, family]
  · funext u
    by_cases hu : u = t
    · subst hu
      simp only [Function.update_self, hc, hp, reduceCtorEq, if_false]
    · simp only [Function.update_of_ne hu, family]

theorem family_reap (p : ProcSlot) :
    { s with
      procs := Function.update s.procs p { s.procs p with used := false }
      log := .reaped (s.procs p).pid :: s.log }.family = s.family.reap p := by
  rw [family, Family.reap, Family.mk.injEq]
  refine ⟨?_, rfl, rfl, rfl⟩
  funext q
  by_cases hq : q = p
  · subst hq
    simp only [Function.update_self]
    rfl
  · simp only [Function.update_of_ne hq, family]

theorem family_exited (p : ProcSlot) (code : Word) : (s.exited p code).family = s.family.exit p code := by
  rw [(exited_calm p code).family, family, Family.exit, Family.mk.injEq]
  refine ⟨?_, markExited_log p code, rfl, ?_⟩
  · funext q
    rw [markExited_kin]
    by_cases hq : q = p
    · subst hq
      rw [if_pos rfl, Function.update_self]
      rfl
    · rw [if_neg hq, Function.update_of_ne hq]
      rfl
  · funext t
    rw [markExited_threads]
    by_cases hl : s.isLiveThreadOf t p = true
    · rw [if_pos hl, if_pos (family_owner_some.mpr (of_decide_eq_true hl))]
      rfl
    · rw [if_neg hl, if_neg fun ho => hl (decide_eq_true (family_owner_some.mp ho))]
      rfl

theorem family_leftThread : s.leftThread.family = s.family.leave s.current := by
  have hcalm : ∀ x : Runtime, Calm s x → (x.releaseSlot s.current).family = s.family.leave s.current := by
    intro x hx
    rw [← hx.family, family, Family.leave, Family.mk.injEq]
    refine ⟨rfl, rfl, rfl, ?_⟩
    funext t
    by_cases ht : t = s.current
    · subst ht
      simp only [releaseSlot, resetTimer, setThread, Function.update_self]
      rfl
    · simp only [releaseSlot, resetTimer, setThread, Function.update_of_ne ht, family]
  rw [leftThread]
  split_ifs
  · exact hcalm s (Calm.refl s)
  · exact hcalm _ ((storeUserU32_calm _ _).trans (wakeBlocked_calm _ _))

/-- A switch changes who runs, not who there is. -/
theorem InKernel.family_lastly (h : s.InKernel) (next : Word) : (s.lastly next).family = s.family := by
  cases hp : s.pendingTarget with
  | none =>
    rw [lastly_none hp]
    rfl
  | some target =>
    have hsaved : ∀ t, (((s.saveCurrent next).threads t).state = .free ↔ (s.threads t).state = .free) ∧
        ((s.saveCurrent next).threads t).proc = (s.threads t).proc := by
      intro t
      rw [saveCurrent_threads]
      by_cases hr : (s.threads t).state = .running
      · split_ifs <;> simp [hr]
      · split_ifs <;> simp
    obtain ⟨hpid, hlog, hkin⟩ := switchTo_rest (s := s.saveCurrent next) target
    rw [lastly_some hp, family, family, Family.mk.injEq, hpid, hlog, saveCurrent_rest]
    refine ⟨?_, rfl, rfl, ?_⟩
    · funext q
      rw [← saveCurrent_rest, hkin, saveCurrent_rest]
    funext t
    rw [switchTo_threads]
    by_cases ht : t = target
    · subst ht
      have hl := h.target t hp
      simp only [if_true, reduceCtorEq, if_false, hl, (hsaved t).2]
    · simp only [if_neg ht, (hsaved t).1, (hsaved t).2]

/-! ## The current process -/

/-- The current process is in the table and has not ended. -/
def CurrentLives (s : Runtime) : Prop :=
  (s.family.kin s.currentProc).used = true ∧ (s.family.kin s.currentProc).exited = false

/-- The current process has nothing left that could end it again in this trap. -/
structure Spent (s : Runtime) : Prop where
  pending : s.currentSig.pending = 0
  resume : (s.threads s.current).trapResume = .none

theorem CurrentLives.calm (h : s.CurrentLives) (hc : Calm s s') : s'.CurrentLives := by
  rw [CurrentLives, hc.family, hc.currentProc]
  exact h

theorem AtUser.owner (h : s.AtUser) : s.family.owner s.current = some s.currentProc :=
  family_owner_some.mpr ⟨h.ne_free, h.proc⟩

theorem AtUser.currentLives (h : s.AtUser) (hf : s.family.Ok) : s.CurrentLives := hf.owner _ _ h.owner

theorem exited_procs (p : ProcSlot) (code : Word) : (s.exited p code).procs = (s.markExited p code).procs := by
  rw [exited]
  split <;> rfl

theorem exited_trapResume {p : ProcSlot} {code : Word} {t : ThreadId} (h : s.isLiveThreadOf t p = true) :
    ((s.exited p code).threads t).trapResume = .none := by
  have hm : ((s.markExited p code).threads t).trapResume = .none := by
    rw [markExited_threads, if_pos h]
    rfl
  rw [exited]
  split
  · rw [wakeBlocked_threads]
    split_ifs
    · exact hm
    · exact hm
  · exact hm

/-- An exit from user code leaves nothing pending and no call to abandon. -/
theorem AtUser.exited_spent (h : s.AtUser) (code : Word) (next : ThreadId) :
    Spent { s.exited s.currentProc code with pendingTarget := some next } := by
  have hcur : (s.exited s.currentProc code).current = s.current := exited_current _ _
  have hproc : (s.exited s.currentProc code).currentProc = s.currentProc := (exited_calm _ _).currentProc
  constructor
  · simp only [currentSig, hproc, exited_procs]
    simp only [markExited, freeProcessThreads, setProc, Function.update_self]
    rfl
  · simp only [hcur]
    exact exited_trapResume (decide_eq_true ⟨h.ne_free, h.proc⟩)

/-- What a handler does to the family, and where it leaves the current process. -/
theorem AtUser.did_family (h : s.AtUser) (hf : s.family.Ok) (hsmall : s.nextPid.toNat + 1 < 2 ^ 63)
    (hd : Did s s') : Family.Step s.family s'.family ∧ (s'.CurrentLives ∨ s'.Spent) := by
  have hlives := h.currentLives hf
  cases hd with
  | calm hc => exact ⟨hc.family ▸ .stay, .inl (hlives.calm hc)⟩
  | status _ hc => exact ⟨hc.family ▸ .stay, .inl (CurrentLives.calm (s := s.writeSstatus _) hlives hc)⟩
  | thread t c free state proc saved hc =>
    have hfam := hc.family
    rw [family_thread state, proc, h.proc] at hfam
    refine ⟨hfam ▸ .spawn t _ hlives, .inl ?_⟩
    rw [CurrentLives, hfam, hc.currentProc]
    exact hlives
  | fork t c p k free unused state proc saved kin hc =>
    have hne : s.currentProc ≠ p := by
      rintro rfl
      rw [show (s.procs s.currentProc).used = true from hlives.1] at unused
      cases unused
    have hfam := hc.family
    rw [family_fork state proc kin] at hfam
    refine ⟨hfam ▸ .fork _ p t hlives.1 unused hsmall, .inl ?_⟩
    rw [CurrentLives, hfam, hc.currentProc]
    simp only [Family.fork, Function.update_of_ne hne]
    exact hlives
  | reap p hx child dead hc =>
    rename_i x
    have hchild : (x.family.kin p).used = true ∧ (x.family.kin p).parent = some x.currentProc := by
      rw [isChild, Bool.and_eq_true, decide_eq_true_eq] at child
      exact child
    have hfx : x.family.Ok := hx.family ▸ hf
    have hp : p ≠ 0 := by
      rintro rfl
      have hb := hfx.boot.2.2
      rw [hchild.2] at hb
      cases hb
    have hne : x.currentProc ≠ p := by
      rintro rfl
      have hl := (hlives.calm hx).2
      rw [show (x.family.kin x.currentProc).exited = true from dead] at hl
      cases hl
    have hfam := hc.family
    rw [family_reap] at hfam
    refine ⟨?_, .inl ?_⟩
    · rw [hfam, ← hx.family]
      exact .reap p hp hchild.1 dead
    · rw [CurrentLives, hfam, hc.currentProc]
      simp only [Family.reap, Function.update_of_ne hne]
      exact hlives.calm hx
  | exit p code hp own next hn he =>
    obtain rfl : p = s.currentProc := own.elim id fun ho => ho.trans h.proc
    subst he
    refine ⟨?_, .inr (h.exited_spent code next)⟩
    show Family.Step s.family (s.exited s.currentProc code).family
    rw [family_exited]
    exact .exit _ code hp hlives.1 hlives.2
  | leftThread next hn more he =>
    subst he
    have hproc : s.leftThread.currentProc = s.currentProc := by
      rw [leftThread]
      split_ifs <;> rfl
    refine ⟨?_, .inl ?_⟩
    · show Family.Step s.family s.leftThread.family
      rw [family_leftThread]
      exact .leave s.current
    · rw [CurrentLives, family_pending, family_leftThread]
      simp only [hproc, Family.leave]
      exact hlives

/-- A process that has not ended may end by a signal. -/
theorem CurrentLives.exits (h : s.CurrentLives) (he : CurrentExits s s') :
    Family.Step s.family s'.family := by
  obtain ⟨code, next, hp, _, rfl⟩ := he
  show Family.Step s.family (s.exited s.currentProc code).family
  rw [family_exited]
  exact .exit _ code hp h.1 h.2

theorem deliverPending_of_none {resume : Word} (h : s.currentSig.pending = 0) :
    s.deliverPending resume = .returned s resume := by
  have hnone : s.currentSig.takePending = none := by
    rw [SigState.takePending, Option.map_eq_none_iff, List.find?_eq_none]
    intro sig _
    simp [h]
  rw [deliverPending, hnone]

end Runtime

/-! ## Every state of a run -/

/-- In the middle of a trap the current process lives, or is beyond another end. -/
def Machine.Midway (m : Machine) : Prop :=
  match m.phase with
  | .handled _ _ => m.rt.CurrentLives ∨ m.rt.Spent
  | .deliver _ => m.rt.CurrentLives ∨ m.rt.currentSig.pending = 0
  | _ => True

/-- A machine that goes on is one step of the family away. -/
def Machine.Follows (f : Family) (m : Machine) : Prop :=
  m.phase.isLive = true → Family.Step f m.rt.family ∧ m.Midway

/-- The invariant of a run: threads in order, and tables that agree with the history. -/
structure Machine.Kept (m : Machine) : Prop where
  sound : m.Sound
  family : m.phase.isLive = true → m.rt.family.Ok
  midway : m.phase.isLive = true → m.Midway

theorem Ending.machine_follows {e : Ending} {next : Word → Phase} {f : Family}
    (h : ∀ s ret, e = .returned s ret → (⟨next ret, s⟩ : Machine).Follows f) :
    (e.machine next).Follows f := by
  cases e with
  | returned s ret => exact h s ret rfl
  | ended s code => rintro ⟨⟩

theorem moduleFault_follows {s : Runtime} (h : s.CurrentLives ∨ s.Spent) :
    s.moduleFault.Follows s.family := by
  rw [Runtime.moduleFault]
  split
  · rename_i e he
    rcases h with hl | hs
    · apply Ending.machine_follows
      rintro s' ret rfl _
      obtain ⟨x, hx, hc⟩ := Runtime.deliverModuleFault_cases he
      have hlx : x.CurrentLives := Runtime.CurrentLives.calm (s := { s with sstatus := s.faultSstatus }) hl hx
      have hfx : x.family = s.family := hx.family
      rw [← hfx]
      rcases hc with hc | hc
      · exact ⟨hc.family ▸ .stay, trivial⟩
      · exact ⟨hlx.exits hc, trivial⟩
    · rw [Runtime.deliverModuleFault, hs.resume] at he
      cases he
  · rintro ⟨⟩

/-- Every step of the kernel is a step of the family, while pids last. -/
theorem step_follows (m : Machine) (a : Act) (h : m.Kept) (hsmall : m.rt.nextPid.toNat + 1 < 2 ^ 63) :
    (step m a).Follows m.rt.family := by
  have hstay : m.Follows m.rt.family := fun hl => ⟨.stay, h.midway hl⟩
  have henter : ∀ (e : Entry) (isCall : Bool), m.phase = .user →
      (m.rt.enter e isCall).AtUser ∧ (m.rt.enter e isCall).family.Ok ∧
        (m.rt.enter e isCall).family = m.rt.family := by
    intro e isCall hp
    have hm := h.sound
    have hf := h.family (by rw [hp]; rfl)
    rw [Machine.Sound, hp] at hm
    have hfam : (m.rt.enter e isCall).family = m.rt.family := (Runtime.enter_calm e isCall).family
    exact ⟨Runtime.AtUser.enter hm e isCall, hfam ▸ hf, hfam⟩
  cases a with
  | ecall e env =>
    rw [step]
    split_ifs with hp
    · obtain ⟨hu, hfu, hfam⟩ := henter e true hp
      split
      · rename_i r hr
        apply Ending.machine_follows
        rintro s' ret rfl _
        rw [← hfam]
        exact hu.did_family hfu hsmall (Runtime.syscallHandler_did hr hu.ne_free)
      · exact hstay
    · exact hstay
  | netEvent env =>
    rw [step]
    split
    · rename_i sepc ret hp
      have hmid := h.midway (by rw [hp]; rfl)
      rw [Machine.Midway, hp] at hmid
      have hc := (Runtime.checkPendingNetEvent_calm (s := m.rt) env).trans
        (Runtime.afterSyscall_calm sepc ret)
      intro _
      refine ⟨hc.family ▸ .stay, hmid.imp (·.calm hc) fun hs => ?_⟩
      simp only [Runtime.currentSig, hc.currentProc, Runtime.afterSyscall_procs,
        Runtime.checkPendingNetEvent_procs]
      exact hs.pending
    · exact hstay
  | netFault =>
    rw [step]
    split
    · rename_i sepc ret hp
      have hmid := h.midway (by rw [hp]; rfl)
      rw [Machine.Midway, hp] at hmid
      exact moduleFault_follows hmid
    · exact hstay
  | timer e now tickNow =>
    rw [step]
    split_ifs with hp
    · obtain ⟨hu, hfu, hfam⟩ := henter e false hp
      have hc := Runtime.timerInterrupt_calm (s := m.rt.enter e false) now tickNow
      intro _
      rw [← hfam]
      exact ⟨hc.family ▸ .stay, .inl ((hu.currentLives hfu).calm hc)⟩
    · exact hstay
  | software e flags env =>
    rw [step]
    split_ifs with hp
    · obtain ⟨hu, hfu, hfam⟩ := henter e false hp
      apply Ending.machine_follows
      intro s' ret hr _
      have hc := Runtime.softwareInterrupt_calm hr
      rw [← hfam]
      exact ⟨hc.family ▸ .stay, .inl ((hu.currentLives hfu).calm hc)⟩
    · exact hstay
  | otherInterrupt e =>
    rw [step]
    split_ifs with hp
    · obtain ⟨hu, hfu, hfam⟩ := henter e false hp
      intro _
      rw [← hfam]
      exact ⟨.stay, .inl (hu.currentLives hfu)⟩
    · exact hstay
  | fault e scause isRetried =>
    rw [step]
    split
    · rename_i hp
      obtain ⟨hu, hfu, hfam⟩ := henter e false hp
      rw [← hfam]
      dsimp only
      split
      · exact fun _ => ⟨.stay, trivial⟩
      · apply Ending.machine_follows
        intro s' ret hr _
        exact ⟨(hu.currentLives hfu).exits (Runtime.currentExits_of_returned hr), trivial⟩
    · exact hstay
  | callFault e armed =>
    rw [step]
    split_ifs with hp
    · obtain ⟨hu, hfu, hfam⟩ := henter e true hp
      have hc := Runtime.armed_calm (s := m.rt.enter e true) armed
      rw [← hfam, ← hc.family]
      exact moduleFault_follows (.inl ((hu.currentLives hfu).calm hc))
    · exact hstay
  | interruptFault e =>
    rw [step]
    split_ifs with hp
    · obtain ⟨hu, hfu, hfam⟩ := henter e false hp
      rw [← hfam]
      exact moduleFault_follows (.inl (hu.currentLives hfu))
    · exact hstay
  | deliver =>
    rw [step]
    split
    · rename_i resume hp
      have hmid := h.midway (by rw [hp]; rfl)
      rw [Machine.Midway, hp] at hmid
      apply Ending.machine_follows
      intro s' ret hr _
      refine ⟨?_, trivial⟩
      rcases hmid with hl | hn
      · rcases Runtime.deliverPending_cases hr with hc | ⟨x, hx, hc⟩
        · exact hc.family ▸ .stay
        · rw [← hx.family]
          exact (hl.calm hx).exits hc
      · rw [Runtime.deliverPending_of_none hn] at hr
        obtain ⟨rfl, _⟩ := Ending.returned.inj hr
        exact .stay
    · exact hstay
  | leave =>
    rw [step]
    split
    · rename_i next hp
      have hm := h.sound
      rw [Machine.Sound, hp] at hm
      rw [Runtime.leave]
      intro _
      refine ⟨(Runtime.InKernel.family_lastly hm next).symm ▸ .stay, ?_⟩
      rw [Machine.Midway]
      dsimp only
      split_ifs <;> trivial
    · exact hstay

theorem step_kept (m : Machine) (a : Act) (h : m.Kept) (hsmall : m.rt.nextPid.toNat + 1 < 2 ^ 63) :
    (step m a).Kept := by
  cases hl : m.phase.isLive with
  | false =>
    rw [step_of_not_isLive hl]
    exact h
  | true =>
    have hs := step_follows m a h hsmall
    exact ⟨step_sound m a h.sound, fun hl' => (hs hl').1.ok (h.family hl), fun hl' => (hs hl').2⟩

theorem boot_kept (entry kstackTop rootPa sstatus : Word) (ctx : TaMemCtx) :
    (boot entry kstackTop rootPa sstatus ctx).Kept := by
  refine ⟨boot_sound _ _ _ _ _, fun _ => ?_, fun _ => trivial⟩
  have hkin : ∀ p, ((boot entry kstackTop rootPa sstatus ctx).rt.family.kin p) =
      if p = 0 then ⟨true, 1, 0, false, 0, none⟩ else ⟨false, 0, 0, false, 0, none⟩ := by
    intro p
    simp only [boot, Runtime.writeSstatus, Runtime.family]
    split_ifs <;> rfl
  have hused : ∀ p, ((boot entry kstackTop rootPa sstatus ctx).rt.family.kin p).used = true → p = 0 := by
    intro p
    rw [hkin]
    split_ifs with hp
    · exact fun _ => hp
    · rintro ⟨⟩
  have hnext : (boot entry kstackTop rootPa sstatus ctx).rt.family.nextPid = 2 := rfl
  constructor
  case fresh =>
    intro p
    rw [hkin, hnext]
    split_ifs <;> decide
  case known => exact fun e he => absurd he List.not_mem_nil
  case positive =>
    intro p hp
    rw [hkin, if_pos (hused p hp)]
    decide
  case small =>
    rw [hnext]
    decide
  case unique =>
    intro p q hp hq
    rw [hkin, hkin, if_pos (hused p hp)] at hq
    split_ifs at hq with hq0
    · rw [hused p hp, hq0]
    · exact absurd hq (by decide)
  case boot =>
    rw [hkin]
    exact ⟨rfl, rfl, rfl⟩
  case child => exact fun p hp hu => absurd (hused p hu) hp
  case kept => exact fun a c hc => absurd hc List.not_mem_nil
  case notReaped => exact fun p _ => List.not_mem_nil
  case dead =>
    intro p hp hd
    rw [hkin, if_pos (hused p hp)] at hd
    cases hd
  case living => exact fun p _ _ code => List.not_mem_nil
  case owner =>
    intro t p ht
    obtain ⟨_, rfl⟩ := Runtime.family_owner_some.mp ht
    have hp : ((boot entry kstackTop rootPa sstatus ctx).rt.threads t).proc = 0 := by
      simp only [boot, Runtime.writeSstatus]
      split_ifs <;> rfl
    rw [hp, hkin]
    exact ⟨rfl, rfl⟩

/-! ## One call -/

namespace Runtime

variable {s x : Runtime}

/-- The running process created `c` and nobody has reaped it. -/
def OwnChild (s : Runtime) (c : Word) : Prop :=
  .created (s.procs s.currentProc).pid c ∈ s.log ∧ .reaped c ∉ s.log

/-- What `wait4` may report: an own child that has ended, with its own exit code, for the first
time. -/
structure Reports (s s' : Runtime) (status c : Word) : Prop where
  own : s.OwnChild c
  code : ∃ code : Word, (∀ code', .exited c code' ∈ s.log ↔ code' = code) ∧
    (status ≠ 0 → readLe s'.mem status.toNat 4 = (code &&& 0xff) <<< 8)
  log : s'.log = .reaped c :: s.log

/-- An entry that a scan for `pid` may reap. -/
def isZombie (s : Runtime) (pid : Word) (p : ProcSlot) : Bool :=
  s.isChild (s.procs p) && (s.procs p).exited && wanted pid (s.procs p)

/-- An entry of a process that the running process created. -/
def isOwn (s : Runtime) (p : ProcSlot) : Prop := (s.procs p).ppid = (s.procs s.currentProc).pid

end Runtime

/-- The arguments of a call of `wait4`, and the rounds it takes. -/
structure WaitCall where
  pid : Word
  status : Word
  options : Word
  rounds : List Round

namespace WaitCall

variable (c : WaitCall) (s : Runtime)

def run : Option (Runtime × Word) := s.wait4 c.pid c.status c.options c.rounds

/-- The running process has a child that it asks for. -/
def HasChild : Prop :=
  ∃ child, s.OwnChild child ∧ (c.pid = BitVec.allOnes 64 ∨ c.pid = 0 ∨ c.pid = child)

/-- A pid is returned for an own child only, and `ECHILD` when there is none to wait for. A call
that does not return within its rounds has something to wait for. -/
def Right : Prop :=
  match c.run s with
  | some (s', v) => (0 < v.toInt → s.Reports s' c.status v) ∧ (v = ECHILD ↔ ¬ c.HasChild s)
  | none => c.HasChild s

/-- The first entry that may be reaped is an own child, and where any entry names the caller's slot,
some own child is asked for. -/
structure MeetsOwn : Prop where
  first : ∀ p, s.isZombie c.pid p = true → (∀ q < p, s.isZombie c.pid q = false) → s.isOwn p
  some : (∃ p, s.isChild (s.procs p) = true) →
    ∃ p, s.isChild (s.procs p) = true ∧ s.isOwn p ∧ Runtime.wanted c.pid (s.procs p) = true

end WaitCall

namespace Runtime

variable {s x s' : Runtime} {pid status options v : Word}

theorem isChild_calm (h : Calm s x) (p : ProcSlot) : x.isChild (x.procs p) = s.isChild (s.procs p) := by
  have hk := h.kin p
  simp only [ProcCtl.kin, Kin.mk.injEq] at hk
  simp only [isChild, hk, h.currentProc]

theorem isZombie_calm (h : Calm s x) (p : ProcSlot) : x.isZombie pid p = s.isZombie pid p := by
  have hk := h.kin p
  simp only [ProcCtl.kin, Kin.mk.injEq] at hk
  simp only [isZombie, isChild_calm h, wanted, hk]

/-- A child is in the table behind slot 0. -/
theorem isChild_pos (hf : s.family.Ok) {p : ProcSlot} (h : s.isChild (s.procs p) = true) : p ≠ 0 := by
  rintro rfl
  rw [isChild, Bool.and_eq_true, decide_eq_true_eq] at h
  have hb : (s.procs 0).parent = none := hf.boot.2.2
  rw [hb] at h
  cases h.2

theorem mem_slots {p : ProcSlot} (h : p ≠ 0) : p ∈ (List.finRange 8).drop 1 := by
  revert h
  revert p
  decide

/-- The status word that a scan leaves can be read back. -/
theorem readLe_status (m : ByteMem.Mem) (addr : Nat) (code : Word) :
    readLe (writeLe m addr 4 ((code &&& 0xff) <<< 8)) addr 4 = (code &&& 0xff) <<< 8 := by
  apply BitVec.eq_of_getLsbD_eq
  intro i hi
  rw [ByteMem.getLsbD_readLe_writeLe]
  by_cases h : i < 32
  · simp [h, hi]
  · have h255 : 255 < 2 ^ (i - 8) := calc
      255 < 2 ^ 8 := by decide
      _ ≤ 2 ^ (i - 8) := Nat.pow_le_pow_right (by decide) (by omega)
    have hf : ((code &&& 0xff) <<< 8).getLsbD i = false := by
      rw [BitVec.getLsbD_shiftLeft, BitVec.getLsbD_and, show (0xff : Word) = BitVec.ofNat 64 255 from rfl,
        BitVec.getLsbD_ofNat, Nat.testBit_lt_two_pow h255]
      simp only [Bool.and_false]
    rw [hf, Bool.and_false]

/-- A scan reaps the first entry that it may. -/
theorem wait4Scan_zombie {r : Round} {p : ProcSlot} (hf : s.family.Ok) (hz : s.isZombie pid p = true)
    (hfirst : ∀ q < p, s.isZombie pid q = false) :
    ∃ x, s.wait4Scan pid status options r = some (x, (s.procs p).pid) ∧
      x.log = .reaped (s.procs p).pid :: s.log ∧
      x.mem = if status = 0 then s.mem
        else writeLe s.mem status.toNat 4 (((s.procs p).exitCode &&& 0xff) <<< 8) := by
  have hchild : s.isChild (s.procs p) = true := by
    rw [isZombie, Bool.and_eq_true, Bool.and_eq_true] at hz
    exact hz.1.1
  have hfind : ((List.finRange 8).drop 1).find? (fun p => s.isChild (s.procs p) && (s.procs p).exited &&
      wanted pid (s.procs p)) = some p :=
    FirstMatch.find?_of_sorted (by decide) (mem_slots (isChild_pos hf hchild)) hz hfirst
  rw [wait4Scan]
  dsimp only
  rw [hfind]
  dsimp only
  refine ⟨_, rfl, ?_, ?_⟩
  · split_ifs <;> rfl
  · split_ifs <;> rfl

/-- And finds out whether there is a child otherwise. -/
theorem wait4Scan_noZombie {r : Round} (hf : s.family.Ok) (hz : ∀ p, s.isZombie pid p = false) :
    s.wait4Scan pid status options r =
      if ∃ p, s.isChild (s.procs p) = true then
        if options &&& 1 ≠ 0 then some (s, 0) else none
      else some (s, ECHILD) := by
  have hfind : ((List.finRange 8).drop 1).find? (fun p => s.isChild (s.procs p) && (s.procs p).exited &&
      wanted pid (s.procs p)) = none := by
    rw [List.find?_eq_none]
    intro p _ hp
    exact Bool.false_ne_true ((hz p).symm.trans hp)
  have hany : ((List.finRange 8).drop 1).any (fun p => s.isChild (s.procs p)) = true ↔
      ∃ p, s.isChild (s.procs p) = true := by
    rw [List.any_eq_true]
    constructor
    · rintro ⟨p, _, hp⟩
      exact ⟨p, hp⟩
    · rintro ⟨p, hp⟩
      exact ⟨p, mem_slots (isChild_pos hf hp), hp⟩
  rw [wait4Scan]
  dsimp only
  rw [hfind]
  dsimp only
  by_cases hc : ∃ p, s.isChild (s.procs p) = true
  · rw [if_pos hc, hany.mpr hc]
    rfl
  · rw [if_neg hc, Bool.eq_false_of_not_eq_true (mt hany.mp hc)]
    rfl

/-- Own children by the history are own entries of the table. -/
theorem hasChild_iff (hf : s.family.Ok) (hl : s.CurrentLives) (c : WaitCall) :
    c.HasChild s ↔
      ∃ p, s.isChild (s.procs p) = true ∧ s.isOwn p ∧ wanted c.pid (s.procs p) = true := by
  constructor
  · rintro ⟨child, ⟨hc, hr⟩, ha⟩
    obtain ⟨p, hp, hu, rfl, hpp⟩ := hf.kept _ child hc hr
    obtain ⟨_, _, q, hq, hslot⟩ := hf.child p hp hu
    have hcur : s.currentProc = q := hslot s.currentProc hl.1 hpp.symm
    refine ⟨p, ?_, hpp, decide_eq_true ha⟩
    rw [isChild, Bool.and_eq_true, decide_eq_true_eq, hcur]
    exact ⟨hu, hq⟩
  · rintro ⟨p, hc, ho, hw⟩
    have hu : (s.family.kin p).used = true := by
      rw [isChild, Bool.and_eq_true] at hc
      exact hc.1
    refine ⟨(s.procs p).pid, ⟨?_, hf.notReaped p hu⟩, of_decide_eq_true hw⟩
    have hcreated := (hf.child p (isChild_pos hf hc) hu).1
    rw [show (s.family.kin p).ppid = (s.procs s.currentProc).pid from ho] at hcreated
    exact hcreated

end Runtime

namespace WaitCall

variable {c : WaitCall} {s : Runtime}

/-- A scan that finds something to reap. -/
theorem right_iff_of_zombie (hf : s.family.Ok) (hl : s.CurrentLives) {p : ProcSlot}
    (hz : s.isZombie c.pid p = true) (hfirst : ∀ q < p, s.isZombie c.pid q = false)
    {r : Round} {rounds : List Round} (hr : c.rounds = r :: rounds) : c.Right s ↔ c.MeetsOwn s := by
  obtain ⟨x, hx, hlog, hmem⟩ :=
    @Runtime.wait4Scan_zombie _ _ c.status c.options r _ hf hz hfirst
  have hrun : c.run s = some (x, (s.procs p).pid) := by
    rw [run, Runtime.wait4, hr, Runtime.waitLoop, hx]
  have hz' := hz
  rw [Runtime.isZombie, Bool.and_eq_true, Bool.and_eq_true] at hz'
  obtain ⟨⟨hchild, hdead⟩, hwanted⟩ := hz'
  have hused : (s.family.kin p).used = true := by
    rw [Runtime.isChild, Bool.and_eq_true] at hchild
    exact hchild.1
  have hpid : (s.family.kin p).pid.toNat < 2 ^ 63 := (hf.fresh p).trans hf.small
  have hpos : 0 < (s.procs p).pid.toInt := by
    have hp0 : (s.procs p).pid ≠ 0 := hf.positive p hused
    rw [BitVec.toInt_eq_toNat_of_lt (by exact (Nat.mul_lt_mul_left (by decide)).mpr hpid)]
    exact Int.natCast_pos.mpr (Nat.pos_of_ne_zero fun h => hp0 (BitVec.eq_of_toNat_eq h))
  have hne : (s.procs p).pid ≠ ECHILD := by
    intro he
    rw [he] at hpos
    exact absurd hpos (by decide)
  rw [Right, hrun]
  constructor
  · rintro ⟨hrep, _⟩
    have hown : s.isOwn p := by
      obtain ⟨q, hq, hu, hqp, hqa⟩ := hf.kept _ _ (hrep hpos).own.1 (hrep hpos).own.2
      obtain rfl : q = p := hf.unique p q hused hqp
      exact hqa
    refine ⟨fun q hq hq' => ?_, fun _ => ⟨p, hchild, hown, hwanted⟩⟩
    rcases lt_trichotomy q p with hlt | rfl | hlt
    · rw [hfirst q hlt] at hq
      cases hq
    · exact hown
    · rw [hq' p hlt] at hz
      cases hz
  · intro hm
    have hown := hm.first p hz hfirst
    have hhas : c.HasChild s := (Runtime.hasChild_iff hf hl c).mpr ⟨p, hchild, hown, hwanted⟩
    refine ⟨fun _ => ⟨⟨?_, hf.notReaped p hused⟩, ⟨(s.procs p).exitCode, hf.dead p hused hdead, ?_⟩, hlog⟩,
      iff_of_false hne (not_not_intro hhas)⟩
    · have hcreated := (hf.child p (Runtime.isChild_pos hf hchild) hused).1
      rw [show (s.family.kin p).ppid = (s.procs s.currentProc).pid from hown] at hcreated
      exact hcreated
    · intro hs
      rw [hmem, if_neg hs]
      exact Runtime.readLe_status _ _ _

/-- A scan that finds nothing to reap. -/
theorem right_iff_of_noZombie (hf : s.family.Ok) (hu : s.AtUser)
    (hz : ∀ p, s.isZombie c.pid p = false) {r : Round} {rounds : List Round} (hr : c.rounds = r :: rounds) :
    c.Right s ↔ c.MeetsOwn s := by
  have hl := hu.currentLives hf
  have hhas := Runtime.hasChild_iff hf hl c
  have hmeets : c.MeetsOwn s ↔ ((∃ p, s.isChild (s.procs p) = true) → c.HasChild s) := by
    rw [hhas]
    refine ⟨fun hm => hm.some, fun hs => ⟨fun p hp => ?_, hs⟩⟩
    rw [hz p] at hp
    cases hp
  have hscan : ∀ x, Calm s x → ∀ r, x.wait4Scan c.pid c.status c.options r =
      if ∃ p, s.isChild (s.procs p) = true then
        if c.options &&& 1 ≠ 0 then some (x, 0) else none
      else some (x, ECHILD) := by
    intro x hx r
    have hzx : ∀ p, x.isZombie c.pid p = false := fun p => (Runtime.isZombie_calm hx p).trans (hz p)
    rw [Runtime.wait4Scan_noZombie (hx.family ▸ hf) hzx]
    simp only [Runtime.isChild_calm hx]
  by_cases hc : ∃ p, s.isChild (s.procs p) = true
  · -- the call returns 0 or does not come back
    have hzero : c.run s = none ∨ ∃ x, c.run s = some (x, 0) := by
      rw [run, Runtime.wait4, hr, Runtime.waitLoop, hscan s (Calm.refl s) r, if_pos hc]
      by_cases ho : c.options &&& 1 ≠ 0
      · rw [if_pos ho]
        exact .inr ⟨s, rfl⟩
      · rw [if_neg ho]
        dsimp only
        split
        · exact .inl rfl
        · rename_i x hx
          have hx' := Runtime.blockCurrent_calm hx hu.ne_free
          split_ifs
          · exact .inr ⟨_, rfl⟩
          · cases hw : Runtime.waitLoop (waitAddr s.currentProc)
                (fun s => s.wait4Scan c.pid c.status c.options) rounds x with
            | none => exact .inl rfl
            | some res =>
              rcases Runtime.waitLoop_cases rounds hw (hx'.live_current hu.ne_free) with
                ⟨y, q, hy, he⟩ | ⟨_, hv, _⟩
              · rw [hscan y (hx'.trans hy) q, if_pos hc, if_neg ho] at he
                cases he
              · exact .inr ⟨res.1, by rw [← hv]⟩
    rw [hmeets, Right]
    rcases hzero with hn | ⟨x, hx⟩
    · rw [hn]
      exact ⟨fun h _ => h, fun h => h hc⟩
    · rw [hx]
      have hne : (0 : Word) ≠ ECHILD := by decide
      constructor
      · rintro ⟨_, he⟩ _
        by_contra hno
        exact hne (he.mpr hno)
      · intro h
        exact ⟨fun hpos => absurd hpos (by decide), iff_of_false hne (not_not_intro (h hc))⟩
  · have hechild : c.run s = some (s, ECHILD) := by
      rw [run, Runtime.wait4, hr, Runtime.waitLoop, hscan s (Calm.refl s) r, if_neg hc]
    have hno : ¬ c.HasChild s := by
      rw [hhas]
      rintro ⟨p, hp, _⟩
      exact hc ⟨p, hp⟩
    rw [hmeets, Right, hechild]
    exact iff_of_true ⟨fun hpos => absurd hpos (by decide), iff_of_true rfl hno⟩ fun h => absurd h hc

/-- A call that scans the table at least once. -/
theorem right_iff (hf : s.family.Ok) (hu : s.AtUser) (hr : c.rounds ≠ []) :
    c.Right s ↔ c.MeetsOwn s := by
  obtain ⟨r, rounds, hr⟩ := List.exists_cons_of_ne_nil hr
  by_cases hz : ∃ p, s.isZombie c.pid p = true
  · obtain ⟨p, hp, hfirst⟩ := wellFounded_lt.has_min {p | s.isZombie c.pid p = true} hz
    refine right_iff_of_zombie hf (hu.currentLives hf) hp (fun q hq => ?_) hr
    exact Bool.eq_false_of_not_eq_true fun hq' => hfirst q hq' hq
  · exact right_iff_of_noZombie hf hu (fun p => Bool.eq_false_of_not_eq_true fun hp => hz ⟨p, hp⟩) hr

end WaitCall

/-! ## Calls during a run -/

/-- The call of `wait4` that a step makes, and the state in which it is made. -/
def waitCall (m : Machine) : Act → Option (Runtime × WaitCall)
  | .ecall e env =>
    let s := m.rt.enter e true
    if m.phase = .user ∧ (s.gprs.regs 17).toNat = 260 then
      some (s, ⟨s.gprs.regs 10, s.gprs.regs 11, s.gprs.regs 12, env.rounds⟩)
    else none
  | _ => none

/-- While pids last, the history of processes only grows in every run, and a call of `wait4` does
right exactly when it meets own children. -/
theorem waits_right_iff (entry kstackTop rootPa sstatus : Word) (ctx : TaMemCtx) (acts : List Act)
    (hpids : Run.Along step (fun m _ => m.rt.nextPid.toNat + 1 < 2 ^ 63)
      (boot entry kstackTop rootPa sstatus ctx) acts) :
    Run.Along step (fun m a =>
      ((step m a).phase.isLive = true → m.rt.log <:+ (step m a).rt.log) ∧
        ∀ s c, waitCall m a = some (s, c) → c.rounds ≠ [] → (c.Right s ↔ c.MeetsOwn s))
      (boot entry kstackTop rootPa sstatus ctx) acts := by
  apply Run.along_of_promised (I := Machine.Kept) (fun m a => step_kept m a) _ (boot_kept _ _ _ _ _) hpids
  intro m a hm hsmall
  refine ⟨fun hl => (step_follows m a hm hsmall hl).1.log, fun s c h hr => ?_⟩
  cases a with
  | ecall e env =>
    rw [waitCall] at h
    split_ifs at h with hp
    obtain ⟨rfl, rfl⟩ := Prod.mk.inj (Option.some.inj h)
    have hs := hm.sound
    rw [Machine.Sound, hp.1] at hs
    have hf : (m.rt.enter e true).family.Ok :=
      (Runtime.enter_calm e true).family ▸ hm.family (by rw [hp.1]; rfl)
    exact WaitCall.right_iff hf (Runtime.AtUser.enter hs e true) hr
  | timer | software | otherInterrupt | fault | callFault | interruptFault | netEvent | netFault | deliver | leave =>
    cases h

/-- The boot process forks, the child exits with 7, and the parent reaps it. -/
def reapActs : List Act :=
  callActs 0x20000 220 [17] ++ callActs 0 94 [7] ++ callActs 0 260 [BitVec.allOnes 64, 0x1000, 0]

theorem waits_right_iff_reapActs :
    Run.Along step (fun m a =>
      ((step m a).phase.isLive = true → m.rt.log <:+ (step m a).rt.log) ∧
        ∀ s c, waitCall m a = some (s, c) → c.rounds ≠ [] → (c.Right s ↔ c.MeetsOwn s))
      quietBoot reapActs ∧
      (reapActs.foldl step quietBoot).rt.log = [.reaped 2, .exited 2 7, .created 1 2] :=
  ⟨waits_right_iff 0x10000 0x2000 0x80200000 0 ⟨0, 0, 0, 0⟩ reapActs (by decide), by decide⟩

/-- Process 1 makes 2, and 2 makes 3. Process 2 exits and is reaped, process 4 gets its slot, and 3 exits.
The last call is about to be made by process 4. -/
def strangersChild : Runtime :=
  afterCalls [(220, [17], 0x20000), (220, [17], 0x30000), (124, [], 0), (124, [], 0), (94, [7], 0),
    (124, [], 0), (260, [BitVec.allOnes 64, 0, 0], 0), (220, [17], 0), (124, [], 0), (94, [5], 0),
    (124, [], 0)]

/-- Process 4 reaps a child of process 2; and a parent that asks for a process it did not make is told
that its child runs. -/
theorem strangersChild_reaped :
    (strangersChild.procs strangersChild.currentProc).pid = 4 ∧
      (strangersChild.wait4 (BitVec.allOnes 64) 0 0 (quietEnv 0).rounds).map (·.2) = some 3 ∧
      .created 2 3 ∈ strangersChild.log ∧ .created 4 3 ∉ strangersChild.log ∧
      ((afterCalls [(220, [17], 0x20000), (124, [], 0)]).wait4 99 0 1 (quietEnv 0).rounds).map (·.2) =
        some 0 := by
  decide +kernel

end Pyremu.Sittim
