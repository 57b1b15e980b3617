import Pyremu.Sittim.Kernel

/-!
# Who is woken by a futex

One table holds the waiters of all processes, and the match is on the bare
virtual address. A wake stays within the calling process exactly when the
threads it reaches first in slot order are threads of that process.
-/

namespace Pyremu.Sittim

open Sweep

namespace Runtime

variable (s : Runtime)

/-- The threads blocked on an address, in slot order. -/
def waiters (addr : Word) : List ThreadId := (List.finRange 32).filter (s.isBlockedOn · addr)

/-- A thread of the calling process that waits on `addr`. -/
def OwnWaiter (addr : Word) (t : ThreadId) : Prop :=
  s.isBlockedOn t addr = true ∧ (s.threads t).proc = s.currentProc

instance (addr : Word) (t : ThreadId) : Decidable (s.OwnWaiter addr t) :=
  inferInstanceAs (Decidable (_ ∧ _))

variable {s}

theorem mem_waiters {addr : Word} {t : ThreadId} : t ∈ s.waiters addr ↔ s.isBlockedOn t addr = true := by
  simp only [waiters, List.mem_filter, List.mem_finRange, true_and]

theorem wakeBlocked_threads (addr nr : Word) (t : ThreadId) :
    (s.wakeBlocked addr nr).1.threads t =
      if t ∈ (s.waiters addr).take nr.toNat then (s.threads t).makeRunnable else s.threads t :=
  sweep_apply (List.nodup_finRange 32) 0 s.threads t

/-- What is left of the waiters after a wake. -/
theorem waiters_wakeBlocked (addr nr : Word) :
    (s.wakeBlocked addr nr).1.waiters addr = (s.waiters addr).drop nr.toNat :=
  filter_sweep (p := fun ctl : ThreadCtl => decide (ctl.state = .blocked ∧ ctl.waitAddr = addr))
    (List.nodup_finRange 32) (fun _ => by simp [ThreadCtl.makeRunnable]) 0 s.threads

theorem requeueBlocked_threads (addr nrWake nrRequeue target : Word) (t : ThreadId) :
    (s.requeueBlocked addr nrWake nrRequeue target).1.threads t =
      if t ∈ ((s.waiters addr).drop nrWake.toNat).take nrRequeue.toNat then
        { (s.wakeBlocked addr nrWake).1.threads t with waitAddr := target }
      else (s.wakeBlocked addr nrWake).1.threads t := by
  rw [← waiters_wakeBlocked]
  exact sweep_apply (List.nodup_finRange 32) 0 (s.wakeBlocked addr nrWake).1.threads t

theorem nodup_waiters (addr : Word) : (s.waiters addr).Nodup := (List.nodup_finRange 32).filter _

/-- The threads that are moved are not among those that were woken. -/
theorem not_mem_take_of_mem_drop {addr : Word} {n m : Nat} {t : ThreadId}
    (h : t ∈ ((s.waiters addr).drop n).take m) : t ∉ (s.waiters addr).take n := by
  have hd : List.Disjoint ((s.waiters addr).take n) ((s.waiters addr).drop n) :=
    List.disjoint_take_drop (nodup_waiters addr) le_rfl
  intro ht
  exact hd ht (List.mem_of_mem_take h)

theorem makeRunnable_ne {addr : Word} {t : ThreadId} (h : s.isBlockedOn t addr = true) :
    (s.threads t).makeRunnable ≠ s.threads t := by
  have hb : (s.threads t).state = .blocked := (of_decide_eq_true h).1
  intro he
  have hs := congrArg ThreadCtl.state he
  rw [hb] at hs
  cases hs

end Runtime

/-- Only waiters of the calling process are touched, and when it has one and `nr` is not zero, one of
them can run. -/
def WakesOnlyOwn (s s' : Runtime) (addr nr : Word) : Prop :=
  (∀ t, s'.threads t ≠ s.threads t → s.OwnWaiter addr t) ∧
    (nr ≠ 0 → (∃ t, s.OwnWaiter addr t) → ∃ t, s.OwnWaiter addr t ∧ s'.isRunnable t = true)

instance (s s' : Runtime) (addr nr : Word) : Decidable (WakesOnlyOwn s s' addr nr) :=
  inferInstanceAs (Decidable (_ ∧ _))

/-- The waiters that the call comes to are threads of the calling process. -/
def OwnFirst (s : Runtime) (addr op val arg3 uaddr2 : Word) : Prop :=
  (∀ t ∈ (s.waiters addr).take val.toNat, (s.threads t).proc = s.currentProc) ∧
    (op &&& 0x7f = 3 → uaddr2 ≠ addr →
      ∀ t ∈ ((s.waiters addr).drop val.toNat).take arg3.toNat, (s.threads t).proc = s.currentProc)

section Wake

variable {s : Runtime} {addr val : Word}

/-- A woken thread has changed and can run. -/
theorem woken_iff {s' : Runtime} {t : ThreadId} (ht : t ∈ (s.waiters addr).take val.toNat)
    (h : s'.threads t = (s.threads t).makeRunnable) :
    s'.threads t ≠ s.threads t ∧ s'.isRunnable t = true := by
  have hb := Runtime.mem_waiters.mp (List.mem_of_mem_take ht)
  rw [Runtime.isRunnable, h]
  exact ⟨Runtime.makeRunnable_ne hb, rfl⟩

theorem own_of_proc {t : ThreadId} (ht : t ∈ s.waiters addr)
    (h : (s.threads t).proc = s.currentProc) : s.OwnWaiter addr t := ⟨Runtime.mem_waiters.mp ht, h⟩

/-- Both calls wake the first `val` waiters; what else changes is described by `moved`. -/
theorem wakesOnlyOwn_iff {s' : Runtime} (moved : ThreadId → Prop)
    (hwake : ∀ t ∈ (s.waiters addr).take val.toNat, s'.threads t = (s.threads t).makeRunnable)
    (hmove : ∀ t, t ∉ (s.waiters addr).take val.toNat → (s'.threads t ≠ s.threads t ↔ moved t))
    (hsub : ∀ t, moved t → t ∈ s.waiters addr) :
    WakesOnlyOwn s s' addr val ↔
      (∀ t ∈ (s.waiters addr).take val.toNat, (s.threads t).proc = s.currentProc) ∧
        ∀ t, t ∉ (s.waiters addr).take val.toNat → moved t → (s.threads t).proc = s.currentProc := by
  constructor
  · rintro ⟨honly, _⟩
    constructor
    · intro t ht
      exact (honly t (woken_iff ht (hwake t ht)).1).2
    · intro t ht hm
      exact (honly t ((hmove t ht).mpr hm)).2
  · rintro ⟨hw, hm⟩
    constructor
    · intro t hne
      by_cases ht : t ∈ (s.waiters addr).take val.toNat
      · exact own_of_proc (List.mem_of_mem_take ht) (hw t ht)
      · have hmt := (hmove t ht).mp hne
        exact own_of_proc (hsub t hmt) (hm t ht hmt)
    · rintro hval ⟨t, ht⟩
      have hpos : 0 < val.toNat := by
        rw [Nat.pos_iff_ne_zero]
        intro hz
        exact hval (BitVec.eq_of_toNat_eq hz)
      -- the first waiter is woken, whoever it belongs to
      obtain ⟨k, hk⟩ := exists_mem_take hpos (Runtime.mem_waiters.mpr ht.1)
      exact ⟨k, own_of_proc (List.mem_of_mem_take hk) (hw k hk), (woken_iff hk (hwake k hk)).2⟩

theorem wake_wakesOnlyOwn_iff :
    WakesOnlyOwn s (s.wakeBlocked addr val).1 addr val ↔
      ∀ t ∈ (s.waiters addr).take val.toNat, (s.threads t).proc = s.currentProc := by
  rw [wakesOnlyOwn_iff fun _ => False]
  · simp only [false_implies, implies_true, and_true]
  · intro t ht
    rw [Runtime.wakeBlocked_threads, if_pos ht]
  · intro t ht
    rw [Runtime.wakeBlocked_threads, if_neg ht]
    simp only [ne_eq, not_true_eq_false]
  · intro t h
    exact h.elim

theorem requeue_wakesOnlyOwn_iff (nr target : Word) :
    WakesOnlyOwn s (s.requeueBlocked addr val nr target).1 addr val ↔
      (∀ t ∈ (s.waiters addr).take val.toNat, (s.threads t).proc = s.currentProc) ∧
        (target ≠ addr →
          ∀ t ∈ ((s.waiters addr).drop val.toNat).take nr.toNat, (s.threads t).proc = s.currentProc) := by
  rw [wakesOnlyOwn_iff fun t =>
    target ≠ addr ∧ t ∈ ((s.waiters addr).drop val.toNat).take nr.toNat]
  · apply and_congr_right
    intro _
    constructor
    · intro h hne t ht
      exact h t (Runtime.not_mem_take_of_mem_drop ht) ⟨hne, ht⟩
    · intro h t _ hm
      exact h hm.1 t hm.2
  · intro t ht
    have hd : t ∉ ((s.waiters addr).drop val.toNat).take nr.toNat :=
      fun h => Runtime.not_mem_take_of_mem_drop h ht
    rw [Runtime.requeueBlocked_threads, if_neg hd, Runtime.wakeBlocked_threads, if_pos ht]
  · intro t ht
    rw [Runtime.requeueBlocked_threads, Runtime.wakeBlocked_threads, if_neg ht]
    by_cases hd : t ∈ ((s.waiters addr).drop val.toNat).take nr.toNat
    · have hb := Runtime.mem_waiters.mp (List.mem_of_mem_drop (List.mem_of_mem_take hd))
      have hw : (s.threads t).waitAddr = addr := (of_decide_eq_true hb).2
      rw [if_pos hd, and_iff_left hd, not_iff_not]
      constructor
      · intro he
        rw [← hw, ← he]
      · rintro rfl
        rw [← hw]
    · simp only [hd, if_false, ne_eq, not_true_eq_false, and_false]
  · intro t hm
    exact List.mem_of_mem_drop (List.mem_of_mem_take hm.2)

/-- A wake or a requeue stays within the calling process exactly when the waiters it comes to
are threads of that process. -/
theorem futex_wakesOnlyOwn_iff {s' : Runtime} {env : Env} {op arg3 uaddr2 ret : Word}
    (hop : op &&& 0x7f = 1 ∨ op &&& 0x7f = 3)
    (h : s.futex env addr op val arg3 uaddr2 = some (s', ret)) :
    WakesOnlyOwn s s' addr val ↔ OwnFirst s addr op val arg3 uaddr2 := by
  rcases hop with hop | hop
  · have hs : s' = (s.wakeBlocked addr val).1 := by
      simp only [Runtime.futex, hop] at h
      exact (congrArg Prod.fst (Option.some.inj h)).symm
    have hne : ¬ op &&& 0x7f = 3 := by
      rw [hop]
      decide
    rw [hs, wake_wakesOnlyOwn_iff, OwnFirst]
    simp only [hne, false_implies, and_true]
  · have hs : s' = (s.requeueBlocked addr val arg3 uaddr2).1 := by
      simp only [Runtime.futex, hop] at h
      exact (congrArg Prod.fst (Option.some.inj h)).symm
    rw [hs, requeue_wakesOnlyOwn_iff, OwnFirst]
    simp only [hop, true_implies]

/-- The boot process forks; the child waits on a word, then a second thread of the boot process
waits on its own word at the same address, and its first thread runs on. -/
def twoWaiters : Runtime :=
  afterCalls [(220, [17], 0x20000), (98, [0x1000, 0, 0], 0), (220, [0x10100], 0x30000),
    (98, [0x1000, 0, 0], 0)]

theorem futex_wakesOnlyOwn_iff_twoWaiters :
    WakesOnlyOwn twoWaiters (twoWaiters.wakeBlocked 0x1000 2).1 0x1000 2 ↔
      OwnFirst twoWaiters 0x1000 129 2 0 0 :=
  @futex_wakesOnlyOwn_iff _ _ _ _ (quietEnv 0) _ _ _ _ (Or.inl (by decide)) rfl

/-- `FUTEX_WAKE` of one waiter reaches the child, and the thread of the caller sleeps on. -/
theorem twoWaiters_stolen :
    (twoWaiters.futex (quietEnv 0) 0x1000 129 1 0 0).map
        (fun r => decide (WakesOnlyOwn twoWaiters r.1 0x1000 1)) = some false ∧
      twoWaiters.OwnWaiter 0x1000 2 ∧
      ((twoWaiters.wakeBlocked 0x1000 1).1.threads 2).state = .blocked := by
  decide

end Wake

end Pyremu.Sittim
