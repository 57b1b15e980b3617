import Pyremu.Sittim.Moves

/-!
# Who gets the hart next

A successor is always the nearest runnable thread behind the running one, except
that a thread that has just been cloned goes first. The kernel never makes a
thread `running` but by a switch, and never changes the root table that belongs
to the current process.
-/

namespace Pyremu.Sittim

open Sweep

/-- Nobody is switched to yet, and the address space stays. -/
structure Steady (s s' : Runtime) : Prop where
  current : s'.current = s.current
  currentProc : s'.currentProc = s.currentProc
  rootPa : s'.rootPa = s.rootPa
  root : (s'.procs s.currentProc).rootPa = (s.procs s.currentProc).rootPa
  running : ∀ t, (s'.threads t).state = .running → (s.threads t).state = .running
  pending : s.pendingTarget.isSome = true → s'.pendingTarget.isSome = true

/-- The successor is another thread, and no thread that can run before and after is nearer. -/
structure Nearest (s s' : Runtime) (n : ThreadId) : Prop where
  other : n ≠ s.current
  near : ∀ t, t ≠ s.current → s.isRunnable t = true → s'.isRunnable t = true → gap 32 s.current n ≤ gap 32 s.current t

structure Orderly (s s' : Runtime) : Prop extends Steady s s' where
  free : ∀ t, t ≠ s.current → (s.threads t).state = .free → (s'.threads t).state = .free
  kept : ∀ t, t ≠ s.current → s.isRunnable t = true → s'.isRunnable t = true ∨ (s'.threads t).state = .free
  next : ∀ n, s'.pendingTarget = some n → s.pendingTarget = some n ∨ Nearest s s' n

section Relations

variable {s s' s'' : Runtime} {n : ThreadId}

theorem Steady.trans (h : Steady s s') (h' : Steady s' s'') : Steady s s'' where
  current := h'.current.trans h.current
  currentProc := h'.currentProc.trans h.currentProc
  rootPa := h'.rootPa.trans h.rootPa
  root := by
    have hroot := h'.root
    rw [h.currentProc] at hroot
    exact hroot.trans h.root
  running t ht := h.running t (h'.running t ht)
  pending hp := h'.pending (h.pending hp)

theorem not_runnable_of_free {t : ThreadId} (h : (s.threads t).state = .free) : s.isRunnable t = false := by
  rw [Runtime.isRunnable, h]
  rfl

namespace Orderly

/-- A thread that can run at both ends can run in between. -/
theorem between (h : Orderly s s') (h' : Orderly s' s'') {t : ThreadId} (hne : t ≠ s.current)
    (hs : s.isRunnable t = true) (hs'' : s''.isRunnable t = true) : s'.isRunnable t = true := by
  rcases h.kept t hne hs with hr | hf
  · exact hr
  · rw [← h.current] at hne
    rw [not_runnable_of_free (h'.free t hne hf)] at hs''
    cases hs''

theorem trans (h : Orderly s s') (h' : Orderly s' s'') : Orderly s s'' where
  toSteady := h.toSteady.trans h'.toSteady
  free t hne ht := h'.free t (by rwa [h.current]) (h.free t hne ht)
  kept t hne ht := by
    rcases h.kept t hne ht with hr | hf
    · exact h'.kept t (by rwa [h.current]) hr
    · exact .inr (h'.free t (by rwa [h.current]) hf)
  next n hn := by
    rcases h'.next n hn with hn' | hfar
    · rcases h.next n hn' with hs | hfar
      · exact .inl hs
      · exact .inr ⟨hfar.other, fun t hne ht ht'' => hfar.near t hne ht (h.between h' hne ht ht'')⟩
    · obtain ⟨hother, hnear⟩ := hfar
      rw [h.current] at hother hnear
      exact .inr ⟨hother, fun t hne ht ht'' => hnear t hne (h.between h' hne ht ht'') ht''⟩

theorem refl (s : Runtime) : Orderly s s where
  current := rfl
  currentProc := rfl
  rootPa := rfl
  root := rfl
  running _ ht := ht
  pending hp := hp
  free _ _ ht := ht
  kept _ _ ht := .inl ht
  next _ hn := .inl hn

end Orderly

/-! ## Moves -/

variable {limit : Word}

theorem Move.orderly (h : Move limit s s') : Orderly s s' := by
  cases h with
  | wake threads _ current currentProc rootPa root pending =>
    refine ⟨⟨current, currentProc, rootPa, root, fun t ht => ?_, fun hp => ?_⟩, fun t _ ht => ?_, fun t _ ht => ?_,
      fun n hn => ?_⟩
    · rcases (threads t).state with he | ⟨_, hr⟩
      · rwa [he] at ht
      · rw [hr] at ht
        cases ht
    · rwa [pending]
    · exact (threads t).live.mpr ht
    · have hs : (s.threads t).state = .runnable := of_decide_eq_true ht
      rcases (threads t).state with he | ⟨hb, _⟩
      · exact .inl (decide_eq_true (he.trans hs))
      · rw [hb] at hs
        cases hs
    · rw [pending] at hn
      exact .inl hn
  | elapse due =>
    rw [Runtime.elapseDue, Option.map_eq_some_iff] at due
    obtain ⟨u, _, he⟩ := due
    obtain rfl := congrArg Prod.fst he
    exact ⟨⟨rfl, rfl, rfl, rfl, fun _ ht => ht, id⟩, fun _ _ ht => ht, fun _ _ ht => .inl ht, fun _ hn => .inl hn⟩
  | sleep addr =>
    have hother : ∀ t, t ≠ s.current → (s.setThread s.current fun ctl =>
        { ctl with state := .blocked, waitAddr := addr }).threads t = s.threads t := by
      intro t ht
      simp only [Runtime.setThread, Function.update_of_ne ht]
    refine ⟨⟨rfl, rfl, rfl, rfl, fun t ht => ?_, id⟩, fun t hne ht => ?_, fun t hne ht => ?_, fun _ hn => .inl hn⟩
    · by_cases hc : t = s.current
      · subst hc
        simp only [Runtime.setThread, Function.update_self, reduceCtorEq] at ht
      · rwa [hother t hc] at ht
    · rwa [hother t hne]
    · rw [Runtime.isRunnable, hother t hne]
      exact .inl ht
  | register hn =>
    refine ⟨⟨rfl, rfl, rfl, rfl, fun _ ht => ht, fun _ => rfl⟩, fun _ _ ht => ht, fun _ _ ht => .inl ht, fun m hm => ?_⟩
    obtain rfl := Option.some.inj hm
    exact .inr ⟨(findBehind_some hn).1, fun t hne ht _ => findBehind_nearest hn hne ht⟩
  | release hthreads _ =>
    refine ⟨⟨rfl, rfl, rfl, rfl, fun t ht => ?_, id⟩, fun t _ ht => ?_, fun t _ ht => ?_, fun _ hn => .inl hn⟩
    · rcases hthreads t with he | hf
      · rwa [← he]
      · exact ThreadState.noConfusion (hf.symm.trans ht)
    · rcases hthreads t with he | hf
      · exact (congrArg ThreadCtl.state he).trans ht
      · exact hf
    · rcases hthreads t with he | hf
      · exact .inl (by simpa only [Runtime.isRunnable, he] using ht)
      · exact .inr hf

theorem Moves.orderly (h : Moves limit s s') : Orderly s s' := by
  induction h with
  | refl => exact .refl s
  | tail _ hm ih => exact ih.trans hm.orderly

theorem Runtime.armed_orderly (o : Option (Word × Word)) : Orderly s (s.armed o) := by
  cases o with
  | none => exact .refl s
  | some p =>
    rw [Runtime.armed, Runtime.armWaitTimer]
    split_ifs
    · exact .refl s
    · exact ⟨⟨rfl, rfl, rfl, rfl, fun _ ht => ht, id⟩, fun _ _ ht => ht, fun _ _ ht => .inl ht, fun _ hn => .inl hn⟩

/-- A slot that is taken does not run yet. -/
theorem Spawns.steady (h : Spawns s s') (hused : (s.procs s.currentProc).used = true) : Steady s s' := by
  cases h with
  | none => exact (Orderly.refl s).toSteady
  | one state threads _ current currentProc rootPa root pending =>
    refine ⟨current, currentProc, rootPa, root hused, fun u hu => ?_, fun _ => by rw [pending]; rfl⟩
    rw [threads] at hu
    simp only [Function.update_apply] at hu
    split_ifs at hu
    · exact ThreadState.noConfusion (state.symm.trans hu)
    · exact hu

end Relations

end Pyremu.Sittim
