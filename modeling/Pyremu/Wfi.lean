import Pyremu.State
import Pyremu.Lib.Interleave
import Pyremu.Lib.Tally

/-!
# The idle verdict

The workers of all harts enter and leave `wfi_spin` in any order. A counter of
waiting harts is compared with the number of harts that were not halted when
the round began; a waiting hart that finds them equal ends the round. A worker
whose hart is halted adds itself to the counter as well.
-/

namespace Pyremu

open Interleave Tally

/-- Where a worker stands. From `entered` to `unflagged` it is inside `wfi_spin`; `quits` says
that `wfi_spin` is going to return false. -/
inductive WorkerPhase where
  | loop
  | entered
  | spinning
  | idle
  | leaving (quits : Bool)
  | unflagged (quits : Bool)
  | haltFlagged
  | halted
  | returned
  deriving DecidableEq, Repr

/-- The part of `ModuleState` that decides about waiting. -/
structure WaitState (n : Nat) where
  wfiCount : Nat
  wfiFlags : Fin n → Bool
  stop : Option ExitReason

/-- One access of a worker, or a decision it takes from inputs that are left open here: whether an
instruction is executed or WFI reached, whether an interrupt woke the hart, what an external stop
flag says, what `wfi_check_all_idle` finds. -/
inductive WorkerAct where
  | execute
  | quit (reason : Option ExitReason)
  | haltFlag
  | haltCount
  | enter
  | count
  | woke
  | sawStop (external : Bool)
  | allInWfi
  | keepSpinning
  | wakeForMsip
  | requestStop
  | clearFlag
  | uncount
  deriving DecidableEq, Repr

abbrev WfiConfig (n : Nat) := Config (WaitState n) WorkerPhase (Fin n)

/-- `count_active`. -/
def countActive {n : Nat} (halted : Fin n → Bool) : Nat := (List.finRange n).countP fun i => !halted i

namespace WaitState

variable {n : Nat} (s : WaitState n)

/-- `ModuleState::all_in_wfi`. -/
def allInWfi (active : Nat) : Bool := decide (active ≤ s.wfiCount)

/-- The first request wins. -/
def request (reason : ExitReason) : WaitState n :=
  match s.stop with
  | some _ => s
  | none => { s with stop := some reason }

def flag (i : Fin n) (b : Bool) : WaitState n := { s with wfiFlags := Function.update s.wfiFlags i b }

end WaitState

/-- `hart_worker` and `wfi_spin`, as far as they touch the state of waiting. -/
def workerStep {n : Nat} (halted : Fin n → Bool) (i : Fin n) (s : WaitState n) :
    WorkerPhase → WorkerAct → WaitState n × WorkerPhase
  | .loop, .quit reason => ((reason.map s.request).getD s, .returned)
  | .loop, .haltFlag => if halted i then (s.flag i true, .haltFlagged) else (s, .loop)
  | .haltFlagged, .haltCount => ({ s with wfiCount := s.wfiCount + 1 }, .halted)
  | .loop, .enter => if halted i then (s, .loop) else (s.flag i true, .entered)
  | .entered, .count => ({ s with wfiCount := s.wfiCount + 1 }, .spinning)
  | .spinning, .woke => (s, .leaving false)
  | .spinning, .sawStop external => if s.stop.isSome || external then (s, .leaving true) else (s, .spinning)
  | .spinning, .allInWfi => if s.allInWfi (countActive halted) then (s, .idle) else (s, .spinning)
  | .idle, .keepSpinning => (s, .spinning)
  | .idle, .wakeForMsip => (s, .leaving false)
  | .idle, .requestStop => (s.request .wfiWait, .leaving true)
  | .leaving quits, .clearFlag => (s.flag i false, .unflagged quits)
  | .unflagged quits, .uncount =>
    ({ s with wfiCount := s.wfiCount - 1 }, if quits then .returned else .loop)
  | phase, _ => (s, phase)

def wfiStep {n : Nat} (halted : Fin n → Bool) : WfiConfig n → Fin n × WorkerAct → WfiConfig n :=
  Interleave.step (workerStep halted)

/-- `run_parallel` has just created the threads. -/
def wfiStart (n : Nat) : WfiConfig n := ⟨⟨0, fun _ => false, none⟩, fun _ => .loop⟩

namespace WorkerPhase

/-- The worker is inside `wfi_spin`. -/
def inside : WorkerPhase → Bool
  | .entered | .spinning | .idle | .leaving _ | .unflagged _ => true
  | _ => false

/-- The worker has added itself to the counter and not yet taken itself off. -/
def counted : WorkerPhase → Bool
  | .spinning | .idle | .leaving _ | .unflagged _ | .halted => true
  | _ => false

/-- What a hart that is halted, or is not, can come to. -/
def fits (halted : Bool) : WorkerPhase → Bool
  | .loop | .returned => true
  | .haltFlagged | .halted => halted
  | _ => !halted

end WorkerPhase

section Worker

variable {n : Nat} {halted : Fin n → Bool} {i : Fin n} {s : WaitState n}

theorem wfiCount_request (s : WaitState n) (reason : ExitReason) : (s.request reason).wfiCount = s.wfiCount := by
  rw [WaitState.request]
  split <;> rfl

theorem wfiCount_quit (s : WaitState n) (reason : Option ExitReason) :
    ((reason.map s.request).getD s).wfiCount = s.wfiCount := by
  cases reason with
  | none => rfl
  | some reason => exact wfiCount_request s reason

/-- A worker stays within what its hart can come to, and the counter follows it. -/
theorem workerStep_spec {phase : WorkerPhase} (a : WorkerAct) (h : phase.fits (halted i) = true)
    (hc : phase.counted = true → 1 ≤ s.wfiCount) :
    (workerStep halted i s phase a).2.fits (halted i) = true ∧
      (workerStep halted i s phase a).1.wfiCount + phase.counted.toNat =
        s.wfiCount + (workerStep halted i s phase a).2.counted.toNat := by
  cases phase <;> cases a
  all_goals try exact ⟨h, rfl⟩
  case loop.quit reason => exact ⟨rfl, wfiCount_quit s reason⟩
  case loop.haltFlag =>
    simp only [workerStep]
    split_ifs with hh
    · exact ⟨hh, rfl⟩
    · exact ⟨rfl, rfl⟩
  case loop.enter =>
    simp only [workerStep]
    split_ifs with hh
    · exact ⟨rfl, rfl⟩
    · rw [Bool.not_eq_true] at hh
      exact ⟨by rw [hh]; rfl, rfl⟩
  case spinning.sawStop external =>
    simp only [workerStep]
    split_ifs <;> exact ⟨h, rfl⟩
  case spinning.allInWfi =>
    simp only [workerStep]
    split_ifs <;> exact ⟨h, rfl⟩
  case idle.requestStop => exact ⟨h, congrArg (· + 1) (wfiCount_request s .wfiWait)⟩
  case unflagged.uncount quits =>
    have hpos := hc rfl
    cases quits with
    | true => exact ⟨rfl, Nat.sub_add_cancel hpos⟩
    | false => exact ⟨rfl, Nat.sub_add_cancel hpos⟩

/-- The counter is the number of workers that have added themselves. -/
structure WfiInv (halted : Fin n → Bool) (c : WfiConfig n) : Prop where
  fits : ∀ i, (c.proc i).fits (halted i) = true
  count : c.shared.wfiCount = tally WorkerPhase.counted c.proc

variable {c : WfiConfig n}

theorem WfiInv.start (halted : Fin n → Bool) : WfiInv halted (wfiStart n) := by
  refine ⟨fun _ => rfl, ?_⟩
  rw [tally, Finset.filter_false_of_mem]
  · rfl
  · intro i _ h
    cases h

theorem WfiInv.step (h : WfiInv halted c) (l : Fin n × WorkerAct) : WfiInv halted (wfiStep halted c l) := by
  obtain ⟨i, a⟩ := l
  have hpos : (c.proc i).counted = true → 1 ≤ c.shared.wfiCount := by
    intro hi
    rw [h.count]
    exact tally_pos hi
  obtain ⟨hfits, hcount⟩ := workerStep_spec a (h.fits i) hpos
  refine ⟨fun j => ?_, ?_⟩
  · by_cases hj : j = i
    · subst hj
      simp only [wfiStep, Interleave.step_proc_self]
      exact hfits
    · simp only [wfiStep, Interleave.step_proc_other hj]
      exact h.fits j
  · have hupd := tally_update WorkerPhase.counted c.proc i (workerStep halted i c.shared (c.proc i) a).2
    rw [← h.count] at hupd
    simp only [wfiStep, Interleave.step]
    omega

/-- The verdict of a worker that asks is true only when all other harts that are not halted wait. -/
def Honest (halted : Fin n → Bool) (c : WfiConfig n) (l : Fin n × WorkerAct) : Prop :=
  l.2 = .allInWfi → c.proc l.1 = .spinning → c.shared.allInWfi (countActive halted) = true →
    ∀ j, halted j = false → (c.proc j).inside = true

/-- The round is ended for idleness only while all harts that are not halted wait. -/
def EndsIdle (halted : Fin n → Bool) (c : WfiConfig n) (l : Fin n × WorkerAct) : Prop :=
  l.2 = .requestStop → c.proc l.1 = .idle → ∀ j, halted j = false → (c.proc j).inside = true

theorem countActive_eq_card (halted : Fin n → Bool) :
    countActive halted = (Finset.univ.filter fun i => (!halted i) = true).card := by
  have hnodup : ((List.finRange n).filter fun i => !halted i).Nodup := (List.nodup_finRange n).filter _
  rw [countActive, List.countP_eq_length_filter, ← List.toFinset_card_of_nodup hnodup]
  congr 1
  ext i
  rw [List.mem_toFinset, List.mem_filter, Finset.mem_filter]
  exact and_congr_left' (iff_of_true (List.mem_finRange i) (Finset.mem_univ i))

theorem inside_of_counted {phase : WorkerPhase} (hc : phase.counted = true) (hf : phase.fits false = true) :
    phase.inside = true := by
  cases phase <;> first | rfl | exact absurd hc Bool.false_ne_true | exact absurd hf Bool.false_ne_true

theorem not_halted_of_inside {b : Bool} {phase : WorkerPhase} (hi : phase.inside = true)
    (hf : phase.fits b = true) : b = false := by
  cases b with
  | false => rfl
  | true =>
    cases phase <;> first | exact absurd hi Bool.false_ne_true | exact absurd hf Bool.false_ne_true

/-- Without a halted hart, the counter counts waiting harts only. -/
theorem honest_of_none_halted (h : WfiInv halted c) (hn : ∀ i, halted i = false) (l : Fin n × WorkerAct) :
    Honest halted c l := by
  intro _ _ hall j hj
  have hle := of_decide_eq_true hall
  rw [countActive_eq_card, h.count] at hle
  have hcounted := all_of_card_le (q := fun i => !halted i) (fun i _ => by rw [hn i]; rfl) hle j
    (by rw [hj]; rfl)
  apply inside_of_counted hcounted
  have hf := h.fits j
  rwa [hj] at hf

/-- The only hart that is not halted is the one that asks. -/
theorem inside_of_alone (h : WfiInv halted c) (h1 : countActive halted ≤ 1) {i : Fin n}
    (hi : (c.proc i).inside = true) : ∀ j, halted j = false → (c.proc j).inside = true := by
  intro j hj
  rw [countActive_eq_card, Finset.card_le_one] at h1
  have hmem : ∀ k, halted k = false → k ∈ Finset.univ.filter fun i => (!halted i) = true := by
    intro k hk
    exact Finset.mem_filter.mpr ⟨Finset.mem_univ k, by rw [hk]; rfl⟩
  rw [h1 j (hmem j hj) i (hmem i (not_halted_of_inside hi (h.fits i)))]
  exact hi

/-! ## Runs that fool the verdict -/

/-- The harts of a list enter `wfi_spin` one after the other. -/
def enterAll (l : List (Fin n)) : List (Fin n × WorkerAct) := l.flatMap fun i => [(i, .enter), (i, .count)]

theorem wfiStep_enter_count (hi : halted i = false) (hp : c.proc i = .loop) :
    wfiStep halted (wfiStep halted c (i, .enter)) (i, .count) =
      ⟨{ c.shared.flag i true with wfiCount := c.shared.wfiCount + 1 }, Function.update c.proc i .spinning⟩ := by
  have h1 : wfiStep halted c (i, .enter) = ⟨c.shared.flag i true, Function.update c.proc i .entered⟩ := by
    simp only [wfiStep, Interleave.step, hp, workerStep, hi, Bool.false_eq_true, if_false]
  rw [h1]
  simp only [wfiStep, Interleave.step, Function.update_self, Function.update_idem, workerStep]
  rfl

theorem foldl_enterAll (halted : Fin n → Bool) (l : List (Fin n)) (c : WfiConfig n) (hnd : l.Nodup)
    (hl : ∀ i ∈ l, halted i = false ∧ c.proc i = .loop) :
    ((enterAll l).foldl (wfiStep halted) c).shared.wfiCount = c.shared.wfiCount + l.length ∧
      (∀ i ∈ l, ((enterAll l).foldl (wfiStep halted) c).proc i = .spinning) ∧
      ∀ i, i ∉ l → ((enterAll l).foldl (wfiStep halted) c).proc i = c.proc i := by
  induction l generalizing c with
  | nil =>
    refine ⟨rfl, fun i hi => ?_, fun _ _ => rfl⟩
    cases hi
  | cons a l ih =>
    obtain ⟨hal, hnd⟩ := List.nodup_cons.mp hnd
    obtain ⟨ha, hloop⟩ := hl a List.mem_cons_self
    have hfold : (enterAll (a :: l)).foldl (wfiStep halted) c = (enterAll l).foldl (wfiStep halted)
        ⟨{ c.shared.flag a true with wfiCount := c.shared.wfiCount + 1 },
          Function.update c.proc a .spinning⟩ := by
      rw [← wfiStep_enter_count ha hloop]
      rfl
    rw [hfold]
    obtain ⟨hcount, hin, hout⟩ := ih
      ⟨{ c.shared.flag a true with wfiCount := c.shared.wfiCount + 1 }, Function.update c.proc a .spinning⟩
      hnd fun i hi => by
        have hne : i ≠ a := fun h => hal (h ▸ hi)
        simp only [Function.update_of_ne hne]
        exact hl i (List.mem_cons_of_mem a hi)
    refine ⟨?_, fun i hi => ?_, fun i hi => ?_⟩
    · rw [hcount, List.length_cons]
      simp only []
      omega
    · rcases List.mem_cons.mp hi with rfl | hi
      · rw [hout i hal]
        exact Function.update_self ..
      · exact hin i hi
    · rw [hout i (fun h => hi (List.mem_cons_of_mem a h))]
      have hne : i ≠ a := by
        rintro rfl
        exact hi List.mem_cons_self
      exact Function.update_of_ne hne ..

/-- The harts that are not halted. -/
def activeHarts (halted : Fin n → Bool) : List (Fin n) := (List.finRange n).filter fun i => !halted i

theorem mem_activeHarts : i ∈ activeHarts halted ↔ halted i = false := by
  rw [activeHarts, List.mem_filter, Bool.not_eq_true']
  exact and_iff_right (List.mem_finRange i)

theorem nodup_activeHarts (halted : Fin n → Bool) : (activeHarts halted).Nodup := (List.nodup_finRange n).filter _

theorem length_activeHarts (halted : Fin n → Bool) : (activeHarts halted).length = countActive halted := by
  rw [countActive, List.countP_eq_length_filter, activeHarts]

theorem exists_two_active (h : ¬ countActive halted ≤ 1) :
    ∃ a b, a ≠ b ∧ halted a = false ∧ halted b = false := by
  rw [countActive_eq_card, not_le, Finset.one_lt_card] at h
  obtain ⟨a, ha, b, hb, hne⟩ := h
  rw [Finset.mem_filter, Bool.not_eq_true'] at ha hb
  exact ⟨a, b, hne, ha.2, hb.2⟩

/-- A halted hart counts itself, all others but `b` wait, and `a` asks. -/
theorem halted_hart_fools {z a b : Fin n} (hz : halted z = true) (ha : halted a = false)
    (hb : halted b = false) (hab : a ≠ b) :
    ∃ run, ¬ Run.Along (wfiStep halted) (Honest halted) (wfiStart n) run := by
  refine ⟨[(z, .haltFlag), (z, .haltCount)] ++ enterAll ((activeHarts halted).erase b) ++ [(a, .allInWfi)],
    fun h => ?_⟩
  have hlast := h.last
  rw [List.foldl_append] at hlast
  have hz1 : [(z, WorkerAct.haltFlag), (z, .haltCount)].foldl (wfiStep halted) (wfiStart n) =
      ⟨{ (wfiStart n).shared.flag z true with wfiCount := 1 }, Function.update (wfiStart n).proc z .halted⟩ := by
    simp only [List.foldl_cons, List.foldl_nil, wfiStep, Interleave.step, wfiStart, workerStep, hz, if_true,
      Function.update_self, Function.update_idem]
    rfl
  rw [hz1] at hlast
  have hnd := (nodup_activeHarts halted).erase b
  have hne : ∀ i, halted i = false → i ≠ z := by
    rintro i hi rfl
    rw [hz] at hi
    cases hi
  obtain ⟨hcount, hin, hout⟩ := foldl_enterAll halted ((activeHarts halted).erase b)
    ⟨{ (wfiStart n).shared.flag z true with wfiCount := 1 }, Function.update (wfiStart n).proc z .halted⟩ hnd
    fun i hi => by
      have hact := mem_activeHarts.mp (List.mem_of_mem_erase hi)
      exact ⟨hact, Function.update_of_ne (hne i hact) ..⟩
  have hbL : b ∈ activeHarts halted := mem_activeHarts.mpr hb
  have haL : a ∈ (activeHarts halted).erase b := (List.mem_erase_of_ne hab).mpr (mem_activeHarts.mpr ha)
  have hbout : b ∉ (activeHarts halted).erase b := (nodup_activeHarts halted).not_mem_erase
  have hall := hlast rfl (hin a haL) (decide_eq_true (by
    rw [hcount, List.length_erase_of_mem hbL, length_activeHarts]
    simp only []
    omega)) b hb
  rw [hout b hbout] at hall
  simp only [Function.update_of_ne (hne b hb)] at hall
  cases hall

/-- All harts that are not halted wait, `a` asks, `b` wakes and leaves, and `a` ends the round. -/
theorem woken_hart_overlooked {a b : Fin n} (ha : halted a = false) (hb : halted b = false) (hab : a ≠ b) :
    ∃ run, ¬ Run.Along (wfiStep halted) (EndsIdle halted) (wfiStart n) run := by
  refine ⟨enterAll (activeHarts halted) ++ [(a, .allInWfi), (b, .woke), (b, .clearFlag), (b, .uncount)] ++
    [(a, .requestStop)], fun h => ?_⟩
  have hlast := h.last
  rw [List.foldl_append] at hlast
  obtain ⟨hcount, hin, _⟩ := foldl_enterAll halted (activeHarts halted) (wfiStart n) (nodup_activeHarts halted)
    fun i hi => ⟨mem_activeHarts.mp hi, rfl⟩
  generalize (enterAll (activeHarts halted)).foldl (wfiStep halted) (wfiStart n) = c at hlast hcount hin
  have hpa := hin a (mem_activeHarts.mpr ha)
  have hpb := hin b (mem_activeHarts.mpr hb)
  have hall : c.shared.allInWfi (countActive halted) = true := by
    apply decide_eq_true
    rw [hcount, length_activeHarts]
    exact Nat.le_add_left ..
  have hidle : wfiStep halted c (a, .allInWfi) = ⟨c.shared, Function.update c.proc a .idle⟩ := by
    simp only [wfiStep, Interleave.step, hpa, workerStep, if_pos hall]
  have hwoke : wfiStep halted ⟨c.shared, Function.update c.proc a .idle⟩ (b, .woke) =
      ⟨c.shared, Function.update (Function.update c.proc a .idle) b (.leaving false)⟩ := by
    simp only [wfiStep, Interleave.step, Function.update_of_ne hab.symm, hpb, workerStep]
  simp only [List.foldl_cons, List.foldl_nil] at hlast
  rw [hidle, hwoke] at hlast
  have hout := hlast rfl ?_ b hb
  · simp only [wfiStep, Interleave.step, Function.update_self, workerStep] at hout
    cases hout
  · simp only [wfiStep, Interleave.step, Function.update_of_ne hab, Function.update_self]

end Worker

/-- For any number of harts and any of them halted: in every interleaving the idle verdict is true
only when every hart that is not halted is inside `wfi_spin`, exactly when no hart is halted or at
most one is not; and the round is never ended for idleness while such a hart is outside, exactly
when at most one hart is not halted. -/
theorem idle_verdict_honest_iff (n : Nat) (halted : Fin n → Bool) :
    ((∀ run, Run.Along (wfiStep halted) (Honest halted) (wfiStart n) run) ↔
        (∀ i, halted i = false) ∨ countActive halted ≤ 1) ∧
      ((∀ run, Run.Along (wfiStep halted) (EndsIdle halted) (wfiStart n) run) ↔ countActive halted ≤ 1) := by
  constructor
  · constructor
    · intro h
      by_contra hcond
      obtain ⟨hsome, htwo⟩ := not_or.mp hcond
      obtain ⟨z, hz⟩ := not_forall.mp hsome
      obtain ⟨a, b, hab, ha, hb⟩ := exists_two_active htwo
      obtain ⟨run, hrun⟩ := halted_hart_fools (Bool.not_eq_false _ ▸ hz) ha hb hab
      exact hrun (h run)
    · intro hcond run
      refine Run.along_of_invariant (fun _ l h => h.step l) ?_ (WfiInv.start halted)
      intro c l hinv
      rcases hcond with hnone | hone
      · exact honest_of_none_halted hinv hnone l
      · intro _ hspin _
        exact inside_of_alone hinv hone (i := l.1) (by rw [hspin]; rfl)
  · constructor
    · intro h
      by_contra htwo
      obtain ⟨a, b, hab, ha, hb⟩ := exists_two_active htwo
      obtain ⟨run, hrun⟩ := woken_hart_overlooked ha hb hab
      exact hrun (h run)
    · intro hone run
      refine Run.along_of_invariant (fun _ l h => h.step l) ?_ (WfiInv.start halted)
      intro c l hinv _ hidle
      exact inside_of_alone hinv hone (i := l.1) (by rw [hidle]; rfl)

/-- Hart 0 is halted, hart 1 waits, hart 2 executes instructions: the verdict is that all wait. -/
theorem halted_hart_counts_as_waiting :
    ¬ Run.Along (wfiStep fun i : Fin 3 => decide (i = 0)) (Honest fun i : Fin 3 => decide (i = 0)) (wfiStart 3)
      [(0, .haltFlag), (0, .haltCount), (2, .execute), (1, .enter), (1, .count), (1, .allInWfi)] := by
  rintro ⟨_, _, _, _, _, h, _⟩
  exact absurd (h rfl (by decide) (by decide) 2 (by decide)) (by decide)

end Pyremu
