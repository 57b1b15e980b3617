import Pyremu.IdleWake
import Pyremu.PyInterruptRuns

/-!
# Wake-ups of an idle machine

A hart that a round looks at does not stay waiting for what is pending by then. A
wake-up is lost between that look and the clearing of the event only: when a call
becomes pending and sets the event in between, and when a hart of a Python round
begins to wait with an interrupt that its `mip` does not show.
-/

namespace Pyremu

namespace PyBoard

variable {n : Nat} {b : PyBoard n}

/-! ## One hart -/

theorem onClint_waiting (b : PyBoard n) (r : PyClint n × Bool) :
    (b.onClint r).hart.waiting = b.hart.waiting := by
  simp only [onClint]
  split <;> rfl

theorem clearIpi_waiting (b : PyBoard n) (hartId : Nat) : (b.clearIpi hartId).hart.waiting = b.hart.waiting :=
  onClint_waiting _ _

theorem trapDeliverSmode_waiting (b : PyBoard n) (excCode : Nat) (tval : Word) (isInterrupt : Bool) :
    (b.trapDeliverSmode excCode tval isInterrupt).hart.waiting = b.hart.waiting := by
  simp only [trapDeliverSmode]
  split_ifs
  · rfl
  · exact clearIpi_waiting _ _
  · rfl
  · rfl

theorem trapDeliverMmode_waiting (b : PyBoard n) (excCode : Nat) (tval : Word) (isInterrupt : Bool) :
    (b.trapDeliverMmode excCode tval isInterrupt).hart.waiting = b.hart.waiting := by
  simp only [trapDeliverMmode]
  split_ifs
  · exact clearIpi_waiting _ _
  · rfl

/-- A trap ends the wait. -/
theorem deliverTrap_awake (b : PyBoard n) (excCode : Nat) (tval : Word) (isInterrupt : Bool) :
    (b.deliverTrap excCode tval isInterrupt).hart.waiting = false := by
  simp only [deliverTrap]
  generalize (if isInterrupt = true then b.csr .mideleg else b.csr .medeleg) = choice
  split
  · exact trapDeliverSmode_waiting _ _ _ _
  · exact trapDeliverMmode_waiting _ _ _ _

/-- The check takes a trap, or leaves the controllers as they are. -/
theorem check_cases (b : PyBoard n) : b.checkPendingInterrupts.2.hart.waiting = false ∨
    b.checkPendingInterrupts.2.hart.waiting = b.hart.waiting ∧ b.checkPendingInterrupts.2.ext = b.ext ∧
      b.checkPendingInterrupts.2.csr .mie = b.csr .mie := by
  have hmie : (b.updateHwMip b.hwMip).csr .mie = b.csr .mie := csr_updateHwMip b b.hwMip (by decide)
  simp only [checkPendingInterrupts]
  split_ifs
  · exact .inr ⟨rfl, rfl, rfl⟩
  · exact .inr ⟨rfl, rfl, hmie⟩
  · simp only [deliverFirst]
    split_ifs
    · exact .inr ⟨rfl, rfl, hmie⟩
    · exact .inr ⟨rfl, rfl, hmie⟩
    · split
      · exact .inl (deliverTrap_awake _ _ _ _)
      · exact .inr ⟨rfl, rfl, hmie⟩

theorem check_awake (h : b.hart.waiting = false) : b.checkPendingInterrupts.2.hart.waiting = false := by
  rcases b.check_cases with hc | hc
  · exact hc
  · rw [hc.1, h]

/-- A hart that waits after WFI has changed neither the controllers nor its enables. -/
theorem stepWfi_asleep {instr : BitVec 32} (h : (b.stepWfi instr).hart.waiting = true) :
    (b.stepWfi instr).ext = b.ext ∧ (b.stepWfi instr).csr .mie = b.csr .mie := by
  simp only [stepWfi] at h ⊢
  generalize hnext : (if (b.handleWfi instr).hart.pc = b.hart.pc then
    (b.handleWfi instr).withHart { (b.handleWfi instr).hart with pc := b.hart.pc + 4 }
    else b.handleWfi instr) = next at h ⊢
  have hcases : next.hart.waiting = false ∨ next.ext = b.ext ∧ next.csr .mie = b.csr .mie := by
    have hwfi : (b.handleWfi instr).hart.waiting = false ∨
        (b.handleWfi instr).ext = b.ext ∧ (b.handleWfi instr).csr .mie = b.csr .mie := by
      simp only [handleWfi]
      split_ifs
      · exact .inl (deliverTrap_awake _ _ _ _)
      · exact .inr ⟨rfl, rfl⟩
      · exact .inr ⟨rfl, rfl⟩
      · exact .inr ⟨rfl, rfl⟩
    rw [← hnext]
    split
    · exact hwfi
    · exact hwfi
  rcases hcases with hc | ⟨hext, hmie⟩
  · rw [check_awake hc] at h
    cases h
  · rcases next.check_cases with hk | ⟨_, hext', hmie'⟩
    · rw [hk] at h
      cases h
    · exact ⟨hext'.trans hext, hmie'.trans hmie⟩

theorem syncPendingInterrupts_frame (b : PyBoard n) :
    b.syncPendingInterrupts.ext = b.ext ∧ b.syncPendingInterrupts.clint = b.clint ∧
      b.syncPendingInterrupts.hart.waiting = b.hart.waiting := by
  simp only [syncPendingInterrupts]
  split_ifs
  · exact ⟨rfl, rfl, rfl⟩
  · exact ⟨rfl, rfl, rfl⟩

theorem csr_mip_sync (b : PyBoard n) : b.syncPendingInterrupts.csr .mip = (b.updateHwMip b.hwMip).csr .mip := by
  simp only [syncPendingInterrupts]
  split_ifs
  · exact Function.update_of_ne (show PyCsr.mip ≠ PyCsr.mie by decide) (b.csr .mie ||| bit 3) _
  · rfl

/-- Only the enable of the software interrupt may change. -/
theorem csr_mie_sync (b : PyBoard n) {i : IntSource} (hi : i ≠ .MSI) :
    (b.syncPendingInterrupts.csr .mie).getLsbD i.code = (b.csr .mie).getLsbD i.code := by
  simp only [syncPendingInterrupts]
  split_ifs
  · have hset : ((b.updateHwMip b.hwMip).withHart
        ((b.updateHwMip b.hwMip).hart.setCsr .mie (b.csr .mie ||| bit 3))).csr .mie = b.csr .mie ||| bit 3 := by
      simp only [csr, withHart, PyHart.setCsr, Function.update_self]
    have hbit : (bit 3).getLsbD i.code = false := by
      cases i <;> first | exact absurd rfl hi | decide
    rw [hset, BitVec.getLsbD_or, hbit, Bool.or_false]
  · rw [csr_updateHwMip b b.hwMip (by decide)]

theorem wakeHartFromWfi_cases (h : PyHart) (halted : Bool) :
    h.wakeHartFromWfi halted = (h, false) ∨
      h.wakeHartFromWfi halted = ({ h with waiting := false, wfiWoken := true }, true) := by
  simp only [PyHart.wakeHartFromWfi]
  split_ifs
  · exact .inl rfl
  · exact .inl rfl
  · exact .inl rfl
  · exact .inr rfl

/-- A look wakes the hart, or changes nothing but `mip` and the enable of the software interrupt. -/
theorem look_cases (b : PyBoard n) (halted : Bool) :
    ((b.look halted).2 = true ∧ (b.look halted).1.hart.waiting = false) ∨
      ((b.look halted).2 = false ∧ (b.look halted).1 = b.syncPendingInterrupts) := by
  simp only [look]
  rcases wakeHartFromWfi_cases b.syncPendingInterrupts.hart halted with h | h
  · rw [h]
    exact .inr ⟨rfl, rfl⟩
  · rw [h]
    exact .inl ⟨rfl, rfl⟩

theorem look_ext (b : PyBoard n) (halted : Bool) : (b.look halted).1.ext = b.ext :=
  b.syncPendingInterrupts_frame.1

/-- An enabled hardware source wakes the hart that looks. -/
theorem look_wakes {i : IntSource} (hw : b.hart.waiting = true) (hs : i ≠ .SSI) (hm : i ≠ .MSI)
    (hp : b.Pending i) (he : (b.csr .mie).getLsbD i.code = true) : (b.look false).2 = true := by
  have hwait : b.syncPendingInterrupts.hart.waiting = true := b.syncPendingInterrupts_frame.2.2.trans hw
  have hmip : (b.syncPendingInterrupts.hart.csrs .mip).getLsbD i.code = true := by
    have hbit := b.getLsbD_synced i
    rw [← csr_mip_sync, decide_eq_true hp] at hbit
    exact hbit
  have hmie : (b.syncPendingInterrupts.hart.csrs .mie).getLsbD i.code = true := (b.csr_mie_sync hm).trans he
  have hhw : b.syncPendingInterrupts.hart.csrs .mip &&& hwMipMask ≠ 0 := by
    intro h0
    have hbit := congrArg (fun v => v.getLsbD i.code) h0
    simp [BitVec.getLsbD_and, hmip, getLsbD_hwMipMask, hs] at hbit
  have hboth : b.syncPendingInterrupts.hart.csrs .mip &&& b.syncPendingInterrupts.hart.csrs .mie ≠ 0 := by
    intro h0
    have hbit := congrArg (fun v => v.getLsbD i.code) h0
    simp [BitVec.getLsbD_and, hmip, hmie] at hbit
  simp only [look, PyHart.wakeHartFromWfi]
  rw [if_neg (by simp [hwait]), if_neg hhw, if_neg (fun h => hboth h.1)]

end PyBoard

namespace IdleState

variable {n : Nat} {W : Type} {wiring : IrqWiring n W} {calls : Nat → IrqCall} {s s' : IdleState n W}

/-! ## The invariant -/

/-- A live hart that the round has dealt with is awake, so that the thread will not sleep. -/
def Rouses (s : IdleState n W) : Prop := ∃ h, s.halted h = false ∧ s.handled h ∧ (s.harts h).waiting = false

/-- No completed call has anything for a hart that the round has left waiting. -/
def Clean (wiring : IrqWiring n W) (calls : Nat → IrqCall) (s : IdleState n W) : Prop :=
  ∀ i h m, s.stage i = .done → s.handled h → ¬ s.Reaches wiring calls i h m

variable (wiring calls) in
structure Sound (s : IdleState n W) : Prop where
  held : ∀ i, s.made i = true → wiring.held s.ext s.wires (calls i).source = true
  begun : ∀ i, s.stage i = .idle → s.made i = false
  order : ∀ rest, s.pc = .stepping rest → rest.Nodup ∧ ∀ h ∈ rest, s.halted h = false
  loop : ∀ rest, s.pc = .reading rest → rest.Nodup
  window : s.Rouses ∨ s.Clean wiring calls
  asleep : ∀ native, s.pc = .clearing native → ∀ h, s.halted h = false → (s.harts h).waiting = true
  blocked : ∀ native, s.pc = .waiting native →
    s.wakeEvent = true ∨ ∀ i h m, s.stage i = .done → ¬ s.Reaches wiring calls i h m

theorem sound_of_fresh (h : s.Fresh) : s.Sound wiring calls where
  held i hi := by rw [h.made i] at hi; cases hi
  begun i _ := h.made i
  order rest hp := by rw [h.pc] at hp; cases hp
  loop rest hp := by rw [h.pc] at hp; cases hp
  window := .inr fun i j m hi => by rw [h.stage i] at hi; cases hi
  asleep native hp := by rw [h.pc] at hp; cases hp
  blocked native hp := by rw [h.pc] at hp; cases hp

theorem Sound.not_lost (h : s.Sound wiring calls) : ¬ s.Lost wiring calls := by
  rintro ⟨⟨⟨native, hpc⟩, hev⟩, i, j, m, hi, hr⟩
  rcases h.blocked native hpc with hb | hb
  · rw [hev] at hb
    cases hb
  · exact hb i j m hi hr

/-- The round deals with hart `h`: either it stays awake, or nothing completed is left for it. -/
theorem window_next {h : Fin n} (hs : s.Rouses ∨ s.Clean wiring calls)
    (hback : ∀ j, s'.handled j → j = h ∨ s.handled j) (hkeep : ∀ j, s.handled j → s'.handled j ∧ j ≠ h)
    (hother : ∀ j, j ≠ h → (s'.harts j).waiting = (s.harts j).waiting ∧
      (s'.harts j).csrs .mie = (s.harts j).csrs .mie)
    (hhalted : s'.halted = s.halted) (hstage : s'.stage = s.stage)
    (hnow : (s.halted h = false ∧ s'.handled h ∧ (s'.harts h).waiting = false) ∨
      (s'.ext = s.ext ∧ s'.wires = s.wires ∧ (∀ i, s'.made i = true → s.made i = true) ∧
        ∀ i m, s.stage i = .done → ¬ s'.Reaches wiring calls i h m)) :
    s'.Rouses ∨ s'.Clean wiring calls := by
  rcases hnow with ⟨hlive, hdone, hwake⟩ | ⟨hext, hwires, hmade, hclean⟩
  · exact .inl ⟨h, by rw [hhalted]; exact hlive, hdone, hwake⟩
  · rcases hs with ⟨j, hlive, hdone, hwake⟩ | hs
    · obtain ⟨hdone', hne⟩ := hkeep j hdone
      exact .inl ⟨j, by rw [hhalted]; exact hlive, hdone', by rw [(hother j hne).1]; exact hwake⟩
    · refine .inr fun i j m hi hdone hr => ?_
      rw [hstage] at hi
      by_cases hj : j = h
      · subst hj
        exact hclean i m hi hr
      · obtain ⟨hw, hm⟩ := hother j hj
        refine hs i j m hi ((hback j hdone).resolve_left hj) ⟨⟨hmade i hr.made, ?_, ?_, ?_⟩, ?_⟩
        · rw [← hhalted]
          exact hr.live
        · rw [← hext, ← hwires]
          exact hr.routed
        · rw [← hm]
          exact hr.enabled
        · rw [← hw]
          exact hr.waiting

/-- What a call holds for a waiting hart wakes it when it looks. -/
theorem look_wakes_of_reaches {i : Nat} {h : Fin n} {m : Bool}
    (hheld : s.made i = true → wiring.held s.ext s.wires (calls i).source = true)
    (hr : s.Reaches wiring calls i h m) : ((s.board h).look (s.halted h)).2 = true := by
  have hline : s.ext.line h m = true := wiring.line_of_held _ _ _ _ _ (hheld hr.made) hr.routed
  rw [hr.live]
  cases m with
  | true =>
    exact PyBoard.look_wakes (i := .MEI) hr.waiting (by decide) (by decide) hline hr.enabled
  | false =>
    exact PyBoard.look_wakes (i := .SEI) hr.waiting (by decide) (by decide) hline hr.enabled

/-! ## The steps -/

/-- A hart that has looked and still waits has nothing left from a completed call. -/
theorem not_reaches_after_look {i : Nat} {h : Fin n} {m : Bool}
    (hheld : s.made i = true → wiring.held s.ext s.wires (calls i).source = true)
    (hasleep : ((s.board h).look (s.halted h)).2 = false)
    (hhart : s'.harts h = ((s.board h).look (s.halted h)).1.hart) (hhalted : s'.halted = s.halted)
    (hext : s'.ext = s.ext) (hwires : s'.wires = s.wires) (hmade : s'.made i = true → s.made i = true) :
    ¬ s'.Reaches wiring calls i h m := by
  intro hr
  rcases (s.board h).look_cases (s.halted h) with ⟨hw, _⟩ | ⟨_, hsame⟩
  · rw [hasleep] at hw
    cases hw
  · have hwait := hr.waiting
    have hen := hr.enabled
    rw [hhart, hsame] at hwait hen
    have hcode : extCode m = (if m then IntSource.MEI else IntSource.SEI).code := by cases m <;> rfl
    have hne : (if m then IntSource.MEI else IntSource.SEI) ≠ .MSI := by cases m <;> decide
    have hback : s.Reaches wiring calls i h m := by
      refine ⟨⟨hmade hr.made, ?_, ?_, ?_⟩, ?_⟩
      · rw [← hhalted]
        exact hr.live
      · rw [← hext, ← hwires]
        exact hr.routed
      · rw [hcode] at hen ⊢
        exact ((s.board h).csr_mie_sync hne).symm.trans hen
      · exact (s.board h).syncPendingInterrupts_frame.2.2.symm.trans hwait
    have hwoken := look_wakes_of_reaches hheld hback
    rw [hasleep] at hwoken
    cases hwoken

theorem Sound.reading {h : Fin n} {rest : List (Fin n)} (hs : s.Sound wiring calls)
    (hp : s.pc = .reading (h :: rest)) :
    Sound wiring calls { (s.lookHart h).1 with pc := .reading rest } := by
  have hnd := hs.loop _ hp
  rw [List.nodup_cons] at hnd
  have hwindow : ∀ s' : IdleState n W, s'.pc = .reading rest → s'.halted = s.halted → s'.stage = s.stage →
      s'.ext = s.ext → s'.wires = s.wires → s'.made = s.made →
      (∀ j, j ≠ h → s'.harts j = s.harts j) →
      ((s.halted h = false ∧ (s'.harts h).waiting = false) ∨
        ∀ i m, s.stage i = .done → ¬ s'.Reaches wiring calls i h m) →
      s'.Rouses ∨ s'.Clean wiring calls := by
    intro s' hp' hhalted hstage hext hwires hmade hother hnow
    apply window_next hs.window (h := h)
    · intro j hj
      simp only [handled, hp', hp, List.mem_cons, not_or] at hj ⊢
      by_cases hjh : j = h
      · exact .inl hjh
      · exact .inr ⟨hjh, hj⟩
    · intro j hj
      simp only [handled, hp', hp, List.mem_cons, not_or] at hj ⊢
      exact ⟨hj.2, hj.1⟩
    · intro j hj
      rw [hother j hj]
      exact ⟨rfl, rfl⟩
    · exact hhalted
    · exact hstage
    · rcases hnow with ⟨hlive, hwake⟩ | hclean
      · refine .inl ⟨hlive, ?_, hwake⟩
        simp only [handled, hp']
        exact hnd.1
      · exact .inr ⟨hext, hwires, fun i hi => hmade ▸ hi, hclean⟩
  simp only [lookHart]
  split
  · rename_i hskip
    refine ⟨hs.held, hs.begun, (fun _ hq => by cases hq), (fun _ hq => by cases hq; exact hnd.2), ?_,
      (fun _ hq => by cases hq), (fun _ hq => by cases hq)⟩
    refine hwindow _ rfl rfl rfl rfl rfl rfl (fun _ _ => rfl) (.inr fun i m _ hr => ?_)
    rcases hskip with hawake | hhalted
    · exact Bool.noConfusion (hawake.symm.trans hr.waiting)
    · exact Bool.noConfusion (hr.live.symm.trans hhalted)
  · rename_i hlook
    have hlive : s.halted h = false := Bool.eq_false_of_not_eq_true fun hh => hlook (.inr hh)
    refine ⟨hs.held, hs.begun, (fun _ hq => by cases hq), (fun _ hq => by cases hq; exact hnd.2), ?_,
      (fun _ hq => by cases hq), (fun _ hq => by cases hq)⟩
    have hself : Function.update s.harts h ((s.board h).look (s.halted h)).1.hart h =
        ((s.board h).look (s.halted h)).1.hart := Function.update_self ..
    apply hwindow
    · rfl
    · rfl
    · rfl
    · rfl
    · rfl
    · rfl
    · intro j hj
      exact Function.update_of_ne hj ..
    · rcases (s.board h).look_cases (s.halted h) with ⟨_, hawake⟩ | ⟨hasleep, _⟩
      · refine .inl ⟨hlive, ?_⟩
        change (Function.update s.harts h ((s.board h).look (s.halted h)).1.hart h).waiting = false
        rw [hself]
        exact hawake
      · exact .inr fun i m _ =>
          not_reaches_after_look (hs.held i) hasleep hself rfl rfl rfl fun hm => hm

/-- A step of a device that completes no call leaves the emulator thread as it is. -/
theorem Sound.quiet (hs : s.Sound wiring calls) (hpc : s'.pc = s.pc) (hev : s'.wakeEvent = s.wakeEvent)
    (hharts : s'.harts = s.harts) (hhalted : s'.halted = s.halted)
    (hheld : ∀ i, s'.made i = true → wiring.held s'.ext s'.wires (calls i).source = true)
    (hbegun : ∀ i, s'.stage i = .idle → s'.made i = false)
    (hback : ∀ i h m, s'.stage i = .done → s'.Reaches wiring calls i h m →
      s.stage i = .done ∧ s.Reaches wiring calls i h m) : s'.Sound wiring calls := by
  have hhandled : ∀ h, s'.handled h ↔ s.handled h := fun h => by simp only [handled, hpc]
  refine ⟨hheld, hbegun, fun rest hp => ?_, fun rest hp => hs.loop rest (hpc ▸ hp), ?_, fun native hp => ?_,
    fun native hp => ?_⟩
  · rw [hhalted]
    exact hs.order rest (hpc ▸ hp)
  · rcases hs.window with ⟨h, hlive, hdone, hwake⟩ | hc
    · exact .inl ⟨h, by rw [hhalted]; exact hlive, (hhandled h).mpr hdone, by rw [hharts]; exact hwake⟩
    · refine .inr fun i h m hi hh hr => ?_
      obtain ⟨hd, hr'⟩ := hback i h m hi hr
      exact hc i h m hd ((hhandled h).mp hh) hr'
  · rw [hhalted, hharts]
    exact hs.asleep native (hpc ▸ hp)
  · rw [hev]
    refine (hs.blocked native (hpc ▸ hp)).imp id fun hc i h m hi hr => ?_
    obtain ⟨hd, hr'⟩ := hback i h m hi hr
    exact hc i h m hd hr'

/-- A call that has only begun, or not changed anything, is not done. -/
theorem stage_other {i j : Nat} {st st' : CallStage} (hne : st ≠ st')
    (h : Function.update s.stage i st j = st') : j ≠ i ∧ s.stage j = st' := by
  by_cases hji : j = i
  · subst hji
    rw [Function.update_self] at h
    exact absurd h hne
  · rw [Function.update_of_ne hji] at h
    exact ⟨hji, h⟩

/-- The call moves on; what it has not done yet is nobody's. -/
theorem Sound.device (hs : s.Sound wiring calls) {i : Nat} (ht : s.InTime wiring calls (.device i)) :
    Sound wiring calls (s.deviceStep wiring calls i) := by
  simp only [deviceStep]
  cases hst : s.stage i with
  | idle =>
    have hmi := hs.begun i hst
    cases hset : wiring.setIrq s.ext s.wires (calls i).source (calls i).pending with
    | none =>
      dsimp only
      refine hs.quiet ?_ ?_ ?_ ?_ hs.held ?_ ?_
      · rfl
      · rfl
      · rfl
      · rfl
      · intro j hj
        exact hs.begun j (stage_other (by decide) hj).2
      · intro j h m hj hr
        have hji : j ≠ i := by
          rintro rfl
          exact Bool.noConfusion (hmi.symm.trans hr.made)
        change Function.update s.stage i .done j = .done at hj
        rw [Function.update_of_ne hji] at hj
        exact ⟨hj, ⟨hr.made, hr.live, hr.routed, hr.enabled⟩, hr.waiting⟩
    | some r =>
      obtain ⟨ext, wires⟩ := r
      have hrouted := wiring.routed_setIrq _ _ _ _ _ _ hset
      dsimp only
      refine hs.quiet ?_ ?_ ?_ ?_ ?_ ?_ ?_
      · rfl
      · rfl
      · rfl
      · rfl
      · intro j hj
        dsimp only at hj ⊢
        by_cases hji : j = i
        · subst hji
          rw [if_pos rfl, Bool.and_eq_true] at hj
          exact hj.1
        · rw [if_neg hji, Bool.and_eq_true] at hj
          exact hj.2
      · intro j hj
        obtain ⟨hji, hj⟩ := stage_other (by decide) hj
        dsimp only
        rw [if_neg hji, hs.begun j hj, Bool.false_and]
      · intro j h m hj hr
        obtain ⟨hji, hj⟩ := stage_other (by decide) hj
        have hm := hr.made
        dsimp only at hm
        rw [if_neg hji, Bool.and_eq_true] at hm
        exact ⟨hj, ⟨hm.1, hr.live, (hrouted _ _ _).mp hr.routed, hr.enabled⟩, hr.waiting⟩
  | irqSet =>
    dsimp only
    refine hs.quiet ?_ ?_ ?_ ?_ hs.held ?_ ?_
    · rfl
    · rfl
    · rfl
    · rfl
    · intro j hj
      exact hs.begun j (stage_other (by decide) hj).2
    · intro j h m hj hr
      exact ⟨(stage_other (by decide) hj).2, ⟨hr.made, hr.live, hr.routed, hr.enabled⟩, hr.waiting⟩
  | flagged =>
    refine ⟨hs.held, fun j hj => ?_, hs.order, hs.loop, ?_, hs.asleep, fun _ _ => .inl rfl⟩
    · exact hs.begun j (stage_other (by decide) hj).2
    refine hs.window.imp id fun hc j h m hj hh hr => ?_
    have hr' : s.Reaches wiring calls j h m := ⟨⟨hr.made, hr.live, hr.routed, hr.enabled⟩, hr.waiting⟩
    by_cases hji : j = i
    · subst hji
      exact ht hst h m hh hr'
    · change Function.update s.stage i .done j = .done at hj
      rw [Function.update_of_ne hji] at hj
      exact hc j h m hj hh hr'
  | done => exact hs

/-- The next hart of a Python round. -/
theorem Sound.stepping {h : Fin n} {rest : List (Fin n)} (hs : s.Sound wiring calls)
    (hp : s.pc = .stepping (h :: rest)) (hp' : s'.pc = .stepping rest) (hhalted : s'.halted = s.halted)
    (hstage : s'.stage = s.stage)
    (hmade : ∀ i, s'.made i = true →
      s.made i = true ∧ wiring.held s'.ext s'.wires (calls i).source = true)
    (hother : ∀ j, j ≠ h → (s'.harts j).waiting = (s.harts j).waiting ∧
      (s'.harts j).csrs .mie = (s.harts j).csrs .mie)
    (hnow : (s'.harts h).waiting = false ∨ (s'.ext = s.ext ∧ s'.wires = s.wires ∧
      ∀ i m, s.stage i = .done → ¬ s'.Reaches wiring calls i h m)) : s'.Sound wiring calls := by
  obtain ⟨hnd, hlive⟩ := hs.order _ hp
  rw [List.nodup_cons] at hnd
  refine ⟨fun i hi => (hmade i hi).2, fun i hi => ?_, fun rest' hq => ?_, fun rest' hq => ?_, ?_,
    fun native hq => ?_, fun native hq => ?_⟩
  · rw [hstage] at hi
    exact Bool.eq_false_of_not_eq_true fun hm => Bool.noConfusion ((hs.begun i hi).symm.trans (hmade i hm).1)
  · rw [hp'] at hq
    cases hq
    refine ⟨hnd.2, fun j hj => ?_⟩
    rw [hhalted]
    exact hlive j (List.mem_cons_of_mem _ hj)
  · rw [hp'] at hq
    cases hq
  · apply window_next hs.window (h := h)
    · intro j hj
      simp only [handled, hp', hp, List.mem_cons, not_or] at hj ⊢
      by_cases hjh : j = h
      · exact .inl hjh
      · exact .inr ⟨hjh, hj⟩
    · intro j hj
      simp only [handled, hp', hp, List.mem_cons, not_or] at hj ⊢
      exact ⟨hj.2, hj.1⟩
    · exact hother
    · exact hhalted
    · exact hstage
    · rcases hnow with hwake | ⟨hext, hwires, hclean⟩
      · refine .inl ⟨hlive h List.mem_cons_self, ?_, hwake⟩
        simp only [handled, hp']
        exact hnd.1
      · exact .inr ⟨hext, hwires, fun i hi => (hmade i hi).1, hclean⟩
  · rw [hp'] at hq
    cases hq
  · rw [hp'] at hq
    cases hq

/-- A hart of a Python round looks, executes WFI, or executes something else. -/
theorem Sound.hart {h : Fin n} {rest : List (Fin n)} (hs : s.Sound wiring calls)
    (hp : s.pc = .stepping (h :: rest)) {act : HartAct n W} {versions : Fin n → IntStateVersion}
    (ht : s.InTime wiring calls (.hart act versions)) :
    Sound wiring calls { s.stepHart wiring calls h act versions with pc := .stepping rest } := by
  have hother : ∀ (b : PyBoard n) j, j ≠ h →
      ((s.withBoard wiring calls h b versions).harts j).waiting = (s.harts j).waiting ∧
        ((s.withBoard wiring calls h b versions).harts j).csrs .mie = (s.harts j).csrs .mie := by
    intro b j hj
    simp only [withBoard, setCtrl, if_neg hj]
    exact ⟨trivial, trivial⟩
  have hself : ∀ b : PyBoard n, (s.withBoard wiring calls h b versions).harts h = b.hart := by
    intro b
    simp only [withBoard, setCtrl, ↓reduceIte]
  have hmade : ∀ (ext : ExtIntCtrl n) (wires : W) i, (s.setCtrl wiring calls ext wires).made i = true →
      s.made i = true ∧ wiring.held ext wires (calls i).source = true := by
    intro ext wires i hi
    simp only [setCtrl, Bool.and_eq_true] at hi
    exact hi
  by_cases hw : (s.harts h).waiting = true
  · simp only [stepHart, if_pos hw]
    apply hs.stepping hp
    · rfl
    · rfl
    · rfl
    · exact hmade _ _
    · exact hother _
    · simp only [hself]
      rcases (s.board h).look_cases (s.halted h) with ⟨hwoken, hawake⟩ | ⟨hasleep, hsame⟩
      · rw [if_pos hwoken]
        exact .inl (PyBoard.check_awake hawake)
      · have hlook : (if ((s.board h).look (s.halted h)).2 = true
            then ((s.board h).look (s.halted h)).1.checkPendingInterrupts.2
            else ((s.board h).look (s.halted h)).1) = ((s.board h).look (s.halted h)).1 :=
          if_neg (by rw [hasleep]; decide)
        have hext : ((s.board h).look (s.halted h)).1.ext = s.ext := (s.board h).look_ext _
        rw [hlook]
        refine .inr ⟨hext, rfl, fun i m hi => ?_⟩
        apply not_reaches_after_look (hs.held i) hasleep
        · exact hself _
        · rfl
        · exact hext
        · rfl
        · exact fun hm => (hmade _ _ i hm).1
  · cases act with
    | exec post clint ext wires =>
      simp only [stepHart, if_neg hw]
      apply hs.stepping hp
      · rfl
      · rfl
      · rfl
      · exact hmade _ _
      · intro j hj
        simp only [setCtrl, if_neg hj]
        exact ⟨trivial, trivial⟩
      · left
        simp only [setCtrl, ↓reduceIte]
    | wfi instr =>
      simp only [stepHart, if_neg hw]
      apply hs.stepping hp
      · rfl
      · rfl
      · rfl
      · exact hmade _ _
      · exact hother _
      · simp only [hself]
        by_cases hwait : ((s.board h).stepWfi instr).hart.waiting = true
        · obtain ⟨hext, hmie⟩ := PyBoard.stepWfi_asleep hwait
          refine .inr ⟨hext, rfl, fun i m hi hr => ?_⟩
          apply ht h rest hp (Bool.eq_false_of_not_eq_true hw) hwait i m hi
          refine ⟨(hmade _ _ i hr.made).1, hr.live, ?_, ?_⟩
          · have hrouted := hr.routed
            change wiring.routed ((s.board h).stepWfi instr).ext s.wires _ _ _ at hrouted
            rw [hext] at hrouted
            exact hrouted
          · have henabled := hr.enabled
            change ((((s.withBoard wiring calls h ((s.board h).stepWfi instr) versions).harts h).csrs
              .mie).getLsbD (extCode m)) = true at henabled
            rw [hself] at henabled
            change ((s.board h).csr .mie).getLsbD (extCode m) = true
            rw [← hmie]
            exact henabled
        · exact .inl (Bool.eq_false_of_not_eq_true hwait)

/-- Where the thread has dealt with no hart and does not wait. -/
def Outside : EmuPc n → Prop
  | .round => True
  | .resync _ => True
  | .rechecking _ _ => True
  | .settling _ => True
  | _ => False

theorem Sound.outside (hs : s.Sound wiring calls) (hout : Outside s'.pc) (hext : s'.ext = s.ext)
    (hwires : s'.wires = s.wires) (hmade : s'.made = s.made) (hstage : s'.stage = s.stage) :
    s'.Sound wiring calls := by
  refine ⟨fun i hi => ?_, fun i hi => ?_, fun rest hq => ?_, fun rest hq => ?_, .inr fun i h m _ hh => ?_,
    fun native hq => ?_, fun native hq => ?_⟩
  · rw [hext, hwires]
    exact hs.held i (hmade ▸ hi)
  · rw [hmade]
    exact hs.begun i (hstage ▸ hi)
  · rw [hq] at hout
    cases hout
  · rw [hq] at hout
    cases hout
  · simp only [handled] at hh
    split at hh <;> first | exact absurd hh id | simp_all [Outside]
  · rw [hq] at hout
    cases hout
  · rw [hq] at hout
    cases hout

/-- The thread goes on to where every hart has been dealt with. -/
theorem Sound.advance {pc : EmuPc n} (hs : s.Sound wiring calls) (hbefore : ∀ h, s.handled h)
    (hafter : ∀ h, ({ s with pc := pc } : IdleState n W).handled h) (hstepping : ∀ rest, pc ≠ .stepping rest)
    (hreading : ∀ rest, pc ≠ .reading rest)
    (hasleep : ∀ native, pc = .clearing native → ∀ h, s.halted h = false → (s.harts h).waiting = true)
    (hwaiting : ∀ native, pc ≠ .waiting native) : Sound wiring calls { s with pc := pc } := by
  refine ⟨hs.held, hs.begun, fun rest hq => absurd hq (hstepping rest), fun rest hq => absurd hq (hreading rest),
    ?_, hasleep, fun native hq => absurd hq (hwaiting native)⟩
  rcases hs.window with ⟨h, hlive, _, hwake⟩ | hc
  · exact .inl ⟨h, hlive, hafter h, hwake⟩
  · refine .inr fun i h m hi _ hr => ?_
    exact hc i h m hi (hbefore h) ⟨⟨hr.made, hr.live, hr.routed, hr.enabled⟩, hr.waiting⟩

theorem mem_live {h : Fin n} : h ∈ s.live ↔ s.halted h = false := by
  simp [live]

theorem asleep_of_idle (hi : s.idle = true) {h : Fin n} (hh : s.halted h = false) :
    (s.harts h).waiting = true := by
  simp only [idle, Bool.and_eq_true, List.all_eq_true] at hi
  exact hi.2 h (mem_live.mpr hh)

/-- The event is cleared while no completed call has anything for a waiting hart. -/
theorem Sound.clearing {native : Bool} (hs : s.Sound wiring calls) (hp : s.pc = .clearing native) :
    Sound wiring calls { s with wakeEvent := false, pc := .waiting native } := by
  refine ⟨hs.held, hs.begun, (fun _ hq => by cases hq), (fun _ hq => by cases hq), .inr fun i h m _ hh => ?_,
    (fun _ hq => by cases hq), fun _ _ => .inr fun i h m hi hr => ?_⟩
  · cases hh
  · rcases hs.window with ⟨j, hlive, _, hwake⟩ | hc
    · have hwait := hs.asleep native hp j hlive
      rw [hwake] at hwait
      cases hwait
    · have hh : s.handled h := by simp only [handled, hp]
      exact hc i h m hi hh ⟨⟨hr.made, hr.live, hr.routed, hr.enabled⟩, hr.waiting⟩

theorem lookHart_frame (h : Fin n) : (s.lookHart h).1.ext = s.ext ∧ (s.lookHart h).1.wires = s.wires ∧
    (s.lookHart h).1.made = s.made ∧ (s.lookHart h).1.stage = s.stage := by
  simp only [lookHart]
  split_ifs
  · exact ⟨rfl, rfl, rfl, rfl⟩
  · exact ⟨rfl, rfl, rfl, rfl⟩

theorem Sound.emu (hs : s.Sound wiring calls) (ticks : Nat) : Sound wiring calls (s.emuStep ticks) := by
  simp only [emuStep]
  cases hp : s.pc with
  | round => exact hs
  | stepping rest =>
    cases rest with
    | nil =>
      apply hs.advance
      · intro h
        simp [handled, hp]
      · intro h
        simp [handled]
      all_goals intro _ hq; cases hq
    | cons h rest => exact hs
  | reading rest =>
    cases rest with
    | nil =>
      apply hs.advance
      · intro h
        simp [handled, hp]
      · intro h
        simp [handled]
      all_goals intro _ hq; cases hq
    | cons h rest => exact hs.reading hp
  | deciding native =>
    dsimp only
    by_cases hidle : s.idle = true
    · rw [if_pos hidle]
      apply hs.advance
      · intro h
        simp [handled, hp]
      · intro h
        simp [handled]
      · intro _ hq
        cases hq
      · intro _ hq
        cases hq
      · exact fun _ _ h hh => asleep_of_idle hidle hh
      · intro _ hq
        cases hq
    · rw [if_neg hidle]
      apply hs.outside
      · cases native <;> exact trivial
      all_goals rfl
  | clearing native => exact hs.clearing hp
  | waiting native =>
    dsimp only
    by_cases hev : s.wakeEvent = true
    · rw [if_pos hev]
      apply hs.outside
      · cases native <;> exact trivial
      all_goals rfl
    · rw [if_neg hev]
      exact hs
  | resync rest => cases rest <;> exact hs.outside trivial rfl rfl rfl rfl
  | rechecking rest woken =>
    cases rest with
    | nil => exact hs.outside trivial rfl rfl rfl rfl
    | cons h rest =>
      obtain ⟨hext, hwires, hmade, hstage⟩ := s.lookHart_frame h
      exact hs.outside trivial hext hwires hmade hstage
  | settling rest =>
    cases rest with
    | nil => exact hs.outside trivial rfl rfl rfl rfl
    | cons h rest =>
      obtain ⟨hext, hwires, hmade, hstage⟩ := s.lookHart_frame h
      exact hs.outside trivial hext hwires hmade hstage

/-- Whatever the engine has done, every hart is still to be read. -/
theorem Sound.engine (hs : s.Sound wiring calls) (harts : Fin n → PyHart) (halted : Fin n → Bool)
    (clint : PyClint n) (ext : ExtIntCtrl n) (wires : W) :
    Sound wiring calls { s.setCtrl wiring calls ext wires with
      harts := harts, halted := halted, clint := clint, pc := .reading (List.finRange n) } := by
  refine ⟨fun i hi => ?_, fun i hi => ?_, (fun _ hq => by cases hq),
    (fun _ hq => by cases hq; exact List.nodup_finRange n), .inr fun i h m _ hh => ?_,
    (fun _ hq => by cases hq), (fun _ hq => by cases hq)⟩
  · simp only [setCtrl, Bool.and_eq_true] at hi
    exact hi.2
  · simp only [setCtrl, hs.begun i hi, Bool.false_and]
  · exact absurd (List.mem_finRange h) hh

/-- A Python round begins with every live hart still to come. -/
theorem Sound.startStep (hs : s.Sound wiring calls) {order : List (Fin n)} (ho : order.Perm s.live) :
    Sound wiring calls { s with pc := .stepping order } := by
  refine ⟨hs.held, hs.begun, fun rest hq => ?_, (fun _ hq => by cases hq), .inr fun i h m _ hh hr => ?_,
    (fun _ hq => by cases hq), (fun _ hq => by cases hq)⟩
  · cases hq
    refine ⟨ho.nodup_iff.mpr ((List.nodup_finRange n).filter _), fun h hh => mem_live.mp (ho.subset hh)⟩
  · exact hh (ho.mem_iff.mpr (mem_live.mpr hr.live))

theorem Sound.step (hs : s.Sound wiring calls) {op : IdleOp n W} (ht : s.InTime wiring calls op) :
    Sound wiring calls (s.step wiring calls op) := by
  cases op with
  | device i => exact hs.device ht
  | emu ticks => exact hs.emu ticks
  | engine harts halted clint ext wires =>
    simp only [IdleState.step]
    split
    · exact hs.engine harts halted clint ext wires
    · exact hs
  | startStep order =>
    simp only [IdleState.step]
    split
    · split_ifs with ho
      · exact hs.startStep ho
      · exact hs
    · exact hs
  | hart act versions =>
    simp only [IdleState.step]
    split
    · rename_i h rest hp
      exact hs.hart hp ht
    · exact hs

end IdleState

end Pyremu
