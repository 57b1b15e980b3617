import Pyremu.Sittim.Steps
import Pyremu.Lib.Bits
import Pyremu.Lib.Run

/-!
# Returning from a signal handler

`rt_sigreturn` writes the `sstatus` word of the frame on the user stack into the
CSR. A frame that carries the fields of the trap entry leaves S mode alone; any
other word decides itself where the final `sret` goes, unless a pending signal
ends the process before that.
-/

namespace Pyremu.Sittim

/-! ## Fields of `sstatus` -/

/-- Two values that differ in fields of user code only. -/
def SameButUser (v w : Word) : Prop := v &&& ~~~sstatusUserFields = w &&& ~~~sstatusUserFields

instance (v w : Word) : Decidable (SameButUser v w) := inferInstanceAs (Decidable (_ = _))

section Fields

variable {v w σ ext : Word}

theorem sameButUser_iff :
    SameButUser v w ↔ ∀ i < 64, sstatusUserFields.getLsbD i = false → v.getLsbD i = w.getLsbD i := by
  constructor
  · intro h i hi hu
    have hb := congrArg (fun x => x.getLsbD i) h
    simpa only [BitVec.getLsbD_and, BitVec.getLsbD_not, hi, hu, decide_true, Bool.not_false, Bool.and_true,
      Bool.true_and] using hb
  · intro h
    apply BitFields.and_mask_congr
    intro i hm
    have hi : i < 64 := BitVec.lt_of_getLsbD hm
    rw [BitVec.getLsbD_not, decide_eq_true hi, Bool.true_and, Bool.not_eq_true'] at hm
    exact h i hi hm

theorem SameButUser.refl (v : Word) : SameButUser v v := rfl

theorem SameButUser.symm (h : SameButUser v w) : SameButUser w v := Eq.symm h

theorem SameButUser.trans (h : SameButUser v w) (h' : SameButUser w σ) : SameButUser v σ := Eq.trans h h'

/-- `SPP`, `SPIE` and `SIE` are no fields of user code. -/
theorem SameButUser.bit (h : SameButUser v w) {i : Nat} (hi : i = 1 ∨ i = 5 ∨ i = 8) :
    v.getLsbD i = w.getLsbD i := by
  rcases hi with rfl | rfl | rfl
  all_goals exact sameButUser_iff.mp h _ (by decide) (by decide)

theorem spp_eq_zero_iff : v &&& mstatusSpp = 0 ↔ v.getLsbD 8 = false :=
  BitFields.and_twoPow_eq_zero (by decide)

theorem mstatus_getLsbD (i : Nat) : mstatusSie.getLsbD i = decide (i = 1) ∧
    mstatusSpie.getLsbD i = decide (i = 5) ∧ mstatusSpp.getLsbD i = decide (i = 8) :=
  ⟨getLsbD_bit 1 i (by decide), getLsbD_bit 5 i (by decide), getLsbD_bit 8 i (by decide)⟩

theorem sretSstatus_getLsbD {i : Nat} (hi : i < 64) : (sretSstatus v).getLsbD i =
    if i = 1 then v.getLsbD 5 else if i = 5 then true else if i = 8 then false else v.getLsbD i := by
  obtain ⟨h1, h5, h8⟩ := mstatus_getLsbD i
  rw [sretSstatus, BitVec.getLsbD_and, BitVec.getLsbD_or, BitVec.getLsbD_not]
  cases hv : v.getLsbD 5 with
  | true =>
    rw [if_pos rfl, BitVec.getLsbD_or, BitVec.getLsbD_and, BitVec.getLsbD_not, h1, h5, h8]
    grind
  | false =>
    rw [if_neg Bool.false_ne_true, BitVec.getLsbD_and, BitVec.getLsbD_not, h1, h5, h8]
    grind

theorem trapSstatus_getLsbD {i : Nat} (hi : i < 64) (spp : Word) : (trapSstatus v spp).getLsbD i =
    ((if i = 1 then false else if i = 5 then v.getLsbD 1 else if i = 8 then false else v.getLsbD i) ||
      spp.getLsbD i) := by
  obtain ⟨h1, h5, h8⟩ := mstatus_getLsbD i
  have hsie : v &&& mstatusSie = 0 ↔ v.getLsbD 1 = false := BitFields.and_twoPow_eq_zero (by decide)
  rw [trapSstatus, stackIe, BitVec.getLsbD_or, BitVec.getLsbD_and, BitVec.getLsbD_and, BitVec.getLsbD_not,
    BitVec.getLsbD_not, h1, h8]
  cases hv : v.getLsbD 1 with
  | true =>
    have hne : v &&& mstatusSie ≠ 0 := by
      intro hz
      rw [hsie.mp hz] at hv
      cases hv
    rw [if_pos hne, BitVec.getLsbD_or, h5]
    grind
  | false =>
    rw [if_neg (not_not.mpr (hsie.mpr hv)), BitVec.getLsbD_and, BitVec.getLsbD_not, h5]
    grind

/-- A value with which user code runs: traps come from U mode with interrupts off, and `sret` goes back
there. -/
structure UserStatus (σ : Word) : Prop where
  spp : σ.getLsbD 8 = false
  sie : σ.getLsbD 1 = false
  spie : σ.getLsbD 5 = true

/-- A trip through user code keeps what is not its own. -/
theorem UserStatus.userTrap (hσ : UserStatus σ) (h : SameButUser v σ) (ext : Word) :
    SameButUser (userTrapSstatus v ext) σ := by
  rw [sameButUser_iff]
  intro i hi hu
  have hext : ∀ j < 64, sstatusUserFields.getLsbD j = false →
      (withExt (sretSstatus v) ext).getLsbD j = (sretSstatus v).getLsbD j := by
    intro j hj hf
    have hx : sstatusExtFields.getLsbD j = false := by
      rw [sstatusUserFields, BitVec.getLsbD_or, Bool.or_eq_false_iff] at hf
      exact hf.1
    rw [withExt, BitFields.getLsbD_masked_write _ _ _ hj, hx]
    rfl
  have hzero : (0 : Word).getLsbD i = false := BitVec.getLsbD_zero
  rw [userTrapSstatus, trapSstatus_getLsbD hi, hzero, Bool.or_false]
  by_cases h1 : i = 1
  · rw [if_pos h1, h1, hσ.sie]
  by_cases h5 : i = 5
  · rw [if_neg h1, if_pos h5, h5, hext 1 (by decide) (by decide), sretSstatus_getLsbD (by decide), if_pos rfl,
      h.bit (.inr (.inl rfl))]
  by_cases h8 : i = 8
  · rw [if_neg h1, if_neg h5, if_pos h8, h8, hσ.spp]
  · rw [if_neg h1, if_neg h5, if_neg h8, hext i hi hu, sretSstatus_getLsbD hi, if_neg h1, if_neg h5, if_neg h8]
    exact sameButUser_iff.mp h i hi hu

/-- A CSR write of a value with the same fields. -/
theorem SameButUser.write (h : SameButUser v σ) (h' : SameButUser w σ) (m : Word) :
    SameButUser ((v &&& ~~~m) ||| (w &&& m)) σ := by
  rw [sameButUser_iff]
  intro i hi hu
  rw [BitFields.getLsbD_masked_write _ _ _ hi]
  split_ifs
  · exact sameButUser_iff.mp h' i hi hu
  · exact sameButUser_iff.mp h i hi hu

/-- A module fault leaves as the trap came. -/
theorem UserStatus.fault {s : Runtime} (hσ : UserStatus σ) (h : SameButUser s.sstatus σ) :
    SameButUser s.faultSstatus σ := by
  rw [sameButUser_iff]
  intro i hi hu
  obtain ⟨h1, h5, h8⟩ := mstatus_getLsbD i
  have hm : i = 5 ∨ i = 8 → sstatusWriteMask.getLsbD i = true := by
    rintro (rfl | rfl) <;> decide
  have hs := sameButUser_iff.mp h i hi hu
  simp only [Runtime.faultSstatus, Runtime.writeSstatus]
  rw [BitFields.getLsbD_masked_write _ _ _ hi, BitVec.getLsbD_or, BitVec.getLsbD_and, BitVec.getLsbD_not,
    trapSstatus_getLsbD hi, h5, h8]
  have := hσ.spp
  have := hσ.sie
  have := hσ.spie
  grind

end Fields

/-! ## The call -/

/-- User code is about to call `rt_sigreturn`. -/
def CallsSigreturn (m : Machine) (e : Entry) : Prop := m.phase = .user ∧ (e.gprs.regs 17).toNat = 139

instance (m : Machine) (e : Entry) : Decidable (CallsSigreturn m e) := inferInstanceAs (Decidable (_ ∧ _))

/-- `sstatus` at the trap entry. -/
def entrySstatus (m : Machine) (e : Entry) : Word := userTrapSstatus m.rt.sstatus e.ext

/-- The frame's word has the fields of the trap entry wherever a write of `sstatus` reaches a field
that does not belong to user code. -/
def CarriesEntry (m : Machine) (e : Entry) : Prop :=
  let kept := sstatusWriteMask &&& ~~~sstatusUserFields
  readU64 e.mem (e.gprs.spBeforeTrap + 16) &&& kept = entrySstatus m e &&& kept

instance (m : Machine) (e : Entry) : Decidable (CarriesEntry m e) := inferInstanceAs (Decidable (_ = _))

/-- With the mask of the frame a pending signal ends the process. -/
def EndsProcess (m : Machine) (e : Entry) : Prop :=
  ∃ st sig, { m.rt.currentSig with blocked := readU64 e.mem (e.gprs.spBeforeTrap + 24) }.takePending =
    some (st, sig) ∧ st.disposition sig = .terminate

/-- The trap ended the enclave, or its `sret` went to U mode with the fields that `entry` had. -/
def Machine.BackInUser (m : Machine) (entry : Word) : Prop :=
  (∃ code, m.phase = .ended code) ∨
    m.phase = .user ∧ m.rt.sstatus &&& mstatusSpp = 0 ∧ SameButUser m.rt.sstatus entry

namespace Runtime

variable {s s' : Runtime} {σ : Word}

/-! ## What a run keeps -/

/-- The saved value of every thread agrees with `σ`. -/
def SavedStatus (s : Runtime) (σ : Word) : Prop :=
  ∀ t, (s.threads t).state ≠ .free → SameButUser (s.threads t).sstatus σ

/-- So does the CSR. -/
structure KeepsStatus (s : Runtime) (σ : Word) : Prop where
  csr : SameButUser s.sstatus σ
  saved : s.SavedStatus σ

theorem SavedStatus.calm (h : s.SavedStatus σ) (hc : Calm s s') : s'.SavedStatus σ := by
  intro t ht
  rw [hc.saved]
  exact h t (mt (hc.live t).mpr ht)

theorem SavedStatus.exited (h : s.SavedStatus σ) (p : ProcSlot) (code : Word) :
    (s.exited p code).SavedStatus σ := by
  have hm : (s.markExited p code).SavedStatus σ := by
    intro t ht
    rw [markExited_threads] at ht ⊢
    split_ifs at ht ⊢
    · exact absurd rfl ht
    · exact h t ht
  exact hm.calm (exited_calm p code)

theorem KeepsStatus.calm (h : s.KeepsStatus σ) (hc : Calm s s') : s'.KeepsStatus σ where
  csr := by
    rw [hc.sstatus]
    exact h.csr
  saved := h.saved.calm hc

theorem KeepsStatus.setSstatus (h : s.KeepsStatus σ) {v : Word} (hv : SameButUser v σ) :
    KeepsStatus { s with sstatus := v } σ := ⟨hv, h.saved⟩

theorem KeepsStatus.enter (h : s.KeepsStatus σ) (hσ : UserStatus σ) (e : Entry) (isCall : Bool) :
    (s.enter e isCall).KeepsStatus σ :=
  (h.setSstatus (hσ.userTrap h.csr e.ext)).calm (enter_calm e isCall)

theorem KeepsStatus.fault (h : s.KeepsStatus σ) (hσ : UserStatus σ) :
    KeepsStatus { s with sstatus := s.faultSstatus } σ := h.setSstatus (hσ.fault h.csr)

theorem KeepsStatus.exited (h : s.KeepsStatus σ) (p : ProcSlot) (code : Word) :
    (s.exited p code).KeepsStatus σ where
  csr := by
    rw [(exited_calm p code).sstatus]
    exact h.csr
  saved := h.saved.exited p code

theorem KeepsStatus.leftThread (h : s.KeepsStatus σ) : s.leftThread.KeepsStatus σ := by
  have hrelease : ∀ x : Runtime, x.KeepsStatus σ → (x.releaseSlot s.current).KeepsStatus σ := by
    intro x hx
    refine ⟨hx.csr, fun t ht => ?_⟩
    by_cases htc : t = s.current
    · subst htc
      simp only [releaseSlot, resetTimer, setThread, Function.update_self] at ht
      exact absurd rfl ht
    · simp only [releaseSlot, resetTimer, setThread, Function.update_of_ne htc] at ht ⊢
      exact hx.saved t ht
  rw [Runtime.leftThread]
  split_ifs
  · exact hrelease s h
  · exact hrelease _ (h.calm ((storeUserU32_calm _ _).trans (wakeBlocked_calm _ _)))

theorem KeepsStatus.pending (h : s.KeepsStatus σ) (t : Option ThreadId) :
    KeepsStatus { s with pendingTarget := t } σ := ⟨h.csr, h.saved⟩

theorem KeepsStatus.currentExits (h : s.KeepsStatus σ) (he : CurrentExits s s') : s'.KeepsStatus σ := by
  obtain ⟨code, next, _, _, rfl⟩ := he
  exact (h.exited s.currentProc code).pending _

/-- A new thread saves the value of its creator. -/
theorem KeepsStatus.newThread (h : s.KeepsStatus σ) {t : ThreadId} {c : ThreadCtl} {x : Runtime}
    (hc : c.sstatus = s.sstatus) (hcsr : x.sstatus = s.sstatus)
    (hx : x.threads = Function.update s.threads t c) : x.KeepsStatus σ := by
  refine ⟨hcsr ▸ h.csr, fun u hu => ?_⟩
  rw [hx] at hu ⊢
  by_cases hut : u = t
  · rw [hut, Function.update_self, hc]
    exact h.csr
  · rw [Function.update_of_ne hut] at hu ⊢
    exact h.saved u hu

theorem KeepsStatus.did (h : s.KeepsStatus σ) (hd : Did s s')
    (hcall : (s.gprs.regs 17).toNat = 139 →
      SameButUser (s.writeSstatus (readU64 s.mem (s.gprs.spBeforeTrap + 16))).sstatus σ) :
    s'.KeepsStatus σ := by
  cases hd with
  | calm hc => exact h.calm hc
  | status call hc => exact KeepsStatus.calm (h.setSstatus (hcall call)) hc
  | thread t c free state proc saved hc =>
    apply KeepsStatus.calm _ hc
    exact h.newThread saved rfl rfl
  | fork t c p k free unused state proc saved kin hc =>
    apply KeepsStatus.calm _ hc
    exact h.newThread saved rfl rfl
  | reap p hx child dead hc =>
    apply KeepsStatus.calm _ hc
    exact ⟨(h.calm hx).csr, (h.calm hx).saved⟩
  | exit p code hp own next hn he =>
    subst he
    exact (h.exited p code).pending _
  | leftThread next hn more he =>
    subst he
    exact h.leftThread.pending _

theorem switchTo_sstatus (target : ThreadId) : (s.switchTo target).sstatus =
    (s.sstatus &&& ~~~sstatusWriteMask) ||| ((s.threads target).sstatus &&& sstatusWriteMask) := by
  simp only [switchTo, writeSstatus, (activate_rest _).1, (activate_rest _).2.2.2.2.2, setThread,
    Function.update_self]

theorem InKernel.keepsStatus (hk : s.InKernel) (h : s.KeepsStatus σ) (next : Word) :
    (s.lastly next).KeepsStatus σ := by
  cases hp : s.pendingTarget with
  | none =>
    rw [lastly_none hp]
    exact ⟨h.csr, h.saved⟩
  | some target =>
    have hsaved : ∀ t, (s.threads t).state ≠ .free →
        SameButUser ((s.saveCurrent next).threads t).sstatus σ := by
      intro t ht
      rw [saveCurrent_threads]
      split
      · exact h.csr
      · exact h.saved t ht
    have hcsr : (s.saveCurrent next).sstatus = s.sstatus := by
      rw [saveCurrent_rest]
    have hfree : ∀ t, ((s.saveCurrent next).threads t).state ≠ .free → (s.threads t).state ≠ .free := by
      intro t ht hf
      rw [saveCurrent_threads] at ht
      split at ht
      · rw [hf] at ht
        exact ht rfl
      · exact ht hf
    rw [lastly_some hp]
    constructor
    · rw [switchTo_sstatus]
      apply SameButUser.write _ (hsaved target (hk.target target hp))
      rw [hcsr]
      exact h.csr
    · intro t ht
      rw [switchTo_threads] at ht ⊢
      split_ifs at ht ⊢ with he
      · rw [he]
        exact hsaved target (hk.target target hp)
      · exact hsaved t (hfree t ht)

end Runtime

/-! ## Every state of a run -/

def Machine.KeepsStatus (m : Machine) (σ : Word) : Prop := m.phase.isLive = true → m.rt.KeepsStatus σ

theorem Ending.machine_keepsStatus {e : Ending} {next : Word → Phase} {σ : Word}
    (h : ∀ s ret, e = .returned s ret → s.KeepsStatus σ) : (e.machine next).KeepsStatus σ := by
  cases e with
  | returned s ret => exact fun _ => h s ret rfl
  | ended s code => rintro ⟨⟩

theorem moduleFault_keepsStatus {s : Runtime} {σ : Word} (hσ : UserStatus σ) (h : s.KeepsStatus σ) :
    s.moduleFault.KeepsStatus σ := by
  rw [Runtime.moduleFault]
  split
  · rename_i e he
    apply Ending.machine_keepsStatus
    rintro s' ret rfl
    obtain ⟨x, hx, hc⟩ := Runtime.deliverModuleFault_cases he
    have hx' := (h.fault hσ).calm hx
    rcases hc with hc | hc
    · exact hx'.calm hc
    · exact hx'.currentExits hc
  · rintro ⟨⟩

theorem enter_gprs (s : Runtime) (e : Entry) (isCall : Bool) : (s.enter e isCall).gprs = e.gprs := by
  simp only [Runtime.enter, Runtime.gprs, Runtime.setThread, Runtime.setGprs, Function.update_self]

theorem enter_mem (s : Runtime) (e : Entry) (isCall : Bool) : (s.enter e isCall).mem = e.mem := rfl

theorem enter_sstatus (m : Machine) (e : Entry) (isCall : Bool) :
    (m.rt.enter e isCall).sstatus = entrySstatus m e := rfl

/-- A write of a word that carries the fields of the entry. -/
theorem carriesEntry_iff {m : Machine} {e : Entry} :
    CarriesEntry m e ↔
      SameButUser ((m.rt.enter e true).writeSstatus (readU64 e.mem (e.gprs.spBeforeTrap + 16))).sstatus
        (entrySstatus m e) := by
  rw [sameButUser_iff, CarriesEntry]
  simp only [Runtime.writeSstatus, enter_sstatus]
  constructor
  · intro h i hi hu
    rw [BitFields.getLsbD_masked_write _ _ _ hi]
    split_ifs with hm
    · have hb := congrArg (fun x => x.getLsbD i) h
      simpa only [BitVec.getLsbD_and, BitVec.getLsbD_not, hi, hu, hm, decide_true, Bool.not_false,
        Bool.and_true] using hb
    · rfl
  · intro h
    apply BitFields.and_mask_congr
    intro i hk
    rw [BitVec.getLsbD_and, BitVec.getLsbD_not, Bool.and_eq_true, Bool.and_eq_true, decide_eq_true_eq,
      Bool.not_eq_true'] at hk
    have hb := h i hk.2.1 hk.2.2
    rwa [BitFields.getLsbD_masked_write _ _ _ hk.2.1, if_pos hk.1] at hb

/-- The frames that a run hands to `rt_sigreturn` carry the fields of the trap entry. -/
def HonestFrame (m : Machine) : Act → Prop
  | .ecall e _ => CallsSigreturn m e → CarriesEntry m e
  | _ => True

instance (m : Machine) (a : Act) : Decidable (HonestFrame m a) :=
  match a with
  | .ecall e _ => inferInstanceAs (Decidable (CallsSigreturn m e → CarriesEntry m e))
  | .timer .. | .software .. | .otherInterrupt .. | .fault .. | .callFault .. | .interruptFault .. | .netEvent ..
  | .netFault | .deliver | .leave => .isTrue trivial

/-- With honest frames every step keeps the fields that are not of user code. -/
theorem step_keepsStatus {σ : Word} (hσ : UserStatus σ) (m : Machine) (a : Act) (hm : m.Sound)
    (h : m.KeepsStatus σ) (hg : HonestFrame m a) : (step m a).KeepsStatus σ := by
  have henter : ∀ (e : Entry) (isCall : Bool), m.phase = .user →
      (m.rt.enter e isCall).AtUser ∧ (m.rt.enter e isCall).KeepsStatus σ := by
    intro e isCall hp
    rw [Machine.Sound, hp] at hm
    exact ⟨Runtime.AtUser.enter hm e isCall, (h (by rw [hp]; rfl)).enter hσ e isCall⟩
  cases a with
  | ecall e env =>
    rw [step]
    split_ifs with hp
    · obtain ⟨hu, hk⟩ := henter e true hp
      split
      · rename_i r hr
        apply Ending.machine_keepsStatus
        rintro s' ret rfl
        apply hk.did (Runtime.syscallHandler_did hr hu.ne_free)
        rw [enter_gprs, enter_mem]
        intro hcall
        exact (carriesEntry_iff.mp (hg ⟨hp, hcall⟩)).trans hk.csr
      · exact h
    · exact h
  | netEvent env =>
    rw [step]
    split
    · rename_i sepc ret hp
      intro _
      exact ((h (by rw [hp]; rfl)).calm (Runtime.checkPendingNetEvent_calm env)).calm
        (Runtime.afterSyscall_calm sepc ret)
    · exact h
  | netFault =>
    rw [step]
    split
    · rename_i sepc ret hp
      exact moduleFault_keepsStatus hσ (h (by rw [hp]; rfl))
    · exact h
  | timer e now tickNow =>
    rw [step]
    split_ifs with hp
    · exact fun _ => (henter e false hp).2.calm (Runtime.timerInterrupt_calm now tickNow)
    · exact h
  | software e flags env =>
    rw [step]
    split_ifs with hp
    · apply Ending.machine_keepsStatus
      intro s' ret hr
      exact (henter e false hp).2.calm (Runtime.softwareInterrupt_calm hr)
    · exact h
  | otherInterrupt e =>
    rw [step]
    split_ifs with hp
    · exact fun _ => (henter e false hp).2
    · exact h
  | fault e scause isRetried =>
    rw [step]
    split
    · rename_i hp
      dsimp only
      split
      · exact fun _ => (henter e false hp).2
      · apply Ending.machine_keepsStatus
        intro s' ret hr
        exact (henter e false hp).2.currentExits (Runtime.currentExits_of_returned hr)
    · exact h
  | callFault e armed =>
    rw [step]
    split_ifs with hp
    · exact moduleFault_keepsStatus hσ ((henter e true hp).2.calm (Runtime.armed_calm armed))
    · exact h
  | interruptFault e =>
    rw [step]
    split_ifs with hp
    · exact moduleFault_keepsStatus hσ (henter e false hp).2
    · exact h
  | deliver =>
    rw [step]
    split
    · rename_i resume hp
      apply Ending.machine_keepsStatus
      intro s' ret hr
      have hk := h (by rw [hp]; rfl)
      rcases Runtime.deliverPending_cases hr with hc | ⟨x, hx, hc⟩
      · exact hk.calm hc
      · exact (hk.calm hx).currentExits hc
    · exact h
  | leave =>
    rw [step]
    split
    · rename_i next hp
      rw [Machine.Sound, hp] at hm
      exact fun _ => Runtime.InKernel.keepsStatus hm (h (by rw [hp]; rfl)) next
    · exact h

/-- The value that `main_after_mmu` sets up for the payload. -/
theorem boot_keepsStatus (entry kstackTop rootPa sstatus : Word) (ctx : TaMemCtx) :
    ∃ σ, UserStatus σ ∧ (boot entry kstackTop rootPa sstatus ctx).KeepsStatus σ := by
  have hbits : ∀ i, ((sstatus ||| mstatusSpie ||| mstatusSum) &&& ~~~(mstatusSpp ||| mstatusSie)).getLsbD i =
      ((sstatus.getLsbD i || decide (i = 5) || decide (i = 18)) &&
        (decide (i < 64) && !(decide (i = 8) || decide (i = 1)))) := by
    intro i
    obtain ⟨h1, h5, h8⟩ := mstatus_getLsbD i
    rw [BitVec.getLsbD_and, BitVec.getLsbD_or, BitVec.getLsbD_or, BitVec.getLsbD_not, BitVec.getLsbD_or, h1, h5,
      h8, show mstatusSum.getLsbD i = decide (i = 18) from getLsbD_bit 18 i (by decide)]
  refine ⟨(sstatus ||| mstatusSpie ||| mstatusSum) &&& ~~~(mstatusSpp ||| mstatusSie), ?_, fun _ => ⟨?_, ?_⟩⟩
  · constructor
    all_goals
      rw [hbits]
      simp
  · rw [sameButUser_iff]
    intro i hi _
    simp only [boot, Runtime.writeSstatus]
    rw [BitFields.getLsbD_masked_write _ _ _ hi]
    split_ifs with hm
    · rfl
    · have hne : i ≠ 1 ∧ i ≠ 5 ∧ i ≠ 8 ∧ i ≠ 18 := by
        refine ⟨?_, ?_, ?_, ?_⟩
        all_goals
          rintro rfl
          exact hm (by decide)
      rw [hbits]
      simp [hne, hi]
  · intro t ht
    have ht0 : t = 0 := by
      by_contra h0
      simp only [boot, Runtime.writeSstatus, if_neg h0] at ht
      exact ht rfl
    subst ht0
    rfl

/-! ## One call -/

namespace Runtime

variable {s : Runtime}

theorem checkPendingNetEvent_pending (env : Env) :
    (s.checkPendingNetEvent env).pendingTarget = s.pendingTarget := by
  have hfold : ∀ (l : List Word) (x : Runtime), (l.foldl (fun s i =>
      (s.wakeBlocked (recvWaitAddr i) (BitVec.allOnes 64)).1) x).pendingTarget = x.pendingTarget := by
    intro l
    induction l with
    | nil => exact fun _ => rfl
    | cons i l ih => exact fun x => ih _
  rw [checkPendingNetEvent]
  split_ifs
  · rfl
  · exact hfold _ _

theorem afterSyscall_pending (sepc ret : Word) :
    (s.afterSyscall sepc ret).1.pendingTarget = s.pendingTarget := by
  rw [afterSyscall]
  split
  · rfl
  · split_ifs <;> rfl

/-- A delivery that does not end the process registers no switch. -/
theorem deliverPending_pending {resume : Word} (hp : s.pendingTarget = none)
    (hnot : ¬ ∃ st sig, s.currentSig.takePending = some (st, sig) ∧ st.disposition sig = .terminate) :
    ∃ s' next, s.deliverPending resume = .returned s' next ∧ Calm s s' ∧ s'.pendingTarget = none := by
  rw [deliverPending]
  cases ht : s.currentSig.takePending with
  | none => exact ⟨s, resume, rfl, Calm.refl s, hp⟩
  | some r =>
    obtain ⟨st, sig⟩ := r
    dsimp only
    cases hd : st.disposition sig with
    | ignore => exact ⟨_, _, rfl, Calm.setCurrentSig st, hp⟩
    | terminate => exact absurd ⟨st, sig, ht, hd⟩ hnot
    | handle handler => exact ⟨_, _, rfl, (Calm.setCurrentSig st).trans (buildFrame_calm _ _ _), hp⟩

/-- A delivery that ends the process ends the enclave or registers a switch. -/
theorem deliverPending_terminate {resume : Word} {st : SigState} {sig : Fin 32}
    (ht : s.currentSig.takePending = some (st, sig)) (hd : st.disposition sig = .terminate) :
    (∃ x code, s.deliverPending resume = .ended x code) ∨
      ∃ s' next x, s.deliverPending resume = .returned s' next ∧ Calm s x ∧ CurrentExits x s' := by
  have hrun : s.deliverPending resume = ((s.setCurrentSig st).exitProcess (s.setCurrentSig st).currentProc
      (SIGNAL_EXIT_OFFSET + BitVec.ofNat 64 sig)).bind fun s _ => .returned s resume := by
    rw [deliverPending, ht]
    dsimp only
    rw [hd]
  rw [hrun]
  cases he : (s.setCurrentSig st).exitProcess (s.setCurrentSig st).currentProc
      (SIGNAL_EXIT_OFFSET + BitVec.ofNat 64 sig) with
  | ended x code => exact .inl ⟨x, code, rfl⟩
  | returned x v => exact .inr ⟨x, resume, _, rfl, Calm.setCurrentSig st, currentExits_of_returned he⟩

end Runtime

/-- The runtime when the delivery of signals is next. -/
def afterSigreturn (m : Machine) (e : Entry) (env : Env) : Runtime × Word :=
  ((m.rt.enter e true).sigreturn.1.checkPendingNetEvent env).afterSyscall e.sepc
    (m.rt.enter e true).sigreturn.2

theorem trapDispatch_sigreturn {m : Machine} {e : Entry} (h : CallsSigreturn m e) (env : Env) :
    trapDispatch m e env =
      step (((afterSigreturn m e env).1.deliverPending (afterSigreturn m e env).2).machine .leave) .leave := by
  have hcall : (m.rt.enter e true).syscallHandler env =
      some (Runtime.done (m.rt.enter e true).sigreturn) := by
    rw [Runtime.syscallHandler, enter_gprs, h.2]
    rfl
  have hstep : step m (.ecall e env) =
      ⟨.handled e.sepc (m.rt.enter e true).sigreturn.2, (m.rt.enter e true).sigreturn.1⟩ := by
    rw [step, if_pos h.1, hcall]
    rfl
  rw [trapDispatch, hstep]
  rfl

/-- The frame has been taken over, and nothing else has happened. -/
theorem afterSigreturn_calm (m : Machine) (e : Entry) (env : Env) :
    Calm ((m.rt.enter e true).writeSstatus (readU64 e.mem (e.gprs.spBeforeTrap + 16)))
      (afterSigreturn m e env).1 := by
  apply Calm.trans _ (Runtime.afterSyscall_calm _ _)
  apply Calm.trans _ (Runtime.checkPendingNetEvent_calm env)
  rw [← enter_mem m.rt e true, ← enter_gprs m.rt e true]
  exact ((Calm.setGprs _).trans (Calm.setCurrentSig _)).trans
    (Calm.of_tables rfl (fun _ => rfl) rfl rfl rfl rfl rfl rfl)

theorem sigreturn_currentSig (s : Runtime) : s.sigreturn.1.currentSig =
    { s.currentSig with blocked := readU64 s.mem (s.gprs.spBeforeTrap + 24) } :=
  Runtime.setCurrentSig_currentSig _ _

theorem afterSigreturn_sig (m : Machine) (e : Entry) (env : Env) :
    (afterSigreturn m e env).1.currentSig =
      { m.rt.currentSig with blocked := readU64 e.mem (e.gprs.spBeforeTrap + 24) } := by
  have hproc : (afterSigreturn m e env).1.currentProc = m.rt.currentProc :=
    (afterSigreturn_calm m e env).currentProc
  have hsig := sigreturn_currentSig (m.rt.enter e true)
  rw [enter_mem, enter_gprs] at hsig
  rw [Runtime.currentSig, hproc, afterSigreturn, Runtime.afterSyscall_procs, Runtime.checkPendingNetEvent_procs]
  exact hsig

theorem afterSigreturn_pending {m : Machine} (h : m.rt.pendingTarget = none) (e : Entry) (env : Env) :
    (afterSigreturn m e env).1.pendingTarget = none := by
  rw [afterSigreturn, Runtime.afterSyscall_pending, Runtime.checkPendingNetEvent_pending]
  exact h

theorem entrySstatus_spp (m : Machine) (e : Entry) : (entrySstatus m e).getLsbD 8 = false := by
  have hzero : (0 : Word).getLsbD 8 = false := BitVec.getLsbD_zero
  rw [entrySstatus, userTrapSstatus, trapSstatus_getLsbD (by decide), hzero]
  rfl

/-- A trap that goes on with the same thread. -/
theorem backInUser_of_stays {m : Machine} {e : Entry} {env : Env} (h : CallsSigreturn m e)
    (hu : m.rt.AtUser) (hends : ¬ EndsProcess m e) :
    (trapDispatch m e env).BackInUser (entrySstatus m e) ↔ CarriesEntry m e := by
  obtain ⟨s', next, hd, hc, hp⟩ := @Runtime.deliverPending_pending _ (afterSigreturn m e env).2
    (afterSigreturn_pending hu.pending e env) (by rw [afterSigreturn_sig]; exact hends)
  have hs : (s'.lastly next).sstatus =
      ((m.rt.enter e true).writeSstatus (readU64 e.mem (e.gprs.spBeforeTrap + 16))).sstatus := by
    rw [Runtime.lastly_none hp, ← ((afterSigreturn_calm m e env).trans hc).sstatus]
  have hrun : trapDispatch m e env = s'.leave next := by
    rw [trapDispatch_sigreturn h, hd]
    rfl
  rw [hrun, carriesEntry_iff, ← hs]
  constructor
  · rintro (⟨code, hp⟩ | ⟨_, _, hsame⟩)
    · simp only [Runtime.leave] at hp
      split_ifs at hp
    · exact hsame
  · intro hsame
    have hspp : (s'.lastly next).sstatus &&& mstatusSpp = 0 := by
      rw [spp_eq_zero_iff, hsame.bit (.inr (.inr rfl)), entrySstatus_spp]
    exact .inr ⟨if_pos hspp, hspp, hsame⟩

/-- A trap that ends the process. -/
theorem backInUser_of_ends {m : Machine} {e : Entry} {env : Env} {σ : Word} (hσ : UserStatus σ)
    (h : CallsSigreturn m e) (hk : m.rt.KeepsStatus σ) (hends : EndsProcess m e) :
    (trapDispatch m e env).BackInUser (entrySstatus m e) := by
  obtain ⟨st, sig, ht, hd⟩ := hends
  rw [← afterSigreturn_sig m e env] at ht
  rw [trapDispatch_sigreturn h]
  rcases @Runtime.deliverPending_terminate _ (afterSigreturn m e env).2 _ _ ht hd with
    ⟨x, code, he⟩ | ⟨s', next, x, he, hx, hexit⟩
  · rw [he]
    exact .inl ⟨code, rfl⟩
  · have hentry : SameButUser (entrySstatus m e) σ := hσ.userTrap hk.csr e.ext
    have hcalm := (afterSigreturn_calm m e env).trans hx
    have hsaved : x.SavedStatus σ :=
      Runtime.SavedStatus.calm (s := (m.rt.enter e true).writeSstatus _) (hk.enter hσ e true).saved hcalm
    obtain ⟨code, target, _, hn, rfl⟩ := hexit
    have hs : ∃ v, SameButUser v σ ∧
        (({ x.exited x.currentProc code with pendingTarget := some target } : Runtime).lastly next).sstatus =
          (entrySstatus m e &&& ~~~sstatusWriteMask) ||| (v &&& sstatusWriteMask) := by
      have hne : target ≠ x.current := (Sweep.findBehind_some hn).1
      have hcsr : (x.exited x.currentProc code).sstatus =
          (entrySstatus m e &&& ~~~sstatusWriteMask) |||
            (readU64 e.mem (e.gprs.spBeforeTrap + 16) &&& sstatusWriteMask) := by
        rw [(Runtime.exited_calm _ code).sstatus]
        exact hcalm.sstatus
      refine ⟨((x.exited x.currentProc code).threads target).sstatus,
        hsaved.exited _ _ target (Runtime.nextRunnable_live hn), ?_⟩
      rw [Runtime.lastly_some rfl, Runtime.switchTo_sstatus, Runtime.saveCurrent_threads,
        if_neg fun hc => hne (hc.1.trans (Runtime.exited_current _ _)), Runtime.saveCurrent_rest]
      simp only [hcsr]
      rw [BitFields.masked_write_twice]
    obtain ⟨v, hv, hs⟩ := hs
    have hsame := (SameButUser.refl (entrySstatus m e)).write (hv.trans hentry.symm) sstatusWriteMask
    rw [← hs] at hsame
    have hspp : (({ x.exited x.currentProc code with pendingTarget := some target } : Runtime).lastly
        next).sstatus &&& mstatusSpp = 0 := by
      rw [spp_eq_zero_iff, hsame.bit (.inr (.inr rfl)), entrySstatus_spp]
    rw [he]
    exact .inr ⟨if_pos hspp, hspp, hsame⟩

/-- In every run that handed honest frames to `rt_sigreturn`, the next call of it comes back in U mode
with the fields of the trap entry exactly when its frame carries them or a pending signal ends the process. -/
theorem sigreturn_backInUser_iff (entry kstackTop rootPa sstatus : Word) (ctx : TaMemCtx) (acts : List Act)
    (hacts : Run.Along step HonestFrame (boot entry kstackTop rootPa sstatus ctx) acts) (e : Entry) (env : Env)
    (h : CallsSigreturn (acts.foldl step (boot entry kstackTop rootPa sstatus ctx)) e) :
    (trapDispatch (acts.foldl step (boot entry kstackTop rootPa sstatus ctx)) e env).BackInUser
        (entrySstatus (acts.foldl step (boot entry kstackTop rootPa sstatus ctx)) e) ↔
      CarriesEntry (acts.foldl step (boot entry kstackTop rootPa sstatus ctx)) e ∨
        EndsProcess (acts.foldl step (boot entry kstackTop rootPa sstatus ctx)) e := by
  obtain ⟨σ, hσ, hboot⟩ := boot_keepsStatus entry kstackTop rootPa sstatus ctx
  have hinv : Run.Always step (fun m => m.Sound ∧ m.KeepsStatus σ) (boot entry kstackTop rootPa sstatus ctx) acts :=
    Run.always_of_invariant (I := fun m => m.Sound ∧ m.KeepsStatus σ)
      (fun m a hm hg => ⟨step_sound m a hm.1, step_keepsStatus hσ m a hm.1 hm.2 hg⟩) (fun _ hm => hm)
      ⟨boot_sound _ _ _ _ _, hboot⟩ hacts
  obtain ⟨hm, hk⟩ := hinv.last
  rw [Machine.Sound, h.1] at hm
  by_cases hends : EndsProcess (acts.foldl step (boot entry kstackTop rootPa sstatus ctx)) e
  · exact iff_of_true (backInUser_of_ends hσ h (hk (by rw [h.1]; rfl)) hends) (.inr hends)
  · rw [backInUser_of_stays h hm hends]
    exact ⟨.inl, fun hc => hc.resolve_right hends⟩

/-- A frame at `0x1000` with a resume address and an `sstatus` word. -/
def frameEntry (pc sstatus : Word) : Entry :=
  { callEntry 139 [] with
    gprs := { (callEntry 139 []).gprs with spBeforeTrap := 0x1000 }
    mem := ByteMem.writeLe (ByteMem.writeLe (fun _ => 0) 0x1008 8 pc) 0x1010 8 sstatus }

/-- Two frames with the word of the trap entry, one after the other. -/
theorem sigreturn_backInUser_iff_honestFrames :
    (trapDispatch ((trapActs (frameEntry 0x10000 0x40020) (quietEnv 0)).foldl step quietBoot)
      (frameEntry 0x20000 0x40020) (quietEnv 0)).BackInUser 0x40020 :=
  (sigreturn_backInUser_iff 0x10000 0x2000 0x80200000 0 ⟨0, 0, 0, 0⟩
    (trapActs (frameEntry 0x10000 0x40020) (quietEnv 0)) (by decide) (frameEntry 0x20000 0x40020) (quietEnv 0)
    (by decide)).mpr (.inl (by decide))

/-- A forged frame with `SPP` set hands S mode to user code, at the address it chooses. -/
theorem forgedFrame_supervisor :
    CallsSigreturn quietBoot (frameEntry 0xdead0000 0x40120) ∧
      (trapDispatch quietBoot (frameEntry 0xdead0000 0x40120) (quietEnv 0)).phase = .supervisor ∧
      (trapDispatch quietBoot (frameEntry 0xdead0000 0x40120) (quietEnv 0)).rt.sepc = 0xdead0000 := by
  decide

end Pyremu.Sittim
