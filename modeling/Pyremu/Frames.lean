import Pyremu.HartSched

/-!
# What operations leave alone

Interrupt bookkeeping, translation and CSR accesses each touch a few fields of
the hart. A frame says that the new state is the old one with these fields
replaced, so every other field is read off by `rfl`.
-/

namespace Pyremu

/-! ## Interrupt bookkeeping -/

/-- `s'` is `s` up to pending interrupts, IMSIC files and timer deadlines. -/
def InterruptFrame (s s' : HartState) : Prop :=
  ∃ mip imsicM imsicS stimecmp stipDeadline mtipDeadline,
    s' = { s with mip := mip, imsicM := imsicM, imsicS := imsicS, stimecmp := stimecmp,
                  stipDeadline := stipDeadline, mtipDeadline := mtipDeadline }

namespace InterruptFrame

variable {s s' s'' : HartState}

theorem refl (s : HartState) : InterruptFrame s s := ⟨_, _, _, _, _, _, rfl⟩

theorem trans (h : InterruptFrame s s') (h' : InterruptFrame s' s'') : InterruptFrame s s'' := by
  obtain ⟨_, _, _, _, _, _, rfl⟩ := h
  obtain ⟨_, _, _, _, _, _, rfl⟩ := h'
  exact ⟨_, _, _, _, _, _, rfl⟩

theorem setMip (s : HartState) (m : Word) : InterruptFrame s (s.setMip m) :=
  ⟨_, _, _, _, _, _, rfl⟩

theorem clearMip (s : HartState) (m : Word) : InterruptFrame s (s.clearMip m) :=
  ⟨_, _, _, _, _, _, rfl⟩

theorem setImsicFile (s : HartState) (b : Bool) (f : ImsicFile) :
    InterruptFrame s (s.setImsicFile b f) := by
  cases b <;> exact ⟨_, _, _, _, _, _, rfl⟩

theorem syncImsicOne (s : HartState) (b : Bool) : InterruptFrame s (syncImsicOne s b) := by
  simp only [Pyremu.syncImsicOne]
  split
  · exact refl s
  · split
    · split
      · exact setMip s _
      · exact clearMip s _
    · split
      · exact setMip s _
      · exact refl s

theorem claimAndSync (s : HartState) (b : Bool) (iid : BitVec 32) :
    InterruptFrame s (claimAndSync s b iid) :=
  (setImsicFile s b _).trans (syncImsicOne _ b)

theorem topeiRead (s : HartState) (b : Bool) : InterruptFrame s (topeiRead s b).1 := by
  simp only [Pyremu.topeiRead]
  split
  · exact claimAndSync s b _
  · exact refl s

theorem topeiWrite (s : HartState) (b : Bool) (v : Word) : InterruptFrame s (topeiWrite s b v) := by
  simp only [Pyremu.topeiWrite]
  split
  · exact refl s
  · split
    · exact (claimAndSync s b _).trans (clearMip _ _)
    · split
      · exact (claimAndSync s b _).trans (clearMip _ _)
      · exact claimAndSync s b _

theorem computeMtopi (s : HartState) : InterruptFrame s (computeMtopi s).1 := by
  simp only [Pyremu.computeMtopi]
  split
  · exact refl s
  · split
    · exact clearMip s _
    · split <;> exact refl s

theorem computeStopi (s : HartState) (now : Word) : InterruptFrame s (computeStopi s now).1 := by
  simp only [Pyremu.computeStopi]
  generalize (if s.stimecmp = 0 then _ else _ : Bool) = pending
  split
  · exact refl s
  · split
    · exact clearMip s _
    · split <;> exact refl s

theorem writeMtimecmp (s : HartState) (a b c : Word) : InterruptFrame s (writeMtimecmp s a b c) :=
  ⟨_, _, _, _, _, _, rfl⟩

theorem ackSoft (s : HartState) (b : Bool) (iid : BitVec 32) :
    InterruptFrame s (ackSoft s b iid) := by
  simp only [Pyremu.ackSoft]
  split
  · exact clearMip s _
  · split
    · exact clearMip s _
    · exact refl s

theorem ackStimer (s : HartState) (b : Bool) (iid : BitVec 32) (now : Word) :
    InterruptFrame s (ackStimer s b iid now) := by
  simp only [Pyremu.ackStimer]
  split
  · split <;> exact ⟨_, _, _, _, _, _, rfl⟩
  · exact refl s

theorem imsicEipSet (s : HartState) (b : Bool) (n : BitVec 32) :
    InterruptFrame s (imsicEipSet s b n) := by
  simp only [Pyremu.imsicEipSet]
  split
  · exact refl s
  · exact (setImsicFile s _ _).trans (setMip _ _)

theorem imsicEipClear (s : HartState) (b : Bool) (n : BitVec 32) :
    InterruptFrame s (imsicEipClear s b n) := by
  simp only [Pyremu.imsicEipClear]
  split
  · exact refl s
  · split
    · exact (setImsicFile s _ _).trans (clearMip _ _)
    · exact setImsicFile s _ _

theorem plicRecomputeMip (s : HartState) (p : Plic) : InterruptFrame s (plicRecomputeMip s p) := by
  simp only [Pyremu.plicRecomputeMip]
  split
  · exact refl s
  · exact ⟨_, _, _, _, _, _, rfl⟩

/-- The control state a step outcome speaks about is outside the frame. -/
theorem pc (h : InterruptFrame s s') : s'.pc = s.pc := by
  obtain ⟨_, _, _, _, _, _, rfl⟩ := h; rfl
theorem traps (h : InterruptFrame s s') : s'.traps = s.traps := by
  obtain ⟨_, _, _, _, _, _, rfl⟩ := h; rfl
theorem mode (h : InterruptFrame s s') : s'.mode = s.mode := by
  obtain ⟨_, _, _, _, _, _, rfl⟩ := h; rfl
theorem pmpOk (h : InterruptFrame s s') (pa : Word) (n : Nat) (w x : Bool) (p : PmpCtx) :
    pmpOk s' pa n w x p = pmpOk s pa n w x p := by
  obtain ⟨_, _, _, _, _, _, rfl⟩ := h; rfl

end InterruptFrame

/-! ## CSR reads -/

/-- A read may acknowledge interrupts and changes nothing else. -/
theorem csrReadReg_frame (cfg : Features) (c : CsrCtx) (r : CsrReg) :
    ∃ s, InterruptFrame c.state s ∧ (csrReadReg cfg c r).1 = c.setState s := by
  have keep : ∃ s, InterruptFrame c.state s ∧ c = c.setState s := ⟨_, .refl _, rfl⟩
  have aia : ∀ (s : HartState) (v : Word), InterruptFrame c.state s → ∃ s', InterruptFrame c.state s' ∧
      (if cfg.aia then (c.setState s, v, CsrStatus.ok) else (c, 0, .ill)).1 = c.setState s' := by
    intro s v h
    split
    · exact ⟨s, h, rfl⟩
    · exact keep
  cases r with
  | mtopei => exact aia _ _ (.topeiRead _ _)
  | stopei => exact aia _ _ (.topeiRead _ _)
  | mtopi => exact aia _ _ (.computeMtopi _)
  | stopi => exact aia _ _ (.computeStopi _ _)
  | miselect | mireg | siselect | sireg => exact aia _ _ (.refl _)
  | fflags | frm | fcsr | stimecmp =>
    simp only [csrReadReg]
    split <;> exact keep
  | _ => exact keep

theorem csrRead_frame (cfg : Features) (c : CsrCtx) (a : BitVec 12) :
    ∃ s, InterruptFrame c.state s ∧ (csrRead cfg c a).1 = c.setState s := by
  simp only [csrRead]
  split
  · exact ⟨_, .refl _, rfl⟩
  · split
    · exact ⟨_, .refl _, rfl⟩
    · exact csrReadReg_frame cfg c _

/-! ## CSR writes that acknowledge interrupts -/

theorem bumpExpiredMtimecmp_pmp (c : CsrCtx) : c.bumpExpiredMtimecmp.pmp = c.pmp := by
  simp only [CsrCtx.bumpExpiredMtimecmp]
  split <;> rfl

theorem mtopiWrite_frame (c : CsrCtx) (v : Word) :
    InterruptFrame c.state (mtopiWrite c v).state ∧ (mtopiWrite c v).pmp = c.pmp := by
  simp only [mtopiWrite]
  split
  · exact ⟨.refl _, rfl⟩
  · split
    · exact ⟨(InterruptFrame.claimAndSync _ _ _).trans (.clearMip _ _), rfl⟩
    · split
      · rw [CsrCtx.bumpExpiredMtimecmp_state, bumpExpiredMtimecmp_pmp]
        exact ⟨.clearMip _ _, rfl⟩
      · split
        · exact ⟨.refl _, rfl⟩
        · exact ⟨.claimAndSync _ _ _, rfl⟩

theorem stopiWrite_frame (c : CsrCtx) (v : Word) :
    InterruptFrame c.state (stopiWrite c v).state ∧ (stopiWrite c v).pmp = c.pmp := by
  simp only [stopiWrite]
  split
  · exact ⟨.refl _, rfl⟩
  · split
    · exact ⟨(InterruptFrame.claimAndSync _ _ _).trans (.clearMip _ _), rfl⟩
    · split
      · split
        · exact ⟨⟨_, _, _, _, _, _, rfl⟩, rfl⟩
        · exact ⟨.clearMip _ _, rfl⟩
      · split
        · exact ⟨.refl _, rfl⟩
        · exact ⟨.claimAndSync _ _ _, rfl⟩

/-- The acknowledgement by `mtopei` and `stopei`. -/
theorem topeiAck_frame (c : CsrCtx) (b : Bool) (old : Word) :
    InterruptFrame c.state (topeiAck c b old).state ∧ (topeiAck c b old).pmp = c.pmp := by
  have hack := fun f iid => ((InterruptFrame.setImsicFile c.state b f).trans
    (.ackSoft _ b iid)).trans (.ackStimer _ b iid c.clint.mtime)
  simp only [topeiAck]
  split
  · refine ⟨InterruptFrame.trans ?_ (.syncImsicOne _ b), ?_⟩
    · rw [CsrCtx.bumpExpiredMtimecmp_state]
      exact (hack _ _).trans (.clearMip _ _)
    · exact bumpExpiredMtimecmp_pmp _
  · exact ⟨(hack _ _).trans (.syncImsicOne _ b), rfl⟩

/-! ## Control state -/

/-- Program counter, mode and delivered traps are the same. -/
def SameControl (s s' : HartState) : Prop :=
  s'.pc = s.pc ∧ s'.mode = s.mode ∧ s'.traps = s.traps

namespace SameControl

variable {s s' s'' : HartState}

theorem refl (s : HartState) : SameControl s s := ⟨rfl, rfl, rfl⟩

theorem trans (h : SameControl s s') (h' : SameControl s' s'') : SameControl s s'' :=
  ⟨h'.1.trans h.1, h'.2.1.trans h.2.1, h'.2.2.trans h.2.2⟩

theorem writeGpr (s : HartState) (rd : BitVec 5) (v : Word) : SameControl s (writeGpr s rd v) := by
  simp only [Pyremu.writeGpr]
  split <;> exact ⟨rfl, rfl, rfl⟩

end SameControl

theorem InterruptFrame.control {s s' : HartState} (h : InterruptFrame s s') : SameControl s s' :=
  ⟨h.pc, h.mode, h.traps⟩

/-- No CSR write transfers control or raises a trap by itself. -/
theorem csrWriteReg_control (cfg : Features) (c : CsrCtx) (r : CsrReg) (v : Word) :
    SameControl c.state (csrWriteReg cfg c r v).1.state := by
  have keep : SameControl c.state c.state := .refl _
  have fp : ∀ fcsr, SameControl c.state
      (if fpOff c.state then (c, CsrStatus.ill)
        else (c.setState (fcsrWrite c.state fcsr), .ok)).1.state := by
    intro fcsr
    split <;> exact ⟨rfl, rfl, rfl⟩
  have aia : ∀ c' : CsrCtx, SameControl c.state c'.state →
      SameControl c.state (if cfg.aia then (c', CsrStatus.ok) else (c, .ill)).1.state := by
    intro c' h
    split
    · exact h
    · exact keep
  cases r with
  | fflags | frm | fcsr => exact fp _
  | stimecmp =>
    simp only [csrWriteReg]
    split <;> exact ⟨rfl, rfl, rfl⟩
  | miselect | siselect => exact aia _ ⟨rfl, rfl, rfl⟩
  | mireg =>
    exact aia _ (@SameControl.trans _ { c.state with imsicM := _ } _ ⟨rfl, rfl, rfl⟩
      (InterruptFrame.syncImsicOne _ true).control)
  | sireg =>
    exact aia _ (@SameControl.trans _ { c.state with imsicS := _ } _ ⟨rfl, rfl, rfl⟩
      (InterruptFrame.syncImsicOne _ false).control)
  | mtopei => exact aia _ (InterruptFrame.topeiWrite _ _ _).control
  | stopei => exact aia _ (InterruptFrame.topeiWrite _ _ _).control
  | mtopi => exact aia _ (mtopiWrite_frame c v).1.control
  | stopi => exact aia _ (stopiWrite_frame c v).1.control
  | pmpaddr n =>
    simp only [csrWriteReg]
    split <;> exact keep
  | _ => exact ⟨rfl, rfl, rfl⟩

theorem csrWrite_control (cfg : Features) (c : CsrCtx) (a : BitVec 12) (v : Word) :
    SameControl c.state (csrWrite cfg c a v).1.state := by
  simp only [csrWrite]
  split
  · exact .refl _
  · exact csrWriteReg_control cfg c _ v

/-! ## Translation -/

/-- `s'` is `s` up to the TLBs and their statistics. -/
def TlbFrame (s s' : HartState) : Prop :=
  ∃ itlb dtlb itlbHits itlbMisses dtlbHits dtlbMisses,
    s' = { s with itlb := itlb, dtlb := dtlb, itlbHits := itlbHits, itlbMisses := itlbMisses,
                  dtlbHits := dtlbHits, dtlbMisses := dtlbMisses }

namespace TlbFrame

variable {s s' s'' : HartState}

theorem refl (s : HartState) : TlbFrame s s := ⟨_, _, _, _, _, _, rfl⟩

theorem trans (h : TlbFrame s s') (h' : TlbFrame s' s'') : TlbFrame s s'' := by
  obtain ⟨_, _, _, _, _, _, rfl⟩ := h
  obtain ⟨_, _, _, _, _, _, rfl⟩ := h'
  exact ⟨_, _, _, _, _, _, rfl⟩

theorem setTlb (s : HartState) (b : Bool) (t : Tlb) : TlbFrame s (s.setTlb b t) := by
  cases b <;> exact ⟨_, _, _, _, _, _, rfl⟩

theorem recordTlbAccess (s : HartState) (b h : Bool) : TlbFrame s (recordTlbAccess s b h) := by
  cases b <;> cases h <;> exact ⟨_, _, _, _, _, _, rfl⟩

theorem tlbProbeCounted (cfg : Features) (s : HartState) (c : WalkCtx) (va vpn : Word)
    (asid : BitVec 16) (m : Mode) (w x : Bool) :
    TlbFrame s (tlbProbeCounted cfg s c va vpn asid m w x).1 := by
  simp only [Pyremu.tlbProbeCounted]
  split
  · exact refl s
  · exact (setTlb s _ _).trans (recordTlbAccess _ _ _)

theorem translateWalk (cfg : Features) (s : HartState) (c : WalkCtx) (va : Word) (rwx : Rwx)
    (p : PmpCtx) (m : Mode) (cnt : Option Word) (reuse : Option Nat) :
    TlbFrame s (translateWalk cfg s c va rwx p m cnt reuse).1 := by
  simp only [Pyremu.translateWalk]
  split
  · exact refl s
  · exact refl s
  · split
    · exact refl s
    · split
      · exact setTlb s _ _
      · exact refl s

theorem translateVa (cfg : Features) (s : HartState) (c : WalkCtx) (va : Word) (rwx : Rwx)
    (p : PmpCtx) : TlbFrame s (translateVa cfg s c va rwx p).1 := by
  simp only [Pyremu.translateVa]
  split
  · exact refl s
  · split
    · exact refl s
    · rename_i m _
      have hp := tlbProbeCounted cfg s c va (va >>> 12) (satpAsid s.satp) m (hasWrite rwx)
        (hasExec rwx)
      split <;> rename_i heq <;> rw [heq] at hp
      · exact hp
      · exact hp
      · exact hp.trans (translateWalk cfg _ c va rwx p _ _ _)

theorem pc (h : TlbFrame s s') : s'.pc = s.pc := by
  obtain ⟨_, _, _, _, _, _, rfl⟩ := h; rfl
theorem traps (h : TlbFrame s s') : s'.traps = s.traps := by
  obtain ⟨_, _, _, _, _, _, rfl⟩ := h; rfl
theorem mode (h : TlbFrame s s') : s'.mode = s.mode := by
  obtain ⟨_, _, _, _, _, _, rfl⟩ := h; rfl
theorem gprs (h : TlbFrame s s') : s'.gprs = s.gprs := by
  obtain ⟨_, _, _, _, _, _, rfl⟩ := h; rfl
theorem control (h : TlbFrame s s') : SameControl s s' := ⟨h.pc, h.mode, h.traps⟩
theorem mstatus (h : TlbFrame s s') : s'.mstatus = s.mstatus := by
  obtain ⟨_, _, _, _, _, _, rfl⟩ := h; rfl
theorem pmpOk (h : TlbFrame s s') (pa : Word) (n : Nat) (w x : Bool) (p : PmpCtx) :
    pmpOk s' pa n w x p = pmpOk s pa n w x p := by
  obtain ⟨_, _, _, _, _, _, rfl⟩ := h; rfl

end TlbFrame

/-! ## Both at once -/

/-- `s'` is `s` up to TLBs and interrupt bookkeeping. -/
def QuietFrame (s s' : HartState) : Prop :=
  ∃ s₁, TlbFrame s s₁ ∧ InterruptFrame s₁ s'

namespace QuietFrame

variable {s s' s'' : HartState}

theorem refl (s : HartState) : QuietFrame s s := ⟨s, .refl s, .refl s⟩

theorem of_tlb (h : TlbFrame s s') : QuietFrame s s' := ⟨s', h, .refl s'⟩

theorem of_interrupt (h : InterruptFrame s s') : QuietFrame s s' := ⟨s, .refl s, h⟩

theorem trans (h : QuietFrame s s') (h' : QuietFrame s' s'') : QuietFrame s s'' := by
  obtain ⟨_, ⟨_, _, _, _, _, _, rfl⟩, ⟨_, _, _, _, _, _, rfl⟩⟩ := h
  obtain ⟨_, ⟨_, _, _, _, _, _, rfl⟩, ⟨_, _, _, _, _, _, rfl⟩⟩ := h'
  exact ⟨{ s with itlb := _, dtlb := _, itlbHits := _, itlbMisses := _, dtlbHits := _,
                  dtlbMisses := _ }, ⟨_, _, _, _, _, _, rfl⟩, ⟨_, _, _, _, _, _, rfl⟩⟩

theorem control (h : QuietFrame s s') : SameControl s s' := by
  obtain ⟨_, h, h'⟩ := h
  exact h.control.trans h'.control

end QuietFrame

/-! ## Devices -/

/-- A device access touches device state and interrupt lines only. -/
structure DeviceFrame (w w' : World) : Prop where
  hart : InterruptFrame w.hart w'.hart
  hartId : w'.hartId = w.hartId
  mem : w'.mem = w.mem
  pmp : w'.pmp = w.pmp
  windows : w'.dev.windows = w.dev.windows
  module : w'.module = w.module

namespace DeviceFrame

variable {w w' w'' : World}

theorem refl (w : World) : DeviceFrame w w := ⟨.refl _, rfl, rfl, rfl, rfl, rfl⟩

theorem trans (h : DeviceFrame w w') (h' : DeviceFrame w' w'') : DeviceFrame w w'' :=
  ⟨h.hart.trans h'.hart, h'.hartId.trans h.hartId, h'.mem.trans h.mem, h'.pmp.trans h.pmp,
    h'.windows.trans h.windows, h'.module.trans h.module⟩

theorem setClint (w : World) (c : Clint) : DeviceFrame w { w with clint := c } :=
  ⟨.refl _, rfl, rfl, rfl, rfl, rfl⟩

theorem updatePeer (w : World) (i : Nat) {f : HartState → HartState}
    (hf : ∀ s, InterruptFrame s (f s)) : DeviceFrame w (w.updatePeer i f) := by
  simp only [World.updatePeer]
  split
  · exact refl w
  · split
    · exact ⟨hf _, rfl, rfl, rfl, rfl, rfl⟩
    · exact ⟨.refl _, rfl, rfl, rfl, rfl, rfl⟩

theorem clintWriteMsip (w : World) (i : Nat) (v : Bool) : DeviceFrame w (clintWriteMsip w i v) := by
  simp only [Pyremu.clintWriteMsip]
  split
  · exact refl w
  · split
    · exact setClint w _
    · exact (setClint w _).trans (updatePeer _ i fun s => .clearMip s _)

theorem writeMtimecmpForTarget (w : World) (i : Nat) (v : Word) :
    DeviceFrame w (writeMtimecmpForTarget w i v) := by
  simp only [Pyremu.writeMtimecmpForTarget]
  split
  · exact updatePeer w i fun s => .writeMtimecmp s _ _ _
  · exact refl w

theorem tryHandleClint (w : World) (pa : Word) (b : Bool) (v : Word) (n : Nat) :
    DeviceFrame w (tryHandleClint w pa b v n).1 := by
  simp only [Pyremu.tryHandleClint]
  repeat' split
  all_goals first
    | exact refl w
    | exact clintWriteMsip w _ _
    | exact (setClint w _).trans (writeMtimecmpForTarget _ _ _)

theorem tryHandleClintSerial (w : World) (pa : Word) (b : Bool) (v : Word) :
    DeviceFrame w (tryHandleClintSerial w pa b v).1 := by
  simp only [Pyremu.tryHandleClintSerial]
  repeat' split
  all_goals first
    | exact refl w
    | exact setClint w _

theorem tryVirtio (w : World) (pa : Word) (b : Bool) (v : Word) :
    DeviceFrame w (w.tryVirtio pa b v).1 := by
  refine ⟨.refl _, rfl, rfl, rfl, ?_, rfl⟩
  simp only [World.tryVirtio, tryHandleVirtio]
  split
  · rfl
  · split
    · rfl
    · split <;> rfl

theorem tryUart (w : World) (pa : Word) (b : Bool) (v : Word) :
    DeviceFrame w (w.tryUart pa b v).1 :=
  ⟨.refl _, rfl, rfl, rfl, rfl, rfl⟩

theorem tryPlic (w : World) (pa : Word) (b : Bool) (v : Word) (n : Nat) :
    DeviceFrame w (w.tryPlic pa b v n).1 := by
  simp only [World.tryPlic, tryHandlePlic]
  split
  · exact refl w
  · split
    · exact refl w
    · split
      · exact refl w
      · split
        · refine ⟨?_, rfl, rfl, rfl, rfl, rfl⟩
          dsimp only
          split
          · exact .plicRecomputeMip _ _
          · exact .refl _
        · exact ⟨.plicRecomputeMip _ _, rfl, rfl, rfl, rfl, rfl⟩

theorem tryHandleImsic (cfg : Features) (w : World) (pa v : Word) :
    DeviceFrame w (tryHandleImsic cfg w pa v).1 := by
  simp only [Pyremu.tryHandleImsic]
  split
  · exact refl w
  · split
    · exact refl w
    · split
      · exact updatePeer w _ fun s => .imsicEipSet s _ _
      · split
        · exact updatePeer w _ fun s => .imsicEipClear s _ _
        · exact refl w

theorem tryHandleImsicSerial (cfg : Features) (w : World) (pa v : Word) :
    DeviceFrame w (tryHandleImsicSerial cfg w pa v).1 := by
  simp only [Pyremu.tryHandleImsicSerial]
  split
  · exact refl w
  · split
    · exact refl w
    · split
      · exact refl w
      · split
        · exact refl w
        · split
          · exact updatePeer w _ fun s => .imsicEipSet s _ _
          · exact updatePeer w _ fun s => .imsicEipClear s _ _

/-- Asking several handlers in turn keeps the frame when each of them does. -/
theorem firstDevice (hs : List (World → World × Option Word))
    (h : ∀ f ∈ hs, ∀ w, DeviceFrame w (f w).1) (w : World) :
    DeviceFrame w (firstDevice w hs).1 := by
  induction hs generalizing w with
  | nil => exact refl w
  | cons f hs ih =>
    have hf := h f (by simp) w
    simp only [Pyremu.firstDevice]
    split <;> rename_i heq <;> rw [heq] at hf
    · exact hf
    · exact hf.trans (ih (fun g hg => h g (by simp [hg])) _)

theorem deviceLoad (cfg : Features) (w : World) (pa : Word) (n : Nat) :
    DeviceFrame w (deviceLoad cfg w pa n).1 := by
  refine firstDevice _ ?_ w
  simp only [List.forall_mem_cons, List.not_mem_nil, false_imp_iff, implies_true, and_true]
  exact ⟨fun w => tryHandleClint w _ _ _ _, fun w => tryVirtio w _ _ _, fun w => tryUart w _ _ _,
    fun w => refl w, fun w => tryPlic w _ _ _ _⟩

theorem deviceStore (cfg : Features) (w : World) (pa v : Word) (n : Nat) :
    DeviceFrame w (deviceStore cfg w pa v n).1 := by
  refine firstDevice _ ?_ w
  simp only [List.forall_mem_cons, List.not_mem_nil, false_imp_iff, implies_true, and_true]
  exact ⟨fun w => tryHandleClint w _ _ _ _, fun w => tryUart w _ _ _, fun w => tryVirtio w _ _ _,
    fun w => tryHandleImsic cfg w _ _, fun w => tryPlic w _ _ _ _⟩

theorem serialDevice (cfg : Features) (w : World) (pa : Word) (b : Bool) (v : Word) (n : Nat) :
    DeviceFrame w (serialDevice cfg w pa b v n).1 := by
  refine firstDevice _ ?_ w
  simp only [List.forall_mem_cons, List.not_mem_nil, false_imp_iff, implies_true, and_true]
  exact ⟨fun w => tryHandleClintSerial w _ _ _, fun w => tryHandleImsicSerial cfg w _ _,
    fun w => tryVirtio w _ _ _, fun w => tryPlic w _ _ _ _⟩

end DeviceFrame

end Pyremu
