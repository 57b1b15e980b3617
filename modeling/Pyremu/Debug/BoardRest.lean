import Pyremu.Debug.Step

/-!
# What the board leaves alone

Traps, returns and accesses to the interrupt CSRs do not touch `satp` or the
PMP registers, and the selectors of the IMSIC change with their CSR only. The
devices change by the CSRs of the IMSIC and by software interrupts.
-/

namespace Pyremu.Debug

section BoardRest

variable {n : Nat}

def hartRest (h : PyHart) : (BitVec 12 → Word) × BitVec 32 × BitVec 32 :=
  (fun a => if ownCsr a then h.csrs (.other a) else 0, h.imsicSelectM, h.imsicSelectS)

def ExtIntCtrl.isImsic (e : ExtIntCtrl n) : Bool :=
  match e with
  | .imsic _ => true
  | .plic _ => false

def boardRest (b : PyBoard n) : ((BitVec 12 → Word) × BitVec 32 × BitVec 32) × Fin n × Bool :=
  (hartRest b.hart, b.id, ExtIntCtrl.isImsic b.ext)

variable {h : PyHart} {b : PyBoard n}

@[simp] theorem hartRest_setCsr {r : PyCsr} (hr : ∀ a, r = .other a → ownCsr a = false) (v : Word) :
    hartRest (h.setCsr r v) = hartRest h := by
  have hcsrs : (fun a => if ownCsr a then (h.setCsr r v).csrs (.other a) else 0) =
      fun a => if ownCsr a then h.csrs (.other a) else 0 := by
    funext a
    split_ifs with ha
    · have hne : PyCsr.other a ≠ r := by
        intro heq
        rw [hr a heq.symm] at ha
        cases ha
      exact Function.update_of_ne hne v h.csrs
    · rfl
  rw [hartRest, hcsrs]
  rfl

@[simp] theorem hartRest_csrWriteRaw {r : PyCsr} (hr : ∀ a, r = .other a → ownCsr a = false) (v : Word) :
    hartRest (h.csrWriteRaw r v) = hartRest h := by
  rw [PyHart.csrWriteRaw]
  split_ifs
  · exact hartRest_setCsr hr v
  · exact hartRest_setCsr hr v

@[simp] theorem hartRest_clearMip (mask : Word) : hartRest (h.clearMip mask) = hartRest h := by
  simp [PyHart.clearMip]

@[simp] theorem hartRest_evalStip (now v : Word) : hartRest (h.evalStip now v) = hartRest h := by
  rw [PyHart.evalStip]
  split_ifs <;> simp

@[simp] theorem hartRest_writeStimecmph (now v : Word) : hartRest (h.writeStimecmph now v) = hartRest h := by
  simp [PyHart.writeStimecmph]

@[simp] theorem hartRest_writeSstatus (v : Word) : hartRest (h.writeSstatus v) = hartRest h := by
  simp [PyHart.writeSstatus]

theorem hartRest_trapDeliverSmode (excCode : Nat) (tval : Word) (isInterrupt : Bool) :
    hartRest (h.trapDeliverSmode excCode tval isInterrupt) = hartRest h := by
  simp [PyHart.trapDeliverSmode, hartRest, PyHart.setCsr, Function.update]

theorem hartRest_trapDeliverMmode (excCode : Nat) (tval : Word) (isInterrupt : Bool) :
    hartRest (h.trapDeliverMmode excCode tval isInterrupt) = hartRest h := by
  simp [PyHart.trapDeliverMmode, hartRest, PyHart.setCsr, Function.update]

theorem hartRest_mret : hartRest h.mret = hartRest h := by
  simp [PyHart.mret, hartRest, PyHart.setCsr, Function.update]

theorem hartRest_sret : hartRest h.sret = hartRest h := by
  simp [PyHart.sret, hartRest, PyHart.setCsr, Function.update]

theorem boardRest_withHart (hh : hartRest h = hartRest b.hart) : boardRest (b.withHart h) = boardRest b := by
  rw [boardRest, boardRest, PyBoard.withHart, hh]

@[simp] theorem boardRest_onFile (mmode : Bool) (f : PyImsicFile → PyImsicFile) :
    boardRest (b.onFile mmode f) = boardRest b := by
  obtain ⟨id, sstc, hart, clint, ext⟩ := b
  cases ext with
  | plic p => rfl
  | imsic files =>
    simp only [PyBoard.onFile, PyBoard.withExt, Pyremu.ExtIntCtrl.mapFile]
    split_ifs <;> rfl

@[simp] theorem boardRest_onClint (r : PyClint n × Bool) : boardRest (b.onClint r) = boardRest b := by
  simp only [boardRest, PyBoard.onClint]
  split_ifs <;> rfl

theorem boardRest_imsicClearIpiOnTrap (excCode : Nat) : boardRest (b.imsicClearIpiOnTrap excCode) = boardRest b := by
  rw [PyBoard.imsicClearIpiOnTrap, boardRest_onFile, boardRest_withHart (hartRest_clearMip _)]

theorem boardRest_deliverTrap (excCode : Nat) (tval : Word) (isInterrupt : Bool) :
    boardRest (b.deliverTrap excCode tval isInterrupt) = boardRest b := by
  have hs : ∀ b : PyBoard n, boardRest (b.withHart (b.hart.trapDeliverSmode excCode tval isInterrupt)) = boardRest b :=
    fun b => boardRest_withHart (hartRest_trapDeliverSmode excCode tval isInterrupt)
  have hm : ∀ b : PyBoard n, boardRest (b.withHart (b.hart.trapDeliverMmode excCode tval isInterrupt)) = boardRest b :=
    fun b => boardRest_withHart (hartRest_trapDeliverMmode excCode tval isInterrupt)
  simp only [PyBoard.deliverTrap, PyBoard.trapDeliverSmode, PyBoard.trapDeliverMmode, PyBoard.clearIpi]
  split_ifs <;> simp only [boardRest_imsicClearIpiOnTrap, boardRest_onClint, hs, hm] <;> rfl

theorem boardRest_clearMip (mask : Word) : boardRest (b.withHart (b.hart.clearMip mask)) = boardRest b :=
  boardRest_withHart (hartRest_clearMip mask)

theorem boardRest_trapMret : boardRest b.trapMret = boardRest b := by
  rw [PyBoard.trapMret]
  split_ifs
  · exact boardRest_deliverTrap 2 _ false
  · exact boardRest_withHart hartRest_mret

theorem boardRest_trapSret : boardRest b.trapSret = boardRest b := by
  rw [PyBoard.trapSret]
  split_ifs
  · exact boardRest_deliverTrap 2 _ false
  · exact boardRest_withHart hartRest_sret

theorem boardRest_checkPendingInterrupts : boardRest b.checkPendingInterrupts.2 = boardRest b := by
  have hsync : boardRest (b.updateHwMip b.hwMip) = boardRest b := boardRest_withHart (by simp)
  rw [PyBoard.checkPendingInterrupts]
  dsimp only
  split_ifs
  · rfl
  · exact (boardRest_withHart rfl).trans hsync
  · rw [← hsync]
    generalize b.updateHwMip b.hwMip = b'
    rw [PyBoard.deliverFirst]
    split_ifs
    · rfl
    · rfl
    · split
      · exact boardRest_deliverTrap _ _ _
      · rfl

theorem boardRest_readCsr (r : PyCsr) : boardRest (b.readCsr r).2 = boardRest b := by
  have htopei : ∀ mmode soft f, boardRest (b.readTopei mmode soft f).2 = boardRest b := by
    intro mmode soft f
    rw [PyBoard.readTopei]
    dsimp only
    split_ifs
    · rw [boardRest_clearMip, boardRest_onFile]
    · exact boardRest_onFile _ _
  have hmtopi : ∀ f, boardRest (b.readMtopi f).2 = boardRest b := by
    intro f
    rw [PyBoard.readMtopi]
    split_ifs
    · rfl
    · exact boardRest_clearMip _
    · rfl
    · rfl
  have hstopi : ∀ f, boardRest (b.readStopi f).2 = boardRest b := by
    intro f
    rw [PyBoard.readStopi]
    split_ifs
    · rfl
    · exact boardRest_clearMip _
    · rfl
    · rfl
    · rfl
    · rfl
  cases hext : b.ext with
  | plic p => cases r <;> simp [PyBoard.readCsr, hext]
  | imsic files => cases r <;> simp [PyBoard.readCsr, hext, PyBoard.readCsrImsic, htopei, hmtopi, hstopi]

theorem boardRest_claimIid (mmode : Bool) (timer external iid : BitVec 32) :
    boardRest (b.claimIid mmode timer external iid) = boardRest b := by
  rw [PyBoard.claimIid]
  rw [boardRest_clearMip]
  split_ifs
  · rfl
  · exact boardRest_onFile _ _
  · exact boardRest_onFile _ _

theorem boardRest_writeTopei (mmode : Bool) (v : Word) : boardRest (b.writeTopei mmode v) = boardRest b := by
  rw [PyBoard.writeTopei]
  split_ifs
  · rfl
  · rw [boardRest_clearMip, boardRest_onFile]

theorem boardRest_claimMtopi (iid : BitVec 32) : boardRest (b.claimMtopi iid) = boardRest b := by
  rw [PyBoard.claimMtopi]
  split_ifs
  · rw [boardRest_onClint, boardRest_claimIid]
  · exact boardRest_claimIid _ _ _ _

theorem boardRest_claimStopi (iid : BitVec 32) : boardRest (b.claimStopi iid) = boardRest b := by
  rw [PyBoard.claimStopi]
  split_ifs
  · rw [boardRest_withHart (by simp), boardRest_claimIid]
  · exact boardRest_claimIid _ _ _ _

/-- A CSR write touches these parts when it is of `satp` or of a selector. -/
theorem boardRest_writeCsr {r : PyCsr} (hr : Plain r) (hm : r ≠ .miselect) (hs : r ≠ .siselect) (v : Word) :
    boardRest (b.writeCsr r v) = boardRest b := by
  have hraw : boardRest (b.withHart (b.hart.csrWriteRaw r v)) = boardRest b :=
    boardRest_withHart (hartRest_csrWriteRaw hr v)
  have hmip : ∀ v, boardRest (b.withHart (b.hart.csrWriteRaw .mip v)) = boardRest b :=
    fun v => boardRest_withHart (by simp)
  have himsic : boardRest (b.writeCsrImsic r v) = boardRest b := by
    cases r <;> first
      | exact absurd rfl hm
      | exact absurd rfl hs
      | exact hraw
      | simp [PyBoard.writeCsrImsic, boardRest_writeTopei, boardRest_claimMtopi, boardRest_claimStopi]
  have hext : boardRest (match b.ext with
      | .imsic _ => b.writeCsrImsic r v
      | .plic _ => b.withHart (b.hart.csrWriteRaw r v)) = boardRest b := by
    split
    · exact himsic
    · exact hraw
  cases r with
  | stimecmp => exact boardRest_withHart (by simp)
  | stimecmph => exact boardRest_withHart (by simp)
  | sstatus => exact boardRest_withHart (by simp)
  | sie => exact boardRest_withHart (by simp [PyHart.writeSie])
  | mip => exact hmip _
  | sip => exact hmip _
  | _ => exact hext

/-- Selectors are kept beside their CSR when there is an IMSIC. -/
theorem boardRest_writeSelect (v : Word) :
    boardRest (b.writeCsr .miselect v) =
        (((hartRest b.hart).1, if ExtIntCtrl.isImsic b.ext then v.setWidth 32 else b.hart.imsicSelectM,
          b.hart.imsicSelectS), (boardRest b).2) ∧
      boardRest (b.writeCsr .siselect v) =
        (((hartRest b.hart).1, b.hart.imsicSelectM,
          if ExtIntCtrl.isImsic b.ext then v.setWidth 32 else b.hart.imsicSelectS), (boardRest b).2) := by
  constructor <;> cases hb : b.ext <;>
    simp [PyBoard.writeCsr, hb, PyBoard.writeCsrImsic, boardRest, hartRest, PyHart.csrWriteRaw, PyCsr.intSensitive,
      PyHart.setCsr, PyBoard.withHart, ExtIntCtrl.isImsic]

end BoardRest

/-! ## Devices -/

section Devices

variable {n : Nat} {b b' : PyBoard n}

/-- What the CSRs show of the devices. -/
def deviceRest (b : PyBoard n) : Word × (Nat → Word) × ExtIntCtrl n := (b.clint.mtime, b.clint.mtimecmp, b.ext)

/-- The files of the hart deliver, so that no trap takes a pending bit from them. -/
def Delivers (b : PyBoard n) : Prop :=
  ∀ files, b.ext = .imsic files → (files b.id).1.eidelivery ≠ 0 ∧ (files b.id).2.eidelivery ≠ 0

theorem Delivers.congr (h : Delivers b) (hid : b'.id = b.id) (hext : b'.ext = b.ext) : Delivers b' := by
  rw [Delivers, hid, hext]
  exact h

theorem deviceRest_clearIpi (hartId : Nat) : deviceRest (b.clearIpi hartId) = deviceRest b := by
  simp only [deviceRest, PyBoard.clearIpi, PyBoard.onClint, PyClint.clearIpi]
  split_ifs <;> rfl

theorem deviceRest_imsicClearIpiOnTrap (h : Delivers b) (excCode : Nat) :
    deviceRest (b.imsicClearIpiOnTrap excCode) = deviceRest b := by
  cases hb : b.ext with
  | plic p => simp [deviceRest, PyBoard.imsicClearIpiOnTrap, PyBoard.onFile, PyBoard.withExt, PyBoard.withHart, hb,
      ExtIntCtrl.mapFile]
  | imsic files =>
    obtain ⟨hm, hs⟩ := h files hb
    simp only [deviceRest, PyBoard.imsicClearIpiOnTrap, PyBoard.onFile, PyBoard.withExt, PyBoard.withHart, hb,
      Pyremu.ExtIntCtrl.mapFile, if_neg hm, if_neg hs, ite_self, Function.update_eq_self]

theorem deviceRest_clearSoftware (h : Delivers b) (excCode : Nat) :
    deviceRest ((b.clearIpi b.id).imsicClearIpiOnTrap excCode) = deviceRest b := by
  have hd : Delivers (b.clearIpi b.id) := h.congr rfl rfl
  rw [deviceRest_imsicClearIpiOnTrap hd, deviceRest_clearIpi]

theorem deviceRest_deliverTrap (h : Delivers b) (excCode : Nat) (tval : Word) (isInterrupt : Bool) :
    deviceRest (b.deliverTrap excCode tval isInterrupt) = deviceRest b := by
  have hs : ∀ b : PyBoard n, Delivers b → deviceRest (b.trapDeliverSmode excCode tval isInterrupt) = deviceRest b := by
    intro b h
    have hd : Delivers (b.withHart (b.hart.trapDeliverSmode excCode tval isInterrupt)) := h.congr rfl rfl
    rw [PyBoard.trapDeliverSmode]
    split_ifs
    · rfl
    · exact deviceRest_clearSoftware hd excCode
    · exact deviceRest_imsicClearIpiOnTrap hd excCode
    · rfl
  have hm : ∀ b : PyBoard n, Delivers b → deviceRest (b.trapDeliverMmode excCode tval isInterrupt) = deviceRest b := by
    intro b h
    have hd : Delivers (b.withHart (b.hart.trapDeliverMmode excCode tval isInterrupt)) := h.congr rfl rfl
    rw [PyBoard.trapDeliverMmode]
    split_ifs
    · exact deviceRest_clearSoftware hd excCode
    · rfl
  rw [PyBoard.deliverTrap]
  dsimp only
  have hd : Delivers (b.withHart { b.hart with
    reservationValid := false
    wfiWoken := b.hart.waiting || b.hart.wfiWoken
    waiting := false }) := h.congr rfl rfl
  split_ifs
  · exact hs _ hd
  · exact hm _ hd
  · exact hs _ hd
  · exact hm _ hd

theorem deviceRest_trapMret (h : Delivers b) : deviceRest b.trapMret = deviceRest b := by
  rw [PyBoard.trapMret]
  split_ifs
  · exact deviceRest_deliverTrap h 2 _ false
  · rfl

theorem deviceRest_trapSret (h : Delivers b) : deviceRest b.trapSret = deviceRest b := by
  rw [PyBoard.trapSret]
  split_ifs
  · exact deviceRest_deliverTrap h 2 _ false
  · rfl

theorem deviceRest_checkPendingInterrupts (h : Delivers b) :
    deviceRest b.checkPendingInterrupts.2 = deviceRest b := by
  have hfirst : deviceRest (b.updateHwMip b.hwMip).deliverFirst.2 = deviceRest b := by
    have hd : Delivers (b.updateHwMip b.hwMip) := h.congr rfl rfl
    rw [PyBoard.deliverFirst]
    split_ifs
    · rfl
    · rfl
    · split
      · exact deviceRest_deliverTrap hd _ _ _
      · rfl
  rw [PyBoard.checkPendingInterrupts]
  dsimp only
  split_ifs
  · rfl
  · rfl
  · exact hfirst

/-- CSRs of an IMSIC that claim when they are read. -/
def claimsOnRead : PyCsr → Bool
  | .mtopei | .stopei => true
  | _ => false

/-- CSRs of an IMSIC that write its files or claim. -/
def writesFile : PyCsr → Bool
  | .mireg | .sireg | .mtopei | .stopei | .mtopi | .stopi => true
  | _ => false

theorem deviceRest_readCsr {r : PyCsr} (hr : ExtIntCtrl.isImsic b.ext = true → claimsOnRead r = false) :
    deviceRest (b.readCsr r).2 = deviceRest b := by
  cases hext : b.ext with
  | plic p => cases r <;> simp only [PyBoard.readCsr, hext]
  | imsic files =>
    have hr := hr (by rw [hext]; rfl)
    have hmtopi : ∀ f, deviceRest (b.readMtopi f).2 = deviceRest b := by
      intro f
      rw [PyBoard.readMtopi]
      split_ifs <;> rfl
    have hstopi : ∀ f, deviceRest (b.readStopi f).2 = deviceRest b := by
      intro f
      rw [PyBoard.readStopi]
      split_ifs <;> rfl
    cases r with
    | mtopei => cases hr
    | stopei => cases hr
    | _ => simp only [PyBoard.readCsr, hext, PyBoard.readCsrImsic, hmtopi, hstopi]

theorem deviceRest_writeCsr {r : PyCsr} (hr : ExtIntCtrl.isImsic b.ext = true → writesFile r = false) (v : Word) :
    deviceRest (b.writeCsr r v) = deviceRest b := by
  cases hext : b.ext with
  | plic p => cases r <;> simp only [PyBoard.writeCsr, hext] <;> rfl
  | imsic files =>
    have hr := hr (by rw [hext]; rfl)
    cases r with
    | mireg => cases hr
    | sireg => cases hr
    | mtopei => cases hr
    | stopei => cases hr
    | mtopi => cases hr
    | stopi => cases hr
    | _ =>
      simp only [PyBoard.writeCsr, hext, PyBoard.writeCsrImsic]
      rfl

end Devices

end Pyremu.Debug
