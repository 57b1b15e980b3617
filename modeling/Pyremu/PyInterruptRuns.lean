import Pyremu.PyInterrupt
import Pyremu.Lib.Run

/-!
# What the interrupt check sees

What the check should do, the conditions under which it does, and an invariant
about what it remembers: unless the version has come round, the early return
hides no interrupt of the CLINT and no timer.
-/

namespace Pyremu

/-! ## What a step leaves alone -/

/-- The modes a hart runs in. -/
def Mode.Standard (m : Mode) : Prop := m = .U ∨ m = .S ∨ m = .M

namespace PyHart

/-- The state that the memory of the check depends on is the same. -/
structure Kept (h h' : PyHart) : Prop where
  version : h'.intStateVersion = h.intStateVersion
  nextTimer : h'.intCacheNextTimer = h.intCacheNextTimer
  mip : h'.csrs .mip = h.csrs .mip
  mie : h'.csrs .mie = h.csrs .mie
  stimecmp : h'.csrs .stimecmp = h.csrs .stimecmp

/-- What every step but the check does: the version moves on, or nothing that matters changes. -/
structure Moves (h h' : PyHart) : Prop where
  mode : h.mode.Standard → h'.mode.Standard
  cache : h'.intCacheVersion = h.intCacheVersion
  watched : h.intStateVersion.bumps < h'.intStateVersion.bumps ∨ h.Kept h'

variable {h h' h'' : PyHart}

theorem Kept.refl (h : PyHart) : h.Kept h := ⟨rfl, rfl, rfl, rfl, rfl⟩

theorem Kept.trans (k : h.Kept h') (k' : h'.Kept h'') : h.Kept h'' :=
  ⟨k'.version.trans k.version, k'.nextTimer.trans k.nextTimer, k'.mip.trans k.mip, k'.mie.trans k.mie,
    k'.stimecmp.trans k.stimecmp⟩

theorem Moves.trans (m : h.Moves h') (m' : h'.Moves h'') : h.Moves h'' := by
  apply Moves.mk
  · exact fun hm => m'.mode (m.mode hm)
  · exact m'.cache.trans m.cache
  · rcases m.watched with hlt | hk
    · rcases m'.watched with hlt' | hk'
      · left
        omega
      · left
        rw [hk'.version]
        exact hlt
    · rcases m'.watched with hlt' | hk'
      · left
        rw [← hk.version]
        exact hlt'
      · right
        exact hk.trans hk'

theorem moves_refl (h : PyHart) : h.Moves h := ⟨id, rfl, .inr (.refl h)⟩

theorem moves_bumped (h : PyHart) : h.Moves h.bumped := by
  apply Moves.mk
  · exact id
  · rfl
  · left
    exact Nat.lt_succ_self _

theorem moves_csrWriteRaw (h : PyHart) (r : PyCsr) (v : Word) : h.Moves (h.csrWriteRaw r v) := by
  rw [csrWriteRaw]
  by_cases hr : r.intSensitive = true
  · rw [if_pos hr]
    exact ⟨id, rfl, .inl (Nat.lt_succ_self _)⟩
  · rw [if_neg hr]
    have hne : ∀ s : PyCsr, s.intSensitive = true → (h.setCsr r v).csrs s = h.csrs s := by
      intro s hs
      apply Function.update_of_ne
      rintro rfl
      exact hr hs
    exact ⟨id, rfl, .inr ⟨rfl, rfl, hne _ rfl, hne _ rfl, hne _ rfl⟩⟩

theorem moves_clearMip (h : PyHart) (mask : Word) : h.Moves (h.clearMip mask) := h.moves_csrWriteRaw _ _

theorem moves_evalStip (h : PyHart) (now v : Word) : h.Moves (h.evalStip now v) := by
  rw [evalStip]
  split
  · exact h.moves_csrWriteRaw _ _
  · exact h.moves_clearMip _

theorem moves_writeStimecmph (h : PyHart) (now v : Word) : h.Moves (h.writeStimecmph now v) :=
  ((h.moves_csrWriteRaw _ _).trans (moves_csrWriteRaw _ _ _)).trans (moves_evalStip _ _ _)

theorem moves_writeSstatus (h : PyHart) (v : Word) : h.Moves (h.writeSstatus v) :=
  (h.moves_csrWriteRaw _ _).trans (moves_csrWriteRaw _ _ _)

theorem moves_trapDeliverSmode (h : PyHart) (excCode : Nat) (tval : Word) (isInterrupt : Bool) :
    h.Moves (h.trapDeliverSmode excCode tval isInterrupt) :=
  ⟨fun _ => .inr (.inl rfl), rfl, .inr ⟨rfl, rfl, rfl, rfl, rfl⟩⟩

theorem moves_trapDeliverMmode (h : PyHart) (excCode : Nat) (tval : Word) (isInterrupt : Bool) :
    h.Moves (h.trapDeliverMmode excCode tval isInterrupt) :=
  ⟨fun _ => .inr (.inr rfl), rfl, .inr ⟨rfl, rfl, rfl, rfl, rfl⟩⟩

theorem moves_mret (h : PyHart) : h.Moves h.mret := by
  apply Moves.mk
  · intro _
    rw [mret]
    simp only [Mode.Standard]
    split_ifs <;> simp
  · rfl
  · exact .inr ⟨rfl, rfl, rfl, rfl, rfl⟩

theorem moves_sret (h : PyHart) : h.Moves h.sret := by
  apply Moves.mk
  · intro _
    rw [sret]
    simp only [Mode.Standard]
    split_ifs <;> simp
  · rfl
  · exact .inr ⟨rfl, rfl, rfl, rfl, rfl⟩

end PyHart

namespace PyBoard

variable {n : Nat} {b b' b'' : PyBoard n}

/-- `PyHart.Moves` with the registers of the CLINT. -/
structure Moves (b b' : PyBoard n) : Prop where
  id : b'.id = b.id
  hasSstc : b'.hasSstc = b.hasSstc
  hart : b.hart.Moves b'.hart
  clint : b.hart.intStateVersion.bumps < b'.hart.intStateVersion.bumps ∨
    (b'.clint.msip = b.clint.msip ∧ b'.clint.mtimecmp = b.clint.mtimecmp)

theorem Moves.trans (m : b.Moves b') (m' : b'.Moves b'') : b.Moves b'' := by
  apply Moves.mk
  · exact m'.id.trans m.id
  · exact m'.hasSstc.trans m.hasSstc
  · exact m.hart.trans m'.hart
  · have hle : ∀ {h h' : PyHart}, h.Moves h' → h.intStateVersion.bumps ≤ h'.intStateVersion.bumps := by
      intro h h' hm
      rcases hm.watched with hlt | hk
      · exact hlt.le
      · exact (congrArg _ hk.version).ge
    rcases m.clint with hlt | ⟨hs, ht⟩
    · left
      exact hlt.trans_le (hle m'.hart)
    · rcases m'.clint with hlt | ⟨hs', ht'⟩
      · left
        exact (hle m.hart).trans_lt hlt
      · right
        exact ⟨hs'.trans hs, ht'.trans ht⟩

theorem moves_refl (b : PyBoard n) : b.Moves b := ⟨rfl, rfl, b.hart.moves_refl, .inr ⟨rfl, rfl⟩⟩

theorem moves_withHart {h : PyHart} (hm : b.hart.Moves h) : b.Moves (b.withHart h) :=
  ⟨rfl, rfl, hm, .inr ⟨rfl, rfl⟩⟩

theorem moves_withExt (b : PyBoard n) (e : ExtIntCtrl n) : b.Moves (b.withExt e) :=
  ⟨rfl, rfl, b.hart.moves_refl, .inr ⟨rfl, rfl⟩⟩

theorem moves_onFile (b : PyBoard n) (mmode : Bool) (f : PyImsicFile → PyImsicFile) : b.Moves (b.onFile mmode f) :=
  b.moves_withExt _

/-- A change of the CLINT without a bump leaves its registers of every hart alone. -/
theorem moves_onClint {r : PyClint n × Bool}
    (hr : r.2 = false → r.1.msip = b.clint.msip ∧ r.1.mtimecmp = b.clint.mtimecmp) : b.Moves (b.onClint r) := by
  rw [onClint]
  cases h2 : r.2 with
  | true => exact ⟨rfl, rfl, b.hart.moves_bumped, .inl (Nat.lt_succ_self _)⟩
  | false => exact ⟨rfl, rfl, b.hart.moves_refl, .inr (hr h2)⟩

theorem moves_clearIpi (b : PyBoard n) (hartId : Nat) : b.Moves (b.clearIpi hartId) := by
  apply moves_onClint
  rw [PyClint.clearIpi]
  split_ifs
  · exact fun h => absurd h (by decide)
  · exact fun _ => ⟨rfl, rfl⟩

theorem moves_sendIpi (b : PyBoard n) (hartId : Nat) : b.Moves (b.onClint (b.clint.sendIpi hartId)) := by
  apply moves_onClint
  rw [PyClint.sendIpi]
  split_ifs
  · exact fun h => absurd h (by decide)
  · exact fun _ => ⟨rfl, rfl⟩

theorem moves_setMtimecmp (b : PyBoard n) (hartId : Nat) (val : Word) :
    b.Moves (b.onClint (b.clint.setMtimecmp hartId val)) := by
  apply moves_onClint
  rw [PyClint.setMtimecmp]
  split_ifs
  · exact fun h => absurd h (by decide)
  · exact fun _ => ⟨rfl, rfl⟩

theorem moves_clintWrite (b : PyBoard n) (offset size : Nat) (data : Word) :
    b.Moves (b.onClint (b.clint.write offset size data)) := by
  apply moves_onClint
  simp only [PyClint.write]
  split_ifs
  · exact fun h => absurd h (by decide)
  · exact fun _ => ⟨rfl, rfl⟩
  · cases writeU64Bytes (b.clint.mtimecmp ((offset - 0x4000) / 8)) ((offset - 0x4000) % 8) size
      (data &&& widthMask size) with
    | none => exact fun _ => ⟨rfl, rfl⟩
    | some merged => exact fun h => Bool.noConfusion h
  · exact fun _ => ⟨rfl, rfl⟩
  · cases writeU64Bytes b.clint.mtime (offset - 0xBFF8) size (data &&& widthMask size) with
    | none => exact fun _ => ⟨rfl, rfl⟩
    | some merged => exact fun _ => ⟨rfl, rfl⟩
  · exact fun _ => ⟨rfl, rfl⟩

theorem moves_imsicClearIpiOnTrap (b : PyBoard n) (excCode : Nat) : b.Moves (b.imsicClearIpiOnTrap excCode) :=
  (moves_withHart (b.hart.moves_clearMip _)).trans (moves_onFile _ _ _)

theorem moves_deliverTrap (b : PyBoard n) (excCode : Nat) (tval : Word) (isInterrupt : Bool) :
    b.Moves (b.deliverTrap excCode tval isInterrupt) := by
  simp only [deliverTrap]
  generalize (if isInterrupt = true then b.csr .mideleg else b.csr .medeleg) = choice
  generalize hwoken : b.withHart { b.hart with
    reservationValid := false
    wfiWoken := b.hart.waiting || b.hart.wfiWoken
    waiting := false } = woken
  have hw : b.Moves woken := by
    rw [← hwoken]
    exact moves_withHart ⟨fun hm => hm, rfl, .inr ⟨rfl, rfl, rfl, rfl, rfl⟩⟩
  apply hw.trans
  split_ifs
  · have hs := moves_withHart (b := woken) (woken.hart.moves_trapDeliverSmode excCode tval isInterrupt)
    simp only [trapDeliverSmode]
    split_ifs
    · exact hs
    · exact (hs.trans (moves_clearIpi _ _)).trans (moves_imsicClearIpiOnTrap _ _)
    · exact hs.trans (moves_imsicClearIpiOnTrap _ _)
    · exact hs
  · have hm := moves_withHart (b := woken) (woken.hart.moves_trapDeliverMmode excCode tval isInterrupt)
    simp only [trapDeliverMmode]
    split_ifs
    · exact (hm.trans (moves_clearIpi _ _)).trans (moves_imsicClearIpiOnTrap _ _)
    · exact hm

theorem moves_trapMret (b : PyBoard n) : b.Moves b.trapMret := by
  rw [trapMret]
  split_ifs
  · exact b.moves_deliverTrap _ _ _
  · exact moves_withHart b.hart.moves_mret

theorem moves_trapSret (b : PyBoard n) : b.Moves b.trapSret := by
  rw [trapSret]
  split_ifs
  · exact b.moves_deliverTrap _ _ _
  · exact moves_withHart b.hart.moves_sret

theorem moves_writeTopei (b : PyBoard n) (mmode : Bool) (v : Word) : b.Moves (b.writeTopei mmode v) := by
  simp only [writeTopei]
  split_ifs
  · exact b.moves_refl
  · exact (b.moves_onFile _ _).trans (moves_withHart (PyHart.moves_clearMip _ _))

theorem moves_claimIid (b : PyBoard n) (mmode : Bool) (timer external iid : BitVec 32) :
    b.Moves (b.claimIid mmode timer external iid) := by
  have hf : b.Moves (if iid = timer then b
      else if iid = external then b.onFile mmode fun f => f.readTopei.2
      else b.onFile mmode fun f => f.clearPending iid) := by
    split_ifs
    · exact b.moves_refl
    · exact b.moves_onFile _ _
    · exact b.moves_onFile _ _
  exact hf.trans (moves_withHart (PyHart.moves_clearMip _ _))

theorem moves_claimMtopi (b : PyBoard n) (iid : BitVec 32) : b.Moves (b.claimMtopi iid) := by
  have hc := b.moves_claimIid true 7 11 iid
  simp only [claimMtopi]
  split_ifs
  · exact hc.trans (moves_setMtimecmp _ _ _)
  · exact hc

theorem moves_claimStopi (b : PyBoard n) (iid : BitVec 32) : b.Moves (b.claimStopi iid) := by
  have hc := b.moves_claimIid false 5 9 iid
  simp only [claimStopi]
  split_ifs
  · exact hc.trans (moves_withHart (PyHart.moves_csrWriteRaw _ _ _))
  · exact hc

theorem moves_writeCsrImsic (b : PyBoard n) (r : PyCsr) (v : Word) : b.Moves (b.writeCsrImsic r v) := by
  have hselect : ∀ (m s : BitVec 32), b.hart.Moves { b.hart with imsicSelectM := m, imsicSelectS := s } := by
    intro m s
    exact ⟨fun hm => hm, rfl, .inr ⟨rfl, rfl, rfl, rfl, rfl⟩⟩
  cases r with
  | miselect => exact moves_withHart ((hselect (v.setWidth 32) _).trans (PyHart.moves_csrWriteRaw _ _ _))
  | siselect => exact moves_withHart ((hselect _ (v.setWidth 32)).trans (PyHart.moves_csrWriteRaw _ _ _))
  | mireg => exact b.moves_onFile _ _
  | sireg => exact b.moves_onFile _ _
  | mtopei => exact b.moves_writeTopei _ _
  | stopei => exact b.moves_writeTopei _ _
  | mtopi => exact b.moves_claimMtopi _
  | stopi => exact b.moves_claimStopi _
  | _ => exact moves_withHart (b.hart.moves_csrWriteRaw _ _)

theorem moves_writeCsr (b : PyBoard n) (r : PyCsr) (v : Word) : b.Moves (b.writeCsr r v) := by
  cases r with
  | stimecmp => exact moves_withHart ((b.hart.moves_csrWriteRaw _ _).trans (PyHart.moves_evalStip _ _ _))
  | stimecmph => exact moves_withHart (b.hart.moves_writeStimecmph _ _)
  | sstatus => exact moves_withHart (b.hart.moves_writeSstatus _)
  | sie => exact moves_withHart (b.hart.moves_csrWriteRaw _ _)
  | mip => exact moves_withHart (b.hart.moves_csrWriteRaw _ _)
  | sip => exact moves_withHart (b.hart.moves_csrWriteRaw _ _)
  | _ =>
    simp only [writeCsr]
    split
    · exact b.moves_writeCsrImsic _ v
    · exact moves_withHart (b.hart.moves_csrWriteRaw _ v)

theorem moves_readTopei (b : PyBoard n) (mmode : Bool) (soft : Nat) (f : PyImsicFile) :
    b.Moves (b.readTopei mmode soft f).2 := by
  simp only [readTopei]
  split_ifs
  · exact (b.moves_onFile _ _).trans (moves_withHart (PyHart.moves_clearMip _ _))
  · exact b.moves_onFile _ _

theorem moves_readMtopi (b : PyBoard n) (f : PyImsicFile) : b.Moves (b.readMtopi f).2 := by
  rw [readMtopi]
  split_ifs
  · exact b.moves_refl
  · exact moves_withHart (b.hart.moves_clearMip _)
  · exact b.moves_refl
  · exact b.moves_refl

theorem moves_readStopi (b : PyBoard n) (f : PyImsicFile) : b.Moves (b.readStopi f).2 := by
  rw [readStopi]
  split_ifs
  all_goals first | exact b.moves_refl | exact moves_withHart (b.hart.moves_clearMip _)

theorem moves_readCsr (b : PyBoard n) (r : PyCsr) : b.Moves (b.readCsr r).2 := by
  have himsic : ∀ mfile sfile, b.Moves (b.readCsrImsic mfile sfile r).2 := by
    intro mfile sfile
    cases r with
    | mtopei => exact b.moves_readTopei _ _ _
    | stopei => exact b.moves_readTopei _ _ _
    | mtopi => exact b.moves_readMtopi _
    | stopi => exact b.moves_readStopi _
    | _ => exact b.moves_refl
  cases r with
  | time => exact b.moves_refl
  | timeh => exact b.moves_refl
  | sstatus => exact b.moves_refl
  | sie => exact b.moves_refl
  | sip => exact b.moves_refl
  | _ =>
    simp only [readCsr]
    split
    · exact himsic _ _
    · exact b.moves_refl

/-- Every step but the check. -/
theorem moves_step (b : PyBoard n) {op : PyIntOp} (hop : op ≠ .checkPendingInterrupts) : b.Moves (b.step op) := by
  cases op with
  | csrWrite r v => exact b.moves_writeCsr r v
  | csrRead r => exact b.moves_readCsr r
  | clintWrite offset size data => exact b.moves_clintWrite offset size data
  | sendIpi hartId => exact b.moves_sendIpi hartId
  | clearIpi hartId => exact b.moves_clearIpi hartId
  | setMtimecmp hartId val => exact b.moves_setMtimecmp hartId val
  | tick cycles => exact moves_onClint fun _ => ⟨rfl, rfl⟩
  | exception excCode tval => exact b.moves_deliverTrap _ _ _
  | mret => exact b.moves_trapMret
  | sret => exact b.moves_trapSret
  | checkPendingInterrupts => exact absurd rfl hop
  | _ => exact b.moves_withExt _

/-! ## What the check should do -/

/-- A source raises its interrupt. -/
def Pending (b : PyBoard n) : IntSource → Prop
  | .MEI => b.ext.line b.id true = true
  | .MSI => b.clint.msip b.id = true
  | .MTI => timerPending b.clint.mtime (b.clint.mtimecmp b.id)
  | .SEI => b.ext.line b.id false = true
  | .SSI => (b.csr .mip).getLsbD 1 = true
  | .STI => b.stiPending = true

instance (b : PyBoard n) : ∀ i, Decidable (b.Pending i)
  | .MEI => inferInstanceAs (Decidable (b.ext.line b.id true = true))
  | .MSI => inferInstanceAs (Decidable (b.clint.msip b.id = true))
  | .MTI => inferInstanceAs (Decidable (timerPending b.clint.mtime (b.clint.mtimecmp b.id)))
  | .SEI => inferInstanceAs (Decidable (b.ext.line b.id false = true))
  | .SSI => inferInstanceAs (Decidable ((b.csr .mip).getLsbD 1 = true))
  | .STI => inferInstanceAs (Decidable (b.stiPending = true))

def Delegated (b : PyBoard n) (i : IntSource) : Prop := (b.csr .mideleg).getLsbD i.code = true

instance (b : PyBoard n) (i : IntSource) : Decidable (b.Delegated i) := inferInstanceAs (Decidable (_ = true))

/-- The mode takes the interrupt: M with `MIE` what is not delegated, S all but what is delegated
while `SIE` is clear, U everything. -/
def Open (b : PyBoard n) (i : IntSource) : Prop :=
  (b.hart.mode = .M → b.hart.mie = true ∧ ¬ b.Delegated i) ∧
    (b.hart.mode = .S → ¬ b.Delegated i ∨ b.hart.sie = true)

instance (b : PyBoard n) (i : IntSource) : Decidable (b.Open i) := inferInstanceAs (Decidable (_ ∧ _))

def Deliverable (b : PyBoard n) (i : IntSource) : Prop :=
  b.Pending i ∧ (b.csr .mie).getLsbD i.code = true ∧ b.Open i

instance (b : PyBoard n) (i : IntSource) : Decidable (b.Deliverable i) := inferInstanceAs (Decidable (_ ∧ _))

/-- The deliverable interrupt of highest priority. -/
def first (b : PyBoard n) : Option IntSource := IntSource.priority.find? fun i => decide (b.Deliverable i)

/-- Only the hardware bits of `mip` and the memory of the check have changed. -/
def OnlyMipAndCache (b b' : PyBoard n) : Prop :=
  ∃ mip version cache timer, mip &&& ~~~hwMipMask = b.csr .mip &&& ~~~hwMipMask ∧
    b' = b.withHart { b.hart.setCsr .mip mip with
      intStateVersion := version, intCacheVersion := cache, intCacheNextTimer := timer }

/-- The check delivers the first deliverable interrupt, and does nothing where there is none. -/
def CheckRight (b : PyBoard n) : Prop :=
  match b.first with
  | some i =>
    b.checkPendingInterrupts.1 = true ∧
      ∃ b', b.OnlyMipAndCache b' ∧ b.checkPendingInterrupts.2 = b'.deliverTrap i.code 0 true
  | none => b.checkPendingInterrupts.1 = false ∧ b.OnlyMipAndCache b.checkPendingInterrupts.2

/-- `CheckRight` wherever a run calls the check. -/
def Right (b : PyBoard n) (op : PyIntOp) : Prop := op = .checkPendingInterrupts → b.CheckRight

/-- The memory of the check applies because the version has come round, not because it is the same. -/
def CameRound (b : PyBoard n) : Prop := b.hart.intCacheVersion ≠ some b.hart.intStateVersion

instance (b : PyBoard n) : Decidable b.CameRound := inferInstanceAs (Decidable (_ ≠ _))

/-- Where the check is called: a software interrupt of S mode comes with a hardware source and past
the fast path, the fast path meets no external interrupt, and with a version that has come round it
meets no other one either. -/
structure Sees (b : PyBoard n) : Prop where
  soft : b.Deliverable .SSI → b.cacheHit = false ∧ ∃ i ≠ .SSI, b.Pending i
  external : b.cacheHit = true → ¬ b.Deliverable .MEI ∧ ¬ b.Deliverable .SEI
  cameRound : b.cacheHit = true → b.CameRound → ∀ i, ¬ b.Deliverable i

/-- `Sees` wherever a run calls the check. -/
def SeesAt (b : PyBoard n) (op : PyIntOp) : Prop := op = .checkPendingInterrupts → b.Sees

/-! ## The levels of the sources -/

theorem mem_priority (i : IntSource) : i ∈ IntSource.priority := by cases i <;> decide

theorem first_eq_none_iff : b.first = none ↔ ∀ i, ¬ b.Deliverable i := by
  rw [first, List.find?_eq_none]
  constructor
  · intro h i hi
    exact h i (mem_priority i) (decide_eq_true hi)
  · intro h i _ hi
    exact h i (of_decide_eq_true hi)

theorem getLsbD_mipMask (i j : IntSource) : i.mipMask.getLsbD j.code = decide (i = j) := by
  cases i <;> cases j <;> decide

theorem getLsbD_ite_mipMask (p : Prop) [Decidable p] (i j : IntSource) :
    (if p then i.mipMask else 0).getLsbD j.code = (decide p && decide (i = j)) := by
  by_cases hp : p
  · rw [if_pos hp, getLsbD_mipMask, decide_eq_true hp, Bool.true_and]
  · rw [if_neg hp, decide_eq_false hp, Bool.false_and]
    exact BitVec.getLsbD_zero

theorem getLsbD_hwMipMask (i : IntSource) : hwMipMask.getLsbD i.code = decide (i ≠ .SSI) := by
  cases i <;> decide

theorem getLsbD_hwMip (b : PyBoard n) (i : IntSource) :
    b.hwMip.getLsbD i.code = decide (i ≠ .SSI ∧ b.Pending i) := by
  simp only [hwMip, PyClint.checkInterrupt, ExtIntCtrl.getPendingMip, BitVec.getLsbD_or, getLsbD_ite_mipMask]
  cases i <;> simp [Pending, timerPending, and_comm]

theorem updateHwMip_eq (b : PyBoard n) (bits : Word) :
    b.updateHwMip bits = b.withHart (b.hart.setCsr .mip ((b.csr .mip &&& ~~~hwMipMask) ||| bits)).bumped := by
  rw [updateHwMip, PyHart.csrWriteRaw, if_pos (by rfl)]

theorem csr_mip_updateHwMip (b : PyBoard n) (bits : Word) :
    (b.updateHwMip bits).csr .mip = (b.csr .mip &&& ~~~hwMipMask) ||| bits := by
  rw [updateHwMip_eq]
  exact Function.update_self PyCsr.mip ((b.csr .mip &&& ~~~hwMipMask) ||| bits) b.hart.csrs

theorem csr_updateHwMip (b : PyBoard n) (bits : Word) {r : PyCsr} (hr : r ≠ .mip) :
    (b.updateHwMip bits).csr r = b.csr r := by
  rw [updateHwMip_eq]
  exact Function.update_of_ne hr _ _

/-- What the check writes to `mip` is what is pending. -/
theorem getLsbD_synced (b : PyBoard n) (i : IntSource) :
    ((b.updateHwMip b.hwMip).csr .mip).getLsbD i.code = decide (b.Pending i) := by
  have hlt : i.code < 64 := by cases i <;> decide
  rw [csr_mip_updateHwMip, BitVec.getLsbD_or, BitVec.getLsbD_and, BitVec.getLsbD_not, getLsbD_hwMipMask, getLsbD_hwMip,
    decide_eq_true hlt, Bool.true_and]
  by_cases hi : i = .SSI
  · subst hi
    simp [Pending, IntSource.code]
  · simp [hi]

/-- The early return is taken exactly when no hardware source is pending. -/
theorem quiet_iff (b : PyBoard n) :
    (decide (b.clint.checkInterrupt b.id ≠ 0) || b.stiPending) = false ∧ b.ext.getPendingMip b.id = 0 ↔
      ∀ i, i ≠ .SSI → ¬ b.Pending i := by
  have hmask : ∀ (p : Prop) [Decidable p] (i : IntSource), (if p then i.mipMask else 0) = 0 ↔ ¬ p := by
    intro p _ i
    have hne : i.mipMask ≠ 0 := by cases i <;> decide
    by_cases hp : p
    · rw [if_pos hp]
      exact iff_of_false hne (not_not.mpr hp)
    · rw [if_neg hp]
      exact iff_of_true rfl hp
  have hor : ∀ x y : Word, x ||| y = 0 ↔ x = 0 ∧ y = 0 := fun x y => BitVec.or_eq_zero_iff
  rw [Bool.or_eq_false_iff, decide_eq_false_iff_not, not_not, PyClint.checkInterrupt,
    ExtIntCtrl.getPendingMip, hor, hor, hmask, hmask, hmask, hmask]
  constructor
  · rintro ⟨⟨⟨hmsi, hmti⟩, hsti⟩, hmei, hsei⟩ i hi
    cases i with
    | MEI => exact hmei
    | MSI => exact hmsi
    | MTI => exact fun h => hmti ⟨h.2, h.1⟩
    | SEI => exact hsei
    | SSI => exact absurd rfl hi
    | STI => exact ne_true_of_eq_false hsti
  · intro h
    refine ⟨⟨⟨h .MSI (by decide), ?_⟩, ?_⟩, h .MEI (by decide), h .SEI (by decide)⟩
    · exact fun hp => h .MTI (by decide) ⟨hp.2, hp.1⟩
    · exact eq_false_of_ne_true (h .STI (by decide))

/-! ## The check, path by path -/

theorem onlyMipAndCache_refl (b : PyBoard n) : b.OnlyMipAndCache b := by
  refine ⟨b.csr .mip, b.hart.intStateVersion, b.hart.intCacheVersion, b.hart.intCacheNextTimer, rfl, ?_⟩
  simp only [PyHart.setCsr, csr, Function.update_eq_self, withHart]

/-- `update_hw_mip` touches no bit of software. -/
theorem onlyMipAndCache_synced (b : PyBoard n) (cache : Option IntStateVersion) (timer : Word) :
    b.OnlyMipAndCache ((b.updateHwMip b.hwMip).withHart { (b.updateHwMip b.hwMip).hart with
      intCacheVersion := cache, intCacheNextTimer := timer }) := by
  refine ⟨(b.csr .mip &&& ~~~hwMipMask) ||| b.hwMip, b.hart.intStateVersion.bump, cache, timer, ?_, ?_⟩
  · have hhw : b.hwMip &&& ~~~hwMipMask = 0 := by
      simp only [hwMip, PyClint.checkInterrupt, ExtIntCtrl.getPendingMip]
      split_ifs <;> decide
    have hzero : ∀ w : Word, w ||| 0 = w := fun w => BitVec.or_zero
    rw [BitVec.and_comm, BitVec.and_or_distrib_left, BitVec.and_comm _ b.hwMip, hhw, hzero,
      BitVec.and_comm, BitVec.and_assoc, BitVec.and_self]
  · rw [updateHwMip_eq]
    rfl

theorem check_of_hit (h : b.cacheHit = true) : b.checkPendingInterrupts = (false, b) := by
  rw [checkPendingInterrupts, if_pos h]

theorem check_of_quiet (h : b.cacheHit = false) (hq : ∀ i, i ≠ .SSI → ¬ b.Pending i) :
    b.checkPendingInterrupts = (false, (b.updateHwMip b.hwMip).rememberNothing) := by
  rw [checkPendingInterrupts, if_neg (ne_true_of_eq_false h)]
  exact if_pos (b.quiet_iff.mpr hq)

theorem check_of_pending (h : b.cacheHit = false) (hp : ∃ i, i ≠ .SSI ∧ b.Pending i) :
    b.checkPendingInterrupts = (b.updateHwMip b.hwMip).deliverFirst := by
  rw [checkPendingInterrupts, if_neg (ne_true_of_eq_false h)]
  apply if_neg
  intro hq
  obtain ⟨i, hi, hpi⟩ := hp
  exact b.quiet_iff.mp hq i hi hpi

/-- In M mode with `MIE` clear nothing is deliverable, elsewhere the loop tests for deliverability. -/
theorem taken_synced_iff (hm : b.hart.mode.Standard) (hie : ¬ (b.hart.mode = .M ∧ b.hart.mie = false))
    (i : IntSource) : (b.updateHwMip b.hwMip).taken i = true ↔ b.Deliverable i := by
  have hmode : (b.updateHwMip b.hwMip).hart.mode = b.hart.mode := by rw [updateHwMip_eq]; rfl
  have hsie : (b.updateHwMip b.hwMip).hart.sie = b.hart.sie := by
    have hst := b.csr_updateHwMip b.hwMip (r := .mstatus) (by decide)
    simp only [PyHart.sie]
    rw [show (b.updateHwMip b.hwMip).hart.csrs .mstatus = b.hart.csrs .mstatus from hst]
  have hglobal : (b.updateHwMip b.hwMip).sModeGlobal = b.sModeGlobal := by
    rw [sModeGlobal, sModeGlobal, hmode, hsie]
  have hopen : b.Open i ↔ ¬ (b.Delegated i ∧ b.sModeGlobal = false) := by
    rw [Open, sModeGlobal]
    rcases hm with h | h | h
    · simp [h, Mode.rank]
    · rw [h]
      by_cases hd : b.Delegated i <;> simp [hd, Mode.rank]
    · have hmie : b.hart.mie = true := by
        cases hmie : b.hart.mie with
        | true => rfl
        | false => exact absurd ⟨h, hmie⟩ hie
      simp [h, hmie, Mode.rank]
  rw [taken, enabledPending, hglobal, BitVec.getLsbD_and, getLsbD_synced,
    csr_updateHwMip _ _ (by decide), csr_updateHwMip _ _ (by decide), Deliverable, hopen, Delegated]
  cases (b.csr .mideleg).getLsbD i.code <;> cases b.sModeGlobal <;> simp

/-- Behind the early return the check does what it should. -/
theorem deliverFirst_synced (hm : b.hart.mode.Standard) :
    (b.updateHwMip b.hwMip).deliverFirst =
      match b.first with
      | some i => (true, (b.updateHwMip b.hwMip).deliverTrap i.code 0 true)
      | none => (false, b.updateHwMip b.hwMip) := by
  have hmode : (b.updateHwMip b.hwMip).hart.mode = b.hart.mode := by rw [updateHwMip_eq]; rfl
  have hmie : (b.updateHwMip b.hwMip).hart.mie = b.hart.mie := by
    have hst := b.csr_updateHwMip b.hwMip (r := .mstatus) (by decide)
    simp only [PyHart.mie]
    rw [show (b.updateHwMip b.hwMip).hart.csrs .mstatus = b.hart.csrs .mstatus from hst]
  rw [deliverFirst, hmode, hmie]
  by_cases hie : b.hart.mode = .M ∧ b.hart.mie = false
  · have hfirst : b.first = none := by
      rw [first_eq_none_iff]
      rintro i ⟨-, -, hopen, -⟩
      exact absurd (hopen hie.1).1 (ne_true_of_eq_false hie.2)
    rw [if_pos hie, hfirst]
  · have htaken : IntSource.priority.find? (b.updateHwMip b.hwMip).taken = b.first := by
      rw [first]
      congr 1
      funext i
      rw [← Bool.decide_coe ((b.updateHwMip b.hwMip).taken i)]
      exact decide_eq_decide.mpr (taken_synced_iff hm hie i)
    rw [if_neg hie, htaken]
    by_cases hzero : (b.updateHwMip b.hwMip).csr .mip &&& (b.updateHwMip b.hwMip).csr .mie = 0
    · have hfirst : b.first = none := by
        rw [first_eq_none_iff]
        intro i hi
        have ht := (taken_synced_iff hm hie i).mpr hi
        rw [taken, enabledPending, hzero] at ht
        simp at ht
      rw [if_pos hzero, hfirst]
    · refine (if_neg hzero).trans ?_
      cases b.first <;> rfl

theorem checkRight_of_hit (h : b.cacheHit = true) : b.CheckRight ↔ ∀ i, ¬ b.Deliverable i := by
  rw [← first_eq_none_iff, CheckRight, check_of_hit h]
  cases b.first with
  | none => simp [b.onlyMipAndCache_refl]
  | some i => simp

theorem checkRight_of_quiet (h : b.cacheHit = false) (hq : ∀ i, i ≠ .SSI → ¬ b.Pending i) :
    b.CheckRight ↔ ¬ b.Deliverable .SSI := by
  have hall : (∀ i, ¬ b.Deliverable i) ↔ ¬ b.Deliverable .SSI := by
    constructor
    · exact fun ha => ha .SSI
    · intro hs i
      by_cases hi : i = .SSI
      · rw [hi]
        exact hs
      · exact fun hd => hq i hi hd.1
  rw [← hall, ← first_eq_none_iff, CheckRight, check_of_quiet h hq]
  cases b.first with
  | none => simp [rememberNothing, b.onlyMipAndCache_synced]
  | some i => simp

theorem checkRight_of_pending (hm : b.hart.mode.Standard) (h : b.cacheHit = false)
    (hp : ∃ i, i ≠ .SSI ∧ b.Pending i) : b.CheckRight := by
  have hsync : b.OnlyMipAndCache (b.updateHwMip b.hwMip) := b.onlyMipAndCache_synced _ _
  rw [CheckRight, check_of_pending h hp, deliverFirst_synced hm]
  cases b.first with
  | none => exact ⟨rfl, hsync⟩
  | some i => exact ⟨rfl, _, hsync, rfl⟩

/-! ## The memory of the check -/

/-- No version is ahead of the hart's, and what is remembered under the current one holds. -/
structure Inv (b : PyBoard n) : Prop where
  mode : b.hart.mode.Standard
  past : ∀ v, b.hart.intCacheVersion = some v → v.bumps ≤ b.hart.intStateVersion.bumps
  msip : b.hart.intCacheVersion = some b.hart.intStateVersion → b.clint.msip b.id = false
  timer : b.hart.intCacheVersion = some b.hart.intStateVersion → b.hart.intCacheNextTimer = b.computeNextTimer
  stip : b.hart.intCacheVersion = some b.hart.intStateVersion → b.stimecmp = 0 → (b.csr .mip).getLsbD 5 = false

theorem Inv.moves (h : b.Inv) (m : b.Moves b') : b'.Inv := by
  by_cases hlt : b.hart.intStateVersion.bumps < b'.hart.intStateVersion.bumps
  · have hne : b'.hart.intCacheVersion ≠ some b'.hart.intStateVersion := by
      rw [m.hart.cache]
      intro hc
      exact absurd (h.past _ hc) (not_le.mpr hlt)
    apply Inv.mk
    · exact m.hart.mode h.mode
    · intro v hv
      rw [m.hart.cache] at hv
      exact (h.past v hv).trans hlt.le
    · exact fun hc => absurd hc hne
    · exact fun hc => absurd hc hne
    · exact fun hc => absurd hc hne
  · have hk := m.hart.watched.resolve_left hlt
    obtain ⟨hmsip, hmtimecmp⟩ := m.clint.resolve_left hlt
    have hcache : b'.hart.intCacheVersion = some b'.hart.intStateVersion ↔
        b.hart.intCacheVersion = some b.hart.intStateVersion := by rw [m.hart.cache, hk.version]
    have hnext : b'.computeNextTimer = b.computeNextTimer := by
      have hwake : b'.clint.getNextTimerWakeup b'.id = b.clint.getNextTimerWakeup b.id := by
        rw [PyClint.getNextTimerWakeup, PyClint.getNextTimerWakeup, m.id, hmtimecmp]
      have hmie : b'.csr .mie = b.csr .mie := hk.mie
      have hst : b'.csr .stimecmp = b.csr .stimecmp := hk.stimecmp
      rw [computeNextTimer, hwake, hmie, hst]
      rfl
    have hcmp : b'.stimecmp = b.stimecmp := by simp only [stimecmp, csr, m.hasSstc, hk.stimecmp]
    apply Inv.mk
    · exact m.hart.mode h.mode
    · intro v hv
      rw [m.hart.cache] at hv
      rw [hk.version]
      exact h.past v hv
    · intro hc
      rw [hmsip, m.id]
      exact h.msip (hcache.mp hc)
    · intro hc
      rw [hk.nextTimer, hnext]
      exact h.timer (hcache.mp hc)
    · intro hc h0
      rw [csr, hk.mip]
      exact h.stip (hcache.mp hc) (hcmp ▸ h0)

/-- What the check remembers of a hart without hardware interrupts. -/
theorem inv_rememberNothing (hm : b.hart.mode.Standard) (hq : ∀ i, i ≠ .SSI → ¬ b.Pending i) :
    (b.updateHwMip b.hwMip).rememberNothing.Inv := by
  have hsynced : (b.updateHwMip b.hwMip).hart.mode.Standard := by
    rw [updateHwMip_eq]
    exact hm
  apply Inv.mk
  · exact hsynced
  · rintro v hv
    cases hv
    exact le_rfl
  · intro _
    have hmsip : b.clint.msip b.id = false := eq_false_of_ne_true (hq .MSI (by decide))
    rw [updateHwMip_eq]
    exact hmsip
  · exact fun _ => rfl
  · intro _ _
    have hstip := b.getLsbD_synced .STI
    rw [decide_eq_false (hq .STI (by decide))] at hstip
    exact hstip

theorem Inv.check (h : b.Inv) : b.checkPendingInterrupts.2.Inv := by
  cases hhit : b.cacheHit with
  | true =>
    rw [check_of_hit hhit]
    exact h
  | false =>
    by_cases hq : ∀ i, i ≠ .SSI → ¬ b.Pending i
    · rw [check_of_quiet hhit hq]
      exact inv_rememberNothing h.mode hq
    · have hp : ∃ i, i ≠ .SSI ∧ b.Pending i := by
        by_contra hnone
        exact hq fun i hi hpi => hnone ⟨i, hi, hpi⟩
      have hsynced : (b.updateHwMip b.hwMip).Inv := h.moves (moves_withHart (b.hart.moves_csrWriteRaw _ _))
      rw [check_of_pending hhit hp, deliverFirst_synced h.mode]
      cases b.first with
      | none => exact hsynced
      | some i => exact hsynced.moves (moves_deliverTrap _ _ _ _)

theorem Inv.step (h : b.Inv) (op : PyIntOp) : (b.step op).Inv := by
  by_cases hop : op = .checkPendingInterrupts
  · rw [hop]
    exact h.check
  · exact h.moves (b.moves_step hop)

/-- The next timer is not past the comparator of the CLINT. -/
theorem computeNextTimer_mti (hmie : (b.csr .mie).getLsbD 7 = true) (h0 : 0 < b.clint.mtimecmp b.id) :
    b.computeNextTimer ≠ 0 ∧ b.computeNextTimer ≤ b.clint.mtimecmp b.id := by
  have hwake : b.clint.getNextTimerWakeup b.id = b.clint.mtimecmp b.id := if_pos b.id.isLt
  have hne : b.clint.mtimecmp b.id ≠ 0 := by
    intro he
    rw [he] at h0
    exact absurd h0 (by decide)
  simp only [computeNextTimer, hmie, if_true, hwake]
  split_ifs with hs
  · exact ⟨hs.2.1, BitVec.le_of_lt (hs.2.2.resolve_left hne)⟩
  · exact ⟨hne, BitVec.le_refl _⟩

/-- Nor is it past the comparator of S mode. -/
theorem computeNextTimer_sti (hmie : (b.csr .mie).getLsbD 5 = true) (h0 : b.csr .stimecmp ≠ 0) :
    b.computeNextTimer ≠ 0 ∧ b.computeNextTimer ≤ b.csr .stimecmp := by
  simp only [computeNextTimer, hmie, true_and]
  generalize (if (b.csr .mie).getLsbD 7 = true then b.clint.getNextTimerWakeup b.id else 0) = wakeup
  by_cases hs : b.csr .stimecmp ≠ 0 ∧ (wakeup = 0 ∨ b.csr .stimecmp < wakeup)
  · rw [if_pos hs]
    exact ⟨h0, BitVec.le_refl _⟩
  · rw [if_neg hs]
    rw [not_and, not_or] at hs
    exact ⟨(hs h0).1, BitVec.not_lt.mp (hs h0).2⟩

/-- A time before the next timer. -/
theorem not_le_of_hit (h : b.cacheHit = true) {t : Word} (hne : b.hart.intCacheNextTimer ≠ 0)
    (hle : b.hart.intCacheNextTimer ≤ t) : ¬ t ≤ b.clint.mtime := by
  rw [cacheHit] at h
  cases hc : b.hart.intCacheVersion with
  | none =>
    rw [hc] at h
    exact Bool.noConfusion h
  | some v =>
    rw [hc] at h
    simp only [Bool.and_eq_true, Bool.or_eq_true, decide_eq_true_eq] at h
    have hlt := h.2.resolve_left hne
    rw [BitVec.lt_def] at hlt
    rw [BitVec.le_def] at hle
    rw [BitVec.le_def]
    omega

/-- While the version is the one remembered, the fast path hides neither the CLINT nor a timer. -/
theorem Inv.hit (h : b.Inv) (hhit : b.cacheHit = true) (hc : ¬ b.CameRound) :
    ¬ b.Deliverable .MSI ∧ ¬ b.Deliverable .MTI ∧ ¬ b.Deliverable .STI := by
  have hsame : b.hart.intCacheVersion = some b.hart.intStateVersion := not_not.mp hc
  have htimer := h.timer hsame
  refine ⟨?_, ?_, ?_⟩
  · rintro ⟨hp, -⟩
    have hp : b.clint.msip b.id = true := hp
    rw [h.msip hsame] at hp
    exact absurd hp (by decide)
  · rintro ⟨hp, hmie, -⟩
    obtain ⟨hne, hle⟩ := computeNextTimer_mti hmie hp.1
    rw [← htimer] at hne hle
    exact not_le_of_hit hhit hne hle hp.2
  · rintro ⟨hp, hmie, -⟩
    have hp : b.stiPending = true := hp
    rw [stiPending] at hp
    by_cases h0 : b.stimecmp = 0
    · rw [if_pos h0, h.stip hsame h0] at hp
      exact absurd hp (by decide)
    · rw [if_neg h0] at hp
      have hsstc : b.stimecmp = b.csr .stimecmp := by
        rw [stimecmp] at h0 ⊢
        split_ifs at h0 ⊢
        · rfl
        · exact absurd rfl h0
      rw [hsstc] at h0 hp
      obtain ⟨hne, hle⟩ := computeNextTimer_sti hmie h0
      rw [← htimer] at hne hle
      exact not_le_of_hit hhit hne hle (of_decide_eq_true hp)

theorem checkRight_iff (h : b.Inv) : b.CheckRight ↔ b.Sees := by
  cases hhit : b.cacheHit with
  | true =>
    rw [checkRight_of_hit hhit]
    constructor
    · intro hnone
      exact ⟨fun hs => absurd hs (hnone _), fun _ => ⟨hnone _, hnone _⟩, fun _ _ => hnone⟩
    · intro hsees i hd
      by_cases hc : b.CameRound
      · exact hsees.cameRound hhit hc i hd
      · obtain ⟨hmsi, hmti, hsti⟩ := h.hit hhit hc
        obtain ⟨hmei, hsei⟩ := hsees.external hhit
        cases i with
        | MEI => exact hmei hd
        | MSI => exact hmsi hd
        | MTI => exact hmti hd
        | SEI => exact hsei hd
        | SSI =>
          have hmiss := (hsees.soft hd).1
          rw [hhit] at hmiss
          exact absurd hmiss (by decide)
        | STI => exact hsti hd
  | false =>
    have hno : ¬ b.cacheHit = true := ne_true_of_eq_false hhit
    by_cases hp : ∃ i, i ≠ .SSI ∧ b.Pending i
    · apply iff_of_true (checkRight_of_pending h.mode hhit hp)
      exact ⟨fun _ => ⟨hhit, hp⟩, fun hc => absurd hc hno, fun hc => absurd hc hno⟩
    · have hq : ∀ i, i ≠ .SSI → ¬ b.Pending i := fun i hi hpi => hp ⟨i, hi, hpi⟩
      rw [checkRight_of_quiet hhit hq]
      constructor
      · intro hs
        exact ⟨fun hd => absurd hd hs, fun hc => absurd hc hno, fun hc => absurd hc hno⟩
      · exact fun hsees hd => hp (hsees.soft hd).2

/-! ## Runs -/

/-- A hart that has remembered nothing yet, in a mode of its own. -/
structure Fresh (b : PyBoard n) : Prop where
  mode : b.hart.mode.Standard
  cache : b.hart.intCacheVersion = none

theorem Fresh.inv (h : b.Fresh) : b.Inv := by
  have hne : b.hart.intCacheVersion ≠ some b.hart.intStateVersion := by
    rw [h.cache]
    exact (Option.some_ne_none _).symm
  apply Inv.mk
  · exact h.mode
  · intro v hv
    rw [h.cache] at hv
    exact absurd hv.symm (Option.some_ne_none _)
  · exact fun hc => absurd hc hne
  · exact fun hc => absurd hc hne
  · exact fun hc => absurd hc hne

/-- Along a run every check does what it should exactly when each of them sees what is deliverable. -/
theorem interrupt_check_iff (hb : b.Fresh) (run : List PyIntOp) :
    Run.Along step Right b run ↔ Run.Along step SeesAt b run := by
  apply Run.along_iff_of_step (I := Inv)
  · intro b' op h
    exact forall_congr' fun _ => checkRight_iff h
  · exact fun b' op h _ => h.step op
  · exact hb.inv

/-- One hart with a PLIC, after reset. -/
def legacyReset : PyBoard 1 where
  id := 0
  hasSstc := true
  hart :=
    { mode := .M, pc := 0x80000000, csrs := fun _ => 0, waiting := false, wfiWoken := false, reservationValid := false
      imsicSelectM := 0, imsicSelectS := 0, intStateVersion := ⟨0⟩, intCacheVersion := none, intCacheNextTimer := 0 }
  clint := { msip := fun _ => false, mtimecmp := fun _ => 0, mtime := 0 }
  ext := .plic (Plic.reset 0xC000000 1 2)

theorem fresh_legacyReset : legacyReset.Fresh := ⟨.inr (.inr rfl), rfl⟩

/-- An inter-processor interrupt that arrives after a quiet check is delivered. -/
theorem ipi_after_quiet_check :
    Run.Along step Right legacyReset
      [.csrWrite .mstatus 8, .csrWrite .mie 8, .checkPendingInterrupts, .sendIpi 0, .checkPendingInterrupts] := by
  apply (interrupt_check_iff fresh_legacyReset _).mpr
  refine ⟨fun h => absurd h (by decide), fun h => absurd h (by decide), fun _ => ?_,
    fun h => absurd h (by decide), fun _ => ?_, trivial⟩
  · constructor
    · exact fun h => absurd h (by decide +kernel)
    · exact fun h => absurd h (by decide +kernel)
    · exact fun h => absurd h (by decide +kernel)
  · constructor
    · exact fun h => absurd h (by decide +kernel)
    · exact fun h => absurd h (by decide +kernel)
    · exact fun h => absurd h (by decide +kernel)

/-- A device interrupt that arrives after a quiet check stays hidden, and a software interrupt of S
mode is not delivered on its own. -/
theorem external_after_quiet_check_hidden :
    ¬ Run.Along step Right legacyReset
        [.plicWrite 4 4 1, .plicWrite 0x2000 4 2, .csrWrite .mstatus 8, .csrWrite .mie (bit 11),
          .checkPendingInterrupts, .setIrq 1 true, .checkPendingInterrupts] ∧
      ¬ Run.Along step Right legacyReset
        [.csrWrite .mstatus 8, .csrWrite .mie 2, .csrWrite .mip 2, .checkPendingInterrupts] := by
  constructor
  · rintro ⟨-, -, -, -, -, -, h, -⟩
    exact (checkRight_of_hit (by decide +kernel)).mp (h rfl) .MEI (by decide +kernel)
  · rintro ⟨-, -, -, h, -⟩
    have hquiet := h rfl
    rw [CheckRight, show first _ = some .SSI by decide +kernel] at hquiet
    exact absurd hquiet.1 (by decide +kernel)

end PyBoard

end Pyremu
