import Pyremu.Debug.BoardRest
import Pyremu.PyInterruptRuns
import Pyremu.TlbFence

/-!
# Rollback undoes a step

What the snapshot leaves out is a record of its own, on which an instruction
acts by a few of its calls. The rest is put back: the registers and CSRs from
the snapshot, RAM from the recorded bytes, and the TLBs hold no line that is
neither old nor of the restored tables.
-/

namespace Pyremu.Debug

open ByteMem

/-! ## What a rollback should give back -/

/-- A valid line of a TLB. -/
def Line (d : TlbPy) (e : TlbLine) : Prop := ∃ i, d.entries i = e ∧ e.valid = true

section Statement

variable {n : Nat} (p : PyPlatform)

structure Undone (m m' : PyMachine n) : Prop where
  pc : m'.hart.pc = m.hart.pc
  gprs : m'.gprs = m.gprs
  fprs : m'.fprBits = m.fprBits
  mode : m'.hart.mode = m.hart.mode
  reservationValid : m'.hart.reservationValid = m.hart.reservationValid
  reservationAddr : m'.reservationAddr = m.reservationAddr
  reservationValue : m'.reservationValue = m.reservationValue
  csrs : ∀ r, (m'.board.readCsr r).1 = (m.board.readCsr r).1
  mdid : m'.mdidVal = m.mdidVal
  pmpsplit : m'.pmpsplitVal = m.pmpsplitVal
  mmuMode : m'.mmuMode = m.mmuMode
  pmp : ∀ info, m'.allows p info = m.allows p info
  others : ∀ j ≠ m.board.id, ∀ info, (m'.others j).allows p info = (m.others j).allows p info
  ram : m'.mem = m.mem
  /-- A line of before the step, or what the walk of the restored tables finds. -/
  dtlb : ∀ e, Line m'.dtlb e → Line m.dtlb e ∨ Fencing.Current (m'.env p) m'.mmu e
  itlb : ∀ e, Line m'.itlb e → Line m.itlb e ∨ Fencing.Current (m'.env p) m'.mmu e

/-- The state of the hart and of the other harts that no snapshot has. -/
structure Unsaved (n : Nat) where
  fprBits : BitVec 5 → Word
  mdidVal : Word
  pmpsplitVal : Word
  imsicSelectM : BitVec 32
  imsicSelectS : BitVec 32
  others : Fin n → PmpSide

def PyMachine.unsaved (m : PyMachine n) : Unsaved n :=
  ⟨m.fprBits, m.mdidVal, m.pmpsplitVal, m.hart.imsicSelectM, m.hart.imsicSelectS, m.others⟩

/-- What a call of hart `own` makes of it. -/
def HartOp.left (own : Fin n) (imsic : Bool) (u : Unsaved n) : HartOp → Unsaved n
  | .setFpr rd v => { u with fprBits := Function.update u.fprBits rd v }
  | .csrWrite .miselect v => if imsic then { u with imsicSelectM := v.setWidth 32 } else u
  | .csrWrite .siselect v => if imsic then { u with imsicSelectS := v.setWidth 32 } else u
  | .csrWrite (.other a) v =>
    if a = 0x5C0 then { u with mdidVal := v }
    else if a = 0x5C1 then { u with pmpsplitVal := v }
    else if isPmpAddr a then
      { u with others := fun j => if j = own then u.others j else (u.others j).write a v }
    else u
  | _ => u

def Instr.left (i : Instr) (m : PyMachine n) : Unsaved n :=
  i.ops.foldl (HartOp.left m.board.id (ExtIntCtrl.isImsic m.board.ext)) m.unsaved

/-- `b` with the devices as they are in `b'`. -/
def withDevices (b b' : PyBoard n) : PyBoard n := { b with clint := b'.clint, ext := b'.ext }

/-- The instruction leaves alone what the snapshot does not have. -/
structure Spares (m : PyMachine n) (i : Instr) : Prop where
  /-- The value of a reservation is not saved. -/
  reservation : m.reservationValue = 0 ∧ (m.hart.reservationValid = false → m.reservationAddr = 0)
  fprs : (i.left m).fprBits = m.fprBits
  mdid : (i.left m).mdidVal = m.mdidVal
  pmpsplit : (i.left m).pmpsplitVal = m.pmpsplitVal
  selects : ExtIntCtrl.isImsic m.board.ext = true →
    (i.left m).imsicSelectM = m.hart.imsicSelectM ∧ (i.left m).imsicSelectS = m.hart.imsicSelectS
  others : ∀ j ≠ m.board.id, ∀ info, ((i.left m).others j).allows p info = (m.others j).allows p info
  /-- The devices show the same through the CSRs. -/
  devices : ∀ r, ((withDevices m.board (m.exec p i).board).readCsr r).1 = (m.board.readCsr r).1

/-- The cached views are those of the CSRs. -/
structure PyMachine.Synced (m : PyMachine n) : Prop where
  asid : m.satp &&& ~~~((0xFFFF : Word) <<< 44) = m.satp
  mmu : m.mmuMode = m.satp >>> 60
  cache : ∀ c, m.pmpCache = some c → c = (pmpRegs p m.otherCsrs).rebuildCache
  dtlb : m.dtlb.Indexed
  itlb : m.itlb.Indexed

end Statement

/-! ## Bytes -/

section Bytes

theorem pokeBytes_peekBytes (m : Mem) (a : Nat) (data : List (BitVec 8)) :
    pokeBytes (pokeBytes m a data) a (peekBytes m a data.length) = m := by
  funext i
  simp only [pokeBytes, peekBytes]
  split_ifs with h
  · by_cases hi : i - a < data.length
    · simp [hi, Nat.add_sub_cancel' h]
    · simp [hi]
  · rfl

/-- Undoing a store together with the record of it. -/
theorem undoWrites_append (changes : List MemoryChange) (m : Mem) (pa : Word) (data : List (BitVec 8)) :
    undoWrites (changes ++ [⟨pa, peekBytes m pa.toNat data.length⟩]) (pokeBytes m pa.toNat data) =
      undoWrites changes m := by
  rw [undoWrites, List.reverse_append]
  simp only [List.reverse_cons, List.reverse_nil, List.nil_append, List.singleton_append, List.foldl_cons,
    pokeBytes_peekBytes]
  rfl

end Bytes

/-! ## One call -/

section Calls

variable {n : Nat} {p : PyPlatform} {m m' m₀ : PyMachine n} {o : HartOp}

/-- `satp` and the PMP registers. -/
def PyMachine.ownCsrs (m : PyMachine n) : BitVec 12 → Word := (hartRest m.hart).1

/-- All that a rollback does not set by itself. -/
def PyMachine.core (m : PyMachine n) :=
  (m.ownCsrs, m.mmuMode, m.pmpCache, m.itlb, m.dtlb, m.mem, m.changes, m.unsaved, m.board.id,
    ExtIntCtrl.isImsic m.board.ext)

theorem core_board {b : PyBoard n} (hb : boardRest b = boardRest m.board) : { m with board := b }.core = m.core := by
  simp only [boardRest, hartRest, Prod.mk.injEq] at hb
  obtain ⟨⟨hown, hm, hs⟩, hid, hext⟩ := hb
  simp only [PyMachine.core, PyMachine.ownCsrs, hartRest, PyMachine.unsaved, PyMachine.hart, hown, hm, hs, hid, hext]

theorem core_trapped {b : PyBoard n} (hb : boardRest b = boardRest m.board) : (m.trapped b).core = m.core :=
  core_board hb

theorem core_setHart {h : PyHart} (hh : hartRest h = hartRest m.hart) : (m.setHart h).core = m.core :=
  core_board (boardRest_withHart hh)

theorem core_checkPendingInterrupts : m.checkPendingInterrupts.core = m.core := by
  have hb := boardRest_checkPendingInterrupts (b := m.board)
  rw [PyMachine.checkPendingInterrupts]
  split <;> rename_i heq <;> rw [heq] at hb
  · exact core_trapped hb
  · exact core_board hb

/-- The calls that touch none of it. -/
def HartOp.Quiet : HartOp → Prop
  | .setFpr _ _ | .memWrite _ _ | .sfenceVma _ | .mfenceDid => False
  | .csrWrite .miselect _ | .csrWrite .siselect _ => False
  | .csrWrite (.other a) _ => a ≠ 0x180 ∧ a ≠ 0x5C0 ∧ a ≠ 0x5C1 ∧ isPmpAddr a = false
  | _ => True

theorem core_quiet (hq : o.Quiet) : (m.op o).core = m.core := by
  cases o with
  | setFpr rd v => cases hq
  | memWrite pa data => cases hq
  | sfenceVma rs1 => cases hq
  | mfenceDid => cases hq
  | setPc v => exact core_setHart rfl
  | setGpr rd v => rfl
  | setCsr r v plain => exact core_setHart (hartRest_setCsr plain v)
  | csrRead r => exact core_board (boardRest_readCsr r)
  | setReservation addr v => exact core_setHart rfl
  | clearReservation => exact core_setHart rfl
  | exception excCode tval => exact core_trapped (boardRest_deliverTrap _ _ _)
  | mret =>
    rw [PyMachine.op, PyMachine.trapMret]
    split_ifs
    · exact core_trapped boardRest_trapMret
    · exact core_board boardRest_trapMret
  | sret =>
    rw [PyMachine.op, PyMachine.trapSret]
    split_ifs
    · exact core_trapped boardRest_trapSret
    · exact core_board boardRest_trapSret
  | wfi instr =>
    rw [PyMachine.op, PyMachine.handleWfi]
    split_ifs
    · exact core_trapped (boardRest_deliverTrap _ _ _)
    · exact core_setHart rfl
    · rfl
    · exact core_setHart rfl
  | csrWrite r v =>
    cases r with
    | miselect => cases hq
    | siselect => cases hq
    | other a =>
      obtain ⟨hsatp, hmdid, hsplit, hpmp⟩ := hq
      have hplain : Plain (.other a) := by
        rintro a' ⟨⟩
        rw [ownCsr, hpmp, decide_eq_false hsatp, Bool.or_self]
      simp only [PyMachine.op, PyMachine.writeCsr, if_neg hsatp, if_neg hmdid, if_neg hsplit, hpmp]
      exact core_board (boardRest_writeCsr hplain nofun nofun v)
    | _ => exact core_board (boardRest_writeCsr (by rintro a' ⟨⟩) (by nofun) (by nofun) v)

/-- The hart and whether it has an IMSIC. -/
def PyMachine.place (m : PyMachine n) : Fin n × Bool := (m.board.id, ExtIntCtrl.isImsic m.board.ext)

theorem left_quiet (hq : o.Quiet) (own : Fin n) (imsic : Bool) (u : Unsaved n) : o.left own imsic u = u := by
  cases o with
  | setFpr rd v => cases hq
  | csrWrite r v =>
    cases r with
    | miselect => cases hq
    | siselect => cases hq
    | other a =>
      obtain ⟨-, hmdid, hsplit, hpmp⟩ := hq
      simp only [HartOp.left, if_neg hmdid, if_neg hsplit, hpmp, Bool.false_eq_true, if_false]
    | _ => rfl
  | _ => rfl

theorem unsaved_of_core (hc : m'.core = m.core) : m'.unsaved = m.unsaved ∧ m'.place = m.place := by
  simp only [PyMachine.core, Prod.mk.injEq] at hc
  obtain ⟨-, -, -, -, -, -, -, hu, hid, hext⟩ := hc
  exact ⟨hu, Prod.ext hid hext⟩

theorem op_unsaved (m : PyMachine n) (o : HartOp) :
    (m.op o).unsaved = o.left m.board.id (ExtIntCtrl.isImsic m.board.ext) m.unsaved ∧ (m.op o).place = m.place := by
  by_cases hq : o.Quiet
  · obtain ⟨hu, hplace⟩ := unsaved_of_core (core_quiet (m := m) hq)
    exact ⟨hu.trans (left_quiet hq _ _ _).symm, hplace⟩
  · cases o with
    | setFpr rd v => exact ⟨rfl, rfl⟩
    | memWrite pa data => exact ⟨rfl, rfl⟩
    | sfenceVma rs1 => cases rs1 <;> exact ⟨rfl, rfl⟩
    | mfenceDid => exact ⟨rfl, rfl⟩
    | csrWrite r v =>
      cases r with
      | miselect =>
        have hb := (boardRest_writeSelect (b := m.board) v).1
        simp only [boardRest, hartRest, Prod.mk.injEq] at hb
        obtain ⟨⟨-, hm, hs⟩, hid, hext⟩ := hb
        refine ⟨?_, Prod.ext hid hext⟩
        simp only [PyMachine.op, PyMachine.writeCsr, PyMachine.unsaved, PyMachine.hart, hm, hs, HartOp.left]
        split_ifs <;> rfl
      | siselect =>
        have hb := (boardRest_writeSelect (b := m.board) v).2
        simp only [boardRest, hartRest, Prod.mk.injEq] at hb
        obtain ⟨⟨-, hm, hs⟩, hid, hext⟩ := hb
        refine ⟨?_, Prod.ext hid hext⟩
        simp only [PyMachine.op, PyMachine.writeCsr, PyMachine.unsaved, PyMachine.hart, hm, hs, HartOp.left]
        split_ifs <;> rfl
      | other a =>
        simp only [PyMachine.op, PyMachine.writeCsr, HartOp.left]
        by_cases hsatp : a = 0x180
        · subst hsatp
          exact ⟨rfl, rfl⟩
        · rw [if_neg hsatp]
          by_cases hmdid : a = 0x5C0
          · rw [if_pos hmdid, if_pos hmdid]
            exact ⟨rfl, rfl⟩
          · rw [if_neg hmdid, if_neg hmdid]
            by_cases hsplit : a = 0x5C1
            · rw [if_pos hsplit, if_pos hsplit]
              exact ⟨rfl, rfl⟩
            · rw [if_neg hsplit, if_neg hsplit]
              cases hpmp : isPmpAddr a with
              | true => exact ⟨rfl, rfl⟩
              | false => exact absurd ⟨hsatp, hmdid, hsplit, hpmp⟩ hq
      | _ => exact absurd trivial hq
    | _ => exact absurd trivial hq

theorem ops_unsaved (m : PyMachine n) (ops : List HartOp) :
    (ops.foldl PyMachine.op m).unsaved =
        ops.foldl (HartOp.left m.board.id (ExtIntCtrl.isImsic m.board.ext)) m.unsaved ∧
      (ops.foldl PyMachine.op m).place = m.place := by
  induction ops generalizing m with
  | nil => exact ⟨rfl, rfl⟩
  | cons o ops ih =>
    obtain ⟨hu, hplace⟩ := op_unsaved m o
    obtain ⟨ihu, ihplace⟩ := ih (m.op o)
    simp only [PyMachine.place, Prod.mk.injEq] at hplace
    obtain ⟨hid, hext⟩ := hplace
    refine ⟨?_, ihplace.trans (Prod.ext hid hext)⟩
    rw [List.foldl_cons, ihu, hu, hid, hext]
    rfl

end Calls

/-! ## Cached views -/

section Views

variable {n : Nat} {p : PyPlatform} {m m' : PyMachine n}

theorem satp_of_ownCsrs (h : m'.ownCsrs = m.ownCsrs) : m'.satp = m.satp := congrFun h 0x180

theorem pmpRegs_congr {csrs csrs' : BitVec 12 → Word} (h : ∀ a, isPmpAddr a = true → csrs' a = csrs a) :
    pmpRegs p csrs' = pmpRegs p csrs := by
  have hcfg : ∀ k : Nat, k < 16 ∧ k % 2 = 0 →
      csrs' (BitVec.ofNat 12 (0x3A0 + k)) = csrs (BitVec.ofNat 12 (0x3A0 + k)) := by
    rintro k ⟨hk, -⟩
    apply h
    simp only [isPmpAddr, BitVec.le_def, BitVec.toNat_ofNat, BitVec.reduceToNat, decide_eq_true_eq]
    omega
  have haddr : ∀ i : Nat, i < 64 → csrs' (BitVec.ofNat 12 (0x3B0 + i)) = csrs (BitVec.ofNat 12 (0x3B0 + i)) := by
    intro i hi
    apply h
    simp only [isPmpAddr, BitVec.le_def, BitVec.toNat_ofNat, BitVec.reduceToNat, decide_eq_true_eq]
    omega
  rw [pmpRegs, pmpRegs]
  congr 1
  · funext k
    split_ifs with hk
    · rw [hcfg k hk]
    · rfl
  · funext i
    split_ifs with hi
    · rw [haddr i hi]
    · rfl

theorem pmpRegs_of_ownCsrs (h : m'.ownCsrs = m.ownCsrs) : pmpRegs p m'.otherCsrs = pmpRegs p m.otherCsrs := by
  apply pmpRegs_congr
  intro a ha
  have hown : ownCsr a = true := by simp [ownCsr, ha]
  have hshown := congrFun h a
  simp only [PyMachine.ownCsrs, hartRest, hown, if_true] at hshown
  exact hshown

theorem flushAll_sub {t : TlbPy} (h : t.Indexed) : t.flushAll.Indexed ∧ TlbPy.Sub t t.flushAll := by
  obtain ⟨hi, hnone⟩ := h.flushAll
  refine ⟨hi, fun i hv => ?_⟩
  rw [hnone i] at hv
  cases hv

theorem flush_sub {t : TlbPy} (h : t.Indexed) (vpn : Word) : (t.flush vpn).Indexed ∧ TlbPy.Sub t (t.flush vpn) := by
  obtain ⟨hi, hl⟩ := h.flush vpn
  exact ⟨hi, fun i hv => (hl i hv).1⟩

theorem writeSatp_satp (m : PyMachine n) (v : Word) :
    (m.writeSatp v).satp = v &&& ~~~((0xFFFF : Word) <<< 44) := by
  simp only [PyMachine.writeSatp, PyMachine.satp, PyMachine.setHart, PyMachine.hart, PyBoard.withHart, PyHart.setCsr,
    Function.update_self]

namespace PyMachine.Synced

theorem keep (hs : m.Synced p) (hown : m'.ownCsrs = m.ownCsrs) (hmmu : m'.mmuMode = m.mmuMode)
    (hcache : m'.pmpCache = m.pmpCache) (hd : m'.dtlb.Indexed) (hi : m'.itlb.Indexed) : m'.Synced p := by
  have hsatp := satp_of_ownCsrs hown
  refine ⟨?_, ?_, ?_, hd, hi⟩
  · rw [hsatp, hs.asid]
  · rw [hmmu, hsatp, hs.mmu]
  · rw [hcache, pmpRegs_of_ownCsrs hown]
    exact hs.cache

theorem of_core (hs : m.Synced p) (hc : m'.core = m.core) : m'.Synced p := by
  simp only [PyMachine.core, Prod.mk.injEq] at hc
  obtain ⟨hown, hmmu, hcache, hitlb, hdtlb, -⟩ := hc
  exact hs.keep hown hmmu hcache (hdtlb ▸ hs.dtlb) (hitlb ▸ hs.itlb)

theorem writeSatp (hs : m.Synced p) (v : Word) : (m.writeSatp v).Synced p := by
  refine ⟨?_, ?_, ?_, (flushAll_sub hs.dtlb).1, (flushAll_sub hs.itlb).1⟩
  · rw [writeSatp_satp, BitVec.and_assoc, BitVec.and_self]
  · rw [writeSatp_satp]
    rfl
  · have hregs : pmpRegs p (m.writeSatp v).otherCsrs = pmpRegs p m.otherCsrs := by
      apply pmpRegs_congr
      intro a ha
      refine Function.update_of_ne ?_ _ m.hart.csrs
      rintro ⟨⟩
      cases ha
    rw [hregs]
    exact hs.cache

theorem access (hs : m.Synced p) (a : Access) : (m.access p a).Synced p := by
  refine ⟨hs.asid, hs.mmu, ?_, ?_, hs.itlb⟩
  · intro c hc
    simp only [PyMachine.access] at hc
    split_ifs at hc
    · cases hold : m.pmpCache with
      | none =>
        rw [hold] at hc
        exact (Option.some.inj hc).symm
      | some c' =>
        rw [hold] at hc
        obtain rfl := Option.some.inj hc
        exact hs.cache _ hold
    · exact hs.cache c hc
  · exact (Fencing.translateAddr_lines (m.env p) m.mmu a.va a.isWrite false hs.dtlb).1

theorem op (hs : m.Synced p) (o : HartOp) : (m.op o).Synced p := by
  by_cases hq : o.Quiet
  · exact hs.of_core (core_quiet hq)
  · cases o with
    | setFpr rd v => exact hs.keep rfl rfl rfl hs.dtlb hs.itlb
    | memWrite pa data => exact hs.keep rfl rfl rfl hs.dtlb hs.itlb
    | sfenceVma rs1 =>
      cases rs1 with
      | none => exact hs.keep rfl rfl rfl (flushAll_sub hs.dtlb).1 (flushAll_sub hs.itlb).1
      | some va => exact hs.keep rfl rfl rfl (flush_sub hs.dtlb _).1 (flush_sub hs.itlb _).1
    | mfenceDid => exact hs.keep rfl rfl rfl (hs.dtlb.flushByMdid _).1 (hs.itlb.flushByMdid _).1
    | csrWrite r v =>
      cases r with
      | miselect =>
        have hown := congrArg (·.1.1) (boardRest_writeSelect (b := m.board) v).1
        exact hs.keep hown rfl rfl hs.dtlb hs.itlb
      | siselect =>
        have hown := congrArg (·.1.1) (boardRest_writeSelect (b := m.board) v).2
        exact hs.keep hown rfl rfl hs.dtlb hs.itlb
      | other a =>
        have hset : ownCsr a = false → hartRest (m.hart.setCsr (.other a) v) = hartRest m.hart := by
          intro ha
          apply hartRest_setCsr
          rintro a' ⟨⟩
          exact ha
        simp only [PyMachine.op, PyMachine.writeCsr]
        split_ifs with hsatp hmdid hsplit hpmp
        · exact hs.writeSatp v
        · exact hs.keep (congrArg Prod.fst (hset (by rw [hmdid]; rfl))) rfl rfl hs.dtlb hs.itlb
        · exact hs.keep (congrArg Prod.fst (hset (by rw [hsplit]; rfl))) rfl rfl hs.dtlb hs.itlb
        · -- the arrays are dirty
          have hkept : (m.writePmpCsr a v).satp = m.satp := by
            have hne : satpCsr ≠ .other a := fun h => hsatp (PyCsr.other.inj h).symm
            exact Function.update_of_ne hne v m.hart.csrs
          refine ⟨?_, ?_, nofun, hs.dtlb, hs.itlb⟩
          · rw [hkept, hs.asid]
          · rw [hkept]
            exact hs.mmu
        · exact absurd ⟨hsatp, hmdid, hsplit, eq_false_of_ne_true hpmp⟩ hq
      | _ => exact absurd trivial hq
    | _ => exact absurd trivial hq

theorem accesses (hs : m.Synced p) (accesses : List Access) : (accesses.foldl (PyMachine.access p) m).Synced p :=
  List.foldlRecOn accesses (PyMachine.access p) hs fun _ hm a _ => hm.access a

theorem ops (hs : m.Synced p) (ops : List HartOp) : (ops.foldl PyMachine.op m).Synced p :=
  List.foldlRecOn ops PyMachine.op hs fun _ hm o _ => hm.op o

theorem exec (hs : m.Synced p) (i : Instr) : (m.exec p i).Synced p := by
  have hclean : PyMachine.Synced p { m with changes := [] } := hs.keep rfl rfl rfl hs.dtlb hs.itlb
  exact ((hclean.accesses i.accesses).ops i.ops).of_core core_checkPendingInterrupts

end PyMachine.Synced

/-- The counters are CSRs of their own. -/
theorem core_syncCounters (m : PyMachine n) : m.syncCounters.core = m.core := by
  have hcounter : ∀ {h : PyHart} {a : BitVec 12}, ownCsr a = false → ∀ v,
      hartRest (h.csrWriteRaw (.other a) v) = hartRest h := by
    intro h a ha v
    apply hartRest_csrWriteRaw
    rintro a' ⟨⟩
    exact ha
  apply core_setHart
  rw [hartRest_csrWriteRaw (by rintro a ⟨⟩), hcounter rfl, hcounter rfl, hcounter rfl, hcounter rfl]

/-- Steps keep the views. -/
theorem stepOne_synced (s : Stepper n) (f : Fetched) (hs : s.machine.Synced p) : (stepOne p s f).machine.Synced p := by
  simp only [stepOne]
  split_ifs
  · exact hs
  · exact hs.of_core core_checkPendingInterrupts
  · cases f with
    | fault => exact hs.of_core (core_trapped (boardRest_deliverTrap _ _ _))
    | breakpoint => exact hs
    | instr i =>
      have hexec := hs.exec i
      refine PyMachine.Synced.of_core ?_ (core_syncCounters _)
      exact hexec.keep rfl rfl rfl hexec.dtlb hexec.itlb

end Views

/-! ## A whole instruction -/

section Instructions

variable {n : Nat} {p : PyPlatform} {m m' m₀ : PyMachine n}

/-- What the debugger can still put back when it comes from `m₀`. -/
structure Since (p : PyPlatform) (m₀ m : PyMachine n) : Prop where
  mem : undoWrites m.changes m.mem = m₀.mem
  cache : ∀ c, m.pmpCache = some c → c = (pmpRegs p m₀.otherCsrs).rebuildCache
  dlines : ∀ e, Line m.dtlb e → Line m₀.dtlb e ∨ Fencing.Current (m₀.env p) m₀.mmu e
  ilines : ∀ e, Line m.itlb e → Line m₀.itlb e ∨ Fencing.Current (m₀.env p) m₀.mmu e

theorem Since.of_core (h : Since p m₀ m) (hc : m'.core = m.core) : Since p m₀ m' := by
  simp only [PyMachine.core, Prod.mk.injEq] at hc
  obtain ⟨-, -, hcache, hitlb, hdtlb, hmem, hchanges, -⟩ := hc
  refine ⟨?_, ?_, hdtlb ▸ h.dlines, hitlb ▸ h.ilines⟩
  · rw [hchanges, hmem, h.mem]
  · rw [hcache]
    exact h.cache

theorem Line.of_sub {t t' : TlbPy} {e : TlbLine} (h : Line t' e) (hsub : TlbPy.Sub t t') : Line t e := by
  obtain ⟨i, rfl, hv⟩ := h
  exact ⟨i, (hsub i hv).symm, hv⟩

/-- With TLBs that have lost lines. -/
theorem Since.flush (h : Since p m₀ m) (hmem : m'.mem = m.mem) (hchanges : m'.changes = m.changes)
    (hcache : m'.pmpCache = m.pmpCache) (hdtlb : TlbPy.Sub m.dtlb m'.dtlb) (hitlb : TlbPy.Sub m.itlb m'.itlb) :
    Since p m₀ m' := by
  refine ⟨?_, ?_, fun e he => h.dlines e (he.of_sub hdtlb), fun e he => h.ilines e (he.of_sub hitlb)⟩
  · rw [hmem, hchanges, h.mem]
  · rw [hcache]
    exact h.cache

theorem Since.op (h : Since p m₀ m) (hs : m.Synced p) (o : HartOp) : Since p m₀ (m.op o) := by
  by_cases hq : o.Quiet
  · exact h.of_core (core_quiet hq)
  · cases o with
    | setFpr rd v => exact ⟨h.mem, h.cache, h.dlines, h.ilines⟩
    | memWrite pa data =>
      refine ⟨?_, h.cache, h.dlines, h.ilines⟩
      exact (undoWrites_append m.changes m.mem pa data).trans h.mem
    | sfenceVma rs1 =>
      cases rs1 with
      | none => exact h.flush rfl rfl rfl (flushAll_sub hs.dtlb).2 (flushAll_sub hs.itlb).2
      | some va => exact h.flush rfl rfl rfl (flush_sub hs.dtlb _).2 (flush_sub hs.itlb _).2
    | mfenceDid => exact h.flush rfl rfl rfl (hs.dtlb.flushByMdid _).2 (hs.itlb.flushByMdid _).2
    | csrWrite r v =>
      cases r with
      | miselect => exact h.flush rfl rfl rfl (.refl _) (.refl _)
      | siselect => exact h.flush rfl rfl rfl (.refl _) (.refl _)
      | other a =>
        simp only [PyMachine.op, PyMachine.writeCsr]
        split_ifs with hsatp hmdid hsplit hpmp
        · exact h.flush rfl rfl rfl (flushAll_sub hs.dtlb).2 (flushAll_sub hs.itlb).2
        · exact h.flush rfl rfl rfl (.refl _) (.refl _)
        · exact h.flush rfl rfl rfl (.refl _) (.refl _)
        · exact ⟨h.mem, nofun, h.dlines, h.ilines⟩
        · exact absurd ⟨hsatp, hmdid, hsplit, eq_false_of_ne_true hpmp⟩ hq
      | _ => exact absurd trivial hq
    | _ => exact absurd trivial hq

/-- The accesses of an instruction fill its TLB from the tables of `m`, and the PMP arrays. -/
theorem accesses_since (hs : m.Synced p) (hc : m.changes = []) (accesses : List Access) :
    Since p m (accesses.foldl (PyMachine.access p) m) ∧
      ∃ d c, accesses.foldl (PyMachine.access p) m = { m with dtlb := d, pmpCache := c } := by
  have hfold : ∀ m' : PyMachine n, m'.Synced p → Since p m m' → (∃ d c, m' = { m with dtlb := d, pmpCache := c }) →
      Since p m (accesses.foldl (PyMachine.access p) m') ∧
        ∃ d c, accesses.foldl (PyMachine.access p) m' = { m with dtlb := d, pmpCache := c } := by
    induction accesses with
    | nil => exact fun m' _ h he => ⟨h, he⟩
    | cons a accesses ih =>
      rintro m' hm' h ⟨d, c, rfl⟩
      refine ih _ (hm'.access a) ?_ ⟨_, _, rfl⟩
      obtain ⟨-, hl⟩ := Fencing.translateAddr_lines (PyMachine.env p { m with dtlb := d, pmpCache := c })
        (PyMachine.mmu { m with dtlb := d, pmpCache := c }) a.va a.isWrite false hm'.dtlb
      refine ⟨h.mem, (hm'.access a).cache, ?_, h.ilines⟩
      rintro e ⟨i, rfl, hv⟩
      rcases hl i hv with hold | hcur
      · exact h.dlines _ ⟨i, hold.symm, hv⟩
      · exact .inr hcur
  exact hfold m hs ⟨by rw [hc]; rfl, hs.cache, fun e he => .inl he, fun e he => .inl he⟩ ⟨m.dtlb, m.pmpCache, rfl⟩

theorem Since.ops (h : Since p m₀ m) (hs : m.Synced p) (ops : List HartOp) : Since p m₀ (ops.foldl PyMachine.op m) := by
  induction ops generalizing m with
  | nil => exact h
  | cons o ops ih => exact ih (h.op hs o) (hs.op o)

theorem exec_since (hs : m.Synced p) (i : Instr) : Since p m (m.exec p i) := by
  have hclean : PyMachine.Synced p { m with changes := [] } := hs.keep rfl rfl rfl hs.dtlb hs.itlb
  have h := ((accesses_since hclean rfl i.accesses).1.ops (hclean.accesses _) i.ops).of_core
    core_checkPendingInterrupts
  exact ⟨h.mem, h.cache, h.dlines, h.ilines⟩

/-- An instruction acts on what is not saved by its calls alone. -/
theorem exec_unsaved (hs : m.Synced p) (i : Instr) :
    (m.exec p i).unsaved = i.left m ∧ (m.exec p i).place = m.place := by
  have hclean : PyMachine.Synced p { m with changes := [] } := hs.keep rfl rfl rfl hs.dtlb hs.itlb
  obtain ⟨-, d, c, he⟩ := accesses_since hclean rfl i.accesses
  have hops := ops_unsaved (i.accesses.foldl (PyMachine.access p) { m with changes := [] }) i.ops
  rw [he] at hops
  rw [PyMachine.exec, he]
  obtain ⟨hu, hplace⟩ := unsaved_of_core (core_checkPendingInterrupts
    (m := i.ops.foldl PyMachine.op { { m with changes := [] } with dtlb := d, pmpCache := c }))
  exact ⟨hu.trans hops.1, hplace.trans hops.2⟩

/-- Restoring the CSRs takes the MMU mode along and takes lines from the TLBs, no more. -/
theorem restoreCsrs_eq {c : PyCsr → Word} (hasid : c satpCsr &&& ~~~((0xFFFF : Word) <<< 44) = c satpCsr)
    (hmmu : m.mmuMode = m.satp >>> 60) (hd : m.dtlb.Indexed) (hi : m.itlb.Indexed) :
    ∃ it dt, restoreCsrs m c = { m with
        board := m.board.withHart { m.hart with csrs := c }
        mmuMode := c satpCsr >>> 60
        itlb := it
        dtlb := dt } ∧ (it.Indexed ∧ TlbPy.Sub m.itlb it) ∧ dt.Indexed ∧ TlbPy.Sub m.dtlb dt := by
  by_cases hsatp : m.satp = c satpCsr
  · have hc : (fun r => if r = satpCsr then m.satp else c r) = c := by
      funext r
      split_ifs with hr
      · rw [hr, hsatp]
      · rfl
    refine ⟨m.itlb, m.dtlb, ?_, ⟨hi, .refl _⟩, hd, .refl _⟩
    rw [restoreCsrs, if_neg (not_not_intro hsatp), hc, ← hsatp, ← hmmu]
    rfl
  · have hc : (fun r => if r = satpCsr then (m.writeSatp (c satpCsr)).satp else c r) = c := by
      funext r
      split_ifs with hr
      · rw [hr, writeSatp_satp, hasid]
      · rfl
    refine ⟨m.itlb.flushAll, m.dtlb.flushAll, ?_, flushAll_sub hi, flushAll_sub hd⟩
    rw [restoreCsrs, if_pos hsatp]
    rw [hc, PyMachine.writeSatp]
    dsimp only
    rw [hasid]
    rfl

end Instructions

/-! ## What the CSRs show -/

section Csrs

variable {n : Nat} {b b' : PyBoard n}

/-- A CSR read looks at the CSRs, at the selectors where there is an IMSIC, and at the devices. -/
theorem readCsr_congr (hid : b'.id = b.id) (hcsrs : b'.hart.csrs = b.hart.csrs)
    (hdev : deviceRest b' = deviceRest b) (hsel : ExtIntCtrl.isImsic b.ext = true →
      b'.hart.imsicSelectM = b.hart.imsicSelectM ∧ b'.hart.imsicSelectS = b.hart.imsicSelectS) (r : PyCsr) :
    (b'.readCsr r).1 = (b.readCsr r).1 := by
  have hcsr : ∀ r, b'.csr r = b.csr r := fun r => congrFun hcsrs r
  simp only [deviceRest, Prod.mk.injEq] at hdev
  obtain ⟨hmtime, hcmp, hext⟩ := hdev
  have hget : ∀ j, b'.clint.getMtimecmp j = b.clint.getMtimecmp j := by
    intro j
    rw [PyClint.getMtimecmp, PyClint.getMtimecmp, hcmp]
  cases hb : b.ext with
  | plic p => cases r <;> simp only [PyBoard.readCsr, hext, hb, hcsr, hmtime]
  | imsic files =>
    obtain ⟨hm, hs⟩ := hsel (by rw [hb]; rfl)
    have hpend : ∀ code, b'.enabledPending code = b.enabledPending code := by
      intro code
      rw [PyBoard.enabledPending, PyBoard.enabledPending, hcsr, hcsr]
    have hmtopi : ∀ f, (b'.readMtopi f).1 = (b.readMtopi f).1 := by
      intro f
      simp only [PyBoard.readMtopi, apply_ite Prod.fst]
      simp only [hpend, hcsr, hmtime, hget, hid]
    have hstopi : ∀ f, (b'.readStopi f).1 = (b.readStopi f).1 := by
      intro f
      simp only [PyBoard.readStopi, apply_ite Prod.fst]
      simp only [hpend, hcsr, hmtime]
    cases r <;>
      simp only [PyBoard.readCsr, PyBoard.readCsrImsic, PyBoard.readTopei, hext, hb, hcsr, hmtime, hid, hm, hs, hmtopi,
        hstopi]

/-- With the CSRs back, they show the same when the selectors and the devices do. -/
theorem csrs_shown_iff (hid : b'.id = b.id) (hcsrs : b'.hart.csrs = b.hart.csrs)
    (hkind : ExtIntCtrl.isImsic b'.ext = ExtIntCtrl.isImsic b.ext) :
    (∀ r, (b'.readCsr r).1 = (b.readCsr r).1) ↔
      (ExtIntCtrl.isImsic b.ext = true →
        b'.hart.imsicSelectM = b.hart.imsicSelectM ∧ b'.hart.imsicSelectS = b.hart.imsicSelectS) ∧
      ∀ r, ((withDevices b b').readCsr r).1 = (b.readCsr r).1 := by
  have hsame : (ExtIntCtrl.isImsic b.ext = true →
      b'.hart.imsicSelectM = b.hart.imsicSelectM ∧ b'.hart.imsicSelectS = b.hart.imsicSelectS) →
      ∀ r, (b'.readCsr r).1 = ((withDevices b b').readCsr r).1 := by
    intro hsel r
    exact readCsr_congr (b := withDevices b b') hid hcsrs rfl (fun h => hsel (hkind ▸ h)) r
  constructor
  · intro h
    have hwide : ∀ {x y : BitVec 32}, x.setWidth 64 = y.setWidth 64 → x = y := by
      intro x y hxy
      simpa using congrArg (BitVec.setWidth 32) hxy
    have hsel : ExtIntCtrl.isImsic b.ext = true →
        b'.hart.imsicSelectM = b.hart.imsicSelectM ∧ b'.hart.imsicSelectS = b.hart.imsicSelectS := by
      intro hi
      cases hb : b.ext with
      | plic p =>
        rw [hb] at hi
        cases hi
      | imsic files =>
        cases hb' : b'.ext with
        | plic p =>
          rw [hb, hb'] at hkind
          cases hkind
        | imsic files' =>
          have hm := h .miselect
          have hs := h .siselect
          simp only [PyBoard.readCsr, PyBoard.readCsrImsic, hb, hb'] at hm hs
          exact ⟨hwide hm, hwide hs⟩
    exact ⟨hsel, fun r => (hsame hsel r).symm.trans (h r)⟩
  · rintro ⟨hsel, hdev⟩ r
    rw [hsame hsel r, hdev r]

/-- What changes no device but by traps. -/
def HartOp.SparesDevices : HartOp → Prop
  | .csrRead r => claimsOnRead r = false
  | .csrWrite r _ => writesFile r = false
  | _ => True

variable {p : PyPlatform} {m : PyMachine n}

theorem op_devices (hd : Delivers m.board) {o : HartOp} (ho : ExtIntCtrl.isImsic m.board.ext = true → o.SparesDevices) :
    deviceRest (m.op o).board = deviceRest m.board := by
  cases o with
  | csrRead r => exact deviceRest_readCsr ho
  | csrWrite r v =>
    cases r with
    | other a =>
      simp only [PyMachine.op, PyMachine.writeCsr]
      split_ifs
      · rfl
      · rfl
      · rfl
      · rfl
      · exact deviceRest_writeCsr ho v
    | _ => exact deviceRest_writeCsr ho v
  | exception excCode tval => exact deviceRest_deliverTrap hd _ _ _
  | mret =>
    rw [PyMachine.op, PyMachine.trapMret]
    split_ifs <;> exact deviceRest_trapMret hd
  | sret =>
    rw [PyMachine.op, PyMachine.trapSret]
    split_ifs <;> exact deviceRest_trapSret hd
  | wfi instr =>
    rw [PyMachine.op, PyMachine.handleWfi]
    split_ifs
    · exact deviceRest_deliverTrap hd _ _ _
    · rfl
    · rfl
    · rfl
  | sfenceVma rs1 => cases rs1 <;> rfl
  | _ => rfl

theorem ops_devices (hd : Delivers m.board) (ops : List HartOp)
    (ho : ExtIntCtrl.isImsic m.board.ext = true → ∀ o ∈ ops, o.SparesDevices) :
    deviceRest (ops.foldl PyMachine.op m).board = deviceRest m.board := by
  induction ops generalizing m with
  | nil => rfl
  | cons o ops ih =>
    have hop := op_devices hd (o := o) (fun h => ho h o List.mem_cons_self)
    have hext : (m.op o).board.ext = m.board.ext := congrArg (·.2.2) hop
    have hid : (m.op o).board.id = m.board.id := congrArg Prod.fst (op_unsaved m o).2
    refine (ih (hd.congr hid hext) ?_).trans hop
    rw [hext]
    exact fun h o' ho' => ho h o' (List.mem_cons_of_mem _ ho')

/-- The devices show the same after an instruction without CSRs of the IMSIC, unless a trap takes a pending bit. -/
theorem exec_devices (hs : m.Synced p) {i : Instr} (hd : Delivers m.board)
    (ho : ExtIntCtrl.isImsic m.board.ext = true → ∀ o ∈ i.ops, o.SparesDevices) (r : PyCsr) :
    ((withDevices m.board (m.exec p i).board).readCsr r).1 = (m.board.readCsr r).1 := by
  have hclean : PyMachine.Synced p { m with changes := [] } := hs.keep rfl rfl rfl hs.dtlb hs.itlb
  obtain ⟨-, d, c, he⟩ := accesses_since hclean rfl i.accesses
  have hops := ops_devices (m := { { m with changes := [] } with dtlb := d, pmpCache := c }) hd i.ops ho
  have hid := congrArg Prod.fst (ops_unsaved { { m with changes := [] } with dtlb := d, pmpCache := c } i.ops).2
  have hexec : deviceRest (withDevices m.board (m.exec p i).board) = deviceRest m.board := by
    change deviceRest (m.exec p i).board = deviceRest m.board
    rw [PyMachine.exec, he]
    generalize i.ops.foldl PyMachine.op { { m with changes := [] } with dtlb := d, pmpCache := c } = m' at hops hid
    have hcheck := deviceRest_checkPendingInterrupts (hd.congr hid (congrArg (·.2.2) hops))
    rw [← hops, ← hcheck, PyMachine.checkPendingInterrupts]
    split
    · rename_i heq
      rw [heq]
      rfl
    · rename_i heq
      rw [heq]
  refine readCsr_congr ?_ ?_ hexec ?_ r
  · rfl
  · rfl
  · exact fun _ => ⟨rfl, rfl⟩

end Csrs

/-! ## The rollback -/

section Rollback

variable {n : Nat} {p : PyPlatform} {m : PyMachine n}

/-- What a rollback of an executed instruction makes of the machine. -/
structure Restored (p : PyPlatform) (m m' : PyMachine n) (i : Instr) : Prop where
  pc : m'.hart.pc = m.hart.pc
  gprs : m'.gprs = m.gprs
  csrs : m'.hart.csrs = m.hart.csrs
  mode : m'.hart.mode = m.hart.mode
  valid : m'.hart.reservationValid = m.hart.reservationValid
  addr : m'.reservationAddr = if m.hart.reservationValid then m.reservationAddr else 0
  value : m'.reservationValue = 0
  mmuMode : m'.mmuMode = m.mmuMode
  unsaved : m'.unsaved = i.left m
  place : m'.place = m.place
  devices : withDevices m.board m'.board = withDevices m.board (m.exec p i).board
  cache : ∀ c, m'.pmpCache = some c → c = (pmpRegs p m.otherCsrs).rebuildCache
  ram : m'.mem = m.mem
  dtlb : m'.dtlb.Indexed
  itlb : m'.itlb.Indexed
  dlines : ∀ e, Line m'.dtlb e → Line m.dtlb e ∨ Fencing.Current (m.env p) m.mmu e
  ilines : ∀ e, Line m'.itlb e → Line m.itlb e ∨ Fencing.Current (m.env p) m.mmu e

theorem restoreSnapshot_eq (snap : HartSnapshot)
    (hasid : snap.csrVals satpCsr &&& ~~~((0xFFFF : Word) <<< 44) = snap.csrVals satpCsr)
    (hmmu : m.mmuMode = m.satp >>> 60) (hd : m.dtlb.Indexed) (hi : m.itlb.Indexed) :
    ∃ it dt, restoreSnapshot m snap = { m with
        board := m.board.withHart { m.hart with
          pc := snap.pc
          csrs := snap.csrVals
          mode := snap.mode
          reservationValid := snap.reservationValid }
        gprs := snap.gprVals
        mmuMode := snap.csrVals satpCsr >>> 60
        reservationAddr := if snap.reservationValid then snap.reservationAddr else 0
        reservationValue := 0
        itlb := it
        dtlb := dt } ∧ (it.Indexed ∧ TlbPy.Sub m.itlb it) ∧ dt.Indexed ∧ TlbPy.Sub m.dtlb dt := by
  obtain ⟨it, dt, he, hit, hdt⟩ := restoreCsrs_eq
    (m := { m.setHart { m.hart with pc := snap.pc } with gprs := snap.gprVals }) hasid hmmu hd hi
  refine ⟨it, dt, ?_, hit, hdt⟩
  simp only [restoreSnapshot, he]
  cases hv : snap.reservationValid <;> rfl

theorem rollback_restores (s : Stepper n) (i : Instr) (hs : s.machine.Synced p) (hh : s.machine.halted = false)
    (hw : s.machine.hart.waiting = false) :
    Restored p s.machine (rollback (stepOne p s (.instr i))).machine i := by
  obtain ⟨m, snapshot, memChanges⟩ := s
  dsimp only at hs hh hw
  have hsince : Since p m { m.exec p i with totalInstrs := (m.exec p i).totalInstrs + 1 }.syncCounters :=
    (exec_since hs i).of_core (core_syncCounters _)
  have hsynced := stepOne_synced ⟨m, snapshot, memChanges⟩ (.instr i) hs
  obtain ⟨hu, hplace⟩ := exec_unsaved hs i
  simp only [stepOne, hh, hw, Bool.false_eq_true, if_false, rollback] at hsynced ⊢
  generalize hy : { m.exec p i with totalInstrs := (m.exec p i).totalInstrs + 1 }.syncCounters = y at hsince hsynced
  have hyu : y.unsaved = i.left m := by
    rw [← hu, ← hy]
    exact (unsaved_of_core (core_syncCounters _)).1
  have hyplace : y.place = m.place := by
    rw [← hplace, ← hy]
    rfl
  have hydev : withDevices m.board y.board = withDevices m.board (m.exec p i).board := by
    rw [← hy]
    rfl
  obtain ⟨it, dt, he, ⟨hiti, hit⟩, hdti, hdt⟩ := restoreSnapshot_eq
    (m := { y with mem := undoWrites y.changes y.mem }) (saveSnapshot m) hs.asid hsynced.mmu hsynced.dtlb hsynced.itlb
  rw [he]
  constructor
  case pc => rfl
  case gprs => rfl
  case csrs => rfl
  case mode => rfl
  case valid => rfl
  case addr => rfl
  case value => rfl
  case mmuMode => exact hs.mmu.symm
  case unsaved => exact hyu
  case place => exact hyplace
  case devices => exact hydev
  case cache => exact hsince.cache
  case ram => exact hsince.mem
  case dtlb => exact hdti
  case itlb => exact hiti
  case dlines => exact fun e h => hsince.dlines e (h.of_sub hdt)
  case ilines => exact fun e h => hsince.ilines e (h.of_sub hit)

theorem pmpAllows_cache {csrs : BitVec 12 → Word} {cache : Option PmpCtx}
    (hc : ∀ c, cache = some c → c = (pmpRegs p csrs).rebuildCache) (mdid pmpsplit : Word) (info : PmpAccessInfo) :
    pmpAllows p csrs cache mdid pmpsplit info = pmpAllows p csrs none mdid pmpsplit info := by
  cases cache with
  | none => rfl
  | some c => rw [hc c rfl, pmpAllows, pmpAllows]; rfl

/-- A rollback undoes the instruction exactly when this leaves alone what the snapshot does not have. -/
theorem rollback_undoes_iff (s : Stepper n) (i : Instr) (hs : s.machine.Synced p) (hh : s.machine.halted = false)
    (hw : s.machine.hart.waiting = false) :
    Undone p s.machine (rollback (stepOne p s (.instr i))).machine ↔ Spares p s.machine i := by
  have h := rollback_restores s i hs hh hw
  generalize (rollback (stepOne p s (.instr i))).machine = m' at h
  obtain ⟨m, snapshot, memChanges⟩ := s
  dsimp only at hs hh hw h ⊢
  have hplace := h.place
  simp only [PyMachine.place, Prod.mk.injEq] at hplace
  obtain ⟨hid, hkind⟩ := hplace
  have hshown := csrs_shown_iff hid h.csrs hkind
  rw [h.devices] at hshown
  have hu := h.unsaved
  have hfprs : m'.fprBits = (i.left m).fprBits := congrArg Unsaved.fprBits hu
  have hmdid : m'.mdidVal = (i.left m).mdidVal := congrArg Unsaved.mdidVal hu
  have hsplit : m'.pmpsplitVal = (i.left m).pmpsplitVal := congrArg Unsaved.pmpsplitVal hu
  have hselm : m'.board.hart.imsicSelectM = (i.left m).imsicSelectM := congrArg Unsaved.imsicSelectM hu
  have hsels : m'.board.hart.imsicSelectS = (i.left m).imsicSelectS := congrArg Unsaved.imsicSelectS hu
  have hothers : m'.others = (i.left m).others := congrArg Unsaved.others hu
  rw [hselm, hsels] at hshown
  constructor
  · intro hundone
    obtain ⟨hselects, hdevices⟩ := hshown.mp hundone.csrs
    refine ⟨?_, hfprs.symm.trans hundone.fprs, hmdid.symm.trans hundone.mdid, hsplit.symm.trans hundone.pmpsplit,
      hselects, ?_, hdevices⟩
    · have hvalue := h.value.symm.trans hundone.reservationValue
      refine ⟨hvalue.symm, fun hv => ?_⟩
      have haddr := h.addr.symm.trans hundone.reservationAddr
      rw [hv] at haddr
      exact haddr.symm
    · rw [← hothers]
      exact hundone.others
  · intro hspares
    have hmdid' := hmdid.trans hspares.mdid
    have hsplit' := hsplit.trans hspares.pmpsplit
    have hcsrs : m'.otherCsrs = m.otherCsrs := funext fun a => congrFun h.csrs (.other a)
    have hsatp : m'.satp = m.satp := congrFun h.csrs satpCsr
    have hwalk : ∀ va, Fencing.walkOf (m'.env p) m'.mmu va = Fencing.walkOf (m.env p) m.mmu va := by
      intro va
      simp only [Fencing.walkOf, PyMachine.env, PyMachine.mmu, hsatp, MmuHart.readPte, h.ram]
    have hcurrent : ∀ e, Fencing.Current (m.env p) m.mmu e → Fencing.Current (m'.env p) m'.mmu e := by
      intro e he va hva
      rw [hwalk]
      exact he va hva
    constructor
    case pc => exact h.pc
    case gprs => exact h.gprs
    case fprs => exact hfprs.trans hspares.fprs
    case mode => exact h.mode
    case reservationValid => exact h.valid
    case reservationAddr =>
      rw [h.addr]
      split_ifs with hv
      · rfl
      · exact (hspares.reservation.2 (eq_false_of_ne_true hv)).symm
    case reservationValue => exact h.value.trans hspares.reservation.1.symm
    case csrs => exact hshown.mpr ⟨hspares.selects, hspares.devices⟩
    case mdid => exact hmdid'
    case pmpsplit => exact hsplit'
    case mmuMode => exact h.mmuMode
    case pmp =>
      intro info
      rw [PyMachine.allows, PyMachine.allows, hmdid', hsplit', hcsrs, pmpAllows_cache h.cache, pmpAllows_cache hs.cache]
    case others =>
      rw [hothers]
      exact hspares.others
    case ram => exact h.ram
    case dtlb => exact fun e he => (h.dlines e he).imp_right (hcurrent e)
    case itlb => exact fun e he => (h.ilines e he).imp_right (hcurrent e)

/-- One hart with a PLIC, at reset. -/
def atReset : PyMachine 1 where
  board := PyBoard.legacyReset
  halted := false
  gprs := fun _ => 0
  fprBits := fun _ => 0
  reservationAddr := 0
  reservationValue := 0
  mmuMode := 0
  mdidVal := 0
  pmpsplitVal := 0
  totalInstrs := 0
  itlb := TlbPy.init false 64
  dtlb := TlbPy.init false 64
  pmpCache := none
  others := fun _ => ⟨fun _ => 0, none, 0, 0⟩
  mem := fun _ => 0
  changes := []

def pythonPlatform : PyPlatform := ⟨false, false, 16, by decide, fun _ => false⟩

theorem atReset_synced : atReset.Synced pythonPlatform :=
  ⟨by decide, by decide, nofun, TlbPy.indexed_init _ _, TlbPy.indexed_init _ _⟩

theorem atReset_delivers : Delivers atReset.board := nofun

/-- A store is undone. -/
theorem store_undone :
    Undone pythonPlatform atReset
      (rollback (stepOne pythonPlatform ⟨atReset, none, []⟩
        (.instr (handleSt atReset 0x80001000 0x80001000 [1, 2])))).machine := by
  apply (rollback_undoes_iff ⟨atReset, none, []⟩ _ atReset_synced rfl rfl).mpr
  refine ⟨⟨rfl, fun _ => rfl⟩, rfl, rfl, rfl, nofun, ?_, exec_devices atReset_synced atReset_delivers nofun⟩
  rintro j hj
  exact absurd (Subsingleton.elim j _) hj

/-- `csrrwi x0, mdid, 1` is not. -/
theorem mdid_write_not_undone :
    ¬ Undone pythonPlatform atReset
      (rollback (stepOne pythonPlatform ⟨atReset, none, []⟩
        (.instr (sysCsr atReset (.other 0x5C0) 0 true fun _ => 1)))).machine := by
  intro h
  have hmdid := h.mdid
  exact absurd hmdid (by decide +kernel)

end Rollback

end Pyremu.Debug
