import Pyremu.WalkAgree
import Pyremu.Lib.Sv39

/-!
# The walk and the architecture

What the native walk grants beside what the architecture grants. The walk does
not look at the upper bits of the address, cuts the root to 36 bits, and takes
entries that are writable without being readable and 2 MiB leaves that are not
aligned.
-/

namespace Pyremu

open ByteMem

/-! ## Entries -/

namespace PteSpec

variable (raw : Word)

theorem getLsbD_flag {m : Word} {k : Nat} (hm : m = BitVec.twoPow 64 k) (hk : k < 64) :
    decide (raw &&& m ≠ 0) = raw.getLsbD k := by
  subst hm
  have h := BitFields.and_twoPow_eq_zero (x := raw) hk
  cases hb : raw.getLsbD k with
  | false => exact decide_eq_false (not_not.mpr (h.mpr hb))
  | true =>
    apply decide_eq_true
    intro hz
    rw [h.mp hz] at hb
    cases hb

theorem r_eq : PtePy.r raw = Sv39.readable raw := getLsbD_flag raw (by decide) (by decide)

theorem x_eq : PtePy.x raw = Sv39.executable raw := getLsbD_flag raw (by decide) (by decide)

theorem v_eq : PtePy.v raw = Sv39.valid raw := getLsbD_flag raw (by decide) (by decide)

theorem isLeaf_eq : (pteParse raw).isLeaf = (Sv39.valid raw && (Sv39.readable raw || Sv39.executable raw)) := by
  rw [← PtePy.leaf_eq, v_eq, r_eq, x_eq]

theorem isPtr_eq : (pteParse raw).isPtr = (Sv39.valid raw && !(Sv39.readable raw || Sv39.executable raw)) := by
  rw [← PtePy.ptr_eq, v_eq, r_eq, x_eq]

theorem perm_getLsbD {k : Nat} (hk : k = 1 ∨ k = 2 ∨ k = 3 ∨ k = 4) : (pteParse raw).perm.getLsbD k = raw.getLsbD k := by
  change ((raw &&& (Pte.R ||| Pte.W ||| Pte.X ||| Pte.U)).setWidth 8).getLsbD k = raw.getLsbD k
  rw [BitVec.getLsbD_setWidth, BitVec.getLsbD_and]
  rcases hk with rfl | rfl | rfl | rfl
  · simp [Pte.R, Pte.W, Pte.X, Pte.U]
  · simp [Pte.R, Pte.W, Pte.X, Pte.U]
  · simp [Pte.R, Pte.W, Pte.X, Pte.U]
  · simp [Pte.R, Pte.W, Pte.X, Pte.U]

theorem ppn_eq : (pteParse raw).ppn = (Sv39.ppn raw).setWidth 64 := by
  have h44 : ∀ i < 64, (0xFFFFFFFFFFF : Word).getLsbD i = decide (i < 44) := by decide
  change (raw >>> 10) &&& 0xFFFFFFFFFFF = _
  apply BitVec.eq_of_getLsbD_eq
  intro i hi
  rw [BitVec.getLsbD_and, BitVec.getLsbD_ushiftRight, h44 i hi, BitVec.getLsbD_setWidth, Sv39.ppn,
    BitVec.getLsbD_extractLsb', decide_eq_true hi, Bool.true_and, Bool.and_comm]

/-- The entry is not writable without being readable. -/
def WritesRead (raw : Word) : Prop := Sv39.writable raw = true → Sv39.readable raw = true

instance (raw : Word) : Decidable (WritesRead raw) :=
  inferInstanceAs (Decidable (Sv39.writable raw = true → Sv39.readable raw = true))

theorem leaf_iff : Sv39.Leaf raw ↔ (pteParse raw).isLeaf = true ∧ WritesRead raw := by
  rw [isLeaf_eq, Bool.and_eq_true, Bool.or_eq_true]
  constructor
  · intro h
    exact ⟨⟨h.valid, h.page⟩, h.readable_of_writable⟩
  · rintro ⟨⟨hv, hp⟩, hw⟩
    exact ⟨hv, hp, hw⟩

theorem pointer_iff : Sv39.Pointer raw ↔ (pteParse raw).isPtr = true ∧ WritesRead raw := by
  rw [isPtr_eq, Bool.and_eq_true, Bool.not_eq_true', Bool.or_eq_false_iff]
  constructor
  · intro h
    refine ⟨⟨h.valid, h.not_readable, h.not_executable⟩, ?_⟩
    intro hw
    rw [h.not_writable] at hw
    cases hw
  · rintro ⟨⟨hv, hr, hx⟩, hw⟩
    refine ⟨hv, hr, ?_, hx⟩
    cases hwr : Sv39.writable raw with
    | false => rfl
    | true => exact absurd (hw hwr) (by rw [hr]; decide)

end PteSpec

open PteSpec

def Rwx.access : Rwx → Sv39.Access
  | .read => .load
  | .write => .store
  | .exec => .fetch

/-- The modes under which addresses are translated. -/
def privMode : Sv39.Privilege → Mode
  | .user => .U
  | .supervisor => .S

theorem checkPtePerm_permits {raw : Word} (hw : WritesRead raw) (priv : Sv39.Privilege) (mstatus : Word) (rwx : Rwx) :
    checkPtePerm (pteParse raw).perm (privMode priv) mstatus (hasWrite rwx) (hasExec rwx) =
      Sv39.permits priv (sum mstatus) (mxr mstatus) rwx.access raw := by
  have h1 : (pteParse raw).perm.getLsbD 1 = Sv39.readable raw := perm_getLsbD raw (by decide)
  have h2 : (pteParse raw).perm.getLsbD 2 = Sv39.writable raw := perm_getLsbD raw (by decide)
  have h3 : (pteParse raw).perm.getLsbD 3 = Sv39.executable raw := perm_getLsbD raw (by decide)
  have h4 : (pteParse raw).perm.getLsbD 4 = Sv39.user raw := perm_getLsbD raw (by decide)
  simp only [checkPtePerm, Sv39.permits, h1, h2, h3, h4]
  simp only [WritesRead] at hw
  generalize Sv39.readable raw = r at hw ⊢
  generalize Sv39.writable raw = w at hw ⊢
  generalize Sv39.executable raw = x
  generalize Sv39.user raw = u
  generalize sum mstatus = sm
  generalize mxr mstatus = mx
  revert hw
  revert r w x u sm mx
  cases priv <;> cases rwx <;> decide

/-! ## Addresses -/

theorem vpn_eq (va : Word) (level : Nat) :
    (va >>> (12 + 9 * level)) &&& 0x1FF = (Sv39.vpn va level).setWidth 64 := by
  have h9 : ∀ i < 64, (0x1FF : Word).getLsbD i = decide (i < 9) := by decide
  apply BitVec.eq_of_getLsbD_eq
  intro i hi
  rw [BitVec.getLsbD_and, BitVec.getLsbD_ushiftRight, h9 i hi, BitVec.getLsbD_setWidth, Sv39.vpn,
    BitVec.getLsbD_extractLsb', decide_eq_true hi, Bool.true_and, Bool.and_comm]

/-- The address of an entry does not wrap around. -/
theorem pteAddr_eq (table : BitVec 44) (index : BitVec 9) :
    pteAddr (table.setWidth 64) (index.setWidth 64) = Sv39.entryAddr table index := by
  have ht : (table.setWidth 64).toNat = table.toNat := by
    rw [BitVec.toNat_setWidth]
    exact Nat.mod_eq_of_lt (by have := table.isLt; omega)
  have hi : (index.setWidth 64).toNat = index.toNat := by
    rw [BitVec.toNat_setWidth]
    exact Nat.mod_eq_of_lt (by have := index.isLt; omega)
  apply BitVec.eq_of_toNat_eq
  have h8 : (8 : Word).toNat = 8 := rfl
  rw [pteAddr, Sv39.entryAddr, BitVec.toNat_add, BitVec.toNat_mul, BitVec.toNat_shiftLeft, Nat.shiftLeft_eq, ht, hi,
    BitVec.toNat_ofNat, h8]
  omega

theorem l0Result_physical (raw va : Word) :
    (l0Result (pteParse raw).ppn (pteParse raw).perm (sv39DecomposeVa va).offset).pa = Sv39.physical 0 raw va := by
  have hp := (Sv39.ppn raw).isLt
  have hoff : (va &&& 0xFFF).toNat = va.toNat % 2 ^ 12 := BitFields.toNat_and_mask rfl
  have hppn : (pteParse raw).ppn.toNat = (Sv39.ppn raw).toNat := by
    rw [ppn_eq, BitVec.toNat_setWidth]
    exact Nat.mod_eq_of_lt (by omega)
  apply BitVec.eq_of_toNat_eq
  change ((pteParse raw).ppn <<< 12 ||| va &&& 0xFFF).toNat = _
  rw [BitFields.toNat_shiftLeft_or (by omega) (by omega), hppn, hoff, Sv39.physical, BitVec.toNat_ofNat]
  omega

/-- Where the 2 MiB leaf is aligned, its frame and the lower bits of the address meet. -/
theorem l1Result_physical {raw : Word} (ha : Sv39.PageAligned 1 raw) (va : Word) :
    (l1Result (pteParse raw).ppn (pteParse raw).perm (sv39DecomposeVa va).vpn0 (sv39DecomposeVa va).offset).pa =
      Sv39.physical 1 raw va := by
  have hp := (Sv39.ppn raw).isLt
  have hoff : (va &&& 0xFFF).toNat = va.toNat % 2 ^ 12 := BitFields.toNat_and_mask rfl
  have hvpn : ((va >>> 12) &&& 0x1FF).toNat = va.toNat / 2 ^ 12 % 2 ^ 9 := by
    rw [BitFields.toNat_and_mask (n := 9) rfl, BitVec.toNat_ushiftRight, Nat.shiftRight_eq_div_pow]
  have hppn : (pteParse raw).ppn.toNat = (Sv39.ppn raw).toNat := by
    rw [ppn_eq, BitVec.toNat_setWidth]
    exact Nat.mod_eq_of_lt (by omega)
  have halign : (Sv39.ppn raw).toNat % 2 ^ 9 = 0 := ha
  have hshift : (pteParse raw).ppn &&& (0xFFFFFFFFFFFFFE00 : Word) = ((pteParse raw).ppn >>> 9) <<< 9 := by
    apply BitVec.eq_of_toNat_eq
    have hmask : (0xFFFFFFFFFFFFFE00 : Word) = ~~~0x1FF := by decide
    rw [hmask, BitFields.toNat_and_not_mask (n := 9) rfl, BitVec.toNat_shiftLeft, BitVec.toNat_ushiftRight,
      Nat.shiftLeft_eq, Nat.shiftRight_eq_div_pow, hppn]
    omega
  have hsuper : (superPpn (pteParse raw).ppn ((va >>> 12) &&& 0x1FF)).toNat =
      (Sv39.ppn raw).toNat + va.toNat / 2 ^ 12 % 2 ^ 9 := by
    rw [superPpn, hshift, BitFields.toNat_shiftLeft_or]
    · rw [BitVec.toNat_ushiftRight, Nat.shiftRight_eq_div_pow, hppn, hvpn]
      omega
    · rw [BitVec.toNat_ushiftRight, Nat.shiftRight_eq_div_pow, hppn]
      omega
    · omega
  apply BitVec.eq_of_toNat_eq
  change (superPpn (pteParse raw).ppn ((va >>> 12) &&& 0x1FF) <<< 12 ||| va &&& 0xFFF).toNat = _
  rw [BitFields.toNat_shiftLeft_or (by omega) (by omega), hsuper, hoff, Sv39.physical, BitVec.toNat_ofNat]
  omega

/-! ## What is granted -/

/-- No entry on the way to the page is writable without being readable, and a page of 2 MiB lies at a
multiple of its size. -/
def WellFormedPath (c : WalkCtx) (root va : Word) : Prop :=
  let v := sv39DecomposeVa va
  let raw2 := readPte c (pteAddr root v.vpn2)
  let raw1 := readPte c (pteAddr (pteParse raw2).ppn v.vpn1)
  let raw0 := readPte c (pteAddr (pteParse raw1).ppn v.vpn0)
  WritesRead raw2 ∧ WritesRead raw1 ∧
    if (pteParse raw1).isLeaf then Sv39.PageAligned 1 raw1 else WritesRead raw0

/-- The page that the access gets from the tables, as the architecture has it. -/
def Granted (c : WalkCtx) (satp va : Word) (priv : Sv39.Privilege) (mstatus : Word) (rwx : Rwx) (pa : Word) : Prop :=
  Sv39.Grants 1 (readPte c) (Sv39.root satp) priv (sum mstatus) (mxr mstatus) rwx.access va pa

section Granted

variable {c : WalkCtx} {va mstatus pa : Word} {priv : Sv39.Privilege} {rwx : Rwx}

theorem admitted_iff {root : Word} {m : Mode} :
    admitted c root va m mstatus rwx = some pa ↔
      ∃ r, pageAt c root va = some r ∧ checkPtePerm r.perm m mstatus (hasWrite rwx) (hasExec rwx) = true ∧
        r.pa = pa := by
  rw [admitted, Option.map_eq_some_iff]
  simp only [Option.filter_eq_some_iff, and_assoc]

theorem rootPpn_setWidth (satp : Word) : MmuPy.rootPpn satp = (Sv39.root satp).setWidth 64 := by
  have h44 : ∀ i < 64, (0xFFFFFFFFFFF : Word).getLsbD i = decide (i < 44) := by decide
  apply BitVec.eq_of_getLsbD_eq
  intro i hi
  rw [MmuPy.rootPpn, BitVec.getLsbD_and, h44 i hi, BitVec.getLsbD_setWidth, Sv39.root, BitVec.getLsbD_extractLsb',
    decide_eq_true hi, Bool.true_and, Bool.and_comm, Nat.zero_add]

theorem entry_root (satp va : Word) :
    pteAddr (MmuPy.rootPpn satp) (sv39DecomposeVa va).vpn2 = Sv39.entryAddr (Sv39.root satp) (Sv39.vpn va 2) := by
  rw [rootPpn_setWidth, ← pteAddr_eq, ← vpn_eq]
  rfl

theorem entry_next (raw va : Word) :
    pteAddr (pteParse raw).ppn (sv39DecomposeVa va).vpn1 = Sv39.entryAddr (Sv39.ppn raw) (Sv39.vpn va 1) := by
  rw [ppn_eq, ← pteAddr_eq, ← vpn_eq]
  rfl

theorem entry_last (raw va : Word) :
    pteAddr (pteParse raw).ppn (sv39DecomposeVa va).vpn0 = Sv39.entryAddr (Sv39.ppn raw) (Sv39.vpn va 0) := by
  rw [ppn_eq, ← pteAddr_eq, ← vpn_eq]
  rfl

/-- The architecture grants what the tables at the full root admit, to a canonical address and along
well-formed entries. -/
theorem granted_iff {satp : Word} :
    Granted c satp va priv mstatus rwx pa ↔
      Sv39.Canonical va ∧ WellFormedPath c (MmuPy.rootPpn satp) va ∧
        admitted c (MmuPy.rootPpn satp) va (privMode priv) mstatus rwx = some pa := by
  rw [Granted, Sv39.grants_one_iff, admitted_iff]
  simp only [WellFormedPath, pageAt, entry_root, entry_next, entry_last]
  generalize readPte c (Sv39.entryAddr (Sv39.root satp) (Sv39.vpn va 2)) = e2
  generalize readPte c (Sv39.entryAddr (Sv39.ppn e2) (Sv39.vpn va 1)) = e1
  generalize readPte c (Sv39.entryAddr (Sv39.ppn e1) (Sv39.vpn va 0)) = e0
  apply and_congr_right
  intro _
  simp only [pointer_iff, leaf_iff]
  constructor
  · rintro ⟨⟨hp2, hw2⟩, ⟨⟨hl1, hw1⟩, ha, hperm, rfl⟩ | ⟨⟨hp1, hw1⟩, ⟨hl0, hw0⟩, hperm, rfl⟩⟩
    · simp only [hp2, hl1, if_true]
      refine ⟨⟨hw2, hw1, ha⟩, _, rfl, ?_, l1Result_physical ha va⟩
      rw [← hperm]
      exact checkPtePerm_permits hw1 priv mstatus rwx
    · have hl1 : (pteParse e1).isLeaf = false := by
        have hkind := pteParse_kind e1
        rw [hp1, ptr_valid hp1, Bool.true_and, eq_comm, Bool.not_eq_true'] at hkind
        exact hkind
      simp only [hp2, hl1, hp1, hl0, if_true, if_false, Bool.false_eq_true, Bool.and_self]
      refine ⟨⟨hw2, hw1, hw0⟩, _, rfl, ?_, l0Result_physical e0 va⟩
      rw [← hperm]
      exact checkPtePerm_permits hw0 priv mstatus rwx
  · rintro ⟨⟨hw2, hw1, hrest⟩, r, hr, hperm, rfl⟩
    split at hr
    · rename_i hp2
      refine ⟨⟨hp2, hw2⟩, ?_⟩
      split at hr
      · rename_i hl1
        cases hr
        rw [if_pos hl1] at hrest
        refine .inl ⟨⟨hl1, hw1⟩, hrest, ?_, l1Result_physical hrest va⟩
        rw [← hperm]
        exact (checkPtePerm_permits hw1 priv mstatus rwx).symm
      · rename_i hl1
        rw [if_neg hl1] at hrest
        split at hr
        · rename_i hp
          obtain ⟨hp1, hl0⟩ := Bool.and_eq_true_iff.mp hp
          cases hr
          refine .inr ⟨⟨hp1, hw1⟩, ⟨hl0, hrest⟩, ?_, l0Result_physical e0 va⟩
          rw [← hperm]
          exact (checkPtePerm_permits hrest priv mstatus rwx).symm
        · cases hr
    · cases hr

end Granted

/-! ## The translation -/

/-- A hart in user or supervisor mode that translates by Sv39 from empty TLBs, and PMP lets it read and mark the
entries on the way. -/
structure Sv39Setting (s : HartState) (c : WalkCtx) (p : PmpCtx) (va : Word) (priv : Sv39.Privilege) : Prop where
  mode : s.mode = privMode priv
  mmu_mode : s.mmuMode = 8
  satp_mode : s.satp >>> 60 = satpModeSv39
  tlbs_empty : s.TlbsEmpty
  aligned : c.toLayout.Aligned
  pmp_permits : ∀ a ∈ entriesRead c (satpRootPpn s.satp) va, ∀ isWrite, pmpOk s a 8 isWrite false p = true

/-- The translation returns an address only where the architecture grants it, and a page fault otherwise. -/
def GrantsNothingMore (cfg : Features) (s : HartState) (c : WalkCtx) (p : PmpCtx) (va : Word) (rwx : Rwx)
    (priv : Sv39.Privilege) : Prop :=
  match (translateVa cfg s c va rwx p).2.2 with
  | .ok r => Granted c s.satp va priv s.mstatus rwx r.pa
  | .error e => e = .pageFault (faultCode (hasExec rwx) (hasWrite rwx))

theorem effectiveMode_privMode {s : HartState} {priv : Sv39.Privilege} (h : s.mode = privMode priv) :
    effectiveMode s = some (privMode priv) := by
  cases priv with
  | user => simp [effectiveMode, h, privMode]
  | supervisor => simp [effectiveMode, h, privMode]

/-- What the walk admits at its root is granted exactly when the address is canonical, the entries on the
way are well formed and the tables at the full root admit the same. -/
theorem walk_grants_iff (cfg : Features) {s : HartState} {c : WalkCtx} {p : PmpCtx} {va : Word}
    {priv : Sv39.Privilege} (h : Sv39Setting s c p va priv) (rwx : Rwx) :
    GrantsNothingMore cfg s c p va rwx priv ↔
      (admitted c (satpRootPpn s.satp) va (privMode priv) s.mstatus rwx = none ∨
        Sv39.Canonical va ∧ WellFormedPath c (MmuPy.rootPpn s.satp) va ∧
          admitted c (MmuPy.rootPpn s.satp) va (privMode priv) s.mstatus rwx =
            admitted c (satpRootPpn s.satp) va (privMode priv) s.mstatus rwx) := by
  rw [GrantsNothingMore, translateVa_pageAt h.mmu_mode (effectiveMode_privMode h.mode) h.tlbs_empty h.satp_mode
    h.pmp_permits (marksOnly_of_aligned h.aligned _ va), admitted]
  cases (pageAt c (satpRootPpn s.satp) va).filter fun r =>
      checkPtePerm r.perm (privMode priv) s.mstatus (hasWrite rwx) (hasExec rwx) with
  | none => simp
  | some r => simp [granted_iff]

theorem behindEntry_sv39 {va : Word} (h : entriesRead (behindEntry 0x20000C41).mem
      (satpRootPpn (behindEntry 0x20000C41).hart.satp) va = [0x80001000, 0x80002000, 0x80003000]) :
    Sv39Setting (behindEntry 0x20000C41).hart (behindEntry 0x20000C41).mem (behindEntry 0x20000C41).pmp va
      .supervisor where
  mode := rfl
  mmu_mode := rfl
  satp_mode := (by decide : (0x8000000000080001 : Word) >>> 60 = satpModeSv39)
  tlbs_empty := onePage_empty 0x47 (Pmp.R ||| Pmp.W)
  aligned := ⟨(by decide : (0x80000000 : Word).toNat % 8 = 0), (by decide : (0 : Word).toNat % 8 = 0)⟩
  pmp_permits := by
    have hl : (behindEntry 0x20000C41).mem.toLayout = ⟨0x80000000, 0x10000, 0, 0⟩ := rfl
    have hall : ∀ a ∈ ([0x80001000, 0x80002000, 0x80003000] : List Word),
        Layout.InMain ⟨0x80000000, 0x10000, 0, 0⟩ a := by
      simp only [List.forall_mem_cons, List.not_mem_nil, IsEmpty.forall_iff, implies_true, and_true]
      decide
    intro a ha isWrite
    rw [h] at ha
    apply behindEntry_permits
    rw [hl]
    exact hall a ha

/-- A read of a page behind well-formed entries. -/
theorem walk_grants_page :
    GrantsNothingMore ⟨false, false, false, 0⟩ (behindEntry 0x20000C41).hart (behindEntry 0x20000C41).mem
      (behindEntry 0x20000C41).pmp 0x10 .read .supervisor := by
  apply (walk_grants_iff _ (behindEntry_sv39 (by decide +kernel)) .read).mpr
  refine .inr ⟨by decide, ⟨?_, ?_, ?_⟩, ?_⟩
  · decide +kernel
  · decide +kernel
  · decide +kernel
  · decide +kernel

/-- The address `2^40 + 0x10` is not canonical, and the walk finds the page of `0x10` for it. -/
theorem walk_grants_uncanonical : ¬ ∀ (cfg : Features) (s : HartState) (c : WalkCtx) (p : PmpCtx) (va : Word)
    (rwx : Rwx) (priv : Sv39.Privilege), Sv39Setting s c p va priv → GrantsNothingMore cfg s c p va rwx priv := by
  intro hall
  have h : Sv39Setting (behindEntry 0x20000C41).hart (behindEntry 0x20000C41).mem (behindEntry 0x20000C41).pmp
      0x10000000010 .supervisor := behindEntry_sv39 (by decide +kernel)
  have hgrant := hall ⟨false, false, false, 0⟩ _ _ _ _ .read _ h
  have hfound : ((pageAt (behindEntry 0x20000C41).mem (satpRootPpn (behindEntry 0x20000C41).hart.satp)
      0x10000000010).filter fun r => checkPtePerm r.perm (privMode .supervisor) (behindEntry 0x20000C41).hart.mstatus
        (hasWrite .read) (hasExec .read)) = some ⟨0x80004010, 6, 0⟩ := by
    decide +kernel
  rw [GrantsNothingMore, translateVa_pageAt h.mmu_mode (effectiveMode_privMode h.mode) h.tlbs_empty h.satp_mode
    h.pmp_permits (marksOnly_of_aligned h.aligned _ _), hfound] at hgrant
  exact absurd hgrant.canonical (by decide)

end Pyremu
