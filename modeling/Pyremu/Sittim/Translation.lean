import Pyremu.Sittim.PageView
import Pyremu.Sittim.Rounding

/-!
# Translations of one address space

An entry covers a block of addresses, and a canonical address names the entry
that a walk takes. What `map_page` does is said here about translations instead
of entries, over all addresses.
-/

namespace Pyremu.Sittim

open Radix

/-! ## Blocks of addresses -/

/-- Bits of the offset below an entry of a level. -/
def offsetBits (level : Nat) : Nat := 12 + (2 - level) * 9

def leafPageSize (level : Nat) : Word := (1 : Word) <<< offsetBits level

/-- First address of the block of `va`. -/
def leafBase (level : Nat) (va : Word) : Word := alignDown va (leafPageSize level)

theorem offsetBits_le (level : Nat) : offsetBits level ≤ 30 := by
  simp only [offsetBits]
  omega

theorem toNat_leafPageSize (level : Nat) : (leafPageSize level).toNat = 2 ^ offsetBits level := by
  have hpow : 2 ^ offsetBits level ≤ 2 ^ 30 := Nat.pow_le_pow_right (by decide) (offsetBits_le level)
  rw [leafPageSize, BitVec.toNat_shiftLeft, Nat.shiftLeft_eq, show (1 : Word).toNat = 1 from rfl, Nat.one_mul]
  exact Nat.mod_eq_of_lt (by omega)

theorem toNat_leafBase (level : Nat) (va : Word) :
    (leafBase level va).toNat = va.toNat / 2 ^ offsetBits level * 2 ^ offsetBits level :=
  toNat_alignDown va (toNat_leafPageSize level)

theorem leafBase_eq_iff {level : Nat} {va va' : Word} :
    leafBase level va = leafBase level va' ↔
      va.toNat / 2 ^ offsetBits level = va'.toNat / 2 ^ offsetBits level := by
  rw [← BitVec.toNat_inj, toNat_leafBase, toNat_leafBase]
  exact Nat.mul_left_inj (Nat.two_pow_pos _).ne'

/-- A block holds the addresses between its base and its end. -/
theorem leafBase_eq_iff_mem {level : Nat} {va va' : Word} :
    leafBase level va = leafBase level va' ↔ (leafBase level va).toNat ≤ va'.toNat ∧
      va'.toNat < (leafBase level va).toNat + 2 ^ offsetBits level := by
  have hpos : 0 < 2 ^ offsetBits level := Nat.two_pow_pos _
  rw [leafBase_eq_iff, toNat_leafBase, ← Nat.le_div_iff_mul_le hpos, ← Nat.succ_mul,
    ← Nat.div_lt_iff_lt_mul hpos]
  omega

theorem leafBase_le (level : Nat) (va : Word) : (leafBase level va).toNat ≤ va.toNat :=
  (leafBase_eq_iff_mem.mp rfl).1

theorem lt_leafBase_add (level : Nat) (va : Word) :
    va.toNat < (leafBase level va).toNat + 2 ^ offsetBits level :=
  (leafBase_eq_iff_mem.mp rfl).2

theorem page_dvd_size (level : Nat) : 4096 ∣ 2 ^ offsetBits level :=
  Nat.pow_dvd_pow 2 (show 12 ≤ offsetBits level by simp [offsetBits])

theorem page_dvd_leafBase (level : Nat) (va : Word) : 4096 ∣ (leafBase level va).toNat := by
  rw [toNat_leafBase]
  exact (page_dvd_size level).mul_left _

theorem leafBase_leafBase (level : Nat) (va : Word) : leafBase level (leafBase level va) = leafBase level va :=
  (leafBase_eq_iff_mem.mpr ⟨le_rfl, Nat.lt_add_of_pos_right (Nat.two_pow_pos _)⟩).symm

/-- A page lies in one block of each level. -/
theorem leafBase_of_page {va va' : Word} (level : Nat) (h : va.toNat / 4096 = va'.toNat / 4096) :
    leafBase level va = leafBase level va' := by
  rw [leafBase_eq_iff, offsetBits, Nat.pow_add, ← Nat.div_div_eq_div_mul, ← Nat.div_div_eq_div_mul]
  exact congrArg (· / _) h

theorem toNat_sub_leafBase (level : Nat) (va : Word) :
    (va - leafBase level va).toNat = va.toNat % 2 ^ offsetBits level := by
  have hle : leafBase level va ≤ va := by
    rw [BitVec.le_def, toNat_leafBase]
    exact Nat.div_mul_le_self _ _
  rw [BitVec.toNat_sub_of_le hle, toNat_leafBase, Nat.mod_eq_sub_div_mul]

theorem canonical_iff {va : Word} :
    isCanonicalVa va = true ↔ va.toNat < 2 ^ 38 ∨ 2 ^ 64 - 2 ^ 38 ≤ va.toNat := by
  have hdiv : (va >>> 38).toNat = va.toNat / 2 ^ 38 := by
    rw [BitVec.toNat_ushiftRight, Nat.shiftRight_eq_div_pow]
  have hlt := va.isLt
  rw [isCanonicalVa, Bool.or_eq_true, beq_iff_eq, beq_iff_eq, ← BitVec.toNat_inj, ← BitVec.toNat_inj, hdiv]
  show va.toNat / 2 ^ 38 = 0 ∨ va.toNat / 2 ^ 38 = 67108863 ↔ _
  omega

theorem getVpn_val {level : Nat} (hl : level ≤ 2) (va : Word) :
    (getVpn va level).val = va.toNat / 2 ^ offsetBits level % 512 := by
  have hfield : ∀ k, ((va >>> k) &&& 0x1ff).toNat = va.toNat / 2 ^ k % 512 := by
    intro k
    have hmask : ((va >>> k) &&& 0x1ff).toNat = (va >>> k).toNat % 2 ^ 9 := BitFields.toNat_and_mask rfl
    rw [hmask, BitVec.toNat_ushiftRight, Nat.shiftRight_eq_div_pow]
    rfl
  have hcases : level = 0 ∨ level = 1 ∨ level = 2 := by omega
  rcases hcases with rfl | rfl | rfl
  all_goals
    simp only [getVpn, Fin.ofNat, hfield, offsetBits]
    exact Nat.mod_mod _ _

/-- Numbers with one top field, digit by digit. -/
theorem eq_of_digits {x y : Nat} (hx : x < 2 ^ 38 ∨ 2 ^ 64 - 2 ^ 38 ≤ x) (hxlt : x < 2 ^ 64)
    (hy : y < 2 ^ 38 ∨ 2 ^ 64 - 2 ^ 38 ≤ y) (hylt : y < 2 ^ 64) :
    x / 2 ^ 30 % 512 = y / 2 ^ 30 % 512 ↔ x / 2 ^ 30 = y / 2 ^ 30 := by
  omega

theorem digits_succ (x y n : Nat) :
    x / 2 ^ n = y / 2 ^ n ↔
      x / 2 ^ (n + 9) = y / 2 ^ (n + 9) ∧ x / 2 ^ n % 512 = y / 2 ^ n % 512 := by
  rw [Nat.pow_add, ← Nat.div_div_eq_div_mul, ← Nat.div_div_eq_div_mul]
  omega

theorem sameEntry_zero (va va' : Word) : SameEntry 0 va va' ↔ getVpn va 0 = getVpn va' 0 := by
  constructor
  · exact fun h => h 0 le_rfl
  · intro h i hi
    rwa [Nat.le_zero.mp hi]

theorem sameEntry_succ (level : Nat) (va va' : Word) :
    SameEntry (level + 1) va va' ↔ SameEntry level va va' ∧ getVpn va (level + 1) = getVpn va' (level + 1) := by
  constructor
  · exact fun h => ⟨fun i hi => h i (Nat.le_succ_of_le hi), h _ le_rfl⟩
  · rintro ⟨h, hlast⟩ i hi
    rcases Nat.le_succ_iff.mp hi with hi | rfl
    · exact h i hi
    · exact hlast

/-- The entry that a canonical address names at a level is that of its block. -/
theorem sameEntry_iff_base {level : Nat} {va va' : Word} (hl : level ≤ 2) (hva : isCanonicalVa va = true)
    (hva' : isCanonicalVa va' = true) : SameEntry level va va' ↔ leafBase level va = leafBase level va' := by
  rw [canonical_iff] at hva hva'
  rw [leafBase_eq_iff]
  induction level with
  | zero =>
    rw [sameEntry_zero, ← Fin.val_inj, getVpn_val hl, getVpn_val hl]
    exact eq_of_digits hva va.isLt hva' va'.isLt
  | succ level ih =>
    have hbits : offsetBits level = offsetBits (level + 1) + 9 := by
      simp only [offsetBits]
      omega
    rw [sameEntry_succ, ih (by omega), ← Fin.val_inj, getVpn_val hl, getVpn_val hl, hbits]
    exact (digits_succ _ _ _).symm

/-- A block lies in one half of the canonical addresses. -/
theorem canonical_of_base {level : Nat} {va va' : Word} (hva : isCanonicalVa va = true)
    (h : leafBase level va = leafBase level va') : isCanonicalVa va' = true := by
  rw [canonical_iff] at hva ⊢
  rw [leafBase_eq_iff] at h
  obtain ⟨c, hc⟩ : 2 ^ offsetBits level ∣ 2 ^ 38 := Nat.pow_dvd_pow 2 ((offsetBits_le level).trans (by decide))
  generalize hb : 2 ^ offsetBits level = b at h hc
  have hpos : 0 < b := hb ▸ Nat.two_pow_pos _
  have hlow : ∀ x, x < b * c ↔ x / b < c := fun x => by rw [Nat.div_lt_iff_lt_mul hpos, Nat.mul_comm]
  have hhigh : ∀ x, (2 ^ 26 - 1) * (b * c) ≤ x ↔ (2 ^ 26 - 1) * c ≤ x / b := by
    intro x
    rw [Nat.le_div_iff_mul_le hpos]
    constructor <;> intro h <;> calc
      _ = _ := by rw [Nat.mul_assoc, Nat.mul_comm c b]
      _ ≤ x := h
  have htop : 2 ^ 64 - 2 ^ 38 = (2 ^ 26 - 1) * 2 ^ 38 := by decide
  rw [htop, hc, hlow, hhigh] at hva ⊢
  rwa [← h]

/-! ## Address spaces -/

/-- The paths of a walk from one root. -/
def tablesFrom (root : Word) : Paths Word (Fin 512) where
  mem r p := r = root ∧ p.length ≤ 2
  init h := by
    rw [List.length_append, List.length_singleton] at h
    exact ⟨h.1, by omega⟩

theorem through_tablesFrom (root va : Word) : (tablesFrom root).Through root (vpns va) := by
  intro p j hp
  have hlen := hp.length_le
  rw [List.length_append, List.length_singleton, Space.vpns_length] at hlen
  exact ⟨rfl, by omega⟩

namespace Space

/-- The pointer entries below the root form a tree of pages of the pool, and every entry is clean. -/
def WellFormed (M : Manager) (s : Space) : Prop := s.Ok M (tablesFrom s.root)

/-- The physical address behind `va` under a leaf. -/
def target (va : Word) (r : Nat × Word) : Word :=
  (Pte.ppn r.2 <<< 12) ||| ((((1 : Word) <<< offsetBits r.1) - 1) &&& va)

/-- The leaf of an address of the running space, none for one that is not canonical. -/
def leafAt (s : Space) (va : Word) : Option (Nat × Word) :=
  if isCanonicalVa va then s.leaf s.root va else none

variable {M : Manager} {s s' : Space}

theorem WellFormed.isLeaf (h : s.WellFormed M) {va e : Word} {level : Nat}
    (hl : s.leaf s.root va = some (level, e)) : Pte.isLeaf e = true :=
  Ok.isLeaf h (through_tablesFrom s.root va) hl

/-- What `get_pa` answers is the leaf. -/
theorem getPa_eq (h : s.WellFormed M) (va : Word) : s.getPa va = (s.leafAt va).map (target va) := by
  rw [getPa, leafAt]
  cases hcan : isCanonicalVa va with
  | false => simp [walkPageTable, hcan]
  | true =>
    rw [walkPageTable_eq s hcan, if_pos rfl]
    cases hl : s.leaf s.root va with
    | none => rfl
    | some r =>
      obtain ⟨level, e⟩ := r
      rw [Option.filter_some, if_pos (h.isLeaf hl)]
      rfl

/-- All addresses of a block have the leaf of one of them. -/
theorem leaf_sameEntry {r va va' e : Word} {level : Nat} (h : s.leaf r va = some (level, e))
    (hsame : SameEntry level va va') : s.leaf r va' = some (level, e) := by
  obtain ⟨_, _, _, _, _, _, _, hend⟩ := view_some h
  obtain ⟨hl, hv, t, hreach, he⟩ := leaf_slot h
  obtain ⟨q, hq⟩ := (sameEntry_iff hl va va').mp hsame
  have hstop : Pte.child e = none ∨ q = [] := by
    refine hend.imp_right fun hlen => ?_
    have := congrArg List.length hq
    rw [List.length_append, List.length_append, levelPath_length, List.length_singleton, vpns_length] at this
    rw [vpns_length] at hlen
    exact List.eq_nil_of_length_eq_zero (by omega)
  rw [leaf, ← hq, List.append_assoc, List.singleton_append,
    view_append (fun _ => Pte.valid_of_child) hreach (by simp),
    view_last (by rw [he, hv]) (by rwa [he]), he, levelPath_length, Option.map_some, Nat.zero_add]

theorem leafAt_some {va : Word} {r : Nat × Word} (h : s.leafAt va = some r) :
    isCanonicalVa va = true ∧ s.leaf s.root va = some r := by
  rw [leafAt] at h
  split at h
  · exact ⟨‹_›, h⟩
  · cases h

theorem level_le {va e : Word} {level : Nat} (h : s.leafAt va = some (level, e)) : level ≤ 2 :=
  (leaf_slot (leafAt_some h).2).1

theorem leafAt_block {va va' e : Word} {level : Nat} (h : s.leafAt va = some (level, e))
    (hbase : leafBase level va = leafBase level va') : s.leafAt va' = some (level, e) := by
  obtain ⟨hcan, hleaf⟩ := leafAt_some h
  have hcan' := canonical_of_base hcan hbase
  rw [leafAt, if_pos hcan']
  exact leaf_sameEntry hleaf ((sameEntry_iff_base (level_le h) hcan hcan').mpr hbase)

theorem leafAt_page {va va' : Word} (h : va.toNat / 4096 = va'.toNat / 4096) : s.leafAt va = s.leafAt va' := by
  cases hv : s.leafAt va with
  | some r => exact (leafAt_block hv (leafBase_of_page r.1 h)).symm
  | none =>
    cases hv' : s.leafAt va' with
    | none => rfl
    | some r =>
      rw [leafAt_block hv' (leafBase_of_page r.1 h.symm)] at hv
      cases hv

theorem leafPteFlags_leafAt (s : Space) (va : Word) :
    s.leafPteFlags va = (s.leafAt va).map fun r => r.2 &&& (0xff ||| PTE_RSW_MASK) := by
  rw [leafAt]
  cases hcan : isCanonicalVa va with
  | false => rw [leafPteFlags, hcan]; rfl
  | true => rw [leafPteFlags_eq s hcan]; rfl

theorem vaRealPageLevel_leafAt (s : Space) (va : Word) :
    s.vaRealPageLevel va = (s.leafAt va).map Prod.fst := by
  rw [leafAt]
  cases hcan : isCanonicalVa va with
  | false => rw [vaRealPageLevel, hcan]; rfl
  | true => rw [vaRealPageLevel_eq s hcan]; rfl

/-- Tables may have been added under the root. -/
theorem leafAt_grows (h : Grows M (tablesFrom s.root) s s') (va : Word) : s'.leafAt va = s.leafAt va := by
  rw [leafAt, leafAt, h.root, h.leaf (through_tablesFrom s.root va)]

theorem WellFormed.grows (h : Grows M (tablesFrom s.root) s s') : s'.WellFormed M := by
  rw [WellFormed, h.root]
  exact h.ok

section Changes

variable {va : Word} {level : Nat} {new : Word → Option (Nat × Word)}
  (h : Changes M (tablesFrom s.root) s s' va level new) (hl : level ≤ 2) (hva : isCanonicalVa va = true)

include h

theorem WellFormed.changes : s'.WellFormed M := by
  rw [WellFormed, h.root]
  exact h.ok

include hl hva

theorem leafAt_changes (va' : Word) :
    s'.leafAt va' = if leafBase level va = leafBase level va' then new va' else s.leafAt va' := by
  have hthr := through_tablesFrom s.root va'
  rw [leafAt, leafAt, h.root]
  cases hcan : isCanonicalVa va' with
  | false =>
    have hne : leafBase level va ≠ leafBase level va' := by
      intro he
      rw [canonical_of_base hva he] at hcan
      cases hcan
    rw [if_neg hne]
    rfl
  | true =>
    rw [if_pos rfl, if_pos rfl]
    by_cases hbase : leafBase level va = leafBase level va'
    · rw [if_pos hbase]
      exact h.under hthr ((sameEntry_iff_base hl hva hcan).mpr hbase)
    · rw [if_neg hbase]
      exact h.other hthr fun hc => hbase ((sameEntry_iff_base hl hva hcan).mp hc.2)

end Changes

/-- The table of the first process before anything is mapped. -/
def empty (M : Manager) : Space := ⟨fun _ _ => 0, M.rootPa, 0⟩

theorem reach_empty {M : Manager} {r t : Word} {p : List (Fin 512)}
    (h : reach Pte.child (empty M).mem r p = some t) : p = [] ∧ t = r := by
  cases p with
  | nil => exact ⟨rfl, (Option.some.inj h).symm⟩
  | cons i p =>
    rw [reach_cons, show (empty M).mem r i = 0 from rfl, Pte.child_of_invalid isValid_zero] at h
    cases h

theorem leafAt_empty (M : Manager) (va : Word) : (empty M).leafAt va = none := by
  have habsent : Pte.isValid ((empty M).mem (empty M).root (getVpn va 0)) = false := isValid_zero
  rw [leafAt, leaf, vpns_eq, view_absent habsent]
  exact ite_self _

theorem wellFormed_empty (M : Manager) : (empty M).WellFormed M := by
  constructor
  case pool =>
    rw [show (empty M).usedPages.toNat = 0 from rfl, Nat.zero_mul]
    exact Nat.zero_le _
  case forest =>
    constructor
    · rintro r p t ⟨rfl, _⟩ ht
      exact .inl (reach_empty ht).2
    · rintro r p r' p' t ⟨rfl, _⟩ ⟨rfl, _⟩ ht ht'
      exact ⟨rfl, (reach_empty ht).1.trans (reach_empty ht').1.symm⟩
  case clean => exact fun _ _ _ _ _ _ => clean_zero _
  case short => exact fun h => h.2

/-! ## Translation and flags together -/

/-- The physical address behind an address, and the flags of its leaf. -/
def mapping (s : Space) (va : Word) : Option (Word × Word) :=
  (s.leafAt va).map fun r => (target va r, r.2 &&& (0xff ||| PTE_RSW_MASK))

theorem getPa_mapping (hs : s.WellFormed M) (va : Word) : s.getPa va = (s.mapping va).map Prod.fst := by
  rw [getPa_eq hs, mapping, Option.map_map]
  rfl

theorem leafPteFlags_mapping (s : Space) (va : Word) : s.leafPteFlags va = (s.mapping va).map Prod.snd := by
  rw [leafPteFlags_leafAt, mapping, Option.map_map]
  rfl

/-- Under a leaf whose page number is aligned an address keeps its offset in the block. -/
theorem toNat_target {va e : Word} {level : Nat} (hal : 2 ^ offsetBits level ∣ (Pte.ppn e).toNat * 4096) :
    (target va (level, e)).toNat = (Pte.ppn e).toNat * 4096 + va.toNat % 2 ^ offsetBits level := by
  have hmask : (((1 : Word) <<< offsetBits level) - 1).toNat = 2 ^ offsetBits level - 1 :=
    toNat_sub_one (toNat_leafPageSize level)
  have hppn : (Pte.ppn e).toNat < 2 ^ 36 := by
    rw [Pte.ppn, Pte.toNat_and_ppn_mask]
    exact Nat.mod_lt _ (by decide)
  have hbase : (Pte.ppn e <<< 12).toNat = (Pte.ppn e).toNat * 4096 := by
    rw [BitVec.toNat_shiftLeft, Nat.shiftLeft_eq]
    exact Nat.mod_eq_of_lt (by omega)
  simp only [target]
  rw [BitVec.toNat_or, BitVec.and_comm, BitFields.toNat_and_mask hmask, hbase]
  obtain ⟨q, hq⟩ := hal
  rw [hq]
  exact (Nat.two_pow_add_eq_or_of_lt (Nat.mod_lt _ (Nat.two_pow_pos _)) q).symm

/-! ## `map_page` -/

theorem WellFormed.mapPage (hs : s.WellFormed M) {va pa flags : Word} {level : Nat} (hl : level ≤ 2)
    (hflags : UsableFlags flags) : (s.mapPage M va pa flags level).1.WellFormed M := by
  have hspec := @mapPage_spec M (tablesFrom s.root) s va pa flags level hs hl (through_tablesFrom s.root va) hflags
  split at hspec
  · exact WellFormed.changes hspec.2
  · exact WellFormed.grows hspec

theorem toNat_add_offset {pa : Word} (level : Nat) (va : Word) (hpa : pa.toNat < 2 ^ 48) :
    (pa + (va - leafBase level va)).toNat = pa.toNat + va.toNat % 2 ^ offsetBits level := by
  have hoff : va.toNat % 2 ^ offsetBits level < 2 ^ 30 :=
    (Nat.mod_lt _ (Nat.two_pow_pos _)).trans_le (Nat.pow_le_pow_right (by decide) (offsetBits_le level))
  rw [BitVec.toNat_add, toNat_sub_leafBase]
  exact Nat.mod_eq_of_lt (by omega)

/-- Under the entry that `map_page` writes an address keeps its offset in the block. -/
theorem target_leafEntry {level : Nat} {pa flags : Word} (va : Word) (hpa : pa.toNat < 2 ^ 48)
    (hal : leafBase level pa = pa) (hflags : UsableFlags flags) :
    target va (level, leafEntry pa flags) = pa + (va - leafBase level va) := by
  have hdvd : 2 ^ offsetBits level ∣ pa.toNat := by
    rw [← hal, toNat_leafBase]
    exact Nat.dvd_mul_left _ _
  have hpage : 4096 ∣ pa.toNat := (page_dvd_size level).trans hdvd
  have hbase : (Pte.ppn (leafEntry pa flags)).toNat * 4096 = pa.toNat := by
    rw [leafEntry, Pte.ppn_entry _ (leafFlags_lt hflags.1), Pte.toNat_and_ppn_mask, BitVec.toNat_ushiftRight,
      Nat.shiftRight_eq_div_pow]
    omega
  apply BitVec.eq_of_toNat_eq
  rw [toNat_add_offset level va hpa, toNat_target (by rwa [hbase]), hbase]

end Space

/-- `map_page` puts one leaf over the block of `va` and changes no other translation; when it fails it
changes none. -/
theorem map_page_installs_leaf {M : Manager} {s : Space} {va pa flags : Word} {level : Nat}
    (hs : s.WellFormed M) (hl : level ≤ 2) (hpa : pa.toNat < 2 ^ 48)
    (hal : alignDown pa (leafPageSize level) = pa) (hflags : UsableFlags flags) :
    match s.mapPage M va pa flags level with
    | (s', .ok _) => s'.WellFormed M ∧ ∀ v, s'.getPa v =
        if leafBase level v = leafBase level va then some (pa + (v - leafBase level va)) else s.getPa v
    | (s', .error _) => s'.WellFormed M ∧ ∀ v, s'.getPa v = s.getPa v := by
  have hspec := @Space.mapPage_spec M (tablesFrom s.root) s va pa flags level hs hl
    (through_tablesFrom s.root va) hflags
  generalize s.mapPage M va pa flags level = r at hspec ⊢
  obtain ⟨s', _ | _⟩ := r
  · have hs' : s'.WellFormed M := Space.WellFormed.grows hspec
    refine ⟨hs', fun v => ?_⟩
    rw [Space.getPa_eq hs', Space.getPa_eq hs, Space.leafAt_grows hspec]
  · obtain ⟨hva, hchanges⟩ := hspec
    have hs' : s'.WellFormed M := Space.WellFormed.changes hchanges
    refine ⟨hs', fun v => ?_⟩
    rw [Space.getPa_eq hs', Space.getPa_eq hs, Space.leafAt_changes hchanges hl hva]
    by_cases hv : leafBase level va = leafBase level v
    · rw [if_pos hv, if_pos hv.symm, hv, Option.map_some, Space.target_leafEntry v hpa hal hflags]
    · rw [if_neg hv, if_neg (Ne.symm hv)]

/-- A manager of two partitions, the image and the pool. -/
def smallManager : Manager :=
  ⟨0x80000000, 0x80001000, 0x200000, 0x200000, by decide, by decide, by decide, by decide, by decide⟩

theorem map_page_installs_page :
    match (Space.empty smallManager).mapPage smallManager 0x10000 0x90003000 (Pte.U ||| Pte.R) LEVEL_PAGE with
    | (s', .ok _) => s'.WellFormed smallManager ∧ ∀ v, s'.getPa v =
        if leafBase LEVEL_PAGE v = leafBase LEVEL_PAGE 0x10000 then
          some (0x90003000 + (v - leafBase LEVEL_PAGE 0x10000))
        else (Space.empty smallManager).getPa v
    | (s', .error _) => s'.WellFormed smallManager ∧ ∀ v, s'.getPa v = (Space.empty smallManager).getPa v :=
  @map_page_installs_leaf smallManager (Space.empty smallManager) 0x10000 0x90003000 (Pte.U ||| Pte.R)
    LEVEL_PAGE (Space.wellFormed_empty smallManager) (by decide) (by decide) (by decide) (by decide)

end Pyremu.Sittim
