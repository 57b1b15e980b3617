import Pyremu.Sittim.Munmap

/-!
# What `mprotect` changes

The loop rewrites the flags of a leaf that the range covers, and splits a 2 MiB
leaf that the range covers in part before it meets the same address again. The
split keeps every translation, so a call that succeeds changes the flags of its
pages and nothing else. A change of the execute permission asks M mode for the
class of each partition in turn, and a refusal in the middle leaves the
partitions before it changed.
-/

namespace Pyremu.Sittim

/-- 2 MiB leaves lead to 2 MiB blocks, as Sv39 asks for. -/
def Space.MegaAligned (s : Space) : Prop :=
  ∀ v e, s.leafAt v = some (LEVEL_MEGA, e) → 512 ∣ (Pte.ppn e).toNat

/-- New flags over the RSW bits of the old ones. -/
def reflag (flags : Word) (m : Word × Word) : Word × Word :=
  (m.1, leafFlags flags ||| (m.2 &&& PTE_RSW_MASK))

theorem usableFlags_protToPte (prot : Word) : UsableFlags (MemSys.protToPte prot) := by
  rw [MemSys.protToPte]
  split_ifs <;> decide

namespace Space

variable {M : Manager} {s : Space} {va e flags : Word} {level : Nat}

/-! ## Aligned leaves -/

theorem megaAligned_empty (M : Manager) : (empty M).MegaAligned := by
  intro v e h
  rw [leafAt_empty] at h
  cases h

theorem ppn_leafEntry (pa : Word) (hflags : UsableFlags flags) :
    (Pte.ppn (leafEntry pa flags)).toNat = pa.toNat / 4096 % 2 ^ 36 := by
  rw [leafEntry, Pte.ppn_entry _ (leafFlags_lt hflags.1), Pte.toNat_and_ppn_mask, BitVec.toNat_ushiftRight,
    Nat.shiftRight_eq_div_pow]

/-- `map_page` keeps the alignment when its own 2 MiB leaves lead to aligned blocks. -/
theorem MegaAligned.mapPage (hal : s.MegaAligned) (hs : s.WellFormed M) {pa : Word} (hl : level ≤ 2)
    (hflags : UsableFlags flags) (hpa : level = LEVEL_MEGA → 2097152 ∣ pa.toNat) :
    (s.mapPage M va pa flags level).1.MegaAligned := by
  have hspec := @mapPage_spec M (tablesFrom s.root) s va pa flags level hs hl (through_tablesFrom s.root va) hflags
  intro v e h
  split at hspec
  · rw [leafAt_changes hspec.2 hl hspec.1] at h
    split at h
    · cases h
      have hdvd := hpa rfl
      rw [ppn_leafEntry pa hflags]
      omega
    · exact hal v e h
  · rw [leafAt_grows hspec] at h
    exact hal v e h

/-! ## Rewriting a leaf -/

theorem flags_reflaggedEntry (e : Word) (hflags : UsableFlags flags) :
    reflaggedEntry e flags &&& (0xff ||| PTE_RSW_MASK) =
      leafFlags flags ||| ((e &&& (0xff ||| PTE_RSW_MASK)) &&& PTE_RSW_MASK) := by
  have hmask : ∀ f : Word, f.toNat < 2 ^ 10 → f &&& (0xff ||| PTE_RSW_MASK) = f := by
    intro f hf
    apply BitVec.eq_of_toNat_eq
    have hand : (f &&& (0xff ||| PTE_RSW_MASK)).toNat = f.toNat % 2 ^ 10 := BitFields.toNat_and_mask rfl
    rw [hand, Nat.mod_eq_of_lt hf]
  rw [reflaggedEntry, Pte.entry_and _ _ (by decide), hmask _ (reflaggedFlags_lt e hflags.1), BitVec.and_assoc]
  rfl

theorem ppn_reflaggedEntry (e : Word) (hflags : UsableFlags flags) :
    Pte.ppn (reflaggedEntry e flags) = Pte.ppn e := by
  rw [reflaggedEntry, Pte.ppn_entry _ (reflaggedFlags_lt e hflags.1), Pte.ppn, BitVec.and_assoc]
  rfl

theorem setLeafFlags_leaf (hs : s.WellFormed M) (hflags : UsableFlags flags)
    (h : s.leafAt va = some (level, e)) (hl : level ≠ LEVEL_GIGA) :
    (s.setLeafFlags M va flags).2 = true ∧ (s.setLeafFlags M va flags).1.WellFormed M ∧
      ∀ v, (s.setLeafFlags M va flags).1.leafAt v =
        if leafBase level va = leafBase level v then some (level, reflaggedEntry e flags) else s.leafAt v := by
  obtain ⟨hcan, hleaf⟩ := leafAt_some h
  have hspec := setLeafFlags_spec hs (through_tablesFrom s.root va) hflags
  have htrue : (s.setLeafFlags M va flags).2 = true := by
    obtain ⟨t, hget, _⟩ := getLeafPte_of_leaf (M := M) hcan hleaf
    rw [setLeafFlags, vaRealPageLevel_leafAt, h, Option.map_some]
    simp only [hget, if_neg hl]
  rw [if_pos htrue] at hspec
  obtain ⟨_, k, e', hk, _, hchanges⟩ := hspec
  rw [hleaf] at hk
  cases hk
  exact ⟨htrue, WellFormed.changes hchanges, leafAt_changes hchanges (level_le h) hcan⟩

/-- The pages of a leaf keep their place and their RSW bits when its flags are rewritten. -/
theorem setLeafFlags_mapping (hs : s.WellFormed M) (hflags : UsableFlags flags)
    (h : s.leafAt va = some (level, e)) (hl : level ≠ LEVEL_GIGA) (v : Word) :
    (s.setLeafFlags M va flags).1.mapping v =
      if leafBase level va = leafBase level v then (s.mapping v).map (reflag flags) else s.mapping v := by
  rw [mapping, mapping, (setLeafFlags_leaf hs hflags h hl).2.2 v]
  by_cases hv : leafBase level va = leafBase level v
  · rw [if_pos hv, if_pos hv, leafAt_block h hv]
    simp only [Option.map_some, reflag, target, ppn_reflaggedEntry e hflags, flags_reflaggedEntry e hflags]
  · rw [if_neg hv, if_neg hv]

theorem setLeafFlags_megaAligned (hs : s.WellFormed M) (hal : s.MegaAligned) (hflags : UsableFlags flags)
    (h : s.leafAt va = some (level, e)) (hl : level ≠ LEVEL_GIGA) :
    (s.setLeafFlags M va flags).1.MegaAligned := by
  intro v e' hv
  rw [(setLeafFlags_leaf hs hflags h hl).2.2 v] at hv
  split at hv
  · cases hv
    rw [ppn_reflaggedEntry e hflags]
    exact hal va e h
  · exact hal v e' hv

/-! ## Splitting a leaf -/

theorem ppn_splitEntry (e : Word) (i : Fin 512) (hal : 512 ∣ (Pte.ppn e).toNat) :
    (Pte.ppn (splitEntry e i)).toNat = (Pte.ppn e).toNat + i.val := by
  have hppn : (Pte.ppn e).toNat < 2 ^ 36 := by
    rw [Pte.ppn, Pte.toNat_and_ppn_mask]
    exact Nat.mod_lt _ (by decide)
  have hbase : (Pte.ppn e &&& ~~~0x1ff).toNat = (Pte.ppn e).toNat / 2 ^ 9 * 2 ^ 9 :=
    BitFields.toNat_and_not_mask rfl
  have hi := i.isLt
  rw [splitEntry_eq, Pte.ppn_entry _ (splitFlags_lt e), Pte.toNat_and_ppn_mask, BitVec.toNat_add, hbase,
    BitVec.toNat_ofNat]
  omega

theorem flags_splitEntry {e : Word} (i : Fin 512) (hv : Pte.isValid e = true) :
    splitEntry e i &&& (0xff ||| PTE_RSW_MASK) = e &&& (0xff ||| PTE_RSW_MASK) := by
  have hset : e ||| Pte.V = e := by
    apply BitFields.or_twoPow_of_getLsbD (i := 0)
    by_contra hbit
    rw [Bool.not_eq_true, ← BitFields.and_twoPow_eq_zero (by decide)] at hbit
    rw [Pte.isValid, decide_eq_true_iff] at hv
    exact hv hbit
  rw [splitEntry_eq, Pte.entry_and _ _ (by decide), BitVec.and_or_distrib_right, BitVec.and_assoc]
  have hV : Pte.V &&& ((0xff : Word) ||| PTE_RSW_MASK) = Pte.V := rfl
  have hmm : ((0xff : Word) ||| PTE_RSW_MASK) &&& (0xff ||| PTE_RSW_MASK) = 0xff ||| PTE_RSW_MASK := rfl
  rw [hV, hmm]
  calc (e &&& (0xff ||| PTE_RSW_MASK)) ||| Pte.V
      = (e &&& (0xff ||| PTE_RSW_MASK)) ||| (Pte.V &&& (0xff ||| PTE_RSW_MASK)) := by rw [hV]
    _ = (e ||| Pte.V) &&& (0xff ||| PTE_RSW_MASK) := BitVec.and_or_distrib_right.symm
    _ = e &&& (0xff ||| PTE_RSW_MASK) := by rw [hset]

theorem splitMegaLeaf_leaf (hs : s.WellFormed M) (h : s.leafAt va = some (LEVEL_MEGA, e))
    (htrue : (s.splitMegaLeaf M va).2 = true) :
    (s.splitMegaLeaf M va).1.WellFormed M ∧
      ∀ v, (s.splitMegaLeaf M va).1.leafAt v =
        if leafBase LEVEL_MEGA va = leafBase LEVEL_MEGA v then
          some (LEVEL_PAGE, splitEntry e (getVpn v 2)) else s.leafAt v := by
  obtain ⟨hcan, hleaf⟩ := leafAt_some h
  rcases splitMegaLeaf_spec hs (through_tablesFrom s.root va) with ⟨_, hfail⟩ | ⟨_, _, e', he', hchanges⟩
  · rw [vaRealPageLevel_leafAt, h] at hfail
    rw [hfail rfl] at htrue
    cases htrue
  · rw [hleaf] at he'
    cases he'
    exact ⟨WellFormed.changes hchanges, leafAt_changes hchanges (level_le h) hcan⟩

/-- Splitting keeps every translation and all flags. -/
theorem splitMegaLeaf_mapping (hs : s.WellFormed M) (hal : s.MegaAligned)
    (h : s.leafAt va = some (LEVEL_MEGA, e)) (htrue : (s.splitMegaLeaf M va).2 = true) (v : Word) :
    (s.splitMegaLeaf M va).1.mapping v = s.mapping v := by
  rw [mapping, mapping, (splitMegaLeaf_leaf hs h htrue).2 v]
  by_cases hv : leafBase LEVEL_MEGA va = leafBase LEVEL_MEGA v
  · have hvalid := (leaf_slot (leafAt_some h).2).2.1
    have halign : 512 ∣ (Pte.ppn e).toNat := hal va e h
    rw [if_pos hv, leafAt_block h hv, Option.map_some, Option.map_some, flags_splitEntry _ hvalid]
    congr 2
    apply BitVec.eq_of_toNat_eq
    have hppn := ppn_splitEntry e (getVpn v 2) halign
    rw [getVpn_val le_rfl] at hppn
    have hdvd : 2 ^ offsetBits LEVEL_MEGA ∣ (Pte.ppn e).toNat * 4096 := by
      show 2097152 ∣ _
      omega
    rw [toNat_target hdvd, toNat_target (show 2 ^ offsetBits LEVEL_PAGE ∣ _ from Nat.dvd_mul_left _ _), hppn]
    show _ + v.toNat % 2 ^ 12 = _ + v.toNat % 2 ^ 21
    show (_ + v.toNat / 2 ^ 12 % 512) * 4096 + _ = _
    omega
  · rw [if_neg hv]

theorem splitMegaLeaf_megaAligned (hs : s.WellFormed M) (hal : s.MegaAligned)
    (h : s.leafAt va = some (LEVEL_MEGA, e)) (htrue : (s.splitMegaLeaf M va).2 = true) :
    (s.splitMegaLeaf M va).1.MegaAligned := by
  intro v e' hv
  rw [(splitMegaLeaf_leaf hs h htrue).2 v] at hv
  split at hv
  · cases hv
  · exact hal v e' hv

end Space

namespace MemSys

variable {M : Manager} {start stop flags : Word}

/-! ## One round -/

/-- The body of the loop: the state and the address to go on with, or the result. -/
def protectRound (M : Manager) (start stop flags : Word) (s : MemSys) (va : Word) :
    (MemSys × Word) ⊕ (MemSys × Word) :=
  if va < stop then
    match s.space.vaRealPageLevel va with
    | some 2 =>
      match s.onSpace (s.space.setLeafFlags M va flags) with
      | (s, false) => .inr (s, ENOMEM)
      | (s, true) => .inl (s, va + PAGE_SIZE)
    | some 1 =>
      let chunk := va &&& ~~~(CHUNK_2M_SIZE - 1)
      if start ≤ chunk ∧ stop ≥ chunk + CHUNK_2M_SIZE then
        match s.onSpace (s.space.setLeafFlags M va flags) with
        | (s, false) => .inr (s, ENOMEM)
        | (s, true) => .inl (s, va + CHUNK_2M_SIZE)
      else
        match s.onSpace (s.space.splitMegaLeaf M va) with
        | (s, false) => .inr (s, ENOMEM)
        | (s, true) => .inl (s, va)
    | _ => .inr (s, ENOMEM)
  else .inr (s, 0)

theorem protectFrom_succ (n : Nat) (s : MemSys) (va : Word) :
    protectFrom M start stop flags (n + 1) s va =
      match protectRound M start stop flags s va with
      | .inl next => protectFrom M start stop flags n next.1 next.2
      | .inr result => result := by
  rw [protectFrom, protectRound]
  by_cases hva : va < stop
  · rw [if_pos hva, if_pos hva]
    generalize s.space.vaRealPageLevel va = level
    generalize s.onSpace (s.space.setLeafFlags M va flags) = set
    generalize s.onSpace (s.space.splitMegaLeaf M va) = split
    obtain ⟨s₁, set⟩ := set
    obtain ⟨s₂, split⟩ := split
    obtain _ | _ | _ | _ | level := level
    · rfl
    · rfl
    · dsimp only
      split_ifs
      · cases set <;> rfl
      · cases split <;> rfl
    · cases set <;> rfl
    · rfl
  · rw [if_neg hva, if_neg hva]

/-- The loop comes to its result within `n` rounds. -/
def ProtectEnds (M : Manager) (start stop flags : Word) : Nat → MemSys → Word → Prop
  | 0, _, _ => False
  | n + 1, s, va =>
    match protectRound M start stop flags s va with
    | .inl next => ProtectEnds M start stop flags n next.1 next.2
    | .inr _ => True

/-- What holds where the loop meets `va`: a 2 MiB leaf is met at its first address, or where the range
starts. -/
structure Meets (M : Manager) (start : Word) (s : MemSys) (va : Word) : Prop where
  wellFormed : s.space.WellFormed M
  aligned : s.space.MegaAligned
  page : 4096 ∣ va.toNat
  base : ∀ e, s.space.leafAt va = some (LEVEL_MEGA, e) → va = start ∨ leafBase LEVEL_MEGA va = va

/-- A round that goes on. -/
inductive GoesOn (M : Manager) (stop flags : Word) (s : MemSys) (va : Word) : MemSys → Word → Prop where
  /-- The leaf at `va` starts there and lies in the range; its flags are rewritten. -/
  | rewrite (level : Nat) (e : Word) (hlevel : level ≠ LEVEL_GIGA) (hleaf : s.space.leafAt va = some (level, e))
      (hbase : leafBase level va = va) (hfits : va.toNat + 2 ^ offsetBits level ≤ stop.toNat) :
      GoesOn M stop flags s va { s with space := (s.space.setLeafFlags M va flags).1 } (va + leafPageSize level)
  /-- A 2 MiB leaf is split. -/
  | split (e : Word) (hleaf : s.space.leafAt va = some (LEVEL_MEGA, e))
      (htrue : (s.space.splitMegaLeaf M va).2 = true) :
      GoesOn M stop flags s va { s with space := (s.space.splitMegaLeaf M va).1 } va

theorem leafBase_page {va : Word} (hpage : 4096 ∣ va.toNat) : leafBase LEVEL_PAGE va = va := by
  apply BitVec.eq_of_toNat_eq
  rw [toNat_leafBase]
  exact Nat.div_mul_cancel hpage

theorem protectRound_cases {s : MemSys} {va : Word} (hm : Meets M start s va) (hflags : UsableFlags flags)
    (hstop : stop.toNat ≤ 2 ^ 38) (hstopPage : 4096 ∣ stop.toNat) :
    (¬ va < stop ∧ protectRound M start stop flags s va = .inr (s, 0)) ∨
      va < stop ∧ ((∃ s', protectRound M start stop flags s va = .inr (s', ENOMEM)) ∨
        ∃ s' va', protectRound M start stop flags s va = .inl (s', va') ∧ GoesOn M stop flags s va s' va') := by
  rw [protectRound]
  by_cases hva : va < stop
  · right
    refine ⟨hva, ?_⟩
    have hlt : va.toNat < stop.toNat := hva
    rw [if_pos hva, Space.vaRealPageLevel_leafAt]
    cases hleaf : s.space.leafAt va with
    | none => exact .inl ⟨s, rfl⟩
    | some r =>
      obtain ⟨level, e⟩ := r
      have hl := Space.level_le hleaf
      have hcases : level = 0 ∨ level = 1 ∨ level = 2 := by omega
      rcases hcases with rfl | rfl | rfl
      · exact .inl ⟨s, rfl⟩
      · have hchunk : va &&& ~~~(CHUNK_2M_SIZE - 1) = leafBase LEVEL_MEGA va := rfl
        have hle := leafBase_le LEVEL_MEGA va
        have hend : (leafBase LEVEL_MEGA va + CHUNK_2M_SIZE).toNat =
            (leafBase LEVEL_MEGA va).toNat + 2 ^ offsetBits LEVEL_MEGA := by
          rw [BitVec.toNat_add]
          exact Nat.mod_eq_of_lt (show _ + 2 ^ 21 < 2 ^ 64 by omega)
        by_cases hcover : start ≤ leafBase LEVEL_MEGA va ∧ stop ≥ leafBase LEVEL_MEGA va + CHUNK_2M_SIZE
        · right
          have hbase : leafBase LEVEL_MEGA va = va := by
            rcases hm.base e hleaf with rfl | hbase
            · exact BitVec.le_antisymm hle hcover.1
            · exact hbase
          obtain ⟨htrue, _⟩ := Space.setLeafFlags_leaf hm.wellFormed hflags hleaf (by decide)
          have hfits : va.toNat + 2 ^ offsetBits LEVEL_MEGA ≤ stop.toNat := by
            have := hcover.2
            rwa [ge_iff_le, BitVec.le_def, hend, hbase] at this
          refine ⟨_, _, ?_, .rewrite 1 e (by decide) hleaf hbase hfits⟩
          simp only [Option.map_some, onSpace, htrue, hchunk, if_pos hcover]
          rfl
        · cases htrue : (s.space.splitMegaLeaf M va).2 with
          | false =>
            left
            refine ⟨{ s with space := (s.space.splitMegaLeaf M va).1 }, ?_⟩
            simp only [Option.map_some, onSpace, htrue, hchunk, if_neg hcover]
          | true =>
            right
            refine ⟨_, _, ?_, .split e hleaf htrue⟩
            simp only [Option.map_some, onSpace, htrue, hchunk, if_neg hcover]
      · right
        obtain ⟨htrue, _⟩ := Space.setLeafFlags_leaf hm.wellFormed hflags hleaf (by decide)
        have hgo := @GoesOn.rewrite M stop flags _ _ 2 e (by decide) hleaf (leafBase_page hm.page)
          (show va.toNat + 4096 ≤ stop.toNat by have := hm.page; omega)
        refine ⟨_, _, ?_, hgo⟩
        simp only [Option.map_some, onSpace, htrue]
        rfl
  · exact .inl ⟨hva, if_neg hva⟩

section GoesOn

variable {s s' : MemSys} {va va' : Word} (h : GoesOn M stop flags s va s' va') (hm : Meets M start s va)
  (hflags : UsableFlags flags) (hstop : stop.toNat ≤ 2 ^ 38)

include h hstop

/-- The loop goes on at `va` or behind it, and not behind the range. -/
theorem GoesOn.next (hva : va < stop) : va.toNat ≤ va'.toNat ∧ va'.toNat ≤ stop.toNat := by
  have hlt : va.toNat < stop.toNat := hva
  cases h with
  | rewrite level e hlevel hleaf hbase hfits =>
    have hnext : (va + leafPageSize level).toNat = va.toNat + 2 ^ offsetBits level := by
      rw [BitVec.toNat_add, toNat_leafPageSize]
      exact Nat.mod_eq_of_lt (by omega)
    rw [hnext]
    exact ⟨Nat.le_add_right _ _, hfits⟩
  | split e hleaf htrue => exact ⟨le_rfl, Nat.le_of_lt hlt⟩

include hm hflags

theorem GoesOn.mapping (v : Word) :
    (va.toNat ≤ v.toNat ∧ v.toNat < va'.toNat → (s.space.mapping v).isSome = true) ∧
      s'.space.mapping v = if va.toNat ≤ v.toNat ∧ v.toNat < va'.toNat then
        (s.space.mapping v).map (reflag flags) else s.space.mapping v := by
  cases h with
  | rewrite level e hlevel hleaf hbase hfits =>
    have hend : (va + leafPageSize level).toNat = va.toNat + 2 ^ offsetBits level := by
      rw [BitVec.toNat_add, toNat_leafPageSize]
      exact Nat.mod_eq_of_lt (by omega)
    have hblock := @leafBase_eq_iff_mem level va v
    rw [hbase] at hblock
    simp only [hend, ← hblock]
    constructor
    · intro hv
      rw [Space.mapping, Space.leafAt_block hleaf (hbase.trans hv)]
      rfl
    · rw [Space.setLeafFlags_mapping hm.wellFormed hflags hleaf hlevel, hbase]
  | split e hleaf htrue =>
    constructor
    · intro hv
      omega
    · rw [if_neg (by omega)]
      exact Space.splitMegaLeaf_mapping hm.wellFormed hm.aligned hleaf htrue v

theorem GoesOn.meets : Meets M start s' va' := by
  cases h with
  | rewrite level e hlevel hleaf hbase hfits =>
    have hend : (va + leafPageSize level).toNat = va.toNat + 2 ^ offsetBits level := by
      rw [BitVec.toNat_add, toNat_leafPageSize]
      exact Nat.mod_eq_of_lt (by omega)
    obtain ⟨_, hs', hleaves⟩ := Space.setLeafFlags_leaf hm.wellFormed hflags hleaf hlevel
    constructor
    case wellFormed => exact hs'
    case aligned => exact Space.setLeafFlags_megaAligned hm.wellFormed hm.aligned hflags hleaf hlevel
    case page =>
      rw [hend]
      exact Nat.dvd_add hm.page (page_dvd_size level)
    case base =>
      intro e' hnext
      right
      -- a 2 MiB leaf that begins before would be the leaf that was rewritten
      by_contra hne
      have hout : ¬ leafBase level va = leafBase level (va + leafPageSize level) := by
        rw [leafBase_eq_iff_mem, hbase, hend]
        omega
      rw [hleaves, if_neg hout] at hnext
      have hpos := Nat.two_pow_pos (offsetBits level)
      have hle := leafBase_le LEVEL_MEGA (va + leafPageSize level)
      have hlt := lt_leafBase_add LEVEL_MEGA (va + leafPageSize level)
      have hne' : (leafBase LEVEL_MEGA (va + leafPageSize level)).toNat ≠ (va + leafPageSize level).toNat :=
        fun heq => hne (BitVec.eq_of_toNat_eq heq)
      by_cases hlow : va.toNat ≤ (leafBase LEVEL_MEGA (va + leafPageSize level)).toNat
      · apply hout
        apply leafBase_meet hleaf hnext
        rw [leafBase_eq_iff_mem, hbase]
        omega
      · have hsame : leafBase LEVEL_MEGA (va + leafPageSize level) = leafBase LEVEL_MEGA va := by
          rw [leafBase_eq_iff_mem]
          omega
        rw [Space.leafAt_block hnext hsame] at hleaf
        cases hleaf
        exact hout hsame.symm
  | split e hleaf htrue =>
    obtain ⟨hs', hleaves⟩ := Space.splitMegaLeaf_leaf hm.wellFormed hleaf htrue
    constructor
    case wellFormed => exact hs'
    case aligned => exact Space.splitMegaLeaf_megaAligned hm.wellFormed hm.aligned hleaf htrue
    case page => exact hm.page
    case base =>
      intro e' hnext
      rw [hleaves, if_pos rfl] at hnext
      cases hnext

end GoesOn

/-! ## The loop -/

/-- Two rounds for each page that is left, one less when the next page has a leaf of its own. -/
def Enough (stop : Word) (n : Nat) (s : MemSys) (va : Word) : Prop :=
  ∃ k, stop.toNat ≤ va.toNat + k * 4096 ∧
    (2 * k ≤ n ∨ 2 * k ≤ n + 1 ∧ ∃ e, s.space.leafAt va = some (LEVEL_PAGE, e))

theorem enough_zero {s : MemSys} {va : Word} (h : Enough stop 0 s va) : ¬ va < stop := by
  obtain ⟨k, hk, hn⟩ := h
  rw [BitVec.lt_def]
  omega

theorem GoesOn.enough {s s' : MemSys} {va va' : Word} {n : Nat} (h : GoesOn M stop flags s va s' va')
    (hm : Meets M start s va) (hstop : stop.toNat ≤ 2 ^ 38) (hva : va < stop) (he : Enough stop (n + 1) s va) :
    Enough stop n s' va' := by
  have hlt : va.toNat < stop.toNat := hva
  obtain ⟨k, hk, hn⟩ := he
  cases h with
  | rewrite level e hlevel hleaf hbase hfits =>
    have hend : (va + leafPageSize level).toNat = va.toNat + 2 ^ offsetBits level := by
      rw [BitVec.toNat_add, toNat_leafPageSize]
      exact Nat.mod_eq_of_lt (by omega)
    have hsize := Nat.le_of_dvd (Nat.two_pow_pos _) (page_dvd_size level)
    refine ⟨k - 1, by omega, ?_⟩
    omega
  | split e hleaf htrue =>
    have hn' : 2 * k ≤ n + 1 := by
      rcases hn with hn | ⟨_, e', he'⟩
      · exact hn
      · rw [hleaf] at he'
        cases he'
    refine ⟨k, hk, .inr ⟨hn', Space.splitEntry e (getVpn va 2), ?_⟩⟩
    rw [(Space.splitMegaLeaf_leaf hm.wellFormed hleaf htrue).2, if_pos rfl]

section Loop

variable (hflags : UsableFlags flags) (hstop : stop.toNat ≤ 2 ^ 38) (hstopPage : 4096 ∣ stop.toNat)

include hflags hstop hstopPage

theorem protect_ends {n : Nat} {s : MemSys} {va : Word} (hm : Meets M start s va) (he : Enough stop n s va) :
    ProtectEnds M start stop flags (n + 1) s va := by
  induction n generalizing s va with
  | zero =>
    rcases protectRound_cases hm hflags hstop hstopPage with ⟨_, hround⟩ | ⟨hva, _⟩
    · rw [ProtectEnds, hround]
      trivial
    · exact absurd hva (enough_zero he)
  | succ n ih =>
    rw [ProtectEnds]
    rcases protectRound_cases hm hflags hstop hstopPage with ⟨_, hround⟩ | ⟨hva, ⟨s', hround⟩ | ⟨s', va', hround, hgo⟩⟩
    · rw [hround]
      trivial
    · rw [hround]
      trivial
    · rw [hround]
      exact ih (hgo.meets hm hflags hstop) (hgo.enough hm hstop hva he)

/-- The result is 0 or `ENOMEM`, and 0 only when each page of the range has its new flags and every
other address is as before. -/
theorem protectFrom_spec {n : Nat} {s : MemSys} {va : Word} (hm : Meets M start s va) (he : Enough stop n s va) :
    (protectFrom M start stop flags n s va).2 = 0 ∧
        (protectFrom M start stop flags n s va).1.space.WellFormed M ∧
        (∀ v, va.toNat ≤ v.toNat ∧ v.toNat < stop.toNat → (s.space.mapping v).isSome = true) ∧
        (∀ v, (protectFrom M start stop flags n s va).1.space.mapping v =
          if va.toNat ≤ v.toNat ∧ v.toNat < stop.toNat then (s.space.mapping v).map (reflag flags)
          else s.space.mapping v) ∨
      (protectFrom M start stop flags n s va).2 = ENOMEM := by
  have hdone : ∀ {s : MemSys} {va : Word}, Meets M start s va → ¬ va < stop →
      (s.space.WellFormed M ∧
        (∀ v, va.toNat ≤ v.toNat ∧ v.toNat < stop.toNat → (s.space.mapping v).isSome = true) ∧
        ∀ v, s.space.mapping v = if va.toNat ≤ v.toNat ∧ v.toNat < stop.toNat then
          (s.space.mapping v).map (reflag flags) else s.space.mapping v) := by
    intro s va hm hge
    rw [BitVec.lt_def] at hge
    refine ⟨hm.wellFormed, fun v hv => absurd hv (by omega), fun v => ?_⟩
    rw [if_neg (by omega)]
  induction n generalizing s va with
  | zero => exact .inl ⟨rfl, hdone hm (enough_zero he)⟩
  | succ n ih =>
    rw [protectFrom_succ]
    rcases protectRound_cases hm hflags hstop hstopPage with
      ⟨hge, hround⟩ | ⟨hva, ⟨s', hround⟩ | ⟨s', va', hround, hgo⟩⟩
    · rw [hround]
      exact .inl ⟨rfl, hdone hm hge⟩
    · rw [hround]
      exact .inr rfl
    · have hlt : va.toNat < stop.toNat := hva
      rw [hround]
      rcases ih (hgo.meets hm hflags hstop) (hgo.enough hm hstop hva he) with ⟨hzero, hs', hsome, hmap⟩ | hfail
      · left
        have hbound := hgo.next hstop hva
        refine ⟨hzero, hs', fun v hv => ?_, fun v => ?_⟩
        · obtain ⟨hold, heq⟩ := hgo.mapping hm hflags hstop v
          by_cases hfirst : v.toNat < va'.toNat
          · exact hold ⟨hv.1, hfirst⟩
          · rw [if_neg (by omega)] at heq
            rw [← heq]
            exact hsome v ⟨by omega, hv.2⟩
        · rw [hmap v, (hgo.mapping hm hflags hstop v).2]
          by_cases hin : va.toNat ≤ v.toNat ∧ v.toNat < stop.toNat
          · rw [if_pos hin]
            by_cases hfirst : v.toNat < va'.toNat
            · rw [if_neg (by omega), if_pos (by omega)]
            · rw [if_pos (by omega), if_neg (by omega)]
          · rw [if_neg hin, if_neg (by omega), if_neg (by omega)]
      · exact .inr hfail

end Loop

end MemSys

end Pyremu.Sittim
