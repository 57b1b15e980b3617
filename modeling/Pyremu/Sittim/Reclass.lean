import Pyremu.Sittim.Mprotect

/-!
# Changing the class of partitions

`reclass_covered_partitions` checks all the partitions of a range and then asks
M mode for one after the other. M mode may refuse any of them, and what it
granted before stays.
-/

namespace Pyremu.Sittim

namespace MemSys

variable {M : Manager} {start stop : Word} {attr : MemAttr}

/-- Block `i` of a range. -/
def blockVa (start : Word) (i : Nat) : Word := start + BitVec.ofNat 64 i * CHUNK_2M_SIZE

theorem toNat_blockVa {i : Nat} (h : start.toNat + i * 2097152 < 2 ^ 64) :
    (blockVa start i).toNat = start.toNat + i * 2097152 := by
  have hmul : (BitVec.ofNat 64 i * CHUNK_2M_SIZE).toNat = i * 2097152 := by
    rw [BitVec.toNat_mul, BitVec.toNat_ofNat, show CHUNK_2M_SIZE.toNat = 2097152 from rfl, Nat.mod_mul_mod]
    exact Nat.mod_eq_of_lt (by omega)
  rw [blockVa, BitVec.toNat_add, hmul]
  exact Nat.mod_eq_of_lt h

theorem blockVa_succ (start : Word) (i : Nat) : blockVa start i + CHUNK_2M_SIZE = blockVa start (i + 1) := by
  rw [blockVa, blockVa, BitVec.ofNat_add, BitVec.add_mul, BitVec.add_assoc]
  rfl

/-- M mode's answer to the request for the class of block `i`, when it granted those before. -/
def Agrees (s : MemSys) (start : Word) (i : Nat) : Prop :=
  ∃ pa, s.space.getPa (blockVa start i) = some pa ∧ pa.toNat % 2 ^ 21 = 0 ∧
    s.mmode.consents[i]? = some true ∧ s.mmode.given (partitionOf pa) = true

/-! ## One partition -/

theorem isDedicated_single (pa : Word) :
    ((List.range 1).all fun i => isDedicatedPartition M (pa + BitVec.ofNat 64 i * CHUNK_2M_SIZE)) =
      isDedicatedPartition M pa := by
  have hzero : pa + BitVec.ofNat 64 0 * CHUNK_2M_SIZE = pa := by simp
  rw [List.range_one, List.all_cons, hzero, List.all_nil, Bool.and_true]

theorem aligned_iff_and (pa : Word) : pa &&& (CHUNK_2M_SIZE - 1) = 0 ↔ pa.toNat % 2 ^ 21 = 0 := by
  have hmask : (pa &&& (CHUNK_2M_SIZE - 1)).toNat = pa.toNat % 2 ^ 21 :=
    BitFields.toNat_and_mask (toNat_sub_one toNat_CHUNK_2M_SIZE)
  rw [← hmask]
  exact ⟨fun h => by rw [h]; rfl, fun h => BitVec.eq_of_toNat_eq h⟩

/-- M mode's answer for one partition. -/
theorem setMemAttr_cases (m : MMode) {pa : Word} (hal : pa.toNat % 2 ^ 21 = 0) :
    ((m.consents.head? = some true ∧ m.given (partitionOf pa) = true) ∧
        m.setMemAttr pa 1 attr = ({ m with
          consents := m.consents.tail
          cls := fun q => if q = partitionOf pa then attr else m.cls q }, true)) ∨
      ¬ (m.consents.head? = some true ∧ m.given (partitionOf pa) = true) ∧
        ∃ consents, m.setMemAttr pa 1 attr = ({ m with consents := consents }, false) := by
  have hone : ∀ q, partitionOf pa ≤ q ∧ q < partitionOf pa + (1 : Word).toNat ↔ q = partitionOf pa := by
    intro q
    show _ ∧ q < partitionOf pa + 1 ↔ _
    omega
  obtain ⟨offers, consents, given, cls⟩ := m
  have hall : ((List.range (1 : Word).toNat).all fun k => given (partitionOf pa + k)) =
      given (partitionOf pa) := by
    show (List.range 1).all _ = _
    rw [List.range_one, List.all_cons, List.all_nil, Bool.and_true]
    rfl
  rw [MMode.setMemAttr]
  cases consents with
  | nil =>
    right
    refine ⟨?_, [], rfl⟩
    rintro ⟨hnone, _⟩
    cases hnone
  | cons consent consents =>
    simp only [hone, hall, hal, List.head?_cons, Option.some.injEq, List.tail_cons, true_and]
    by_cases h : consent = true ∧ given (partitionOf pa) = true
    · rw [if_pos h]
      exact .inl ⟨h, rfl⟩
    · rw [if_neg h]
      exact .inr ⟨h, consents, rfl⟩

/-- The change of one dedicated partition: granted, or refused with every class as before. -/
theorem setPartitionAttr_cases {s : MemSys} {pa : Word} (hded : isDedicatedPartition M pa = true) :
    ((pa.toNat % 2 ^ 21 = 0 ∧ s.mmode.consents.head? = some true ∧ s.mmode.given (partitionOf pa) = true) ∧
      s.setPartitionAttr M pa CHUNK_2M_SIZE attr =
        ({ s with mmode := { s.mmode with
            consents := s.mmode.consents.tail
            cls := fun q => if q = partitionOf pa then attr else s.mmode.cls q } }, true)) ∨
      ¬ (pa.toNat % 2 ^ 21 = 0 ∧ s.mmode.consents.head? = some true ∧ s.mmode.given (partitionOf pa) = true) ∧
        ∃ consents, s.setPartitionAttr M pa CHUNK_2M_SIZE attr =
          ({ s with mmode := { s.mmode with consents := consents } }, false) := by
  have hcount : alignUp CHUNK_2M_SIZE CHUNK_2M_SIZE >>> CHUNK_2M_SHIFT = 1 := by decide
  have hall : ((List.range (1 : Word).toNat).all fun i =>
      isDedicatedPartition M (pa + BitVec.ofNat 64 i * CHUNK_2M_SIZE)) = true := by
    rw [← hded]
    exact isDedicated_single pa
  rw [setPartitionAttr]
  by_cases hal : pa.toNat % 2 ^ 21 = 0
  · rw [if_neg (not_not.mpr ((aligned_iff_and pa).mpr hal))]
    simp only [hcount, hall, hal, true_and]
    rw [if_neg (by decide), if_neg (by decide)]
    rcases @setMemAttr_cases attr s.mmode pa hal with ⟨hok, heq⟩ | ⟨hno, consents, heq⟩
    · exact .inl ⟨hok, by rw [heq]⟩
    · exact .inr ⟨hno, consents, by rw [heq]⟩
  · rw [if_pos (mt (aligned_iff_and pa).mp hal)]
    exact .inr ⟨fun h => hal h.1, s.mmode.consents, rfl⟩

/-! ## The loops -/

/-- Every block of the range is mapped, and none of it is shared with the manager. -/
theorem checkCovered_zero {s : MemSys} {n i : Nat} (h : s.checkCovered M stop n (blockVa start i) = 0)
    (hstop : stop.toNat ≤ 2 ^ 38) (hi : start.toNat + i * 2097152 ≤ stop.toNat + 2097152) (hn : stop.toNat < start.toNat + (i + n) * 2097152) {k : Nat} (hik : i ≤ k)
    (hk : start.toNat + k * 2097152 < stop.toNat) :
    ∃ pa, s.space.getPa (blockVa start k) = some pa ∧ isDedicatedPartition M pa = true := by
  induction n generalizing i with
  | zero => omega
  | succ n ih =>
    have hva : blockVa start i < stop := by
      rw [BitVec.lt_def, toNat_blockVa (by lia)]
      lia
    have hENOMEM : ¬ ENOMEM = 0 := by decide
    have hEINVAL : ¬ EINVAL = 0 := by decide
    rw [checkCovered, if_pos hva] at h
    cases hpa : s.space.getPa (blockVa start i) with
    | none =>
      simp only [hpa] at h
      exact absurd h hENOMEM
    | some pa =>
      simp only [hpa] at h
      cases hded : isDedicatedPartition M pa with
      | false =>
        simp only [hded, Bool.not_false, if_true] at h
        exact absurd h hEINVAL
      | true =>
        simp only [hded, Bool.not_true, Bool.false_eq_true, if_false] at h
        rw [blockVa_succ] at h
        by_cases hki : k = i
        · subst hki
          exact ⟨pa, hpa, hded⟩
        · exact ih h (by lia) (by lia) (by lia)

/-- The blocks from `i` to `k` have the class `attr`, all other partitions their old one. -/
structure Reclassed (s : MemSys) (start : Word) (attr : MemAttr) (i k : Nat) (old new : Nat → MemAttr) : Prop where
  changed : ∀ j, i ≤ j → j < k → ∀ pa, s.space.getPa (blockVa start j) = some pa → new (partitionOf pa) = attr
  kept : ∀ q, new q = old q ∨ new q = attr ∧ ∃ j pa, i ≤ j ∧ j < k ∧
    s.space.getPa (blockVa start j) = some pa ∧ partitionOf pa = q

/-- The requests go on to the first refusal, if there is one. -/
theorem changeCovered_spec {s t : MemSys} {n i : Nat} (hspace : t.space = s.space)
    (hgiven : t.mmode.given = s.mmode.given) (hconsents : t.mmode.consents = s.mmode.consents.drop i)
    (hstop : stop.toNat ≤ 2 ^ 38) (hi : start.toNat + i * 2097152 ≤ stop.toNat + 2097152)
    (hn : stop.toNat < start.toNat + (i + n) * 2097152)
    (hall : ∀ k, i ≤ k → start.toNat + k * 2097152 < stop.toNat →
      ∃ pa, s.space.getPa (blockVa start k) = some pa ∧ isDedicatedPartition M pa = true) :
    (changeCovered M attr stop n t (blockVa start i)).1.space = s.space ∧
      (((changeCovered M attr stop n t (blockVa start i)).2 = 0 ∧
          ∀ k, i ≤ k → start.toNat + k * 2097152 < stop.toNat → s.Agrees start k) ∨
        ∃ k, i ≤ k ∧ start.toNat + k * 2097152 < stop.toNat ∧ ¬ s.Agrees start k ∧
          (∀ j, i ≤ j → j < k → s.Agrees start j) ∧
          (changeCovered M attr stop n t (blockVa start i)).2 = EINVAL ∧
          s.Reclassed start attr i k t.mmode.cls (changeCovered M attr stop n t (blockVa start i)).1.mmode.cls) := by
  induction n generalizing t i with
  | zero =>
    refine ⟨hspace, .inl ⟨rfl, ?_⟩⟩
    intro k hik hk
    omega
  | succ n ih =>
    rw [changeCovered]
    by_cases hva : blockVa start i < stop
    · have hlt : start.toNat + i * 2097152 < stop.toNat := by
        rwa [BitVec.lt_def, toNat_blockVa (by lia)] at hva
      obtain ⟨pa, hpa, hded⟩ := hall i le_rfl hlt
      have hhead : t.mmode.consents.head? = s.mmode.consents[i]? := by
        rw [hconsents, List.head?_drop]
      have hagrees : s.Agrees start i ↔
          pa.toNat % 2 ^ 21 = 0 ∧ t.mmode.consents.head? = some true ∧ t.mmode.given (partitionOf pa) = true := by
        rw [Agrees, hhead, hgiven]
        constructor
        · rintro ⟨pa', hpa', h⟩
          rw [hpa] at hpa'
          cases hpa'
          exact h
        · exact fun h => ⟨pa, hpa, h⟩
      rw [if_pos hva, hspace, hpa]
      rcases @setPartitionAttr_cases M attr t pa hded with ⟨hok, heq⟩ | ⟨hno, consents, heq⟩
      · simp only [heq]
        rw [blockVa_succ]
        obtain ⟨hspace', hcases⟩ := ih (t := { t with mmode := { t.mmode with
            consents := t.mmode.consents.tail
            cls := fun q => if q = partitionOf pa then attr else t.mmode.cls q } }) (i := i + 1)
          hspace hgiven (by rw [hconsents, List.tail_drop]) (by lia) (by lia)
          (fun k hk => hall k (by lia))
        refine ⟨hspace', ?_⟩
        rcases hcases with ⟨hzero, hagree⟩ | ⟨k, hik, hk, hnot, hbefore, hres, hcls⟩
        · left
          refine ⟨hzero, fun k hik hk => ?_⟩
          by_cases hki : k = i
          · subst hki
            exact hagrees.mpr hok
          · exact hagree k (by lia) hk
        · right
          refine ⟨k, by lia, hk, hnot, fun j hij hjk => ?_, hres, ?_⟩
          · by_cases hji : j = i
            · subst hji
              exact hagrees.mpr hok
            · exact hbefore j (by lia) hjk
          · constructor
            · intro j hij hjk pa' hpa'
              by_cases hji : j = i
              · subst hji
                rw [hpa] at hpa'
                cases hpa'
                rcases hcls.kept (partitionOf pa) with hkeep | ⟨hnew, _⟩
                · rw [hkeep]
                  exact if_pos rfl
                · exact hnew
              · exact hcls.changed j (by lia) hjk pa' hpa'
            · intro q
              rcases hcls.kept q with hkeep | ⟨hnew, j, pa', hij, hjk, hpa', hq⟩
              · by_cases hq : q = partitionOf pa
                · right
                  rw [hkeep]
                  exact ⟨if_pos hq, i, pa, le_rfl, by lia, hpa, hq.symm⟩
                · left
                  rw [hkeep]
                  exact if_neg hq
              · exact .inr ⟨hnew, j, pa', by lia, hjk, hpa', hq⟩
      · simp only [heq]
        refine ⟨hspace, .inr ⟨i, le_rfl, hlt, mt hagrees.mp hno, ?_, trivial, ?_, ?_⟩⟩
        · intro j hij hji
          lia
        · intro j hij hji
          lia
        · exact fun q => .inl rfl
    · rw [if_neg hva]
      refine ⟨hspace, .inl ⟨rfl, ?_⟩⟩
      intro k hik hk
      rw [BitVec.lt_def, toNat_blockVa (by lia)] at hva
      lia

end MemSys

open MemSys

/-! ## The call -/

/-- Arguments that bring the call past its checks. -/
structure ProtectArgs (addr len prot : Word) : Prop where
  page : addr &&& (PAGE_SIZE - 1) = 0
  known : prot &&& ~~~(PROT_READ ||| PROT_WRITE ||| PROT_EXEC) = 0
  exclusive : prot &&& (PROT_WRITE ||| PROT_EXEC) ≠ PROT_WRITE ||| PROT_EXEC
  some : len ≠ 0
  range : isUmodeVaRange addr len = true

/-- A call that succeeds gives each page of the range the flags asked for over its RSW bits and changes
nothing else; the loop ends; a call that is refused changes no leaf and no class. -/
structure MprotectExact (M : Manager) (s : MemSys) (addr len prot : Word) : Prop where
  pages : (s.mprotectHandler M addr len prot).2 = 0 → ∀ v,
    if addr ≤ v ∧ v < alignUp (addr + len) PAGE_SIZE then
      ∃ pa f, s.space.getPa v = some pa ∧ s.space.leafPteFlags v = some f ∧
        (s.mprotectHandler M addr len prot).1.space.getPa v = some pa ∧
        (s.mprotectHandler M addr len prot).1.space.leafPteFlags v =
          some (protToPte prot ||| Pte.A ||| Pte.D ||| (f &&& PTE_RSW_MASK))
    else
      (s.mprotectHandler M addr len prot).1.space.getPa v = s.space.getPa v ∧
        (s.mprotectHandler M addr len prot).1.space.leafPteFlags v = s.space.leafPteFlags v
  ends : ProtectArgs addr len prot → ∀ t : MemSys, t.space = s.space →
    ProtectEnds M addr (alignUp (addr + len) PAGE_SIZE) (protToPte prot)
      (2 * pagesBetween addr (alignUp (addr + len) PAGE_SIZE)) t addr
  refused : (s.mprotectHandler M addr len prot).2 = EINVAL →
    (s.mprotectHandler M addr len prot).1.space = s.space ∧
      (s.mprotectHandler M addr len prot).1.mmode.cls = s.mmode.cls

/-- The class for the pages that `mprotect` is asked for. -/
def attrOfProt (prot : Word) : MemAttr := if prot &&& PROT_EXEC ≠ 0 then .instr else .data

/-- The call comes to asking M mode for the class of the partitions of its range. -/
structure AsksForClasses (M : Manager) (s : MemSys) (addr len prot : Word) : Prop where
  args : ProtectArgs addr len prot
  exec : s.rangeChangesExec addr (alignUp (addr + len) PAGE_SIZE) (decide (prot &&& PROT_EXEC ≠ 0)) = true
  aligned : addr &&& (CHUNK_2M_SIZE - 1) = 0 ∧ len &&& (CHUNK_2M_SIZE - 1) = 0
  checked : s.checkCovered M (alignUp (addr + len) PAGE_SIZE)
    (blocksBetween addr (alignUp (addr + len) PAGE_SIZE)) addr = 0

/-- The partitions before the first refusal have the class asked for already. -/
def NoPartialChange (s : MemSys) (start stop : Word) (attr : MemAttr) : Prop :=
  ∀ k, start.toNat + k * 2097152 < stop.toNat → ¬ s.Agrees start k → (∀ j < k, s.Agrees start j) →
    ∀ j < k, ∀ pa, s.space.getPa (blockVa start j) = some pa → s.mmode.cls (partitionOf pa) = attr

namespace MemSys

variable {s : MemSys} {addr len prot : Word}

theorem leafFlags_protToPte (prot : Word) :
    leafFlags (protToPte prot) = protToPte prot ||| Pte.A ||| Pte.D := by
  rw [protToPte]
  split_ifs <;> decide

/-- What the loop gives, as the call states it. -/
theorem protectFrom_call {t : MemSys} (hs : s.space.WellFormed M) (hal : s.space.MegaAligned)
    (hargs : ProtectArgs addr len prot) (ht : t.space = s.space) :
    (∃ r, protectFrom M addr (alignUp (addr + len) PAGE_SIZE) (protToPte prot)
        (2 * pagesBetween addr (alignUp (addr + len) PAGE_SIZE)) t addr = r ∧
      (r.2 = ENOMEM ∨ r.2 = 0 ∧ ∀ v,
        if addr ≤ v ∧ v < alignUp (addr + len) PAGE_SIZE then
          ∃ pa f, s.space.getPa v = some pa ∧ s.space.leafPteFlags v = some f ∧
            r.1.space.getPa v = some pa ∧
            r.1.space.leafPteFlags v = some (protToPte prot ||| Pte.A ||| Pte.D ||| (f &&& PTE_RSW_MASK))
        else r.1.space.getPa v = s.space.getPa v ∧ r.1.space.leafPteFlags v = s.space.leafPteFlags v)) ∧
      ProtectEnds M addr (alignUp (addr + len) PAGE_SIZE) (protToPte prot)
        (2 * pagesBetween addr (alignUp (addr + len) PAGE_SIZE)) t addr := by
  obtain ⟨hstop, hle⟩ := toNat_rangeEnd hargs.range
  have hpage := page_dvd_of_and hargs.page
  generalize alignUp (addr + len) PAGE_SIZE = stop at hstop ⊢
  have hm : Meets M addr t addr := by
    constructor
    · rw [ht]
      exact hs
    · rw [ht]
      exact hal
    · exact hpage
    · exact fun _ _ => .inl rfl
  have hflags := usableFlags_protToPte prot
  have hrounds : ∃ n, 2 * pagesBetween addr stop = n + 1 ∧ Enough stop n t addr := by
    refine ⟨2 * ((stop.toNat - addr.toNat) / 4096) + 1, ?_, (stop.toNat - addr.toNat) / 4096, ?_, .inl ?_⟩
    · rw [pagesBetween]
      omega
    · omega
    · omega
  obtain ⟨n, hn, he⟩ := hrounds
  have he' : Enough stop (n + 1) t addr := by
    obtain ⟨k, hk, hcase⟩ := he
    refine ⟨k, hk, ?_⟩
    rcases hcase with hcase | ⟨hcase, hleaf⟩
    · exact .inl (by omega)
    · exact .inr ⟨by omega, hleaf⟩
  rw [hn]
  refine ⟨⟨_, rfl, ?_⟩, protect_ends hflags (by omega) (by omega) hm he⟩
  rcases protectFrom_spec hflags (by omega) (by omega) hm he' with ⟨hzero, hs', hsome, hmap⟩ | hfail
  · right
    refine ⟨hzero, fun v => ?_⟩
    have hmapv := hmap v
    have hsomev := hsome v
    rw [ht] at hmapv hsomev
    rw [Space.getPa_mapping hs', Space.getPa_mapping hs, Space.leafPteFlags_mapping, Space.leafPteFlags_mapping]
    by_cases hv : addr ≤ v ∧ v < stop
    · obtain ⟨⟨pa, f⟩, hpf⟩ := Option.isSome_iff_exists.mp (hsomev hv)
      have hnew := hmapv.trans (if_pos hv)
      rw [hpf, Option.map_some, reflag, leafFlags_protToPte] at hnew
      rw [if_pos hv, hnew, hpf]
      exact ⟨pa, f, rfl, rfl, rfl, rfl⟩
    · rw [if_neg hv, hmapv.trans (if_neg hv)]
      exact ⟨rfl, rfl⟩
  · exact .inl hfail

/-- The change of classes that the call asks for: all granted, or stopped at the first refusal. -/
theorem reclass_call (hasks : AsksForClasses M s addr len prot) :
    ∃ t err, s.reclassCoveredPartitions M addr (alignUp (addr + len) PAGE_SIZE) (attrOfProt prot) = (t, err) ∧
      t.space = s.space ∧ ((err = 0 ∧ ∀ k, addr.toNat + k * 2097152 < (alignUp (addr + len) PAGE_SIZE).toNat →
          s.Agrees addr k) ∨ ∃ k, addr.toNat + k * 2097152 < (alignUp (addr + len) PAGE_SIZE).toNat ∧
        ¬ s.Agrees addr k ∧ (∀ j < k, s.Agrees addr j) ∧ err = EINVAL ∧
        s.Reclassed addr (attrOfProt prot) 0 k s.mmode.cls t.mmode.cls) := by
  obtain ⟨hstop, hle⟩ := toNat_rangeEnd hasks.args.range
  have hchecked := hasks.checked
  have hpage := page_dvd_of_and hasks.args.page
  generalize alignUp (addr + len) PAGE_SIZE = stop at hstop hchecked ⊢
  have hzero : blockVa addr 0 = addr := by simp [blockVa]
  have hrounds : stop.toNat < addr.toNat + (0 + blocksBetween addr stop) * 2097152 := by
    rw [blocksBetween]
    omega
  rw [← hzero] at hchecked
  have hall : ∀ k, 0 ≤ k → addr.toNat + k * 2097152 < stop.toNat →
      ∃ pa, s.space.getPa (blockVa addr k) = some pa ∧ isDedicatedPartition M pa = true :=
    fun k hk hlt => checkCovered_zero hchecked (by omega) (by lia) (by rwa [hzero]) hk hlt
  obtain ⟨hspace, hcases⟩ := @changeCovered_spec M addr stop (attrOfProt prot) s s _ 0 rfl rfl rfl (by omega)
    (by lia) hrounds hall
  rw [hzero] at hchecked hspace hcases
  refine ⟨_, (changeCovered M (attrOfProt prot) stop (blocksBetween addr stop) s addr).2, ?_, hspace, ?_⟩
  · rw [reclassCoveredPartitions]
    simp only [hchecked, ne_eq, not_true_eq_false, if_false]
  · rcases hcases with ⟨hres, hagree⟩ | ⟨k, _, hk, hnot, hbefore, hres, hcls⟩
    · exact .inl ⟨hres, fun k hk => hagree k (Nat.zero_le k) hk⟩
    · exact .inr ⟨k, hk, hnot, fun j hj => hbefore j (Nat.zero_le j) hj, hres, hcls⟩

/-- A call past its checks. -/
theorem mprotectHandler_args (hargs : ProtectArgs addr len prot) :
    s.mprotectHandler M addr len prot =
      if s.rangeChangesExec addr (alignUp (addr + len) PAGE_SIZE) (decide (prot &&& PROT_EXEC ≠ 0)) then
        if addr &&& (CHUNK_2M_SIZE - 1) ≠ 0 ∨ len &&& (CHUNK_2M_SIZE - 1) ≠ 0 then (s, EINVAL)
        else
          match s.reclassCoveredPartitions M addr (alignUp (addr + len) PAGE_SIZE) (attrOfProt prot) with
          | (s, err) =>
            if err ≠ 0 then (s, err)
            else protectFrom M addr (alignUp (addr + len) PAGE_SIZE) (protToPte prot)
              (2 * pagesBetween addr (alignUp (addr + len) PAGE_SIZE)) s addr
      else protectFrom M addr (alignUp (addr + len) PAGE_SIZE) (protToPte prot)
        (2 * pagesBetween addr (alignUp (addr + len) PAGE_SIZE)) s addr := by
  rw [mprotectHandler, if_neg (not_not.mpr hargs.page), if_neg (not_not.mpr hargs.known),
    if_neg hargs.exclusive, if_neg hargs.some, hargs.range]
  simp only [Bool.not_true, Bool.false_eq_true, if_false, decide_eq_true_eq, attrOfProt]
  rfl

/-- A call that does not get past them changes nothing. -/
theorem mprotectHandler_invalid (hargs : ¬ ProtectArgs addr len prot) :
    (s.mprotectHandler M addr len prot).1 = s ∧ ((s.mprotectHandler M addr len prot).2 = EINVAL ∨
      addr &&& (PAGE_SIZE - 1) = 0 ∧ len = 0) := by
  rw [mprotectHandler]
  by_cases hpage : addr &&& (PAGE_SIZE - 1) = 0
  · rw [if_neg (not_not.mpr hpage)]
    by_cases hknown : prot &&& ~~~(PROT_READ ||| PROT_WRITE ||| PROT_EXEC) = 0
    · rw [if_neg (not_not.mpr hknown)]
      by_cases hexcl : prot &&& (PROT_WRITE ||| PROT_EXEC) = PROT_WRITE ||| PROT_EXEC
      · rw [if_pos hexcl]
        exact ⟨rfl, .inl rfl⟩
      · rw [if_neg hexcl]
        by_cases hlen : len = 0
        · rw [if_pos hlen]
          exact ⟨rfl, .inr ⟨hpage, hlen⟩⟩
        · rw [if_neg hlen]
          cases hrange : isUmodeVaRange addr len with
          | false => exact ⟨rfl, .inl rfl⟩
          | true => exact absurd ⟨hpage, hknown, hexcl, hlen, hrange⟩ hargs
    · rw [if_pos hknown]
      exact ⟨rfl, .inl rfl⟩
  · rw [if_pos hpage]
    exact ⟨rfl, .inl rfl⟩

/-- A range of no bytes holds no page. -/
theorem empty_range (hpage : addr &&& (PAGE_SIZE - 1) = 0) (v : Word) :
    ¬ (addr ≤ v ∧ v < alignUp (addr + 0) PAGE_SIZE) := by
  have hdvd := page_dvd_of_and hpage
  have hlt := addr.isLt
  have hend : (alignUp addr PAGE_SIZE).toNat = addr.toNat := by
    rw [toNat_pageUp (by omega)]
    omega
  have hzero : addr + 0 = addr := BitVec.add_zero addr
  rw [hzero, BitVec.le_def, BitVec.lt_def, hend]
  omega

/-- The call ends in its loop, or before it with an error; `EINVAL` leaves everything as it was. -/
theorem mprotectHandler_ways (hargs : ProtectArgs addr len prot)
    (hcond : AsksForClasses M s addr len prot →
      NoPartialChange s addr (alignUp (addr + len) PAGE_SIZE) (attrOfProt prot)) :
    (∃ t, t.space = s.space ∧ s.mprotectHandler M addr len prot =
        protectFrom M addr (alignUp (addr + len) PAGE_SIZE) (protToPte prot)
          (2 * pagesBetween addr (alignUp (addr + len) PAGE_SIZE)) t addr) ∨
      ∃ t err, s.mprotectHandler M addr len prot = (t, err) ∧ err ≠ 0 ∧
        (err = EINVAL → t.space = s.space ∧ t.mmode.cls = s.mmode.cls) := by
  have hEINVAL : EINVAL ≠ 0 := by decide
  rw [mprotectHandler_args hargs]
  by_cases hexec : s.rangeChangesExec addr (alignUp (addr + len) PAGE_SIZE) (decide (prot &&& PROT_EXEC ≠ 0)) = true
  · rw [if_pos hexec]
    by_cases hmis : addr &&& (CHUNK_2M_SIZE - 1) ≠ 0 ∨ len &&& (CHUNK_2M_SIZE - 1) ≠ 0
    · rw [if_pos hmis]
      exact .inr ⟨s, EINVAL, rfl, hEINVAL, fun _ => ⟨rfl, rfl⟩⟩
    · rw [if_neg hmis]
      rw [not_or, not_not, not_not] at hmis
      by_cases hcheck : s.checkCovered M (alignUp (addr + len) PAGE_SIZE)
          (blocksBetween addr (alignUp (addr + len) PAGE_SIZE)) addr = 0
      · have hasks : AsksForClasses M s addr len prot := ⟨hargs, hexec, hmis, hcheck⟩
        obtain ⟨t, err, hreclass, hspace, ⟨rfl, _⟩ | ⟨k, hk, hnot, hbefore, rfl, hcls⟩⟩ := reclass_call hasks
        · rw [hreclass]
          exact .inl ⟨t, hspace, rfl⟩
        · rw [hreclass]
          refine .inr ⟨t, EINVAL, if_pos hEINVAL, hEINVAL, fun _ => ⟨hspace, ?_⟩⟩
          funext q
          rcases hcls.kept q with hkept | ⟨hnew, j, pa, _, hj, hpa, rfl⟩
          · exact hkept
          · rw [hnew, hcond hasks k hk hnot hbefore j hj pa hpa]
      · have hreclass : s.reclassCoveredPartitions M addr (alignUp (addr + len) PAGE_SIZE) (attrOfProt prot) =
            (s, s.checkCovered M (alignUp (addr + len) PAGE_SIZE)
              (blocksBetween addr (alignUp (addr + len) PAGE_SIZE)) addr) := by
          rw [reclassCoveredPartitions]
          exact if_pos hcheck
        rw [hreclass]
        exact .inr ⟨s, _, if_pos hcheck, hcheck, fun _ => ⟨rfl, rfl⟩⟩
  · rw [if_neg hexec]
    exact .inl ⟨s, rfl, rfl⟩

end MemSys

/-- `mprotect` does what it is asked for exactly when no refusal comes after a partition whose class
it changed. -/
theorem mprotect_exact_iff {M : Manager} {s : MemSys} {addr len prot : Word} (hs : s.space.WellFormed M)
    (hal : s.space.MegaAligned) :
    MprotectExact M s addr len prot ↔ (AsksForClasses M s addr len prot →
      NoPartialChange s addr (alignUp (addr + len) PAGE_SIZE) (attrOfProt prot)) := by
  constructor
  · intro hexact hasks k hk hnot hbefore j hj pa hpa
    obtain ⟨t, err, hreclass, _, ⟨_, hagree⟩ | ⟨k', hk', hnot', hbefore', herr, hcls⟩⟩ := reclass_call hasks
    · exact absurd (hagree k hk) hnot
    · -- both are the first refusal
      have hkk : k' = k := by
        rcases Nat.lt_trichotomy k' k with hlt | heq | hgt
        · exact absurd (hbefore k' hlt) hnot'
        · exact heq
        · exact absurd (hbefore' k hgt) hnot
      subst hkk
      have hEINVAL : EINVAL ≠ 0 := by decide
      have hcall : s.mprotectHandler M addr len prot = (t, EINVAL) := by
        rw [mprotectHandler_args hasks.args, if_pos hasks.exec,
          if_neg (not_or.mpr ⟨not_not.mpr hasks.aligned.1, not_not.mpr hasks.aligned.2⟩), hreclass, herr]
        exact if_pos hEINVAL
      have hkept := (hexact.refused (by rw [hcall])).2
      rw [hcall] at hkept
      rw [← hcls.changed j (Nat.zero_le j) hj pa hpa, ← hkept]
  · intro hcond
    by_cases hargs : ProtectArgs addr len prot
    · have hends := fun (t : MemSys) (ht : t.space = s.space) => (protectFrom_call hs hal hargs ht).2
      rcases mprotectHandler_ways (M := M) hargs hcond with ⟨t, ht, hcall⟩ | ⟨t, err, hcall, herr, hsame⟩
      · obtain ⟨⟨r, hr, hcases⟩, _⟩ := protectFrom_call (M := M) hs hal hargs ht
        rw [hr] at hcall
        constructor
        · intro hzero v
          rw [hcall] at hzero ⊢
          rcases hcases with hfail | ⟨_, hpages⟩
          · rw [hfail] at hzero
            exact absurd hzero (by decide)
          · exact hpages v
        · exact fun _ => hends
        · intro hinval
          rw [hcall] at hinval
          rcases hcases with hfail | ⟨hzero, _⟩
          · rw [hfail] at hinval
            exact absurd hinval (by decide)
          · rw [hzero] at hinval
            exact absurd hinval (by decide)
      · constructor
        · intro hzero
          rw [hcall] at hzero
          exact absurd hzero herr
        · exact fun _ => hends
        · intro hinval
          rw [hcall] at hinval ⊢
          exact hsame hinval
    · obtain ⟨hsame, hres⟩ := mprotectHandler_invalid (M := M) (s := s) hargs
      constructor
      · intro hzero v
        rw [hsame]
        have hempty : ¬ (addr ≤ v ∧ v < alignUp (addr + len) PAGE_SIZE) := by
          rcases hres with hres | ⟨hpage, rfl⟩
          · rw [hres] at hzero
            exact absurd hzero (by decide)
          · exact empty_range hpage v
        rw [if_neg hempty]
        exact ⟨rfl, rfl⟩
      · exact fun h => absurd h hargs
      · intro _
        rw [hsame]
        exact ⟨rfl, rfl⟩

/-- A page at the start of one block, and one at the start of the next that lies behind the start of
its partition, as two overlapping fixed mappings leave them. -/
def shifted : MemSys where
  space := (((Space.empty smallManager).mapPage smallManager UMODE_MMAP_BASE 0x90000000 (protToPte 3)
    LEVEL_PAGE).1.mapPage smallManager (UMODE_MMAP_BASE + CHUNK_2M_SIZE) 0x90201000 (protToPte 3) LEVEL_PAGE).1
  ctx := ⟨0, 0, 0, 0⟩
  mmode := ⟨[], [true, true], fun _ => true, fun _ => .data⟩

theorem mprotect_exact_shifted :
    MprotectExact smallManager shifted UMODE_MMAP_BASE (2 * CHUNK_2M_SIZE) 5 ↔
      (AsksForClasses smallManager shifted UMODE_MMAP_BASE (2 * CHUNK_2M_SIZE) 5 →
        NoPartialChange shifted UMODE_MMAP_BASE (alignUp (UMODE_MMAP_BASE + 2 * CHUNK_2M_SIZE) PAGE_SIZE)
          (attrOfProt 5)) := by
  have hflags := usableFlags_protToPte 3
  have hs := Space.wellFormed_empty smallManager
  have hal := Space.megaAligned_empty smallManager
  have hs₁ := @Space.WellFormed.mapPage _ _ hs UMODE_MMAP_BASE 0x90000000 _ LEVEL_PAGE (by decide) hflags
  exact mprotect_exact_iff (hs₁.mapPage (by decide) hflags)
    ((hal.mapPage hs (by decide) hflags (by decide)).mapPage hs₁ (by decide) hflags (by decide))

/-- The first partition has become one of instructions, the second is refused, and the call reports
`EINVAL`. -/
theorem mprotect_leaves_class : ¬ MprotectExact smallManager shifted UMODE_MMAP_BASE (2 * CHUNK_2M_SIZE) 5 := by
  intro h
  have hkept := (h.refused (by decide +kernel)).2
  exact absurd (congrFun hkept (partitionOf 0x90000000)) (by decide +kernel)

end Pyremu.Sittim
