import Pyremu.L2Cache

/-!
# The L2 cache is a flat memory

One relation between a cache and the flat memory it stands for. An entry leaves
by a write-back, a line enters an invalid entry, and a write patches a valid
line; every operation is a sequence of these.
-/

namespace Pyremu

namespace L2Cache

open Splice

variable {c c' : L2Cache} {flat : Nat → Byte} {idx i j addr size set tag : Nat} {data : List Byte}

/-- The line of every byte of an access lies in the RAM window. -/
def InRam (shape : L2Shape) (ram : DirectRam) (addr size : Nat) : Prop :=
  ∀ a, addr ≤ a → a < addr + max size 1 → ram.inRange (shape.lineAddr (shape.tagOf a)) shape.lineSize

/-- Shape and window stay. -/
structure Frame (c c' : L2Cache) : Prop where
  shape : c'.shape = c.shape
  base : c'.ram.base = c.ram.base
  size : c'.ram.size = c.ram.size

theorem Frame.refl (c : L2Cache) : Frame c c := ⟨rfl, rfl, rfl⟩

theorem Frame.trans {c'' : L2Cache} (h : Frame c c') (h' : Frame c' c'') : Frame c c'' :=
  ⟨h'.shape.trans h.shape, h'.base.trans h.base, h'.size.trans h.size⟩

theorem Frame.inRange (h : Frame c c') (a n : Nat) : c'.ram.inRange a n ↔ c.ram.inRange a n := by
  rw [DirectRam.inRange, DirectRam.inRange, h.base, h.size]

theorem Frame.inRam (h : Frame c c') : InRam c'.shape c'.ram addr size ↔ InRam c.shape c.ram addr size := by
  simp only [InRam, h.inRange, h.shape]

/-- The cache stands for the flat memory. -/
structure Coherent (c : L2Cache) (flat : Nat → Byte) : Prop where
  home : ∀ i < c.shape.numEntries, (c.entries i).valid = true → i / c.shape.ways = c.shape.setOf (c.entries i).tag
  index : ∀ tag i, c.tagToIdx.lookup tag = some i ↔
    i < c.shape.numEntries ∧ (c.entries i).valid = true ∧ (c.entries i).tag = tag
  inRam : ∀ i < c.shape.numEntries, (c.entries i).valid = true →
    c.ram.inRange ((c.entries i).tag * c.shape.lineSize) c.shape.lineSize
  line : ∀ i < c.shape.numEntries, (c.entries i).valid = true → ∀ j < c.shape.lineSize,
    (c.entries i).data j = flat ((c.entries i).tag * c.shape.lineSize + j)
  clean : ∀ i < c.shape.numEntries, (c.entries i).valid = true → (c.entries i).mesi ≠ .modified →
    ∀ j < c.shape.lineSize,
      c.ram.bytes ((c.entries i).tag * c.shape.lineSize + j) = flat ((c.entries i).tag * c.shape.lineSize + j)
  uncached : ∀ a, (∀ i < c.shape.numEntries, (c.entries i).valid = true → (c.entries i).tag ≠ a / c.shape.lineSize) →
    c.ram.bytes a = flat a

/-! ## Lines and addresses -/

theorem div_line (shape : L2Shape) (hj : j < shape.lineSize) : (tag * shape.lineSize + j) / shape.lineSize = tag := by
  rw [Nat.mul_comm, Nat.mul_add_div shape.lineSize_pos, Nat.div_eq_of_lt hj, Nat.add_zero]

theorem line_of_div (shape : L2Shape) (h : addr / shape.lineSize = tag) :
    ∃ j < shape.lineSize, addr = tag * shape.lineSize + j := by
  refine ⟨addr % shape.lineSize, Nat.mod_lt _ shape.lineSize_pos, ?_⟩
  rw [← h, Nat.mul_comm]
  exact (Nat.div_add_mod addr shape.lineSize).symm

theorem entry_lt (shape : L2Shape) (hset : set < shape.numSets) (hi : i < shape.ways) :
    set * shape.ways + i < shape.numEntries := by
  have h : (set + 1) * shape.ways ≤ shape.numSets * shape.ways := Nat.mul_le_mul_right _ hset
  rw [Nat.add_mul, Nat.one_mul] at h
  rw [L2Shape.numEntries]
  omega

theorem entry_div (shape : L2Shape) (hi : i < shape.ways) : (set * shape.ways + i) / shape.ways = set := by
  rw [Nat.mul_comm, Nat.mul_add_div shape.ways_pos, Nat.div_eq_of_lt hi, Nat.add_zero]

theorem Coherent.unique (h : Coherent c flat) (hi : i < c.shape.numEntries) (hj : j < c.shape.numEntries)
    (hvi : (c.entries i).valid = true) (hvj : (c.entries j).valid = true)
    (ht : (c.entries i).tag = (c.entries j).tag) : i = j := by
  have h1 := (h.index (c.entries j).tag i).mpr ⟨hi, hvi, ht⟩
  have h2 := (h.index (c.entries j).tag j).mpr ⟨hj, hvj, rfl⟩
  rw [h1] at h2
  exact Option.some.inj h2

theorem hit_some (h : c.hit set tag = some i) :
    i < c.shape.ways ∧ (c.entries (set * c.shape.ways + i)).valid = true ∧
      (c.entries (set * c.shape.ways + i)).tag = tag := by
  have hmem := List.mem_range.mp (List.mem_of_find?_eq_some h)
  have hp := List.find?_some h
  simp only [Bool.and_eq_true, beq_iff_eq] at hp
  exact ⟨hmem, hp.1, hp.2⟩

/-- A tag that its set does not hold is nowhere. -/
theorem Coherent.hit_none (h : Coherent c flat) (hn : c.hit (c.shape.setOf tag) tag = none) :
    ∀ i < c.shape.numEntries, (c.entries i).valid = true → (c.entries i).tag ≠ tag := by
  intro i hi hv ht
  have hhome := h.home i hi hv
  rw [ht] at hhome
  have hlt : i % c.shape.ways < c.shape.ways := Nat.mod_lt _ c.shape.ways_pos
  have hidx : c.shape.setOf tag * c.shape.ways + i % c.shape.ways = i := by
    rw [← hhome, Nat.mul_comm]
    exact Nat.div_add_mod i c.shape.ways
  have hnone := List.find?_eq_none.mp hn (i % c.shape.ways) (List.mem_range.mpr hlt)
  rw [hidx] at hnone
  simp [hv, ht] at hnone

theorem pickVictimInSet_lt (c : L2Cache) (set : Nat) : c.pickVictimInSet set < c.shape.ways := by
  rw [pickVictimInSet]
  split
  · rename_i i h
    exact List.mem_range.mp (List.mem_of_find?_eq_some h)
  · have hfold : ∀ (l : List Nat) (best : Nat × Nat), best.1 < c.shape.ways → (∀ i ∈ l, i < c.shape.ways) →
        (l.foldl (c.older set) best).1 < c.shape.ways := by
      intro l
      induction l with
      | nil => exact fun best hb _ => hb
      | cons i l ih =>
        intro best hb hl
        apply ih _ _ fun k hk => hl k (List.mem_cons_of_mem i hk)
        rw [older]
        split_ifs
        · exact hb
        · exact hl i List.mem_cons_self
    exact hfold _ _ c.shape.ways_pos fun i hi => List.mem_range.mp hi

/-! ## What an entry and a line may do -/

section Moves

/-- Fields that coherence does not look at. -/
theorem Coherent.congr (h : Coherent c flat) (hs : c'.shape = c.shape) (hr : c'.ram = c.ram)
    (hx : c'.tagToIdx = c.tagToIdx)
    (he : ∀ i, (c'.entries i).tag = (c.entries i).tag ∧ (c'.entries i).valid = (c.entries i).valid ∧
      (c'.entries i).mesi = (c.entries i).mesi ∧ (c'.entries i).data = (c.entries i).data) : Coherent c' flat := by
  constructor
  · intro i hi hv
    rw [hs] at hi ⊢
    rw [(he i).2.1] at hv
    rw [(he i).1]
    exact h.home i hi hv
  · intro tag i
    rw [hx, hs, (he i).1, (he i).2.1]
    exact h.index tag i
  · intro i hi hv
    rw [hs] at hi ⊢
    rw [(he i).2.1] at hv
    rw [hr, (he i).1]
    exact h.inRam i hi hv
  · intro i hi hv j hj
    rw [hs] at hi hj ⊢
    rw [(he i).2.1] at hv
    rw [(he i).2.2.2, (he i).1]
    exact h.line i hi hv j hj
  · intro i hi hv hm j hj
    rw [hs] at hi hj ⊢
    rw [(he i).2.1] at hv
    rw [(he i).2.2.1] at hm
    rw [hr, (he i).1]
    exact h.clean i hi hv hm j hj
  · intro a ha
    rw [hr]
    apply h.uncached
    intro i hi hv
    rw [hs] at ha
    have := ha i hi
    rw [(he i).1, (he i).2.1] at this
    exact this hv

/-- A write-back makes the line in RAM that of the flat memory. -/
theorem Coherent.onEvict (h : Coherent c flat) (hi : idx < c.shape.numEntries) (hv : (c.entries idx).valid = true) :
    (c.onEvict idx).base = c.ram.base ∧ (c.onEvict idx).size = c.ram.size ∧
      ∀ a, (c.onEvict idx).bytes a =
        if a / c.shape.lineSize = (c.entries idx).tag then flat a else c.ram.bytes a := by
  rw [L2Cache.onEvict]
  by_cases hm : (c.entries idx).mesi = .modified
  · rw [if_pos hm, c.shape.lineAddr_eq, DirectRam.write_inRange (by rw [slice_length]; exact h.inRam idx hi hv)]
    refine ⟨rfl, rfl, ?_⟩
    intro a
    apply (patch_slice a).trans
    by_cases ha : a / c.shape.lineSize = (c.entries idx).tag
    · obtain ⟨j, hj, rfl⟩ := line_of_div c.shape ha
      rw [if_pos (by omega), if_pos ha, Nat.add_sub_cancel_left, Nat.zero_add]
      exact h.line idx hi hv j hj
    · rw [if_neg ha, if_neg]
      rintro ⟨hge, hlt⟩
      apply ha
      obtain ⟨j, rfl⟩ := Nat.exists_eq_add_of_le hge
      exact div_line c.shape (by omega)
  · rw [if_neg hm]
    refine ⟨rfl, rfl, ?_⟩
    intro a
    by_cases ha : a / c.shape.lineSize = (c.entries idx).tag
    · obtain ⟨j, hj, rfl⟩ := line_of_div c.shape ha
      rw [if_pos ha]
      exact h.clean idx hi hv hm j hj
    · rw [if_neg ha]

/-- A valid entry leaves after its write-back. -/
theorem Coherent.release (h : Coherent c flat) (hi : idx < c.shape.numEntries) (hv : (c.entries idx).valid = true)
    (hs : c'.shape = c.shape) (hr : c'.ram = c.onEvict idx)
    (hx : c'.tagToIdx = c.tagToIdx.erase (c.entries idx).tag) (he : ∀ i, i ≠ idx → c'.entries i = c.entries i)
    (hgone : (c'.entries idx).valid = false) : Coherent c' flat ∧ Frame c c' := by
  obtain ⟨hbase, hsize, hbytes⟩ := h.onEvict hi hv
  have hne : ∀ i, (c'.entries i).valid = true → i ≠ idx := by
    rintro i hvi rfl
    rw [hgone] at hvi
    cases hvi
  have hwindow : ∀ a n, c'.ram.inRange a n ↔ c.ram.inRange a n := by
    intro a n
    rw [hr, DirectRam.inRange, DirectRam.inRange, hbase, hsize]
  have htag : ∀ i < c.shape.numEntries, i ≠ idx → (c.entries i).valid = true →
      (c.entries i).tag ≠ (c.entries idx).tag :=
    fun i hlt hni hvi ht => hni (h.unique hlt hi hvi hv ht)
  refine ⟨?_, hs, by rw [hr, hbase], by rw [hr, hsize]⟩
  constructor
  · intro i hlt hvi
    rw [hs] at hlt ⊢
    have hi' := he i (hne i hvi)
    rw [hi'] at hvi ⊢
    exact h.home i hlt hvi
  · intro tag i
    rw [hx, hs]
    by_cases ht : tag = (c.entries idx).tag
    · subst ht
      rw [AList.lookup_erase]
      apply iff_of_false (fun hc => by cases hc)
      rintro ⟨hlt, hvi, heq⟩
      have hni := hne i hvi
      rw [he i hni] at hvi heq
      exact htag i hlt hni hvi heq
    · rw [AList.lookup_erase_ne ht, h.index]
      by_cases hni : i = idx
      · subst hni
        apply iff_of_false
        · exact fun hc => ht hc.2.2.symm
        · exact fun hc => by
            rw [hgone] at hc
            cases hc.2.1
      · rw [he i hni]
  · intro i hlt hvi
    rw [hs] at hlt ⊢
    have hi' := he i (hne i hvi)
    rw [hi'] at hvi ⊢
    exact (hwindow _ _).mpr (h.inRam i hlt hvi)
  · intro i hlt hvi j hj
    rw [hs] at hlt hj ⊢
    have hi' := he i (hne i hvi)
    rw [hi'] at hvi ⊢
    exact h.line i hlt hvi j hj
  · intro i hlt hvi hm j hj
    rw [hs] at hlt hj ⊢
    have hni := hne i hvi
    rw [he i hni] at hvi hm ⊢
    rw [hr, hbytes, div_line c.shape hj, if_neg (htag i hlt hni hvi)]
    exact h.clean i hlt hvi hm j hj
  · intro a ha
    rw [hs] at ha
    rw [hr, hbytes]
    by_cases hline : a / c.shape.lineSize = (c.entries idx).tag
    · rw [if_pos hline]
    · rw [if_neg hline]
      apply h.uncached
      intro i hlt hvi
      by_cases hni : i = idx
      · rw [hni]
        exact fun heq => hline heq.symm
      · have := ha i hlt
        rw [he i hni] at this
        exact this hvi

/-- A line that is nowhere enters an invalid entry of its set. -/
theorem Coherent.install (h : Coherent c flat) (hi : idx < c.shape.numEntries) (hv : (c.entries idx).valid = false)
    (hhome : idx / c.shape.ways = c.shape.setOf tag)
    (hnew : ∀ i < c.shape.numEntries, (c.entries i).valid = true → (c.entries i).tag ≠ tag)
    (hram : c.ram.inRange (tag * c.shape.lineSize) c.shape.lineSize) (hs : c'.shape = c.shape) (hr : c'.ram = c.ram)
    (hx : c'.tagToIdx = c.tagToIdx.insert tag idx) (he : ∀ i, i ≠ idx → c'.entries i = c.entries i)
    (htag : (c'.entries idx).tag = tag)
    (hdata : ∀ j < c.shape.lineSize, (c'.entries idx).data j = c.ram.bytes (tag * c.shape.lineSize + j))
    (hvalid : (c'.entries idx).valid = true) : Coherent c' flat := by
  have hline : ∀ j < c.shape.lineSize, c.ram.bytes (tag * c.shape.lineSize + j) = flat (tag * c.shape.lineSize + j) := by
    intro j hj
    apply h.uncached
    rw [div_line c.shape hj]
    exact hnew
  constructor
  · intro i hlt hvi
    rw [hs] at hlt ⊢
    by_cases hni : i = idx
    · rw [hni, htag, hhome]
    · rw [he i hni] at hvi ⊢
      exact h.home i hlt hvi
  · intro t i
    rw [hx, hs]
    by_cases ht : t = tag
    · subst ht
      rw [AList.lookup_insert]
      constructor
      · intro heq
        cases heq
        exact ⟨hi, hvalid, htag⟩
      · rintro ⟨hlt, hvi, heq⟩
        by_cases hni : i = idx
        · rw [hni]
        · rw [he i hni] at hvi heq
          exact absurd heq (hnew i hlt hvi)
    · rw [AList.lookup_insert_ne ht, h.index]
      by_cases hni : i = idx
      · subst hni
        apply iff_of_false
        · rintro ⟨_, hvi, _⟩
          rw [hv] at hvi
          cases hvi
        · rintro ⟨_, _, heq⟩
          exact ht (heq.symm.trans htag)
      · rw [he i hni]
  · intro i hlt hvi
    rw [hs] at hlt ⊢
    rw [hr]
    by_cases hni : i = idx
    · rw [hni, htag]
      exact hram
    · rw [he i hni] at hvi ⊢
      exact h.inRam i hlt hvi
  · intro i hlt hvi j hj
    rw [hs] at hlt hj ⊢
    by_cases hni : i = idx
    · rw [hni, htag, hdata j hj, hline j hj]
    · rw [he i hni] at hvi ⊢
      exact h.line i hlt hvi j hj
  · intro i hlt hvi hm j hj
    rw [hs] at hlt hj ⊢
    rw [hr]
    by_cases hni : i = idx
    · rw [hni, htag, hline j hj]
    · rw [he i hni] at hvi hm ⊢
      exact h.clean i hlt hvi hm j hj
  · intro a ha
    rw [hs] at ha
    rw [hr]
    apply h.uncached
    intro i hlt hvi
    have hni : i ≠ idx := by
      rintro rfl
      rw [hv] at hvi
      cases hvi
    have := ha i hlt
    rw [he i hni] at this
    exact this hvi

/-- A write within a valid line is a write of the flat memory. -/
theorem Coherent.put (h : Coherent c flat) (hi : idx < c.shape.numEntries) (hv : (c.entries idx).valid = true)
    {offset : Nat} (hlen : offset + data.length ≤ c.shape.lineSize) :
    Coherent (c.put idx offset data)
        (patch flat ((c.entries idx).tag * c.shape.lineSize + offset) data) ∧
      Frame c (c.put idx offset data) := by
  have hother : ∀ i, i ≠ idx → (c.put idx offset data).entries i = c.entries i :=
    fun i hni => Function.update_of_ne hni _ _
  have hself : (c.put idx offset data).entries idx =
      { c.entries idx with
        data := patch (c.entries idx).data offset data
        dirty := true
        mesi := .modified
        mdid := c.currentMdid
        lastAccess := c.clock } := Function.update_self _ _ _
  have hvalid : ((c.put idx offset data).entries idx).valid = true := by
    rw [hself]
    exact hv
  have htag : ((c.put idx offset data).entries idx).tag = (c.entries idx).tag := by
    rw [hself]
  -- bytes of another line are not written
  have houtside : ∀ a, a / c.shape.lineSize ≠ (c.entries idx).tag →
      patch flat ((c.entries idx).tag * c.shape.lineSize + offset) data a = flat a := by
    intro a ha
    by_cases hlt : a < (c.entries idx).tag * c.shape.lineSize + offset
    · exact patch_of_lt hlt
    · apply patch_of_ge
      by_contra hge
      apply ha
      obtain ⟨j, rfl⟩ : ∃ j, a = (c.entries idx).tag * c.shape.lineSize + j :=
        ⟨a - (c.entries idx).tag * c.shape.lineSize, by omega⟩
      exact div_line c.shape (by omega)
  have hne : ∀ i < c.shape.numEntries, i ≠ idx → (c.entries i).valid = true →
      (c.entries i).tag ≠ (c.entries idx).tag :=
    fun i hlt hni hvi ht => hni (h.unique hlt hi hvi hv ht)
  refine ⟨?_, rfl, rfl, rfl⟩
  constructor
  · intro i hlt hvi
    by_cases hni : i = idx
    · subst hni
      rw [htag]
      exact h.home i hlt hv
    · rw [hother i hni] at hvi ⊢
      exact h.home i hlt hvi
  · intro t i
    by_cases hni : i = idx
    · subst hni
      rw [htag, hvalid]
      have hold := h.index t i
      rw [hv] at hold
      exact hold
    · rw [hother i hni]
      exact h.index t i
  · intro i hlt hvi
    by_cases hni : i = idx
    · subst hni
      rw [htag]
      exact h.inRam i hlt hv
    · rw [hother i hni] at hvi ⊢
      exact h.inRam i hlt hvi
  · intro i hlt hvi j hj
    by_cases hni : i = idx
    · subst hni
      rw [htag, hself]
      have hold := h.line i hlt hv j hj
      change patch (c.entries i).data offset data j = _
      rw [patch, hold]
      change _ = patch flat _ data _
      rw [patch]
      by_cases hoff : offset ≤ j
      · rw [if_pos hoff, if_pos (by change _ ≤ (c.entries i).tag * c.shape.lineSize + j; omega)]
        congr 2
        change _ = (c.entries i).tag * c.shape.lineSize + j - _
        omega
      · rw [if_neg hoff, if_neg (by change ¬ _ ≤ (c.entries i).tag * c.shape.lineSize + j; omega)]
        rfl
    · rw [hother i hni] at hvi ⊢
      change _ = patch flat _ data ((c.entries i).tag * c.shape.lineSize + j)
      rw [houtside _ (by rw [div_line c.shape hj]; exact hne i hlt hni hvi)]
      exact h.line i hlt hvi j hj
  · intro i hlt hvi hm j hj
    by_cases hni : i = idx
    · subst hni
      rw [hself] at hm
      exact absurd rfl hm
    · rw [hother i hni] at hvi hm ⊢
      change c.ram.bytes _ = patch flat _ data ((c.entries i).tag * c.shape.lineSize + j)
      rw [houtside _ (by rw [div_line c.shape hj]; exact hne i hlt hni hvi)]
      exact h.clean i hlt hvi hm j hj
  · intro a ha
    change c.ram.bytes a = _
    have hidx : (c.entries idx).tag ≠ a / c.shape.lineSize := by
      have := ha idx hi hvalid
      rw [htag] at this
      exact this
    rw [houtside a fun heq => hidx heq.symm]
    apply h.uncached
    intro i hlt hvi
    by_cases hni : i = idx
    · rw [hni]
      exact hidx
    · have := ha i hlt
      rw [hother i hni] at this
      exact this hvi

end Moves

/-! ## Accesses within a line -/

section Chunks

/-- What `allocate` leaves: the line is in its entry, as RAM had it for the flat memory. -/
theorem Coherent.allocate (h : Coherent c flat) (hmiss : c.hit (c.shape.setOf (c.shape.tagOf addr)) (c.shape.tagOf addr) = none)
    (hram : c.ram.inRange (c.shape.lineAddr (c.shape.tagOf addr)) c.shape.lineSize) :
    let r := c.allocate addr (c.shape.setOf (c.shape.tagOf addr)) (c.shape.tagOf addr)
    Coherent r.2 flat ∧ Frame c r.2 ∧ r.1 < c.shape.numEntries ∧ (r.2.entries r.1).valid = true ∧
      (r.2.entries r.1).tag = c.shape.tagOf addr := by
  intro r
  have hway := pickVictimInSet_lt c (c.shape.setOf (c.shape.tagOf addr))
  have hidx : r.1 < c.shape.numEntries := entry_lt c.shape (c.shape.setOf_lt _) hway
  have hhome : r.1 / c.shape.ways = c.shape.setOf (c.shape.tagOf addr) := entry_div c.shape hway
  -- the victim leaves first
  let mid : L2Cache :=
    { c with
      ram := if (c.entries r.1).valid then c.onEvict r.1 else c.ram
      tagToIdx := if (c.entries r.1).valid then c.tagToIdx.erase (c.entries r.1).tag else c.tagToIdx
      entries := Function.update c.entries r.1 { c.entries r.1 with valid := false } }
  have hmidself : mid.entries r.1 = { c.entries r.1 with valid := false } := Function.update_self _ _ _
  have hmidother : ∀ i, i ≠ r.1 → mid.entries i = c.entries i := fun i hi => Function.update_of_ne hi _ _
  have hmidgone : (mid.entries r.1).valid = false := by rw [hmidself]
  have hmid : Coherent mid flat ∧ Frame c mid := by
    by_cases hv : (c.entries r.1).valid = true
    · exact h.release hidx hv rfl (if_pos hv) (if_pos hv) hmidother hmidgone
    · have hram' : mid.ram = c.ram := if_neg hv
      refine ⟨?_, rfl, by rw [hram'], by rw [hram']⟩
      apply h.congr
      · rfl
      · exact hram'
      · exact if_neg hv
      · intro i
        by_cases hi : i = r.1
        · rw [hi, hmidself]
          exact ⟨rfl, (Bool.eq_false_of_not_eq_true hv).symm, rfl, rfl⟩
        · rw [hmidother i hi]
          exact ⟨rfl, rfl, rfl, rfl⟩
  obtain ⟨hmid, hframe⟩ := hmid
  have hnew : ∀ i < mid.shape.numEntries, (mid.entries i).valid = true → (mid.entries i).tag ≠ c.shape.tagOf addr := by
    intro i hi hv
    by_cases hir : i = r.1
    · rw [hir, hmidgone] at hv
      cases hv
    · rw [hmidother i hir] at hv ⊢
      exact h.hit_none hmiss i hi hv
  have hself : r.2.entries r.1 =
      { tag := c.shape.tagOf addr
        valid := true
        dirty := false
        lastAccess := c.clock
        mdid := c.currentMdid
        mesi := .exclusive
        data := fun j => (mid.ram.read (c.shape.lineAddr (c.shape.tagOf addr)) c.shape.lineSize).getD j 0 } :=
    Function.update_self _ _ _
  rw [c.shape.lineAddr_eq] at hram
  have hwindow : mid.ram.inRange (c.shape.tagOf addr * c.shape.lineSize) c.shape.lineSize := (hframe.inRange _ _).mpr hram
  have hdata : ∀ j < mid.shape.lineSize, (r.2.entries r.1).data j =
      mid.ram.bytes (c.shape.tagOf addr * mid.shape.lineSize + j) := by
    intro j hj
    change j < c.shape.lineSize at hj
    rw [hself]
    change (mid.ram.read (c.shape.lineAddr (c.shape.tagOf addr)) c.shape.lineSize).getD j 0 = _
    rw [c.shape.lineAddr_eq, DirectRam.read_inRange hwindow, List.getD_eq_getElem?_getD, getElem?_slice, if_pos hj]
    rfl
  have hcoh : Coherent r.2 flat := by
    apply hmid.install hidx hmidgone hhome hnew hwindow
    · rfl
    · rfl
    · rfl
    · intro i hi
      have h1 : r.2.entries i = c.entries i := Function.update_of_ne hi _ _
      rw [h1, hmidother i hi]
    · rw [hself]
    · exact hdata
    · rw [hself]
  have hframe' : Frame c r.2 := ⟨rfl, hframe.base, hframe.size⟩
  exact ⟨hcoh, hframe', hidx, by rw [hself], by rw [hself]⟩

theorem Coherent.touch (h : Coherent c flat) (idx : Nat) : Coherent (c.touch idx) flat := by
  have hself : (c.touch idx).entries idx =
      { c.entries idx with lastAccess := c.clock, mdid := c.currentMdid } := Function.update_self _ _ _
  have hother : ∀ i, i ≠ idx → (c.touch idx).entries i = c.entries i := fun i hi => Function.update_of_ne hi _ _
  apply h.congr
  · rfl
  · rfl
  · rfl
  · intro i
    by_cases hi : i = idx
    · rw [hi, hself]
      exact ⟨rfl, rfl, rfl, rfl⟩
    · rw [hother i hi]
      exact ⟨rfl, rfl, rfl, rfl⟩

/-- A slice of a line's data is a slice of the flat memory. -/
theorem Coherent.slice_line (h : Coherent c flat) (hi : idx < c.shape.numEntries) (hv : (c.entries idx).valid = true)
    (ht : (c.entries idx).tag = c.shape.tagOf addr) (hlen : c.shape.offsetOf addr + size ≤ c.shape.lineSize) :
    slice (c.entries idx).data (c.shape.offsetOf addr) size = slice flat addr size := by
  apply slice_congr
  intro j hj
  rw [h.line idx hi hv _ (by omega), ht, ← Nat.add_assoc]
  have haddr := c.shape.lineAddr_add_offset addr
  rw [c.shape.lineAddr_eq] at haddr
  rw [haddr]

theorem Coherent.readChunk (h : Coherent c flat) (hlen : c.shape.offsetOf addr + size ≤ c.shape.lineSize)
    (hram : c.ram.inRange (c.shape.lineAddr (c.shape.tagOf addr)) c.shape.lineSize) :
    (c.readChunk addr size).1 = slice flat addr size ∧ Coherent (c.readChunk addr size).2 flat ∧
      Frame c (c.readChunk addr size).2 := by
  rw [L2Cache.readChunk]
  cases hhit : c.hit (c.shape.setOf (c.shape.tagOf addr)) (c.shape.tagOf addr) with
  | some i =>
    obtain ⟨hway, hv, ht⟩ := hit_some hhit
    have hidx := entry_lt c.shape (c.shape.setOf_lt (c.shape.tagOf addr)) hway
    refine ⟨h.slice_line hidx hv ht hlen, ?_, rfl, rfl, rfl⟩
    exact h.touch _
  | none =>
    obtain ⟨hcoh, hframe, hidx, hv, ht⟩ := h.allocate hhit hram
    have hslice := @Coherent.slice_line _ _ _ _ size hcoh (by rwa [hframe.shape]) hv (by rwa [hframe.shape])
      (by rwa [hframe.shape])
    rw [hframe.shape] at hslice
    exact ⟨hslice, hcoh, hframe⟩

theorem Coherent.writeChunk (h : Coherent c flat) (hlen : c.shape.offsetOf addr + data.length ≤ c.shape.lineSize)
    (hram : c.ram.inRange (c.shape.lineAddr (c.shape.tagOf addr)) c.shape.lineSize) :
    Coherent (c.writeChunk addr data) (patch flat addr data) ∧ Frame c (c.writeChunk addr data) := by
  have haddr := c.shape.lineAddr_add_offset addr
  rw [c.shape.lineAddr_eq] at haddr
  rw [L2Cache.writeChunk]
  cases hhit : c.hit (c.shape.setOf (c.shape.tagOf addr)) (c.shape.tagOf addr) with
  | some i =>
    obtain ⟨hway, hv, ht⟩ := hit_some hhit
    have hput := h.put (entry_lt c.shape (c.shape.setOf_lt (c.shape.tagOf addr)) hway) hv hlen
    rw [ht, haddr] at hput
    exact hput
  | none =>
    obtain ⟨hcoh, hframe, hidx, hv, ht⟩ := h.allocate hhit hram
    have hput := hcoh.put (by rwa [hframe.shape]) hv (by rwa [hframe.shape])
    rw [ht, hframe.shape, haddr] at hput
    exact ⟨hput.1, hframe.trans hput.2⟩

end Chunks

/-! ## Accesses of any length -/

section Accesses

theorem InRam.line {shape : L2Shape} {ram : DirectRam} (h : InRam shape ram addr size) :
    ram.inRange (shape.lineAddr (shape.tagOf addr)) shape.lineSize := h addr (le_refl _) (by omega)

theorem Coherent.tick (h : Coherent c flat) : Coherent { c with clock := c.clock + 1 } flat :=
  h.congr rfl rfl rfl fun _ => ⟨rfl, rfl, rfl, rfl⟩

theorem Coherent.readLines (h : Coherent c flat) (hram : size ≠ 0 → InRam c.shape c.ram addr size) :
    (c.readLines addr size).1 = slice flat addr size ∧ Coherent (c.readLines addr size).2 flat ∧
      Frame c (c.readLines addr size).2 := by
  induction size using Nat.strong_induction_on generalizing c addr with
  | _ size ih =>
    unfold L2Cache.readLines
    by_cases h0 : size = 0
    · rw [if_pos h0, h0]
      exact ⟨rfl, h, .refl c⟩
    · rw [if_neg h0]
      have hoff := c.shape.offsetOf_lt addr
      have hin := hram h0
      generalize hchunk : min size (c.shape.lineSize - c.shape.offsetOf addr) = chunk
      obtain ⟨hval, hcoh, hframe⟩ := h.readChunk (by omega : c.shape.offsetOf addr + chunk ≤ c.shape.lineSize) hin.line
      have hrest : size - chunk ≠ 0 →
          InRam (c.readChunk addr chunk).2.shape (c.readChunk addr chunk).2.ram (addr + chunk) (size - chunk) := by
        intro _
        rw [hframe.inRam]
        intro a ha hlt
        exact hin a (by omega) (by omega)
      obtain ⟨hval', hcoh', hframe'⟩ := ih (size - chunk) (by omega) hcoh hrest
      refine ⟨?_, hcoh', hframe.trans hframe'⟩
      change (c.readChunk addr chunk).1 ++ ((c.readChunk addr chunk).2.readLines (addr + chunk) (size - chunk)).1 = _
      rw [hval, hval', ← slice_add, Nat.add_sub_cancel' (by omega)]

theorem Coherent.read (h : Coherent c flat) (hram : InRam c.shape c.ram addr size) :
    (c.read addr size).1 = slice flat addr size ∧ Coherent (c.read addr size).2 flat ∧
      Frame c (c.read addr size).2 := by
  rw [L2Cache.read]
  by_cases hone : c.shape.offsetOf addr + size ≤ c.shape.lineSize
  · have hstep := h.tick.readChunk hone hram.line
    rw [if_pos hone]
    exact ⟨hstep.1, hstep.2.1, hstep.2.2.shape, hstep.2.2.base, hstep.2.2.size⟩
  · have hstep := h.tick.readLines fun _ => hram
    rw [if_neg hone]
    exact ⟨hstep.1, hstep.2.1, hstep.2.2.shape, hstep.2.2.base, hstep.2.2.size⟩

theorem Coherent.writeLines (h : Coherent c flat) (hram : data ≠ [] → InRam c.shape c.ram addr data.length) :
    Coherent (c.writeLines addr data) (patch flat addr data) ∧ Frame c (c.writeLines addr data) := by
  induction hn : data.length using Nat.strong_induction_on generalizing c flat addr data with
  | _ n ih =>
    unfold L2Cache.writeLines
    by_cases h0 : data = []
    · rw [if_pos h0, h0, patch_nil]
      exact ⟨h, .refl c⟩
    · rw [if_neg h0]
      have hoff := c.shape.offsetOf_lt addr
      have hpos : 0 < data.length := List.length_pos_of_ne_nil h0
      have hin := hram h0
      generalize hchunk : min data.length (c.shape.lineSize - c.shape.offsetOf addr) = chunk
      have hlen : (data.take chunk).length = chunk := by
        rw [List.length_take]
        omega
      obtain ⟨hcoh, hframe⟩ := h.writeChunk
        (by rw [hlen]; omega : c.shape.offsetOf addr + (data.take chunk).length ≤ c.shape.lineSize) hin.line
      have hrest : data.drop chunk ≠ [] → InRam (c.writeChunk addr (data.take chunk)).shape
          (c.writeChunk addr (data.take chunk)).ram (addr + chunk) (data.drop chunk).length := by
        intro hne
        have hpos' := List.length_pos_of_ne_nil hne
        rw [List.length_drop] at hpos' ⊢
        rw [hframe.inRam]
        intro a ha hlt
        exact hin a (by omega) (by omega)
      obtain ⟨hcoh', hframe'⟩ := ih (data.drop chunk).length (by rw [List.length_drop]; omega) hcoh hrest rfl
      refine ⟨?_, hframe.trans hframe'⟩
      have hpatch := patch_append flat addr (data.take chunk) (data.drop chunk)
      rw [hlen, List.take_append_drop] at hpatch
      rw [← hpatch]
      exact hcoh'

theorem Coherent.write (h : Coherent c flat) (hram : InRam c.shape c.ram addr data.length) :
    Coherent (c.write addr data) (patch flat addr data) ∧ Frame c (c.write addr data) := by
  rw [L2Cache.write]
  by_cases hone : c.shape.offsetOf addr + data.length ≤ c.shape.lineSize
  · have hstep := h.tick.writeChunk hone hram.line
    rw [if_pos hone]
    exact ⟨hstep.1, hstep.2.shape, hstep.2.base, hstep.2.size⟩
  · have hstep := h.tick.writeLines fun _ => hram
    rw [if_neg hone]
    exact ⟨hstep.1, hstep.2.shape, hstep.2.base, hstep.2.size⟩

end Accesses

/-! ## Flushes -/

section Flushes

theorem Coherent.invalidate (h : Coherent c flat) (addr : Nat) :
    Coherent (c.invalidate addr) flat ∧ Frame c (c.invalidate addr) := by
  rw [L2Cache.invalidate]
  cases hlook : c.tagToIdx.lookup (c.shape.tagOf addr) with
  | none => exact ⟨h, .refl c⟩
  | some idx =>
    obtain ⟨hi, hv, ht⟩ := (h.index _ _).mp hlook
    have hgood : ¬ ((c.entries idx).valid = false ∨ (c.entries idx).tag ≠ c.shape.tagOf addr) := by
      rintro (hf | hne)
      · rw [hv] at hf
        cases hf
      · exact hne ht
    simp only [if_neg hgood]
    apply h.release hi hv
    · rfl
    · rfl
    · rw [ht]
    · exact fun i hi => Function.update_of_ne hi _ _
    · exact congrArg L2CacheLine.valid (Function.update_self idx _ c.entries)

/-- Writing a line back and keeping it clean. -/
theorem Coherent.flushEntry (h : Coherent c flat) (n : Nat) {p : Sigma fun _ : Nat => Nat}
    (hp : c.tagToIdx.lookup p.1 = some p.2) :
    let c' := (L2Cache.flushEntry (c, n) p).1
    Coherent c' flat ∧ Frame c c' ∧ c'.tagToIdx = c.tagToIdx ∧ (c'.entries p.2).mesi ≠ .modified ∧
      ∀ i, (c.entries i).mesi ≠ .modified → (c'.entries i).mesi ≠ .modified := by
  obtain ⟨hi, hv, ht⟩ := (h.index _ _).mp hp
  by_cases hm : (c.entries p.2).mesi ≠ .modified
  · have heq : L2Cache.flushEntry (c, n) p = (c, n) := if_pos hm
    rw [heq]
    exact ⟨h, .refl c, rfl, hm, fun _ hmi => hmi⟩
  · intro c'
    obtain ⟨hbase, hsize, hbytes⟩ := h.onEvict hi hv
    have heq : c' = { c with
        ram := c.onEvict p.2
        entries := Function.update c.entries p.2
          { c.entries p.2 with mesi := .exclusive, dirty := false } } :=
      congrArg Prod.fst (if_neg hm)
    have hself : c'.entries p.2 = { c.entries p.2 with mesi := .exclusive, dirty := false } := by
      rw [heq]
      exact Function.update_self _ _ _
    have hother : ∀ i, i ≠ p.2 → c'.entries i = c.entries i := by
      intro i hne
      rw [heq]
      exact Function.update_of_ne hne _ _
    have hfields : ∀ i, (c'.entries i).tag = (c.entries i).tag ∧ (c'.entries i).valid = (c.entries i).valid ∧
        (c'.entries i).data = (c.entries i).data := by
      intro i
      by_cases hip : i = p.2
      · rw [hip, hself]
        exact ⟨rfl, rfl, rfl⟩
      · rw [hother i hip]
        exact ⟨rfl, rfl, rfl⟩
    have hram : c'.ram = c.onEvict p.2 := by rw [heq]
    have hshape : c'.shape = c.shape := by rw [heq]
    have hindex : c'.tagToIdx = c.tagToIdx := by rw [heq]
    have hwindow : ∀ a m, c'.ram.inRange a m ↔ c.ram.inRange a m := by
      intro a m
      rw [hram, DirectRam.inRange, DirectRam.inRange, hbase, hsize]
    refine ⟨?_, ⟨hshape, by rw [hram, hbase], by rw [hram, hsize]⟩, hindex, ?_, ?_⟩
    · constructor
      · intro i hlt hvi
        rw [hshape] at hlt ⊢
        rw [(hfields i).2.1] at hvi
        rw [(hfields i).1]
        exact h.home i hlt hvi
      · intro t i
        rw [hindex, hshape, (hfields i).1, (hfields i).2.1]
        exact h.index t i
      · intro i hlt hvi
        rw [hshape] at hlt ⊢
        rw [(hfields i).2.1] at hvi
        rw [hwindow, (hfields i).1]
        exact h.inRam i hlt hvi
      · intro i hlt hvi j hj
        rw [hshape] at hlt hj ⊢
        rw [(hfields i).2.1] at hvi
        rw [(hfields i).1, (hfields i).2.2]
        exact h.line i hlt hvi j hj
      · intro i hlt hvi hmi j hj
        rw [hshape] at hlt hj ⊢
        rw [(hfields i).2.1] at hvi
        rw [hram, hbytes, (hfields i).1, div_line c.shape hj]
        by_cases hip : (c.entries i).tag = (c.entries p.2).tag
        · rw [if_pos hip]
        · have hne : i ≠ p.2 := fun heq => hip (by rw [heq])
          rw [hother i hne] at hmi
          rw [if_neg hip]
          exact h.clean i hlt hvi hmi j hj
      · intro a ha
        rw [hshape] at ha
        rw [hram, hbytes]
        split_ifs
        · rfl
        · apply h.uncached
          intro i hlt hvi
          have := ha i hlt
          rw [(hfields i).1, (hfields i).2.1] at this
          exact this hvi
    · rw [hself]
      exact fun hc => by cases hc
    · intro i hmi
      by_cases hip : i = p.2
      · rw [hip, hself]
        exact fun hc => by cases hc
      · rw [hother i hip]
        exact hmi

theorem Coherent.foldl_flushEntry (l : List (Sigma fun _ : Nat => Nat)) (h : Coherent c flat) (n : Nat)
    (hl : ∀ p ∈ l, c.tagToIdx.lookup p.1 = some p.2) :
    let c' := (l.foldl L2Cache.flushEntry (c, n)).1
    Coherent c' flat ∧ Frame c c' ∧ c'.tagToIdx = c.tagToIdx ∧ (∀ p ∈ l, (c'.entries p.2).mesi ≠ .modified) ∧
      ∀ i, (c.entries i).mesi ≠ .modified → (c'.entries i).mesi ≠ .modified := by
  induction l generalizing c n with
  | nil => exact ⟨h, .refl c, rfl, fun p hp => absurd hp List.not_mem_nil, fun _ hm => hm⟩
  | cons p l ih =>
    obtain ⟨hcoh, hframe, hindex, hp, hkeep⟩ := h.flushEntry n (hl p List.mem_cons_self)
    have hrest : ∀ q ∈ l, (L2Cache.flushEntry (c, n) p).1.tagToIdx.lookup q.1 = some q.2 := by
      intro q hq
      rw [hindex]
      exact hl q (List.mem_cons_of_mem p hq)
    obtain ⟨hcoh', hframe', hindex', hdone, hkeep'⟩ := ih hcoh (L2Cache.flushEntry (c, n) p).2 hrest
    refine ⟨hcoh', hframe.trans hframe', hindex'.trans hindex, ?_, fun i hm => hkeep' i (hkeep i hm)⟩
    intro q hq
    rcases List.mem_cons.mp hq with rfl | hq
    · exact hkeep' q.2 hp
    · exact hdone q hq

/-- After `flush_all` no valid line is modified, and RAM is the flat memory. -/
theorem Coherent.flushAll (h : Coherent c flat) :
    Coherent c.flushAll.1 flat ∧ Frame c c.flushAll.1 ∧ c.flushAll.1.ram.bytes = flat := by
  obtain ⟨hcoh, hframe, hindex, hdone, -⟩ := h.foldl_flushEntry c.tagToIdx.entries 0
    fun p hp => AList.mem_lookup_iff.mpr hp
  refine ⟨hcoh, hframe, ?_⟩
  funext a
  by_cases hline : ∃ i < c.flushAll.1.shape.numEntries, (c.flushAll.1.entries i).valid = true ∧
      (c.flushAll.1.entries i).tag = a / c.flushAll.1.shape.lineSize
  · obtain ⟨i, hi, hv, ht⟩ := hline
    have hlook := (hcoh.index (c.flushAll.1.entries i).tag i).mpr ⟨hi, hv, rfl⟩
    rw [hindex] at hlook
    have hclean := hdone ⟨_, i⟩ (AList.mem_lookup_iff.mp hlook)
    obtain ⟨j, hj, rfl⟩ := line_of_div c.flushAll.1.shape ht.symm
    exact hcoh.clean i hi hv hclean j hj
  · exact hcoh.uncached a fun i hi hv ht => hline ⟨i, hi, hv, ht⟩

/-- `invalidate_all` leaves no valid line and does not touch RAM. -/
theorem foldl_dropEntry (l : List (Sigma fun _ : Nat => Nat)) (c : L2Cache) (n : Nat) :
    let c' := (l.foldl dropEntry (c, n)).1
    c'.shape = c.shape ∧ c'.ram = c.ram ∧ ∀ i, (c'.entries i).valid = true →
      (c.entries i).valid = true ∧ ∀ p ∈ l, p.2 ≠ i := by
  induction l generalizing c n with
  | nil => exact ⟨rfl, rfl, fun i hv => ⟨hv, fun p hp => absurd hp List.not_mem_nil⟩⟩
  | cons p l ih =>
    obtain ⟨hs, hr, hv⟩ := ih (dropEntry (c, n) p).1 (dropEntry (c, n) p).2
    refine ⟨hs, hr, ?_⟩
    intro i hvi
    obtain ⟨hmid, hl⟩ := hv i hvi
    have hne : i ≠ p.2 := by
      rintro rfl
      have hgone : ((dropEntry (c, n) p).1.entries p.2).valid = false :=
        congrArg L2CacheLine.valid (Function.update_self p.2 _ c.entries)
      rw [hgone] at hmid
      cases hmid
    have hsame : (dropEntry (c, n) p).1.entries i = c.entries i := Function.update_of_ne hne _ _
    rw [hsame] at hmid
    refine ⟨hmid, ?_⟩
    intro q hq
    rcases List.mem_cons.mp hq with rfl | hq
    · exact hne.symm
    · exact hl q hq

theorem invalidateAll_empty
    (hindex : ∀ i < c.shape.numEntries, (c.entries i).valid = true → c.tagToIdx.lookup (c.entries i).tag = some i) :
    ∀ i < c.shape.numEntries, ¬ (c.invalidateAll.1.entries i).valid = true := by
  obtain ⟨-, -, hv⟩ := foldl_dropEntry c.tagToIdx.entries c 0
  intro i hi hvi
  obtain ⟨hvalid, hdone⟩ := hv i hvi
  exact hdone ⟨_, i⟩ (AList.mem_lookup_iff.mp (hindex i hi hvalid)) rfl

theorem Coherent.invalidateAll {other : Nat → Byte}
    (hindex : ∀ i < c.shape.numEntries, (c.entries i).valid = true → c.tagToIdx.lookup (c.entries i).tag = some i)
    (hram : c.ram.bytes = other) : Coherent c.invalidateAll.1 other ∧ Frame c c.invalidateAll.1 := by
  obtain ⟨hs, hr, -⟩ := foldl_dropEntry c.tagToIdx.entries c 0
  have hshape : c.invalidateAll.1.shape = c.shape := hs
  have hbytes : c.invalidateAll.1.ram = c.ram := hr
  have hempty := invalidateAll_empty hindex
  rw [← hshape] at hempty
  refine ⟨?_, hshape, by rw [hbytes], by rw [hbytes]⟩
  constructor
  · exact fun i hi hvi => absurd hvi (hempty i hi)
  · intro t i
    apply iff_of_false
    · intro hlook
      have hnone : c.invalidateAll.1.tagToIdx.lookup t = none := AList.lookup_empty t
      rw [hnone] at hlook
      cases hlook
    · exact fun hc => hempty i hc.1 hc.2.1
  · exact fun i hi hvi => absurd hvi (hempty i hi)
  · exact fun i hi hvi => absurd hvi (hempty i hi)
  · exact fun i hi hvi => absurd hvi (hempty i hi)
  · intro a _
    rw [hbytes, hram]

theorem Coherent.flushMdidEntry (h : Coherent c flat) (mdid n : Nat) {idx : Nat} (hi : idx < c.shape.numEntries) :
    Coherent (L2Cache.flushMdidEntry mdid (c, n) idx).1 flat ∧ Frame c (L2Cache.flushMdidEntry mdid (c, n) idx).1 := by
  by_cases hm : (c.entries idx).valid = true ∧ (c.entries idx).mdid = mdid
  · have heq : (L2Cache.flushMdidEntry mdid (c, n) idx).1 = { c with
        ram := c.onEvict idx
        tagToIdx := c.tagToIdx.erase (c.entries idx).tag
        entries := Function.update c.entries idx { c.entries idx with valid := false, tag := 0, dirty := false } } :=
      congrArg Prod.fst (if_neg (not_not.mpr hm))
    rw [heq]
    apply h.release hi hm.1
    · rfl
    · rfl
    · rfl
    · exact fun i hne => Function.update_of_ne hne _ _
    · exact congrArg L2CacheLine.valid (Function.update_self idx _ c.entries)
  · have heq : (L2Cache.flushMdidEntry mdid (c, n) idx).1 = c := congrArg Prod.fst (if_pos hm)
    rw [heq]
    exact ⟨h, .refl c⟩

theorem Coherent.flushByMdid (h : Coherent c flat) (mdid : Nat) :
    Coherent (c.flushByMdid mdid).1 flat ∧ Frame c (c.flushByMdid mdid).1 := by
  have hfold : ∀ (l : List Nat) (c : L2Cache) (n : Nat), Coherent c flat → (∀ i ∈ l, i < c.shape.numEntries) →
      Coherent (l.foldl (L2Cache.flushMdidEntry mdid) (c, n)).1 flat ∧
        Frame c (l.foldl (L2Cache.flushMdidEntry mdid) (c, n)).1 := by
    intro l
    induction l with
    | nil => exact fun c n h _ => ⟨h, .refl c⟩
    | cons i l ih =>
      intro c n h hl
      obtain ⟨hcoh, hframe⟩ := h.flushMdidEntry mdid n (hl i List.mem_cons_self)
      obtain ⟨hcoh', hframe'⟩ := ih _ (L2Cache.flushMdidEntry mdid (c, n) i).2 hcoh fun k hk => by
        rw [hframe.shape]
        exact hl k (List.mem_cons_of_mem i hk)
      exact ⟨hcoh', hframe.trans hframe'⟩
  exact hfold _ c 0 h fun i hi => List.mem_range.mp hi

end Flushes

/-! ## Runs -/

end L2Cache

inductive L2Op where
  | read (addr size : Nat)
  | write (addr : Nat) (data : List Byte)
  | invalidate (addr : Nat)
  | flushAll
  | flushByMdid (mdid : Nat)
  | flushInvalidate
  | setMdid (mdid : Nat)

/-- The lines of an access lie in the window of the backend. -/
def L2Op.InRam (shape : L2Shape) (ram : DirectRam) : L2Op → Prop
  | .read addr size => L2Cache.InRam shape ram addr size
  | .write addr data => L2Cache.InRam shape ram addr data.length
  | _ => True

namespace L2Cache

open Splice

/-- One operation; `flush_all` is directly followed by `invalidate_all` in `flushInvalidate`. -/
def step (c : L2Cache) : L2Op → L2Cache
  | .read addr size => (c.read addr size).2
  | .write addr data => c.write addr data
  | .invalidate addr => c.invalidate addr
  | .flushAll => c.flushAll.1
  | .flushByMdid mdid => (c.flushByMdid mdid).1
  | .flushInvalidate => c.flushAll.1.invalidateAll.1
  | .setMdid mdid => { c with currentMdid := mdid }

/-- The flat memory: only writes change it. -/
def flatStep (flat : Nat → Byte) : L2Op → Nat → Byte
  | .write addr data => patch flat addr data
  | _ => flat

section Runs

variable {c : L2Cache} {flat : Nat → Byte}

theorem coherent_init (shape : L2Shape) (ram : DirectRam) : Coherent (init shape ram) ram.bytes := by
  have hnone : ∀ i, ¬ ((init shape ram).entries i).valid = true := fun _ hv => by cases hv
  constructor
  · exact fun i _ hv => absurd hv (hnone i)
  · intro t i
    apply iff_of_false
    · intro hlook
      have hempty : (init shape ram).tagToIdx.lookup t = none := AList.lookup_empty t
      rw [hempty] at hlook
      cases hlook
    · exact fun hc => hnone i hc.2.1
  · exact fun i _ hv => absurd hv (hnone i)
  · exact fun i _ hv => absurd hv (hnone i)
  · exact fun i _ hv => absurd hv (hnone i)
  · exact fun _ _ => rfl

theorem Coherent.flushInvalidate (h : Coherent c flat) :
    Coherent c.flushAll.1.invalidateAll.1 flat ∧ Frame c c.flushAll.1.invalidateAll.1 := by
  obtain ⟨hcoh, hframe, hram⟩ := h.flushAll
  obtain ⟨hcoh', hframe'⟩ := Coherent.invalidateAll
    (fun i hi hv => (hcoh.index _ i).mpr ⟨hi, hv, rfl⟩) hram
  exact ⟨hcoh', hframe.trans hframe'⟩

theorem Coherent.step (h : Coherent c flat) (op : L2Op) (hop : op.InRam c.shape c.ram) :
    Coherent (c.step op) (flatStep flat op) ∧ Frame c (c.step op) := by
  cases op with
  | read addr size => exact (h.read hop).2
  | write addr data => exact h.write hop
  | invalidate addr => exact h.invalidate addr
  | flushAll => exact ⟨h.flushAll.1, h.flushAll.2.1⟩
  | flushByMdid mdid => exact h.flushByMdid mdid
  | flushInvalidate => exact h.flushInvalidate
  | setMdid mdid => exact ⟨h.congr rfl rfl rfl fun _ => ⟨rfl, rfl, rfl, rfl⟩, rfl, rfl, rfl⟩

theorem Coherent.run (h : Coherent c flat) (ops : List L2Op) (hops : ∀ op ∈ ops, op.InRam c.shape c.ram) :
    Coherent (ops.foldl L2Cache.step c) (ops.foldl flatStep flat) ∧ Frame c (ops.foldl L2Cache.step c) := by
  induction ops generalizing c flat with
  | nil => exact ⟨h, .refl c⟩
  | cons op ops ih =>
    obtain ⟨hcoh, hframe⟩ := h.step op (hops op List.mem_cons_self)
    have hrest : ∀ q ∈ ops, q.InRam (c.step op).shape (c.step op).ram := by
      intro q hq
      have hq' := hops q (List.mem_cons_of_mem op hq)
      cases q with
      | read addr size => exact hframe.inRam.mpr hq'
      | write addr data => exact hframe.inRam.mpr hq'
      | _ => trivial
    obtain ⟨hcoh', hframe'⟩ := ih hcoh hrest
    exact ⟨hcoh', hframe.trans hframe'⟩

/-- After any operations a read returns the bytes of the flat memory, every tag has one valid line and
the index finds it, clean lines equal RAM, and `flush_all` makes RAM the flat memory. -/
theorem l2_refines_flat (shape : L2Shape) (ram : DirectRam) (ops : List L2Op)
    (h : ∀ op ∈ ops, op.InRam shape ram) :
    let c := ops.foldl L2Cache.step (init shape ram)
    let flat := ops.foldl flatStep ram.bytes
    (∀ addr size, InRam shape ram addr size → (c.read addr size).1 = slice flat addr size) ∧
      (∀ i < shape.numEntries, ∀ j < shape.numEntries, (c.entries i).valid = true → (c.entries j).valid = true →
        (c.entries i).tag = (c.entries j).tag → i = j) ∧
      (∀ tag i, c.tagToIdx.lookup tag = some i ↔
        i < shape.numEntries ∧ (c.entries i).valid = true ∧ (c.entries i).tag = tag) ∧
      (∀ i < shape.numEntries, (c.entries i).valid = true → (c.entries i).mesi ≠ .modified →
        slice (c.entries i).data 0 shape.lineSize =
          slice c.ram.bytes (shape.lineAddr (c.entries i).tag) shape.lineSize) ∧
      c.flushAll.1.ram.bytes = flat := by
  intro c flat
  obtain ⟨hcoh, hframe⟩ := (coherent_init shape ram).run ops h
  have hshape : c.shape = shape := hframe.shape
  refine ⟨?_, ?_, ?_, ?_, hcoh.flushAll.2.2⟩
  · intro addr size hin
    exact (hcoh.read (hframe.inRam.mpr hin)).1
  · intro i hi j hj hvi hvj ht
    rw [← hshape] at hi hj
    exact hcoh.unique hi hj hvi hvj ht
  · intro tag i
    rw [← hshape]
    exact hcoh.index tag i
  · intro i hi hv hm
    rw [← hshape] at hi ⊢
    apply slice_congr
    intro j hj
    rw [Nat.zero_add, hcoh.line i hi hv j hj, c.shape.lineAddr_eq]
    exact (hcoh.clean i hi hv hm j hj).symm

/-- Lines of four bytes, one set of one way. -/
def tinyShape : L2Shape := ⟨2, 0, 1, by decide⟩

theorem l2_refines_flat_crossing :
    ([L2Op.write 3 [7, 9], .flushByMdid 0, .write 5 [1]].foldl L2Cache.step
      (init tinyShape ⟨0, 16, 0, 0, fun _ => 0⟩)).flushAll.1.ram.bytes 4 = 9 := by
  have h := l2_refines_flat tinyShape ⟨0, 16, 0, 0, fun _ => 0⟩ [L2Op.write 3 [7, 9], .flushByMdid 0, .write 5 [1]] (by
    intro op hop
    simp only [List.mem_cons, List.not_mem_nil, or_false] at hop
    rcases hop with rfl | rfl | rfl
    · intro a ha hlt
      simp only [List.length_cons, List.length_nil] at hlt
      obtain rfl | rfl : a = 3 ∨ a = 4 := by omega
      · decide
      · decide
    · trivial
    · intro a ha hlt
      simp only [List.length_cons, List.length_nil] at hlt
      obtain rfl : a = 5 := by omega
      decide)
  rw [h.2.2.2.2]
  decide

end Runs

end L2Cache

end Pyremu
