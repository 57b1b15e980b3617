import Pyremu.Handlers
import Pyremu.Lib.Bits

/-!
# The two CLINT implementations

Full-width instructions reach the CLINT through `try_handle_clint_concurrent`,
compressed ones through `try_handle_clint` with a null state array. The first
works on byte lanes, notifies the target of a software interrupt and programs
the deadline of its timer; the second does none of this.
-/

namespace Pyremu

/-! ## Byte lanes -/

section Lanes

theorem getLsbD_widthMask {size k : Nat} (hs : size = 4 ∨ size = 8) (hk : k < 64) :
    (widthMask size).getLsbD k = decide (k < 8 * size) := by
  rcases hs with rfl | rfl
  · have hmask : widthMask 4 = (BitVec.allOnes 32).setWidth 64 := by decide
    rw [hmask, BitVec.getLsbD_setWidth, BitVec.getLsbD_allOnes]
    simp [hk]
  · have hmask : widthMask 8 = BitVec.allOnes 64 := by decide
    rw [hmask, BitVec.getLsbD_allOnes]

theorem toNat_extractLane {size : Nat} (reg : Word) (lane : Nat) (hs : size = 4 ∨ size = 8) :
    (extractLane reg lane size).toNat = reg.toNat / 2 ^ (lane * 8) % 2 ^ (8 * size) := by
  rw [extractLane, BitVec.toNat_and, BitVec.toNat_ushiftRight, Nat.shiftRight_eq_div_pow]
  rcases hs with rfl | rfl
  · have hmask : (widthMask 4).toNat = 2 ^ 32 - 1 := by decide
    rw [hmask, Nat.and_two_pow_sub_one_eq_mod]
  · have hmask : (widthMask 8).toNat = 2 ^ 64 - 1 := by decide
    rw [hmask, Nat.and_two_pow_sub_one_eq_mod]

/-- A lane is the whole register only at its low end, and only if nothing is above it. -/
theorem extractLane_eq_self_iff {size : Nat} (reg : Word) (lane : Nat) (hs : size = 4 ∨ size = 8) :
    extractLane reg lane size = reg ↔ reg = 0 ∨ (lane = 0 ∧ reg.toNat < 2 ^ (8 * size)) := by
  rw [← BitVec.toNat_inj, toNat_extractLane reg lane hs]
  have hz : reg = 0 ↔ reg.toNat = 0 := by
    rw [← BitVec.toNat_inj]
    rfl
  rw [hz]
  constructor
  · intro h
    by_cases hl : lane = 0
    · subst hl
      rw [Nat.zero_mul, Nat.pow_zero, Nat.div_one] at h
      exact .inr ⟨rfl, h ▸ Nat.mod_lt _ (Nat.two_pow_pos _)⟩
    · left
      have hpow : 2 ≤ 2 ^ (lane * 8) := by
        calc 2 = 2 ^ 1 := rfl
          _ ≤ 2 ^ (lane * 8) := Nat.pow_le_pow_right (by decide) (by omega)
      have hle : reg.toNat ≤ reg.toNat / 2 ^ (lane * 8) := by
        calc reg.toNat = reg.toNat / 2 ^ (lane * 8) % 2 ^ (8 * size) := h.symm
          _ ≤ reg.toNat / 2 ^ (lane * 8) := Nat.mod_le _ _
      have hhalf : reg.toNat / 2 ^ (lane * 8) ≤ reg.toNat / 2 := Nat.div_le_div_left hpow (by decide)
      omega
  · rintro (h | ⟨rfl, h⟩)
    · rw [h, Nat.zero_div, Nat.zero_mod]
    · rw [Nat.zero_mul, Nat.pow_zero, Nat.div_one, Nat.mod_eq_of_lt h]

theorem getLsbD_mergeLane {size k : Nat} (reg v : Word) (lane : Nat) (hs : size = 4 ∨ size = 8) (hk : k < 64) :
    (mergeLane reg lane size v).getLsbD k =
      if lane * 8 ≤ k ∧ k < (lane + size) * 8 then v.getLsbD (k - lane * 8) else reg.getLsbD k := by
  have hmask : (widthMask size <<< (lane * 8)).getLsbD k = decide (lane * 8 ≤ k ∧ k < (lane + size) * 8) := by
    rw [BitVec.getLsbD_shiftLeft, getLsbD_widthMask hs (by omega)]
    by_cases hl : k < lane * 8
    · rw [decide_eq_false (by omega : ¬ (lane * 8 ≤ k ∧ k < (lane + size) * 8))]
      simp [hl]
    · by_cases hh : k < (lane + size) * 8
      · rw [decide_eq_true (by omega : lane * 8 ≤ k ∧ k < (lane + size) * 8), decide_eq_true hk,
          decide_eq_false hl, decide_eq_true (by omega : k - lane * 8 < 8 * size)]
        rfl
      · rw [decide_eq_false (by omega : ¬ (lane * 8 ≤ k ∧ k < (lane + size) * 8)),
          decide_eq_false (by omega : ¬ k - lane * 8 < 8 * size), Bool.and_false]
  simp only [mergeLane, BitVec.getLsbD_or, BitVec.getLsbD_and, BitVec.getLsbD_not, hmask,
    BitVec.getLsbD_shiftLeft, decide_eq_true hk, Bool.true_and]
  by_cases hin : lane * 8 ≤ k ∧ k < (lane + size) * 8
  · rw [if_pos hin, decide_eq_true hin, decide_eq_false (by omega : ¬ k < lane * 8)]
    simp
  · rw [if_neg hin, decide_eq_false hin]
    simp

/-- The written value is what the register holds afterwards. -/
def WritesItself (reg : Word) (lane size : Nat) (v : Word) : Prop :=
  ∀ k < 64, v.getLsbD k =
    if lane * 8 ≤ k ∧ k < (lane + size) * 8 then v.getLsbD (k - lane * 8) else reg.getLsbD k

theorem mergeLane_eq_iff {size : Nat} (reg v : Word) (lane : Nat) (hs : size = 4 ∨ size = 8) :
    mergeLane reg lane size v = v ↔ WritesItself reg lane size v := by
  constructor
  · intro h k hk
    rw [← getLsbD_mergeLane reg v lane hs hk, h]
  · intro h
    apply BitVec.eq_of_getLsbD_eq
    intro k hk
    exact (getLsbD_mergeLane reg v lane hs hk).trans (h k hk).symm

end Lanes

/-! ## Harts seen through the shared array -/

/-- Hart `i`, when there is an array of hart states. -/
def World.hartAt (w : World) (i : Nat) : Option HartState :=
  w.peers.map fun p => if i = w.hartId then w.hart else p i

theorem clint_updatePeer (w : World) (t : Nat) (f : HartState → HartState) :
    (w.updatePeer t f).clint = w.clint := by
  simp only [World.updatePeer]
  split
  · rfl
  · split_ifs <;> rfl

theorem hartAt_updatePeer (w : World) (t : Nat) (f : HartState → HartState) (i : Nat) :
    (w.updatePeer t f).hartAt i = (w.hartAt i).map fun s => if i = t then f s else s := by
  cases hp : w.peers with
  | none =>
    have hw : w.updatePeer t f = w := by simp only [World.updatePeer, hp]
    rw [hw, World.hartAt, hp]
    rfl
  | some p =>
    have hat : w.hartAt i = some (if i = w.hartId then w.hart else p i) := by
      rw [World.hartAt, hp]
      rfl
    rw [hat, Option.map_some]
    by_cases ht : t = w.hartId
    · have hw : w.updatePeer t f = { w with hart := f w.hart } := by
        simp only [World.updatePeer, hp, if_pos ht]
      rw [hw]
      simp only [World.hartAt, hp, Option.map_some, ht]
      by_cases hi : i = w.hartId
      · simp only [if_pos hi]
      · simp only [if_neg hi]
    · have hw : w.updatePeer t f = { w with peers := some (Function.update p t (f (p t))) } := by
        simp only [World.updatePeer, hp, if_neg ht]
      rw [hw]
      simp only [World.hartAt, Option.map_some]
      by_cases hi : i = t
      · subst hi
        simp only [if_neg ht, Function.update_self, if_true]
      · simp only [if_neg hi, Function.update_of_ne hi]

/-- A change of one hart that a reader of all harts does not see. -/
theorem hartAt_map_eq_iff {α : Type} (w : World) (t : Nat) (f : HartState → HartState) (r : HartState → α) :
    (∀ i, ((w.updatePeer t f).hartAt i).map r = (w.hartAt i).map r) ↔
      ∀ s, w.hartAt t = some s → r (f s) = r s := by
  constructor
  · intro h s hs
    have ht := h t
    rw [hartAt_updatePeer, hs] at ht
    simpa only [Option.map_some, if_true, Option.some.injEq] using ht
  · intro h i
    rw [hartAt_updatePeer]
    cases hi : w.hartAt i with
    | none => rfl
    | some s =>
      simp only [Option.map_some]
      by_cases hit : i = t
      · subst hit
        rw [if_pos rfl, h s hi]
      · rw [if_neg hit]

/-! ## Agreement -/

/-- What the CLINT drives of a hart: MSIP, MTIP and the deadline of its timer. -/
def HartState.clintLines (s : HartState) : Bool × Bool × Word :=
  (s.mip.getLsbD 3, s.mip.getLsbD 7, s.mtipDeadline)

/-- The value returned, the compare registers, the level bits, the notification of the target, and
the lines of each hart. -/
structure SameClint (r r' : World × Option Word) : Prop where
  value : r.2 = r'.2
  mtimecmp : r.1.clint.mtimecmp = r'.1.clint.mtimecmp
  level : ∀ i, (r.1.clint.msip i).getLsbD 0 = (r'.1.clint.msip i).getLsbD 0
  notified : r.1.clint.msipPending = r'.1.clint.msipPending
  harts : ∀ i, (r.1.hartAt i).map HartState.clintLines = (r'.1.hartAt i).map HartState.clintLines

theorem SameClint.refl (r : World × Option Word) : SameClint r r :=
  ⟨rfl, rfl, fun _ => rfl, rfl, fun _ => rfl⟩

/-- Two worlds that differ by a change of one hart. -/
theorem same_updatePeer_iff (w w' : World) (t : Nat) (f : HartState → HartState) (a : Option Word)
    (h : SameClint (w, a) (w', a)) (hat : w.hartAt = w'.hartAt) :
    SameClint (w.updatePeer t f, a) (w', a) ↔
      ∀ s, w'.hartAt t = some s → (f s).clintLines = s.clintLines := by
  rw [← hat, ← hartAt_map_eq_iff w t f HartState.clintLines]
  constructor
  · intro hs i
    rw [hat]
    exact hs.harts i
  · intro hs
    refine ⟨rfl, ?_, ?_, ?_, ?_⟩
    · rw [clint_updatePeer]
      exact h.mtimecmp
    · rw [clint_updatePeer]
      exact h.level
    · rw [clint_updatePeer]
      exact h.notified
    · intro i
      rw [← hat]
      exact hs i

/-- MTIP and the deadline are as `write_mtimecmp` would leave them. -/
def Programmed (s : HartState) (nowMtime val timebaseHz : Word) : Prop :=
  if val = 0 then s.mtipDeadline = 0 ∧ s.mip.getLsbD 7 = false
  else if val ≤ nowMtime then s.mtipDeadline = 0 ∧ s.mip.getLsbD 7 = true
  else s.mtipDeadline = timerDeadlineOwn s.totalInstrs nowMtime val timebaseHz ∧ s.mip.getLsbD 7 = false

/-- What a software interrupt register has to be for the two paths to agree. -/
def MsipAgrees (w : World) (target : Nat) (v : Word) : Prop :=
  if v.getLsbD 0 then ∀ p, w.clint.msipPending = some p → (p target).getLsbD 3 = true
  else ∀ s, w.hartAt target = some s → s.mip.getLsbD 3 = false

/-- What a compare register has to be for a write to have the same effect on both paths. -/
def MtimecmpAgrees (w : World) (target lane size : Nat) (v : Word) : Prop :=
  if 8 < lane + size then v = w.clint.mtimecmp target
  else WritesItself (w.clint.mtimecmp target) lane size v ∧
    ∀ s, w.hartAt target = some s → Programmed s w.clint.mtime v w.clint.timebaseHz

/-- A register that reads the same with and without byte lanes. -/
def ReadsWhole (reg : Word) (lane size : Nat) : Prop := reg = 0 ∨ (lane = 0 ∧ reg.toNat < 2 ^ (8 * size))

/-- When the two paths agree. -/
def ClintAgrees (w : World) (offset : Nat) (isWrite : Bool) (v : Word) (size : Nat) : Prop :=
  if offset < 0x4000 then
    offset / 4 < w.clint.numHarts → isWrite = true → MsipAgrees w (offset / 4) v
  else if offset < 0xBFF8 then
    (offset - 0x4000) / 8 < w.clint.numHarts →
      if isWrite then MtimecmpAgrees w ((offset - 0x4000) / 8) ((offset - 0x4000) % 8) size v
      else ReadsWhole (w.clint.mtimecmp ((offset - 0x4000) / 8)) ((offset - 0x4000) % 8) size
  else isWrite = false → ReadsWhole w.clint.mtime (offset - 0xBFF8) size

theorem same_value_iff (w : World) (a b : Word) : SameClint (w, some a) (w, some b) ↔ a = b := by
  constructor
  · intro h
    exact Option.some.inj h.value
  · rintro rfl
    exact .refl _

/-! ## Software interrupts -/

/-- The store of `clint_write_msip` when the array of hart states is null. -/
def World.storeMsip (w : World) (target : Nat) (v : Word) : World :=
  { w with clint := { w.clint with
      msip := Function.update w.clint.msip target ((v &&& 1).setWidth 8) } }

/-- The `fetch_and` of `clint_write_msip_concurrent`. -/
def World.lowerMsip (w : World) (target : Nat) : World :=
  { w with clint := { w.clint with
      msip := Function.update w.clint.msip target (w.clint.msip target &&& 0xFE) } }

theorem getLsbD_level (v : Word) : ((v &&& 1).setWidth 8 : BitVec 8).getLsbD 0 = v.getLsbD 0 := by
  rw [BitVec.getLsbD_setWidth, BitVec.getLsbD_and]
  have h1 : (1 : Word).getLsbD 0 = true := by decide
  rw [h1, Bool.and_true, decide_eq_true (by decide : 0 < 8), Bool.true_and]

theorem or_bit_eq_self_iff (x : Word) {k : Nat} (hk : k < 64) : x ||| bit k = x ↔ x.getLsbD k = true := by
  rw [BitFields.or_eq_self_iff]
  constructor
  · intro h
    exact h k (by rw [getLsbD_bit k k hk, decide_eq_true rfl])
  · intro h i hi
    rw [getLsbD_bit k i hk] at hi
    rw [of_decide_eq_true hi]
    exact h

theorem raised_same_iff (w : World) {target : Nat} {v : Word} (ht : target < w.clint.numHarts)
    (hv : v.getLsbD 0 = true) :
    SameClint (clintWriteMsip w target true, some 0) (w.storeMsip target v, some 0) ↔
      ∀ p, w.clint.msipPending = some p → (p target).getLsbD 3 = true := by
  have hw : clintWriteMsip w target true = { w with clint := { w.clint with
      msip := Function.update w.clint.msip target (w.clint.msip target ||| 1)
      msipPending := w.clint.msipPending.map fun p =>
        Function.update p target (p target ||| bit 3) } } := by
    rw [clintWriteMsip, if_neg (Nat.not_le.mpr ht), if_pos rfl]
  rw [hw]
  constructor
  · intro h p hp
    have hn := h.notified
    simp only [World.storeMsip, hp, Option.map_some, Option.some.injEq] at hn
    rw [← or_bit_eq_self_iff _ (by decide)]
    exact Function.update_eq_self_iff.mp hn
  · intro h
    refine ⟨rfl, rfl, fun i => ?_, ?_, fun _ => rfl⟩
    · by_cases hi : i = target
      · subst hi
        simp only [World.storeMsip, Function.update_self, getLsbD_level, hv, BitVec.getLsbD_or,
          Bool.or_eq_true]
        exact .inr (by decide)
      · simp only [World.storeMsip, Function.update_of_ne hi]
    · simp only [World.storeMsip]
      cases hp : w.clint.msipPending with
      | none => rfl
      | some p =>
        rw [Option.map_some, Option.some.injEq]
        exact Function.update_eq_self_iff.mpr ((or_bit_eq_self_iff _ (by decide)).mpr (h p hp))

theorem cleared_same_iff (w : World) {target : Nat} {v : Word} (ht : target < w.clint.numHarts)
    (hv : v.getLsbD 0 = false) :
    SameClint (clintWriteMsip w target false, some 0) (w.storeMsip target v, some 0) ↔
      ∀ s, w.hartAt target = some s → s.mip.getLsbD 3 = false := by
  have hw : clintWriteMsip w target false =
      (w.lowerMsip target).updatePeer target fun s => s.clearMip (bit 3) := by
    rw [clintWriteMsip, if_neg (Nat.not_le.mpr ht), if_neg (by decide)]
    rfl
  rw [hw]
  have hlow : ∀ s : HartState, (s.clearMip (bit 3)).clintLines = (false, s.mip.getLsbD 7, s.mtipDeadline) := by
    intro s
    have h3 : (s.clearMip (bit 3)).mip.getLsbD 3 = false := by
      rw [HartState.clearMip, BitVec.getLsbD_and, BitVec.getLsbD_not, getLsbD_bit 3 3 (by decide)]
      simp
    have h7 : (s.clearMip (bit 3)).mip.getLsbD 7 = s.mip.getLsbD 7 :=
      getLsbD_and_not_bit s.mip (by decide) (by decide)
    rw [HartState.clintLines, h3, h7]
    rfl
  refine (same_updatePeer_iff (w.lowerMsip target) (w.storeMsip target v) target _ _ ⟨rfl, rfl, fun i => ?_, rfl, fun _ => rfl⟩ rfl).trans ?_
  · simp only [World.storeMsip, World.lowerMsip]
    by_cases hi : i = target
    · subst hi
      rw [Function.update_self, Function.update_self, getLsbD_level, hv, BitVec.getLsbD_and]
      exact Bool.and_eq_false_imp.mpr fun _ => by decide
    · rw [Function.update_of_ne hi, Function.update_of_ne hi]
  · apply forall₂_congr
    intro s _
    rw [hlow, HartState.clintLines, Prod.mk.injEq]
    exact ⟨fun h => h.1.symm, fun h => ⟨h.symm, rfl⟩⟩

theorem msip_same_iff (w : World) {target : Nat} (v : Word) (ht : target < w.clint.numHarts) :
    SameClint (clintWriteMsip w target (v.getLsbD 0), some 0) (w.storeMsip target v, some 0) ↔
      MsipAgrees w target v := by
  cases hv : v.getLsbD 0 with
  | true =>
    rw [MsipAgrees, if_pos hv]
    exact raised_same_iff w ht hv
  | false =>
    rw [MsipAgrees, if_neg (by rw [hv]; decide)]
    exact cleared_same_iff w ht hv

/-! ## Timer compare registers -/

theorem programmed_iff (s : HartState) (nowMtime val timebaseHz : Word) :
    (writeMtimecmp s nowMtime val timebaseHz).clintLines = s.clintLines ↔
      Programmed s nowMtime val timebaseHz := by
  have hclear : (s.mip &&& ~~~(bit 7)).getLsbD 3 = s.mip.getLsbD 3 ∧
      (s.mip &&& ~~~(bit 7)).getLsbD 7 = false := by
    refine ⟨getLsbD_and_not_bit s.mip (by decide) (by decide), ?_⟩
    rw [BitVec.getLsbD_and, BitVec.getLsbD_not, getLsbD_bit 7 7 (by decide)]
    simp
  have hset : (s.mip ||| bit 7).getLsbD 3 = s.mip.getLsbD 3 ∧ (s.mip ||| bit 7).getLsbD 7 = true := by
    refine ⟨getLsbD_or_bit s.mip (by decide) (by decide), ?_⟩
    rw [BitVec.getLsbD_or, getLsbD_bit 7 7 (by decide)]
    simp
  simp only [writeMtimecmp, writeTimecmp, HartState.clintLines, Programmed, Prod.mk.injEq]
  split_ifs
  · rw [hclear.1, hclear.2]
    exact ⟨fun h => ⟨h.2.2.symm, h.2.1.symm⟩, fun h => ⟨rfl, h.2.symm, h.1.symm⟩⟩
  · rw [hset.1, hset.2]
    exact ⟨fun h => ⟨h.2.2.symm, h.2.1.symm⟩, fun h => ⟨rfl, h.2.symm, h.1.symm⟩⟩
  · rw [hclear.1, hclear.2]
    exact ⟨fun h => ⟨h.2.2.symm, h.2.1.symm⟩, fun h => ⟨rfl, h.2.symm, h.1.symm⟩⟩

/-- The store of `try_handle_clint` to a compare register. -/
def World.storeMtimecmp (w : World) (target : Nat) (v : Word) : World :=
  { w with clint := { w.clint with mtimecmp := Function.update w.clint.mtimecmp target v } }

theorem mtimecmp_same_iff (w : World) {target size : Nat} (lane : Nat) (v : Word) (ht : target < w.clint.numHarts)
    (hs : size = 4 ∨ size = 8) :
    SameClint (if 8 < lane + size then (w, some 0) else
        (writeMtimecmpForTarget
          (w.storeMtimecmp target (mergeLane (w.clint.mtimecmp target) lane size v)) target
          (mergeLane (w.clint.mtimecmp target) lane size v), some 0))
      (w.storeMtimecmp target v, some 0) ↔ MtimecmpAgrees w target lane size v := by
  rw [MtimecmpAgrees]
  by_cases hl : 8 < lane + size
  · rw [if_pos hl, if_pos hl]
    constructor
    · intro h
      have hcmp : w.clint.mtimecmp = Function.update w.clint.mtimecmp target v := h.mtimecmp
      rw [hcmp, Function.update_self]
    · intro h
      have hw : w.storeMtimecmp target v = w := by
        rw [World.storeMtimecmp, h, Function.update_eq_self]
      rw [hw]
      exact .refl _
  · rw [if_neg hl, if_neg hl, ← mergeLane_eq_iff _ v lane hs]
    generalize mergeLane (w.clint.mtimecmp target) lane size v = merged
    rw [writeMtimecmpForTarget, if_pos (by exact ht)]
    by_cases hm : merged = v
    · subst hm
      rw [same_updatePeer_iff _ _ target _ _ (.refl _) rfl]
      constructor
      · intro h
        exact ⟨rfl, fun s hs => (programmed_iff s _ _ _).mp (h s hs)⟩
      · intro h s hs
        exact (programmed_iff s _ _ _).mpr (h.2 s hs)
    · refine iff_of_false (fun h => hm ?_) (fun h => hm h.1)
      have hcmp := congrFun h.mtimecmp target
      rw [clint_updatePeer] at hcmp
      simpa only [World.storeMtimecmp, Function.update_self] using hcmp

theorem mtimecmp_read_same_iff (w : World) (reg : Word) {size : Nat} (lane : Nat)
    (hs : size = 4 ∨ size = 8) :
    SameClint (if 8 < lane + size then (w, some 0) else (w, some (extractLane reg lane size)))
      (w, some reg) ↔ ReadsWhole reg lane size := by
  by_cases hl : 8 < lane + size
  · rw [if_pos hl, same_value_iff, ReadsWhole]
    constructor
    · intro h
      exact .inl h.symm
    · rintro (h | ⟨h0, _⟩)
      · exact h.symm
      · omega
  · rw [if_neg hl, same_value_iff, extractLane_eq_self_iff _ _ hs]
    rfl

/-! ## Both paths -/

/-- For every access of four or eight bytes inside the window: both paths return the same value and
leave registers, notification, MSIP, MTIP and deadlines the same, exactly when the access is one of
those that do not exercise the difference. -/
theorem clint_paths_agree_iff (w : World) (pa : Word) (isWrite : Bool) (v : Word) (size : Nat)
    (hs : size = 4 ∨ size = 8) (ho : (pa - w.clint.base).toNat < 0xC000) :
    SameClint (tryHandleClint w pa isWrite v size) (tryHandleClintSerial w pa isWrite v) ↔
      w.clint.base = 0 ∨ ClintAgrees w (pa - w.clint.base).toNat isWrite v size := by
  rw [tryHandleClint, tryHandleClintSerial]
  by_cases hb : w.clint.base = 0
  · rw [if_pos hb, if_pos hb]
    exact iff_of_true (.refl _) (.inl hb)
  rw [if_neg hb, if_neg hb, or_iff_right hb]
  simp only []
  generalize (pa - w.clint.base).toNat = offset at ho ⊢
  rw [ClintAgrees]
  by_cases hm : offset < 0x4000
  · rw [if_pos hm, if_pos hm, if_pos hm]
    by_cases ht : w.clint.numHarts ≤ offset / 4
    · rw [if_pos ht, if_pos ht]
      exact iff_of_true (.refl _) fun h => absurd ht (Nat.not_le.mpr h)
    · rw [if_neg ht, if_neg ht]
      cases isWrite with
      | false =>
        apply iff_of_true (.refl _)
        intro _ h
        cases h
      | true =>
        simp only [Bool.not_true, Bool.false_eq_true, if_false]
        have h := msip_same_iff w v (Nat.not_le.mp ht)
        rw [World.storeMsip] at h
        rw [h]
        exact ⟨fun h _ _ => h, fun h => h (Nat.not_le.mp ht) trivial⟩
  · rw [if_neg hm, if_neg hm, if_neg hm]
    by_cases hc : offset < 0xBFF8
    · rw [if_pos hc, if_pos hc, if_pos hc]
      by_cases ht : w.clint.numHarts ≤ (offset - 0x4000) / 8
      · rw [if_pos ht, if_pos ht]
        exact iff_of_true (.refl _) fun h => absurd ht (Nat.not_le.mpr h)
      · rw [if_neg ht, if_neg ht, imp_iff_right (Nat.not_le.mp ht)]
        cases isWrite with
        | true =>
          simp only [if_true, Bool.not_true, Bool.false_eq_true, if_false]
          have h := mtimecmp_same_iff w ((offset - 0x4000) % 8) v (Nat.not_le.mp ht) hs
          simp only [World.storeMtimecmp] at h
          exact h
        | false =>
          simp only [Bool.not_false, if_true, Bool.false_eq_true, if_false]
          exact mtimecmp_read_same_iff w _ _ hs
    · rw [if_neg hc, if_neg hc, if_neg hc, if_pos ho]
      cases isWrite with
      | true =>
        refine iff_of_true ?_ fun h => ?_
        · simp only [if_true, Bool.not_true, Bool.false_eq_true, and_false, if_false]
          exact .refl _
        · cases h
      | false =>
        simp only [Bool.false_eq_true, if_false, Bool.not_false, and_true, if_pos ho, true_imp_iff]
        rw [same_value_iff, extractLane_eq_self_iff _ _ hs]
        rfl

/-- Two harts and a CLINT at its usual place; nothing is pending. -/
def clintWorld : World := { World.zeroed ⟨0x80000000, 0x10000, 0, 0⟩ with
  peers := some fun _ => .zeroed
  clint := ⟨0x2000000, 7, fun _ => 5, fun _ => 0, 10000000, 2, some fun _ => 0⟩ }

/-- A compare register whose upper half is zero reads the same on both paths. -/
theorem low_half_reads_same :
    SameClint (tryHandleClint clintWorld 0x2004008 false 0 4)
      (tryHandleClintSerial clintWorld 0x2004008 false 0) :=
  (clint_paths_agree_iff clintWorld 0x2004008 false 0 4 (.inl rfl) (by decide)).mpr
    (.inr fun _ => .inr ⟨by decide, by decide⟩)

/-- A software interrupt that is sent to hart 1 by `C.SW` does not reach its `msip_pending`. -/
theorem compressed_ipi_not_notified :
    ¬ SameClint (tryHandleClint clintWorld 0x2000004 true 1 4)
      (tryHandleClintSerial clintWorld 0x2000004 true 1) := by
  intro h
  have hslot := congrArg (Option.map fun p => p 1) h.notified
  exact absurd hslot (by decide)

end Pyremu
