import Mathlib.Data.Finset.Card
import Mathlib.Logic.Function.Iterate
import Pyremu.ImsicPython

/-!
# Which identity `topei` selects

`imsic_topei_peek` looks at the highest pending and enabled identity of each
word and compares its low byte with the threshold. Within a word the low bytes
grow with the identities, so the highest one decides for the word. An identity
whose low byte is 0 never passes, even with the threshold at 0.
-/

namespace Pyremu

/-- Identity `m` is pending and enabled. -/
def Offered (f : ImsicFile) (m : BitVec 32) : Prop := eipBit f.eip m = true ∧ eipBit f.eie m = true

/-- The threshold masks nothing, or not this priority. -/
def Unmasked (f : ImsicFile) (m : BitVec 32) : Prop :=
  f.eithreshold = 0 ∨ f.eithreshold.toNat < m.toNat % 256

/-- `imsic_topei_peek` selects an identity that is there, and finds one whenever there is one; a claim
takes exactly its bit. -/
structure TopeiExact (f : ImsicFile) : Prop where
  complete : imsicTopeiPeek f = 0 → eipBit f.eip 1 = false ∧ eipBit f.eip 3 = false ∧
    ∀ m, 0 < m → m < maxIid → m ≠ 1 → m ≠ 3 → Offered f m → ¬ Unmasked f m
  sound : imsicTopeiPeek f ≠ 0 →
    eipBit f.eip (reportedIdentity (imsicTopeiPeek f)) = true ∧
      (reportedIdentity (imsicTopeiPeek f) ≠ 1 → reportedIdentity (imsicTopeiPeek f) ≠ 3 →
        eipBit f.eie (reportedIdentity (imsicTopeiPeek f)) = true)
  claim : imsicTopeiPeek f ≠ 0 →
    (∃ eip any, imsicTopeiClaimIid f (reportedIdentity (imsicTopeiPeek f)) =
      { f with eip := eip, eipExtAny := any }) ∧
    ∀ m, eipBit (imsicTopeiClaimIid f (reportedIdentity (imsicTopeiPeek f))).eip m =
      (eipBit f.eip m && !decide (m = reportedIdentity (imsicTopeiPeek f)))

/-- One round of a handler: look, and claim what was reported. -/
def drainStep (f : ImsicFile) : ImsicFile :=
  if imsicTopeiPeek f = 0 then f else imsicTopeiClaimIid f (reportedIdentity (imsicTopeiPeek f))

/-- Enough rounds claim every identity that was pending and enabled. -/
def Drains (f : ImsicFile) : Prop :=
  ∃ k, ∀ m, 0 < m → m < maxIid → Offered f m → eipBit (drainStep^[k] f).eip m = false

/-- No identity with low byte 0 is pending and enabled. -/
def NoBlockHeads (f : ImsicFile) : Prop :=
  ∀ m, 0 < m → m < maxIid → m.toNat % 256 = 0 → ¬ Offered f m

section Selection

variable {f : ImsicFile} {m : BitVec 32}

/-- What is reported is a software interrupt or above the threshold. -/
theorem peek_above (h : imsicTopeiPeek f ≠ 0) :
    (reportedIdentity (imsicTopeiPeek f)).toNat % 256 ≠ 0 := by
  have hwords : eipWords = 64 := rfl
  have hnat : ∀ n < 2048, n % 256 ≠ 0 → (reportedIdentity (topeiValue n)).toNat % 256 ≠ 0 := by
    intro n hn hmod
    rw [reportedIdentity_topeiValue hn, BitVec.toNat_ofNat, Nat.mod_eq_of_lt (by omega : n < 2 ^ 32)]
    exact hmod
  have heq : imsicTopeiPeek f = if f.eip 0 &&& swMask ≠ 0 then topeiValue (highestBit (f.eip 0 &&& swMask))
      else if f.eidelivery = 0 ∨ f.eipExtAny = false then 0
      else ((List.range eipWords).reverse.findSome? (topeiWord f)).getD 0 := rfl
  rw [heq] at h ⊢
  by_cases hipi : f.eip 0 &&& swMask ≠ 0
  · obtain ⟨hb, _⟩ := highestBit_sw hipi
    rw [if_pos hipi]
    exact hnat _ (by omega) (by omega)
  · rw [if_neg hipi] at h ⊢
    by_cases hoff : f.eidelivery = 0 ∨ f.eipExtAny = false
    · rw [if_pos hoff] at h
      exact absurd rfl h
    · rw [if_neg hoff] at h ⊢
      cases hscan : (List.range eipWords).reverse.findSome? (topeiWord f) with
      | none =>
        rw [hscan] at h
        exact absurd rfl h
      | some v =>
        obtain ⟨i, hi, hv⟩ := List.exists_of_findSome?_eq_some hscan
        have hlt := List.mem_range.mp (List.mem_reverse.mp hi)
        obtain ⟨hp, _, hthr, rfl⟩ := (topeiWord_eq_some_iff hlt).mp hv
        have hb := highestBit_lt hp
        exact hnat _ (by omega) (by omega)

theorem eipBit_word (a : Nat → BitVec 32) (m : BitVec 32) :
    eipBit a m = (a (m.toNat / 32)).getLsbD (m.toNat % 32) := by
  rw [eipBit, eipWordOf_eq, toNat_and_31]

/-- An identity above the threshold makes its word report one. -/
theorem peek_of_offered (hd : f.eidelivery ≠ 0) (hsum : hasExtInterrupt f.eip = true → f.eipExtAny = true)
    (hlt : m < maxIid) (h1 : m ≠ 1) (h3 : m ≠ 3) (hoff : Offered f m)
    (hthr : f.eithreshold.toNat < m.toNat % 256) : imsicTopeiPeek f ≠ 0 := by
  have hwords : eipWords = 64 := rfl
  have hm : m.toNat < 2048 := hlt
  obtain ⟨heip, heie⟩ := hoff
  rw [eipBit_word] at heip heie
  have hw : m.toNat / 32 < eipWords := by omega
  have hbit : m.toNat % 32 < 32 := Nat.mod_lt _ (by decide)
  -- the identity is among those the scan considers in its word
  have hmine : (extPending f (m.toNat / 32)).getLsbD (m.toNat % 32) = true := by
    rw [extPending]
    by_cases h0 : m.toNat / 32 = 0
    · rw [h0] at heip heie
      have hne1 : m.toNat % 32 ≠ 1 := fun h => h1 (BitVec.eq_of_toNat_eq (by
        rw [show (1 : BitVec 32).toNat = 1 from rfl]
        omega))
      have hne3 : m.toNat % 32 ≠ 3 := fun h => h3 (BitVec.eq_of_toNat_eq (by
        rw [show (3 : BitVec 32).toNat = 3 from rfl]
        omega))
      have hmask : (~~~(1#32 <<< 3 ||| 1#32 <<< 1)).getLsbD (m.toNat % 32) = true :=
        (by decide : ∀ i < 32, i ≠ 1 → i ≠ 3 → (~~~(1#32 <<< 3 ||| 1#32 <<< 1)).getLsbD i = true)
          _ hbit hne1 hne3
      rw [if_pos h0, BitVec.getLsbD_and, BitVec.getLsbD_and, heip, heie, hmask]
      rfl
    · rw [if_neg h0, BitVec.getLsbD_and, heip, heie]
      rfl
  have hne : extPending f (m.toNat / 32) ≠ 0 := by
    intro hz
    rw [hz] at hmine
    cases (BitVec.getLsbD_zero.symm.trans hmine)
  have hle : m.toNat % 32 ≤ highestBit (extPending f (m.toNat / 32)) := by
    have hge := Nat.ge_two_pow_of_testBit hmine
    have hv : (extPending f (m.toNat / 32)).toNat ≠ 0 := fun h0 => hne (BitVec.eq_of_toNat_eq h0)
    exact (Nat.le_log2 hv).mpr hge
  have hb := highestBit_lt hne
  -- both lie in one block of 256, so the highest one is above the threshold as well
  have hword : topeiWord f (m.toNat / 32) =
      some (topeiValue (m.toNat / 32 * 32 + highestBit (extPending f (m.toNat / 32)))) :=
    (topeiWord_eq_some_iff hw).mpr ⟨hne, by omega, by omega, rfl⟩
  have hext : hasExtInterrupt f.eip = true := by
    cases hx : hasExtInterrupt f.eip with
    | true => rfl
    | false => exact absurd (extPending_eq_zero hx hw) hne
  exact peek_ne_zero_iff.mpr (.inr ⟨hd, hsum hext, _, hw, _, hword⟩)

/-- A file that reports nothing has no software interrupt pending. -/
theorem no_ipi_of_peek (h : imsicTopeiPeek f = 0) : eipBit f.eip 1 = false ∧ eipBit f.eip 3 = false := by
  have hipi : ¬ ipiPending f ≠ 0 := fun hne => peek_ne_zero_iff.mpr (.inl hne) h
  have hzero : f.eip 0 &&& (1#32 <<< 3 ||| 1#32 <<< 1) = 0 := not_not.mp hipi
  have hbit : ∀ i, (1#32 <<< 3 ||| 1#32 <<< 1).getLsbD i = true → (f.eip 0).getLsbD i = false := by
    intro i hi
    have hand : (f.eip 0 &&& (1#32 <<< 3 ||| 1#32 <<< 1)).getLsbD i = false := by
      rw [hzero]
      exact BitVec.getLsbD_zero
    rw [BitVec.getLsbD_and, hi, Bool.and_true] at hand
    exact hand
  exact ⟨hbit 1 (by decide), hbit 3 (by decide)⟩

theorem peek_sound (h : imsicTopeiPeek f ≠ 0) :
    eipBit f.eip (reportedIdentity (imsicTopeiPeek f)) = true ∧
      (reportedIdentity (imsicTopeiPeek f) ≠ 1 → reportedIdentity (imsicTopeiPeek f) ≠ 3 →
        eipBit f.eie (reportedIdentity (imsicTopeiPeek f)) = true) := by
  obtain ⟨n, _, hn, hv, hpend, hext⟩ := peek_reports h
  rw [hv, reportedIdentity_topeiValue hn]
  refine ⟨hpend, fun h1 h3 => ?_⟩
  rcases hext with (rfl | rfl) | ⟨_, hen⟩
  · exact absurd rfl h1
  · exact absurd rfl h3
  · exact hen

/-- Selection is exact unless an identity that the threshold 0 should let through has low byte 0. -/
theorem topeiExact_of (hd : f.eidelivery ≠ 0) (hsum : hasExtInterrupt f.eip = true → f.eipExtAny = true)
    (h : f.eithreshold ≠ 0 ∨ NoBlockHeads f) : TopeiExact f where
  complete := by
    intro hpeek
    obtain ⟨hm1, hm3⟩ := no_ipi_of_peek hpeek
    refine ⟨hm1, hm3, ?_⟩
    intro m h0 hlt h1 h3 hoff hun
    apply peek_of_offered hd hsum hlt h1 h3 hoff _ hpeek
    rcases hun with hz | hthr
    · have hhead : m.toNat % 256 ≠ 0 := fun hmod =>
        (h.resolve_left (not_not.mpr hz)) m h0 hlt hmod hoff
      rw [hz]
      exact Nat.pos_of_ne_zero hhead
    · exact hthr
  sound := peek_sound
  claim := fun hne => ⟨claim_registers f _, eipBit_engineClaim hne⟩

end Selection

/-! ## Draining a file -/

section Drain

variable {f : ImsicFile}

/-- What rounds keep: the enables, the switch, the threshold, the summary, and no new pending bit. -/
structure DrainInv (f g : ImsicFile) : Prop where
  eie : g.eie = f.eie
  eidelivery : g.eidelivery = f.eidelivery
  eithreshold : g.eithreshold = f.eithreshold
  summary : hasExtInterrupt g.eip = true → g.eipExtAny = true
  fewer : ∀ m, eipBit g.eip m = true → eipBit f.eip m = true

theorem DrainInv.step {g : ImsicFile} (h : DrainInv f g) : DrainInv f (drainStep g) := by
  rw [drainStep]
  by_cases hpeek : imsicTopeiPeek g = 0
  · rw [if_pos hpeek]
    exact h
  · rw [if_neg hpeek]
    obtain ⟨⟨heie, hdel, hthr⟩, hsum⟩ := topeiClaim_frame h.summary (reportedIdentity (imsicTopeiPeek g))
    refine ⟨heie.trans h.eie, hdel.trans h.eidelivery, hthr.trans h.eithreshold, hsum, ?_⟩
    intro m hm
    rw [eipBit_engineClaim hpeek, Bool.and_eq_true] at hm
    exact h.fewer m hm.1

theorem DrainInv.iterate (hsum : hasExtInterrupt f.eip = true → f.eipExtAny = true) (k : Nat) :
    DrainInv f (drainStep^[k] f) := by
  induction k with
  | zero => exact ⟨rfl, rfl, rfl, hsum, fun _ h => h⟩
  | succ k ih =>
    rw [Function.iterate_succ_apply']
    exact ih.step

/-- The identities whose pending bit is set. -/
def pendingSet (f : ImsicFile) : Finset Nat :=
  (Finset.range 2048).filter fun n => eipBit f.eip (BitVec.ofNat 32 n) = true

/-- A round that finds something leaves fewer pending bits. -/
theorem pendingSet_step (h : imsicTopeiPeek f ≠ 0) :
    (pendingSet (drainStep f)).card < (pendingSet f).card := by
  obtain ⟨n, _, hn, hv, hpend, _⟩ := peek_reports h
  have hid : reportedIdentity (imsicTopeiPeek f) = BitVec.ofNat 32 n := by
    rw [hv, reportedIdentity_topeiValue hn]
  have hbit : ∀ m, eipBit (drainStep f).eip m = (eipBit f.eip m && !decide (m = BitVec.ofNat 32 n)) := by
    intro m
    rw [drainStep, if_neg h, eipBit_engineClaim h, hid]
  apply Finset.card_lt_card
  rw [Finset.ssubset_iff_of_subset]
  · refine ⟨n, Finset.mem_filter.mpr ⟨Finset.mem_range.mpr hn, hpend⟩, ?_⟩
    intro hmem
    have hgone := (Finset.mem_filter.mp hmem).2
    rw [hbit, decide_eq_true rfl, Bool.not_true, Bool.and_false] at hgone
    cases hgone
  · intro m hm
    obtain ⟨hr, hset⟩ := Finset.mem_filter.mp hm
    rw [hbit, Bool.and_eq_true] at hset
    exact Finset.mem_filter.mpr ⟨hr, hset.1⟩

/-- After enough rounds nothing is reported. -/
theorem drain_ends (f : ImsicFile) : ∃ k, imsicTopeiPeek (drainStep^[k] f) = 0 := by
  induction hc : (pendingSet f).card using Nat.strong_induction_on generalizing f with
  | h n ih =>
    by_cases hpeek : imsicTopeiPeek f = 0
    · exact ⟨0, hpeek⟩
    · have hless := pendingSet_step hpeek
      rw [hc] at hless
      obtain ⟨k, hk⟩ := ih _ hless (drainStep f) rfl
      exact ⟨k + 1, hk⟩

/-- Without identities of low byte 0, the rounds take everything that is offered. -/
theorem drains_of (hd : f.eidelivery ≠ 0) (hsum : hasExtInterrupt f.eip = true → f.eipExtAny = true)
    (hz : f.eithreshold = 0) (h : NoBlockHeads f) : Drains f := by
  obtain ⟨k, hk⟩ := drain_ends f
  have hinv := DrainInv.iterate hsum k
  have hd' : (drainStep^[k] f).eidelivery ≠ 0 := by
    rw [hinv.eidelivery]
    exact hd
  have hheads : NoBlockHeads (drainStep^[k] f) := by
    intro m h0 hlt hmod hoff
    exact h m h0 hlt hmod ⟨hinv.fewer m hoff.1, by rw [← hinv.eie]; exact hoff.2⟩
  obtain ⟨hm1, hm3, hrest⟩ := (topeiExact_of hd' hinv.summary (.inr hheads)).complete hk
  refine ⟨k, fun m h0 hlt hoff => ?_⟩
  by_cases h1 : m = 1
  · rw [h1]
    exact hm1
  by_cases h3 : m = 3
  · rw [h3]
    exact hm3
  cases hb : eipBit (drainStep^[k] f).eip m with
  | false => rfl
  | true =>
    have hstill : Offered (drainStep^[k] f) m := ⟨hb, by rw [hinv.eie]; exact hoff.2⟩
    have hun : Unmasked (drainStep^[k] f) m := .inl (by rw [hinv.eithreshold]; exact hz)
    exact absurd hun (hrest m h0 hlt h1 h3 hstill)

/-- An identity of low byte 0 is never reported, so it stays pending. -/
theorem head_stays {m : BitVec 32} (hm : m.toNat % 256 = 0) (hb : eipBit f.eip m = true) (k : Nat) :
    eipBit (drainStep^[k] f).eip m = true := by
  induction k with
  | zero => exact hb
  | succ k ih =>
    rw [Function.iterate_succ_apply']
    generalize drainStep^[k] f = g at ih
    rw [drainStep]
    by_cases hpeek : imsicTopeiPeek g = 0
    · rw [if_pos hpeek]
      exact ih
    · have hne : m ≠ reportedIdentity (imsicTopeiPeek g) := by
        intro heq
        rw [heq] at hm
        exact peek_above hpeek hm
      rw [if_neg hpeek, eipBit_engineClaim hpeek, ih, decide_eq_false hne]
      rfl

end Drain

/-- **`topei` is complete and sound, and drains the file at threshold 0, exactly when** the threshold
is not 0 or no identity with low byte 0 is pending and enabled. -/
theorem topei_exact_iff (f : ImsicFile) (hd : f.eidelivery = 1)
    (hsum : hasExtInterrupt f.eip = true → f.eipExtAny = true) :
    (TopeiExact f ∧ (f.eithreshold = 0 → Drains f)) ↔ (f.eithreshold ≠ 0 ∨ NoBlockHeads f) := by
  have hd' : f.eidelivery ≠ 0 := by
    rw [hd]
    decide
  constructor
  · rintro ⟨_, hdrain⟩
    by_cases hz : f.eithreshold = 0
    · right
      intro m h0 hlt hmod hoff
      obtain ⟨k, hk⟩ := hdrain hz
      have hgone := hk m h0 hlt hoff
      rw [head_stays hmod hoff.1 k] at hgone
      cases hgone
    · exact .inl hz
  · intro h
    exact ⟨topeiExact_of hd' hsum h, fun hz => drains_of hd' hsum hz (h.resolve_left (not_not.mpr hz))⟩

/-- Identity 256 alone, pending and enabled, with nothing masked. -/
def headFile : ImsicFile :=
  { ImsicFile.empty with
    eip := Function.update (fun _ => 0) 8 1, eie := Function.update (fun _ => 0) 8 1
    eidelivery := 1, eipExtAny := true }

/-- Identities 7 and 300, with the threshold at 20. -/
def thresholdFile : ImsicFile :=
  { ImsicFile.empty with
    eip := Function.update (Function.update (fun _ => 0) 0 0x80) 9 0x1000
    eie := Function.update (Function.update (fun _ => 0) 0 0x80) 9 0x1000
    eidelivery := 1, eithreshold := 20, eipExtAny := true }

theorem topei_exact_above_threshold :
    imsicTopeiPeek thresholdFile = topeiValue 300 ∧ TopeiExact thresholdFile ∧
      (thresholdFile.eithreshold = 0 → Drains thresholdFile) := by
  refine ⟨by decide +kernel, ?_⟩
  exact (topei_exact_iff thresholdFile rfl fun _ => rfl).mpr (.inl (by decide))

/-- Identity 256 is pending and enabled, nothing is masked, and nothing is reported. -/
theorem block_head_hidden :
    headFile.eidelivery = 1 ∧
      headFile.eipExtAny = (List.range eipWords).any (fun i => decide (headFile.eip i ≠ 0)) ∧
      imsicTopeiPeek headFile = 0 ∧ Offered headFile 256 ∧ Unmasked headFile 256 ∧ ¬ TopeiExact headFile := by
  have hpeek : imsicTopeiPeek headFile = 0 := by decide +kernel
  have hoff : Offered headFile 256 := ⟨by decide +kernel, by decide +kernel⟩
  have hun : Unmasked headFile 256 := .inl rfl
  refine ⟨rfl, by decide +kernel, hpeek, hoff, hun, fun h => ?_⟩
  obtain ⟨_, _, hrest⟩ := h.complete hpeek
  exact hrest 256 (by decide) (by decide) (by decide) (by decide) hoff hun

end Pyremu
