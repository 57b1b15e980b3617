import Pyremu.Devices
import Pyremu.Lib.Run

/-!
# Level interrupts of the PLIC

Devices drive levels, harts read and write the registers of their contexts. The
ghost `held` records which source a context has claimed and not yet completed.
The PLIC itself keeps one source a context only.
-/

namespace Pyremu

namespace Plic

variable (p : Plic)

/-- The state after reset. -/
def reset (base : Word) (numSources numContexts : Nat) : Plic where
  base := base
  numSources := numSources
  numContexts := numContexts
  priority := fun _ => 0
  pending := fun _ => false
  level := fun _ => false
  enable := fun _ => 0
  threshold := fun _ => 0
  claimed := fun _ => 0

/-- `set_irq`: the pending flag follows the level. -/
def setIrq (source : Nat) (high : Bool) : Plic :=
  if 0 < source ∧ source ≤ p.numSources then
    { p with level := Function.update p.level source high, pending := Function.update p.pending source high }
  else p

/-- The context whose claim register stands at an offset. -/
def claimContext (offset : Nat) : Option Nat :=
  if 0x200000 ≤ offset ∧ (offset - 0x200000) % 0x1000 = 4 ∧ (offset - 0x200000) / 0x1000 < p.numContexts then
    some ((offset - 0x200000) / 0x1000)
  else none

theorem better_fst (context : Nat) (best : Nat × Nat) (src : Nat) :
    (p.better context best src).1 = best.1 ∨ (p.better context best src).1 = src := by
  simp only [better]
  split_ifs
  all_goals first | exact .inl rfl | exact .inr rfl

theorem foldl_better_le (context n : Nat) (l : List Nat) (hl : ∀ src ∈ l, src ≤ n) (best : Nat × Nat)
    (hb : best.1 ≤ n) : (l.foldl (p.better context) best).1 ≤ n := by
  induction l generalizing best with
  | nil => exact hb
  | cons src l ih =>
    apply ih (fun s hs => hl s (List.mem_cons_of_mem src hs)) _
    rcases p.better_fst context best src with h | h
    · rw [h]
      exact hb
    · rw [h]
      exact hl src List.mem_cons_self

theorem findHighest_le (context : Nat) : p.findHighest context ≤ p.numSources := by
  rw [findHighest]
  split_ifs
  · exact Nat.zero_le _
  · refine p.foldl_better_le context p.numSources _ ?_ (0, 0) (Nat.zero_le _)
    intro src hsrc
    obtain ⟨i, hi, rfl⟩ := List.mem_map.mp hsrc
    exact List.mem_range.mp hi

variable {p} {offset context : Nat}

theorem claimContext_eq_some (h : p.claimContext offset = some context) :
    0x200000 ≤ offset ∧ (offset - 0x200000) % 0x1000 = 4 ∧
      (offset - 0x200000) / 0x1000 < p.numContexts ∧ (offset - 0x200000) / 0x1000 = context := by
  rw [claimContext] at h
  split_ifs at h with hc
  exact ⟨hc.1, hc.2.1, hc.2.2, Option.some.inj h⟩

theorem claimContext_eq_none (h : p.claimContext offset = none) :
    offset < 0x200000 ∨ (offset - 0x200000) % 0x1000 ≠ 4 ∨
      p.numContexts ≤ (offset - 0x200000) / 0x1000 := by
  rw [claimContext] at h
  split_ifs at h with hc
  omega

/-- A read of a claim register claims. -/
theorem mmioRead_some (h : p.claimContext offset = some context) :
    (p.mmioRead offset).1 = (p.doClaim context).1 := by
  obtain ⟨h0, h4, hlt, rfl⟩ := claimContext_eq_some h
  rw [mmioRead, if_neg (by omega), if_neg (by omega), if_neg (by omega)]
  simp only [if_neg (Nat.not_le.mpr hlt), h4]
  rfl

/-- Any other read changes nothing. -/
theorem mmioRead_none (h : p.claimContext offset = none) : (p.mmioRead offset).1 = p := by
  simp only [mmioRead]
  have hnot := claimContext_eq_none h
  split_ifs
  · rfl
  · rfl
  · rfl
  · rfl
  · rfl
  · rfl
  · omega
  · rfl

/-- A write to a claim register completes. -/
theorem mmioWrite_some (h : p.claimContext offset = some context) (val : Word) :
    p.mmioWrite offset val = p.doComplete context (val.setWidth 32) := by
  obtain ⟨h0, h4, hlt, rfl⟩ := claimContext_eq_some h
  rw [mmioWrite, if_neg (by omega), if_neg (by omega), if_neg (by omega)]
  simp only [if_neg (Nat.not_le.mpr hlt), h4]
  rfl

/-- Number of sources, levels and pending flags are the same. -/
structure SameLevels (p p' : Plic) : Prop where
  numSources : p'.numSources = p.numSources
  pending : p'.pending = p.pending
  level : p'.level = p.level

/-- A write to another register leaves levels and pending flags alone. -/
theorem mmioWrite_none (h : p.claimContext offset = none) (val : Word) :
    SameLevels p (p.mmioWrite offset val) := by
  simp only [mmioWrite]
  have hnot := claimContext_eq_none h
  split_ifs
  · exact ⟨rfl, rfl, rfl⟩
  · exact ⟨rfl, rfl, rfl⟩
  · exact ⟨rfl, rfl, rfl⟩
  · simp only [writeEnableWord]
    split_ifs <;> exact ⟨rfl, rfl, rfl⟩
  · exact ⟨rfl, rfl, rfl⟩
  · exact ⟨rfl, rfl, rfl⟩
  · omega
  · exact ⟨rfl, rfl, rfl⟩

end Plic

structure PlicRun where
  plic : Plic
  held : Nat → BitVec 32 → Bool

inductive PlicAct where
  | setIrq (source : Nat) (high : Bool)
  | read (offset : Nat)
  | write (offset : Nat) (val : Word)

namespace PlicRun

/-- Record whether a context holds a source. -/
def hold (held : Nat → BitVec 32 → Bool) (context : Nat) (src : BitVec 32) (b : Bool) :
    Nat → BitVec 32 → Bool :=
  Function.update held context (Function.update (held context) src b)

theorem hold_self (held : Nat → BitVec 32 → Bool) (context : Nat) (src : BitVec 32) (b : Bool) :
    hold held context src b context src = b := by
  rw [hold, Function.update_self, Function.update_self]

theorem hold_other {held : Nat → BitVec 32 → Bool} {context k : Nat} {src s : BitVec 32} {b : Bool}
    (h : k ≠ context ∨ s ≠ src) : hold held context src b k s = held k s := by
  rw [hold]
  by_cases hk : k = context
  · subst hk
    rw [Function.update_self, Function.update_of_ne (h.resolve_left fun hne => hne rfl)]
  · rw [Function.update_of_ne hk]

/-- A read of a claim register claims, a write to it completes. -/
def step (r : PlicRun) : PlicAct → PlicRun
  | .setIrq source high => { r with plic := r.plic.setIrq source high }
  | .read offset =>
    { plic := (r.plic.mmioRead offset).1
      held := match r.plic.claimContext offset with
        | none => r.held
        | some context =>
          let src := r.plic.findHighest context
          if 0 < src then hold r.held context (BitVec.ofNat 32 src) true else r.held }
  | .write offset val =>
    { plic := r.plic.mmioWrite offset val
      held := match r.plic.claimContext offset with
        | none => r.held
        | some context => hold r.held context (val.setWidth 32) false }

/-- A complete names a source that its context holds. -/
def Promised (r : PlicRun) (a : PlicAct) : Prop :=
  ∀ offset val context, a = .write offset val → r.plic.claimContext offset = some context →
    r.held context (val.setWidth 32) = true

/-- A source whose level is high and that no context holds is pending. -/
def NothingLost (r : PlicRun) : Prop :=
  ∀ src : BitVec 32, r.plic.level src.toNat = true → (∀ context, r.held context src = false) →
    r.plic.pending src.toNat = true

/-- A complete of a source that is not the last its context claimed finds the level low, the
source pending, or another context that holds it. -/
def CompletesTruly (r : PlicRun) (a : PlicAct) : Prop :=
  ∀ offset val context, a = .write offset val → r.plic.claimContext offset = some context →
    r.plic.claimed context = val.setWidth 32 ∨
      (r.plic.level ((val.setWidth 32 : BitVec 32).toNat) = true →
        (∀ k, k ≠ context → r.held k (val.setWidth 32) = false) →
        r.plic.pending ((val.setWidth 32 : BitVec 32).toNat) = true)

/-- Levels are driven for sources that exist. -/
structure Inv (r : PlicRun) : Prop where
  sources : r.plic.numSources < 2 ^ 32
  level : ∀ src, r.plic.level src = true → 0 < src ∧ src ≤ r.plic.numSources

theorem Inv.start (base : Word) {numSources : Nat} (numContexts : Nat) (h : numSources < 2 ^ 32) :
    Inv ⟨Plic.reset base numSources numContexts, fun _ _ => false⟩ := by
  refine ⟨h, fun src hs => ?_⟩
  cases hs

theorem Inv.step {r : PlicRun} (h : r.Inv) (a : PlicAct) : (r.step a).Inv := by
  obtain ⟨hn, hl⟩ := h
  cases a with
  | setIrq source high =>
    simp only [PlicRun.step, Plic.setIrq]
    split_ifs with hv
    · refine ⟨hn, fun src hs => ?_⟩
      by_cases he : src = source
      · subst he
        exact hv
      · simp only [Function.update_of_ne he] at hs
        exact hl src hs
    · exact ⟨hn, hl⟩
  | read offset =>
    cases hc : r.plic.claimContext offset with
    | none =>
      refine ⟨?_, ?_⟩ <;> simp only [PlicRun.step, Plic.mmioRead_none hc]
      · exact hn
      · exact hl
    | some context =>
      refine ⟨?_, ?_⟩ <;> simp only [PlicRun.step, Plic.mmioRead_some hc, Plic.doClaim]
      · split_ifs <;> exact hn
      · split_ifs <;> exact hl
  | write offset val =>
    cases hc : r.plic.claimContext offset with
    | none =>
      have hsame := Plic.mmioWrite_none hc val
      refine ⟨?_, ?_⟩ <;> simp only [PlicRun.step, hsame.numSources, hsame.level]
      · exact hn
      · exact hl
    | some context =>
      refine ⟨?_, ?_⟩ <;> simp only [PlicRun.step, Plic.mmioWrite_some hc, Plic.doComplete]
      · split_ifs <;> exact hn
      · split_ifs <;> exact hl

theorem NothingLost.setIrq {r : PlicRun} (hk : r.NothingLost) (source : Nat) (high : Bool) :
    (r.step (.setIrq source high)).NothingLost := by
  intro src hl hheld
  simp only [PlicRun.step, Plic.setIrq] at hl hheld ⊢
  split_ifs at hl ⊢ with hv
  · by_cases he : src.toNat = source
    · simp only [he, Function.update_self] at hl ⊢
      exact hl
    · simp only [Function.update_of_ne he] at hl ⊢
      exact hk src hl hheld
  · exact hk src hl hheld

theorem NothingLost.claim {r : PlicRun} (h : r.Inv) (hk : r.NothingLost) {offset context : Nat}
    (hc : r.plic.claimContext offset = some context) : (r.step (.read offset)).NothingLost := by
  intro src hl hheld
  simp only [PlicRun.step, Plic.mmioRead_some hc, hc, Plic.doClaim] at hl hheld ⊢
  split_ifs at hl hheld ⊢ with hpos
  · have hlt : r.plic.findHighest context < 2 ^ 32 := (r.plic.findHighest_le context).trans_lt h.sources
    have hsrc : (BitVec.ofNat 32 (r.plic.findHighest context)).toNat = r.plic.findHighest context := by
      rw [BitVec.toNat_ofNat]
      exact Nat.mod_eq_of_lt hlt
    have hne : src ≠ BitVec.ofNat 32 (r.plic.findHighest context) := by
      rintro rfl
      have hself := hheld context
      rw [hold_self] at hself
      cases hself
    have hne' : src.toNat ≠ r.plic.findHighest context := by
      rw [← hsrc]
      exact fun he => hne (BitVec.eq_of_toNat_eq he)
    simp only [Function.update_of_ne hne']
    exact hk src hl fun k => by
      rw [← hheld k, hold_other (.inr hne)]
  · exact hk src hl hheld

theorem complete_iff {r : PlicRun} (h : r.Inv) (hk : r.NothingLost) {offset context : Nat} {val : Word}
    (hc : r.plic.claimContext offset = some context) :
    (r.step (.write offset val)).NothingLost ↔
      r.plic.claimed context = val.setWidth 32 ∨
        (r.plic.level ((val.setWidth 32 : BitVec 32).toNat) = true →
          (∀ k, k ≠ context → r.held k (val.setWidth 32) = false) →
          r.plic.pending ((val.setWidth 32 : BitVec 32).toNat) = true) := by
  have hstep : r.step (.write offset val) =
      ⟨r.plic.doComplete context (val.setWidth 32), hold r.held context (val.setWidth 32) false⟩ := by
    simp only [PlicRun.step, Plic.mmioWrite_some hc, hc]
  rw [hstep]
  generalize (val.setWidth 32 : BitVec 32) = src
  -- the other sources are as before
  have hother : ∀ s : BitVec 32, s ≠ src → r.plic.level s.toNat = true →
      (∀ k, hold r.held context src false k s = false) → r.plic.pending s.toNat = true := by
    intro s hne hl hheld
    exact hk s hl fun k => by
      rw [← hheld k, hold_other (.inr hne)]
  by_cases hbad : src = 0 ∨ r.plic.numSources < src.toNat
  · have hlow : r.plic.level src.toNat ≠ true := by
      intro hl
      obtain ⟨hpos, hle⟩ := h.level _ hl
      rcases hbad with rfl | hbad
      · exact absurd hpos (by decide)
      · omega
    refine iff_of_true (fun s hl hheld => ?_) (.inr fun hl => absurd hl hlow)
    simp only [Plic.doComplete, if_pos hbad] at hl ⊢
    refine hother s ?_ hl hheld
    rintro rfl
    exact hlow hl
  · by_cases hcl : r.plic.claimed context = src
    · refine iff_of_true (fun s hl hheld => ?_) (.inl hcl)
      simp only [Plic.doComplete, if_neg hbad, if_pos hcl] at hl ⊢
      by_cases hs : s = src
      · subst hs
        rw [if_pos hl, Function.update_self]
      · have hp := hother s hs hl hheld
        split_ifs
        · rw [Function.update_of_ne fun he => hs (BitVec.eq_of_toNat_eq he)]
          exact hp
        · exact hp
    · have hsame : r.plic.doComplete context src = r.plic := by
        rw [Plic.doComplete, if_neg hbad, if_neg hcl]
      rw [hsame, or_iff_right hcl]
      constructor
      · intro hlost hl hheld
        apply hlost src hl
        intro k
        by_cases hkc : k = context
        · subst hkc
          exact hold_self ..
        · exact (hold_other (.inl hkc)).trans (hheld k hkc)
      · intro hcond s hl hheld
        by_cases hs : s = src
        · subst hs
          exact hcond hl fun k hkc => (hold_other (.inl hkc)).symm.trans (hheld k)
        · exact hother s hs hl hheld

theorem nothingLost_step_iff {r : PlicRun} (h : r.Inv) (hk : r.NothingLost) (a : PlicAct) :
    (r.step a).NothingLost ↔ r.CompletesTruly a := by
  cases a with
  | setIrq source high =>
    apply iff_of_true (hk.setIrq source high)
    intro offset val context ha
    cases ha
  | read offset =>
    refine iff_of_true ?_ fun offset val context ha => ?_
    · cases hc : r.plic.claimContext offset with
      | none =>
        simp only [NothingLost, PlicRun.step, Plic.mmioRead_none hc, hc]
        exact hk
      | some context => exact hk.claim h hc
    · cases ha
  | write offset val =>
    cases hc : r.plic.claimContext offset with
    | none =>
      have hsame := Plic.mmioWrite_none hc val
      refine iff_of_true ?_ fun offset' val' context ha hctx => ?_
      · simp only [NothingLost, PlicRun.step, hsame.level, hsame.pending, hc]
        exact hk
      · cases ha
        rw [hc] at hctx
        cases hctx
    | some context =>
      rw [complete_iff h hk hc]
      constructor
      · intro hcond offset' val' context' ha hctx
        cases ha
        rw [hc] at hctx
        cases hctx
        exact hcond
      · intro hcond
        exact hcond offset val context rfl hc

/-- What is asked of completes is asked of nothing else. -/
theorem promised_of_no_complete {r : PlicRun} {a : PlicAct}
    (h : ∀ offset val, a = .write offset val → r.plic.claimContext offset = none) : r.Promised a := by
  intro offset val context ha hc
  rw [h offset val ha] at hc
  cases hc

theorem completesTruly_of_no_complete {r : PlicRun} {a : PlicAct}
    (h : ∀ offset val, a = .write offset val → r.plic.claimContext offset = none) : r.CompletesTruly a := by
  intro offset val context ha hc
  rw [h offset val ha] at hc
  cases hc

theorem no_complete_setIrq {r : PlicRun} {source : Nat} {high : Bool} :
    ∀ offset val, PlicAct.setIrq source high = .write offset val → r.plic.claimContext offset = none := by
  intro offset val ha
  cases ha

theorem no_complete_read {r : PlicRun} {offset' : Nat} :
    ∀ offset val, PlicAct.read offset' = .write offset val → r.plic.claimContext offset = none := by
  intro offset val ha
  cases ha

theorem no_complete_write {r : PlicRun} {offset' : Nat} {val' : Word}
    (h : r.plic.claimContext offset' = none) :
    ∀ offset val, PlicAct.write offset' val' = .write offset val → r.plic.claimContext offset = none := by
  intro offset val ha
  cases ha
  exact h

theorem promised_complete {r : PlicRun} {offset : Nat} (context : Nat) {val : Word}
    (h : r.plic.claimContext offset = some context) (hh : r.held context (val.setWidth 32) = true) :
    r.Promised (.write offset val) := by
  intro offset' val' context' ha hc
  cases ha
  rw [h] at hc
  cases hc
  exact hh

theorem completesTruly_last {r : PlicRun} {offset : Nat} (context : Nat) {val : Word}
    (h : r.plic.claimContext offset = some context) (hh : r.plic.claimed context = val.setWidth 32) :
    r.CompletesTruly (.write offset val) := by
  intro offset' val' context' ha hc
  cases ha
  rw [h] at hc
  cases hc
  exact .inl hh

end PlicRun

/-- From reset, for every sequence of level changes and register accesses whose completes name what
their context holds: a high level that no context holds is pending in every state, exactly when no
complete is ignored that should have made its source pending. -/
theorem plic_level_kept_iff (base : Word) (numSources numContexts : Nat) (run : List PlicAct)
    (hn : numSources < 2 ^ 32)
    (hp : Run.Along PlicRun.step PlicRun.Promised
      ⟨Plic.reset base numSources numContexts, fun _ _ => false⟩ run) :
    Run.Always PlicRun.step PlicRun.NothingLost ⟨Plic.reset base numSources numContexts, fun _ _ => false⟩ run ↔
      Run.Along PlicRun.step PlicRun.CompletesTruly
        ⟨Plic.reset base numSources numContexts, fun _ _ => false⟩ run := by
  refine Run.always_iff_along (fun _ a h _ => h.step a)
    (fun _ a h _ hk => PlicRun.nothingLost_step_iff h hk a) (PlicRun.Inv.start base numContexts hn) ?_ hp
  intro src hl
  cases hl

/-- Two sources of equal priority, enabled for the one context, raise their levels. -/
def twoRaised : List PlicAct := [.write 4 1, .write 8 1, .write 0x2000 6, .setIrq 1 true, .setIrq 2 true]

def servedRun : List PlicAct := twoRaised ++ [.read 0x200004, .write 0x200004 1]

def nestedRun : List PlicAct := twoRaised ++ [.read 0x200004, .read 0x200004, .write 0x200004 1]

/-- The context claims the first source and completes it. -/
theorem claim_complete_kept :
    Run.Always PlicRun.step PlicRun.NothingLost ⟨Plic.reset 0xC000000 2 1, fun _ _ => false⟩
      servedRun := by
  refine (plic_level_kept_iff 0xC000000 2 1 servedRun (by decide)
    ⟨?_, ?_, ?_, ?_, ?_, ?_, ?_, trivial⟩).mpr ⟨?_, ?_, ?_, ?_, ?_, ?_, ?_, trivial⟩
  · exact PlicRun.promised_of_no_complete (PlicRun.no_complete_write (by decide))
  · exact PlicRun.promised_of_no_complete (PlicRun.no_complete_write (by decide))
  · exact PlicRun.promised_of_no_complete (PlicRun.no_complete_write (by decide))
  · exact PlicRun.promised_of_no_complete PlicRun.no_complete_setIrq
  · exact PlicRun.promised_of_no_complete PlicRun.no_complete_setIrq
  · exact PlicRun.promised_of_no_complete PlicRun.no_complete_read
  · exact PlicRun.promised_complete 0 (by decide) (by decide)
  · exact PlicRun.completesTruly_of_no_complete (PlicRun.no_complete_write (by decide))
  · exact PlicRun.completesTruly_of_no_complete (PlicRun.no_complete_write (by decide))
  · exact PlicRun.completesTruly_of_no_complete (PlicRun.no_complete_write (by decide))
  · exact PlicRun.completesTruly_of_no_complete PlicRun.no_complete_setIrq
  · exact PlicRun.completesTruly_of_no_complete PlicRun.no_complete_setIrq
  · exact PlicRun.completesTruly_of_no_complete PlicRun.no_complete_read
  · exact PlicRun.completesTruly_last 0 (by decide) (by decide)

/-- The context claims the second source before it completes the first: the complete is ignored,
and the first source is lost although its level is high. -/
theorem nested_claim_lost :
    Run.Along PlicRun.step PlicRun.Promised ⟨Plic.reset 0xC000000 2 1, fun _ _ => false⟩
        nestedRun ∧
      ¬ Run.Always PlicRun.step PlicRun.NothingLost ⟨Plic.reset 0xC000000 2 1, fun _ _ => false⟩
        nestedRun := by
  constructor
  · refine ⟨?_, ?_, ?_, ?_, ?_, ?_, ?_, ?_, trivial⟩
    · exact PlicRun.promised_of_no_complete (PlicRun.no_complete_write (by decide))
    · exact PlicRun.promised_of_no_complete (PlicRun.no_complete_write (by decide))
    · exact PlicRun.promised_of_no_complete (PlicRun.no_complete_write (by decide))
    · exact PlicRun.promised_of_no_complete PlicRun.no_complete_setIrq
    · exact PlicRun.promised_of_no_complete PlicRun.no_complete_setIrq
    · exact PlicRun.promised_of_no_complete PlicRun.no_complete_read
    · exact PlicRun.promised_of_no_complete PlicRun.no_complete_read
    · exact PlicRun.promised_complete 0 (by decide) (by decide)
  · intro h
    have hheld : (nestedRun.foldl PlicRun.step ⟨Plic.reset 0xC000000 2 1, fun _ _ => false⟩).held =
          PlicRun.hold (PlicRun.hold (PlicRun.hold (fun _ _ => false) 0 1 true) 0 2 true) 0 1 false := rfl
    have hp := h.last 1 (by decide) fun k => ?_
    · exact absurd hp (by decide)
    · rw [hheld]
      by_cases hk : k = 0
      · subst hk
        exact PlicRun.hold_self ..
      · rw [PlicRun.hold_other (.inl hk), PlicRun.hold_other (.inl hk), PlicRun.hold_other (.inl hk)]

end Pyremu
