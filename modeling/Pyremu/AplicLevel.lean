import Pyremu.Aplic

/-!
# Level sources of the APLIC

The pending bit of a level source is set by a rising wire, by a new trigger type
and by register writes, each with its own look at the recorded level. A call for
an inactive source records nothing.
-/

namespace Pyremu

namespace Aplic

section Level

variable (a : Aplic)

/-- The source is configured as level-high or level-low. -/
def IsLevel (src : Nat) : Prop := a.sm src = 6 ∨ a.sm src = 7

/-- A level source is pending only while its rectified input is active. -/
def Follows : Prop := ∀ src, a.validSource src → a.IsLevel src → a.pending src = true → a.inputActive src = true

/-- The level that is recorded: the last one given while the source was not inactive. -/
def noteLevel (last : Nat → Bool) : AplicOp → Nat → Bool
  | .setIrq sourceNum level =>
    if 0 < sourceNum ∧ sourceNum ≤ a.numSources ∧ a.sm sourceNum.toNat ≠ 0 then
      Function.update last sourceNum.toNat level
    else last
  | _ => last

/-- No line is withdrawn from a pending level source, and no pending source without an active input becomes
a level source. -/
def KeepsLevel : AplicOp → Prop
  | .setIrq sourceNum level =>
    0 < sourceNum → sourceNum ≤ a.numSources → a.IsLevel sourceNum.toNat → a.pending sourceNum.toNat = true →
      level = decide (a.sm sourceNum.toNat = 6)
  | .bindSource sourceNum hartId _ =>
    0 < sourceNum → sourceNum ≤ a.numSources → 0 ≤ hartId → hartId ≤ 0x3FFF →
      a.pending sourceNum.toNat = true → a.input sourceNum.toNat = true
  | .write offset v =>
    0x0004 ≤ offset → offset < 0x0004 + a.numSources * 4 → v &&& 7 = 6 ∨ v &&& 7 = 7 →
      a.pending (indexOf offset 0x0004) = true → a.input (indexOf offset 0x0004) = decide (v &&& 7 = 6)

/-- A level source gets its pending bit only with an active input. -/
def SetsActive (op : AplicOp) : Prop :=
  ∀ src, (a.step op).IsLevel src → a.pending src = false → (a.step op).pending src = true →
    (a.step op).inputActive src = true

end Level

/-- The APLIC with the levels that it should have recorded. -/
abbrev Wired := Aplic × (Nat → Bool)

def Wired.step (t : Wired) (op : AplicOp) : Wired := (t.1.step op, t.1.noteLevel t.2 op)

/-- The record is what it should be. -/
def Wired.Records (t : Wired) : Prop := ∀ src, t.1.input src = t.2 src

/-- A trigger type other than inactive keeps the pending bit or takes it from the recorded level. -/
def Wired.Configures (t : Wired) : AplicOp → Prop
  | .write offset v =>
    0x0004 ≤ offset → offset < 0x0004 + t.1.numSources * 4 → v &&& 7 ≠ 0 →
      (t.1.write offset v).pending (indexOf offset 0x0004) =
        (t.1.pending (indexOf offset 0x0004) || (t.2 (indexOf offset 0x0004) ^^ decide (v &&& 7 = 7 ∨ v &&& 7 = 5)))
  | _ => True

/-! ## Pending bits that are new -/

section New

variable {a b c : Aplic} {src : Nat}

/-- From `a` to `b` level sources become pending with an active input only. -/
def Pends (a b : Aplic) : Prop :=
  ∀ src, b.IsLevel src → b.pending src = true → a.pending src = true ∨ b.inputActive src = true

theorem Pends.refl (a : Aplic) : Pends a a := fun _ _ h => .inl h

theorem SameWiring.isLevel (h : SameWiring a b) (src : Nat) : b.IsLevel src ↔ a.IsLevel src := by
  rw [IsLevel, IsLevel, sm, sm, h.sourcecfg]

theorem Pends.trans (h : Pends a b) (h' : Pends b c) (hw : SameWiring b c) : Pends a c := by
  intro src hlevel hp
  rcases h' src hlevel hp with hb | hin
  · rw [hw.inputActive]
    exact h src ((hw.isLevel src).mp hlevel) hb
  · exact .inr hin

theorem pends_deliver (a : Aplic) (src : Nat) : Pends a (a.deliverFromSource src) := by
  intro j _ hp
  rw [deliver_pending, Bool.and_eq_true] at hp
  exact .inl hp.1

theorem pends_setPending (a : Aplic) (src : Nat) (on : Bool) : Pends a (a.setPending src on).1 := by
  have hw := sameWiring_setPending a src on
  intro j hlevel hp
  by_cases hj : j = src
  · subst hj
    rw [hw.inputActive]
    have hlevel' : a.sm j = 6 ∨ a.sm j = 7 := (hw.isLevel j).mp hlevel
    have hne : a.sm j ≠ 0 := by
      intro h0
      rw [h0] at hlevel'
      revert hlevel'
      decide
    rw [setPending, if_neg hne, if_pos hlevel'] at hp
    by_cases hon : on = false
    · rw [if_pos hon] at hp
      change Function.update a.pending j false j = true at hp
      rw [Function.update_self] at hp
      cases hp
    · rw [if_neg hon] at hp
      by_cases hin : a.inputActive j = false
      · rw [if_pos hin] at hp
        exact .inl hp
      · exact .inr (Bool.eq_true_of_not_eq_false hin)
  · rw [setPending_other a on hj] at hp
    exact .inl hp

theorem pends_setAndDeliver (a : Aplic) (src : Nat) (on : Bool) : Pends a (a.setAndDeliver src on) := by
  rw [setAndDeliver]
  split_ifs
  · exact (pends_setPending a src on).trans (pends_deliver _ src) (sameWiring_deliver _ src)
  · exact pends_setPending a src on

theorem pends_enable (a : Aplic) (src : Nat) (on : Bool) :
    Pends a (deliverFromSource { a with enabled := Function.update a.enabled src on } src) :=
  pends_deliver { a with enabled := Function.update a.enabled src on } src

theorem pends_writeBit (a : Aplic) (pendingBits setBit : Bool) (v : BitVec 32) (word i : Nat) :
    Pends a (a.writeBit pendingBits setBit v word i) := by
  rw [writeBit]
  split_ifs
  · exact .refl a
  · exact pends_setAndDeliver a _ setBit
  · exact pends_enable a _ setBit
  · exact .refl a

theorem pends_writeWord (a : Aplic) (offset base : Nat) (pendingBits setBit : Bool) (v : BitVec 32) :
    Pends a (a.writeWord offset base pendingBits setBit v) := by
  rw [writeWord]
  generalize (offset - base) / 4 = word
  have hfold : ∀ (l : List Nat) (b : Aplic), Pends b (l.foldl (writeBit pendingBits setBit v word) b) ∧
      SameWiring b (l.foldl (writeBit pendingBits setBit v word) b) := by
    intro l
    induction l with
    | nil => exact fun b => ⟨.refl b, .refl b⟩
    | cons i l ih =>
      intro b
      obtain ⟨hp, hw⟩ := ih (b.writeBit pendingBits setBit v word i)
      exact ⟨(pends_writeBit b pendingBits setBit v word i).trans hp hw,
        (sameWiring_writeBit b pendingBits setBit v word i).trans hw⟩
  exact (hfold (List.range 32) a).1

theorem pends_foldl_deliver (a : Aplic) (l : List Nat) : Pends a (l.foldl deliverFromSource a) := by
  induction l generalizing a with
  | nil => exact .refl a
  | cons src l ih => exact (pends_deliver a src).trans (ih _) (sameWiring_foldl_deliver _ l)

theorem pends_writeDomaincfg (a : Aplic) (v : BitVec 32) : Pends a (a.writeDomaincfg v) := by
  rw [writeDomaincfg]
  split_ifs
  · exact fun _ _ h => .inl h
  · exact pends_foldl_deliver { a with domaincfg := v &&& 0x104 } _

theorem pends_writeNumbered (a : Aplic) (offset : Nat) (v : BitVec 32) : Pends a (a.writeNumbered offset v) := by
  rw [writeNumbered]
  split_ifs
  · exact pends_setAndDeliver a _ true
  · exact pends_setPending a _ false
  · exact pends_enable a _ true
  · exact fun _ _ h => .inl h
  · exact pends_setAndDeliver a _ true
  · exact .refl a
  · exact .refl a

/-! ## Writes -/

/-- A write outside `sourcecfg` leaves trigger types and lines as they are. -/
theorem write_wires (a : Aplic) {offset : Nat} (ho : ¬ (0x0004 ≤ offset ∧ offset < 0x0004 + a.numSources * 4))
    (v : BitVec 32) : (a.write offset v).sourcecfg = a.sourcecfg ∧ (a.write offset v).input = a.input ∧
      (a.write offset v).numSources = a.numSources := by
  have hsame : ∀ {b : Aplic}, SameWiring a b →
      b.sourcecfg = a.sourcecfg ∧ b.input = a.input ∧ b.numSources = a.numSources :=
    fun hw => ⟨hw.sourcecfg, hw.input, hw.numSources⟩
  rw [write, if_neg ho]
  split_ifs
  · rw [writeDomaincfg]
    split_ifs
    · exact ⟨rfl, rfl, rfl⟩
    · have hw := sameWiring_foldl_deliver { a with domaincfg := v &&& 0x104 } (List.range' 1 a.numSources)
      exact ⟨hw.sourcecfg, hw.input, hw.numSources⟩
  · exact hsame (sameWiring_writeWord a _ _ _ _ v)
  · exact hsame (sameWiring_writeWord a _ _ _ _ v)
  · exact hsame (sameWiring_writeWord a _ _ _ _ v)
  · exact hsame (sameWiring_writeWord a _ _ _ _ v)
  · rw [writeTarget]
    split_ifs <;> exact ⟨rfl, rfl, rfl⟩
  · rw [writeNumbered]
    split_ifs
    · exact hsame (sameWiring_setAndDeliver a _ true)
    · exact hsame (sameWiring_setPending a _ false)
    · exact hsame (sameWiring_enable a _ true)
    · exact ⟨rfl, rfl, rfl⟩
    · exact hsame (sameWiring_setAndDeliver a _ true)
    · exact ⟨rfl, rfl, rfl⟩
    · exact ⟨rfl, rfl, rfl⟩

theorem pends_write (a : Aplic) {offset : Nat} (ho : ¬ (0x0004 ≤ offset ∧ offset < 0x0004 + a.numSources * 4))
    (v : BitVec 32) : Pends a (a.write offset v) := by
  rw [write, if_neg ho]
  split_ifs
  · exact pends_writeDomaincfg a v
  · exact pends_writeWord a _ _ _ _ v
  · exact pends_writeWord a _ _ _ _ v
  · exact pends_writeWord a _ _ _ _ v
  · exact pends_writeWord a _ _ _ _ v
  · rw [writeTarget]
    split_ifs <;> exact fun _ _ h => .inl h
  · exact pends_writeNumbered a offset v

theorem write_sourcecfg (a : Aplic) {offset : Nat} (ho : 0x0004 ≤ offset ∧ offset < 0x0004 + a.numSources * 4)
    (v : BitVec 32) :
    (a.write offset v).sourcecfg = Function.update a.sourcecfg (indexOf offset 0x0004) (v &&& 7) ∧
      (a.write offset v).input = a.input ∧ (a.write offset v).numSources = a.numSources := by
  have hwrite := writeSourcecfg_eq ho v
  dsimp only at hwrite
  rw [hwrite]
  split_ifs <;> exact ⟨rfl, rfl, rfl⟩

/-- A trigger type other than inactive keeps the pending bit or takes it from the input. -/
theorem write_sourcecfg_pending (a : Aplic) {offset : Nat}
    (ho : 0x0004 ≤ offset ∧ offset < 0x0004 + a.numSources * 4) {v : BitVec 32} (hv : v &&& 7 ≠ 0) :
    (a.write offset v).pending (indexOf offset 0x0004) =
      (a.pending (indexOf offset 0x0004) || (a.write offset v).inputActive (indexOf offset 0x0004)) := by
  have hwrite := writeSourcecfg_eq ho v
  dsimp only at hwrite
  rw [if_neg hv] at hwrite
  rw [hwrite]
  generalize indexOf offset 0x0004 = idx
  cases hin : inputActive { a with sourcecfg := Function.update a.sourcecfg idx (v &&& 7) } idx
  · rw [if_neg Bool.false_ne_true, hin, Bool.or_false]
  · rw [if_pos rfl]
    change Function.update a.pending idx true idx =
      (a.pending idx || inputActive { a with sourcecfg := Function.update a.sourcecfg idx (v &&& 7) } idx)
    rw [hin, Bool.or_true, Function.update_self]

theorem write_sourcecfg_inputActive (a : Aplic) {offset : Nat}
    (ho : 0x0004 ≤ offset ∧ offset < 0x0004 + a.numSources * 4) {v : BitVec 32} (hv : v &&& 7 ≠ 0) :
    (a.write offset v).inputActive (indexOf offset 0x0004) =
      (a.input (indexOf offset 0x0004) ^^ decide (v &&& 7 = 7 ∨ v &&& 7 = 5)) := by
  obtain ⟨hcfg, hin, _⟩ := write_sourcecfg a ho v
  have hmask : v &&& 7 &&& 7 = v &&& 7 := by
    rw [BitVec.and_assoc, BitVec.and_self]
  rw [inputActive, sm, hcfg, hin, Function.update_self, hmask, if_neg hv]

theorem pends_sourcecfg (a : Aplic) {offset : Nat} (ho : 0x0004 ≤ offset ∧ offset < 0x0004 + a.numSources * 4)
    (v : BitVec 32) : Pends a (a.write offset v) := by
  intro j hlevel hp
  by_cases hv : v &&& 7 = 0
  · have hwrite := writeSourcecfg_eq ho v
    dsimp only at hwrite
    rw [if_pos hv] at hwrite
    rw [hwrite] at hp
    by_cases hj : j = indexOf offset 0x0004
    · subst hj
      change Function.update a.pending _ false _ = true at hp
      rw [Function.update_self] at hp
      cases hp
    · change Function.update a.pending _ false j = true at hp
      rw [Function.update_of_ne hj] at hp
      exact .inl hp
  · by_cases hj : j = indexOf offset 0x0004
    · subst hj
      rw [write_sourcecfg_pending a ho hv, Bool.or_eq_true] at hp
      exact hp
    · have hwrite := writeSourcecfg_eq ho v
      dsimp only at hwrite
      rw [if_neg hv] at hwrite
      rw [hwrite] at hp
      left
      split_ifs at hp
      · change Function.update a.pending _ true j = true at hp
        rwa [Function.update_of_ne hj] at hp
      · exact hp

/-! ## The line -/

section Line

variable {sourceNum : Int}

theorem setIrq_wires (a : Aplic) (sourceNum : Int) (level : Bool) :
    (a.setIrq sourceNum level).sourcecfg = a.sourcecfg ∧
      (a.setIrq sourceNum level).input = a.noteLevel a.input (.setIrq sourceNum level) := by
  by_cases hsrc : 0 < sourceNum ∧ sourceNum ≤ a.numSources
  · by_cases h0 : a.sm sourceNum.toNat = 0
    · have hsame : a.setIrq sourceNum level = a := by
        rw [setIrq, if_neg (not_not.mpr hsrc)]
        exact if_pos h0
      rw [hsame, noteLevel, if_neg fun h => h.2.2 h0]
      exact ⟨rfl, rfl⟩
    · have hnote : a.noteLevel a.input (.setIrq sourceNum level) =
          Function.update a.input sourceNum.toNat level := if_pos ⟨hsrc.1, hsrc.2, h0⟩
      rw [hnote, setIrq_eq hsrc h0]
      split_ifs
      · have hw := sameWiring_deliver
          { a with
            input := Function.update a.input sourceNum.toNat level
            pending := Function.update a.pending sourceNum.toNat true } sourceNum.toNat
        exact ⟨hw.sourcecfg, hw.input⟩
      · exact ⟨rfl, rfl⟩
  · rw [setIrq, if_pos hsrc, noteLevel, if_neg fun h => hsrc ⟨h.1, h.2.1⟩]
    exact ⟨rfl, rfl⟩

/-- A source that is pending keeps its bit, whatever its line does. -/
theorem setIrq_of_pending {level : Bool} (hp : a.pending sourceNum.toNat = true) :
    (a.setIrq sourceNum level).pending = a.pending := by
  by_cases hsrc : 0 < sourceNum ∧ sourceNum ≤ a.numSources
  · by_cases h0 : a.sm sourceNum.toNat = 0
    · rw [setIrq, if_neg (not_not.mpr hsrc)]
      exact congrArg pending (if_pos h0)
    · have hno : raises (a.sm sourceNum.toNat) level (a.input sourceNum.toNat) true = false := by
        simp [raises]
      rw [setIrq_eq hsrc h0, hp, hno]
      rfl
  · rw [setIrq, if_pos hsrc]

/-- The line of a level source raises the pending bit when it becomes active. -/
theorem raises_level {sm : BitVec 32} (hsm : sm = 6 ∨ sm = 7) {level oldInput pending : Bool}
    (h : raises sm level oldInput pending = true) : (level ^^ decide (sm = 7 ∨ sm = 5)) = true := by
  rcases hsm with rfl | rfl
  all_goals
    revert h
    cases level <;> cases oldInput <;> cases pending <;> decide

theorem pends_setIrq (a : Aplic) (sourceNum : Int) (level : Bool) : Pends a (a.setIrq sourceNum level) := by
  obtain ⟨hcfg, hin⟩ := setIrq_wires a sourceNum level
  intro j hlevel hp
  by_cases hsrc : 0 < sourceNum ∧ sourceNum ≤ a.numSources ∧ a.sm sourceNum.toNat ≠ 0
  · rw [noteLevel, if_pos hsrc] at hin
    obtain ⟨hpos, hle, h0⟩ := hsrc
    have heq := setIrq_eq ⟨hpos, hle⟩ h0 level
    by_cases hr : raises (a.sm sourceNum.toNat) level (a.input sourceNum.toNat) (a.pending sourceNum.toNat) = true
    · by_cases hj : j = sourceNum.toNat
      · subst hj
        right
        rw [IsLevel, sm, hcfg] at hlevel
        rw [inputActive, sm, hcfg, hin, Function.update_self]
        rw [← sm] at hlevel ⊢
        rw [if_neg h0]
        exact raises_level hlevel hr
      · left
        rw [heq, if_pos hr, deliver_pending, Bool.and_eq_true] at hp
        rw [← hp.1]
        exact (Function.update_of_ne hj _ _).symm
    · left
      rw [heq, if_neg hr] at hp
      exact hp
  · left
    by_cases hrange : 0 < sourceNum ∧ sourceNum ≤ a.numSources
    · have h0 : a.sm sourceNum.toNat = 0 := by
        by_contra h0
        exact hsrc ⟨hrange.1, hrange.2, h0⟩
      rw [setIrq, if_neg (not_not.mpr hrange)] at hp
      rw [← hp]
      exact (congrArg (fun b : Aplic => b.pending j) (if_pos h0)).symm
    · rw [setIrq, if_pos hrange] at hp
      exact hp

theorem bindSource_eq (hsrc : 0 < sourceNum ∧ sourceNum ≤ a.numSources) {hartId : Int}
    (hhart : 0 ≤ hartId ∧ hartId ≤ 0x3FFF) (eiid : Int) :
    a.bindSource sourceNum hartId eiid =
      { a with
        sourcecfg := Function.update a.sourcecfg sourceNum.toNat 6
        target := Function.update a.target sourceNum.toNat
          ((BitVec.ofInt 32 hartId <<< 18) ||| (BitVec.ofInt 32 eiid &&& 0x7FF))
        enabled := Function.update a.enabled sourceNum.toNat true } := by
  rw [bindSource, if_neg (not_not.mpr hsrc), if_neg (not_not.mpr hhart)]

theorem bindSource_lines (a : Aplic) (sourceNum hartId eiid : Int) :
    (a.bindSource sourceNum hartId eiid).pending = a.pending ∧
      (a.bindSource sourceNum hartId eiid).input = a.input := by
  rw [bindSource]
  split_ifs <;> exact ⟨rfl, rfl⟩

end Line

theorem pends_step (a : Aplic) (op : AplicOp) : Pends a (a.step op) := by
  cases op with
  | setIrq sourceNum level => exact pends_setIrq a sourceNum level
  | bindSource sourceNum hartId eiid =>
    intro j _ hp
    left
    rw [← (bindSource_lines a sourceNum hartId eiid).1]
    exact hp
  | write offset v =>
    by_cases ho : 0x0004 ≤ offset ∧ offset < 0x0004 + a.numSources * 4
    · exact pends_sourcecfg a ho v
    · exact pends_write a ho v

theorem setsActive (a : Aplic) (op : AplicOp) : a.SetsActive op := by
  intro j hlevel hbefore hafter
  rcases pends_step a op j hlevel hafter with hp | hin
  · rw [hbefore] at hp
    cases hp
  · exact hin

/-! ## When a level source follows its line -/

/-- A step that changes the wiring of one source keeps the property if that source has it. -/
theorem Follows.step_iff {i : Nat} (hf : a.Follows) (hp : Pends a b) (hn : b.numSources = a.numSources)
    (hi : a.validSource i) (hcfg : ∀ j, j ≠ i → b.sourcecfg j = a.sourcecfg j)
    (hin : ∀ j, j ≠ i → b.input j = a.input j)
    (hkept : b.IsLevel i → a.pending i = true → b.pending i = true) :
    b.Follows ↔ (b.IsLevel i → a.pending i = true → b.inputActive i = true) := by
  constructor
  · intro hb hlevel hpend
    have hvalid : b.validSource i := by
      rw [validSource, hn]
      exact hi
    exact hb i hvalid hlevel (hkept hlevel hpend)
  · intro h j hj hlevel hpend
    rcases hp j hlevel hpend with hbefore | hactive
    · by_cases hji : j = i
      · subst hji
        exact h hlevel hbefore
      · have hsm : b.sm j = a.sm j := by
          rw [sm, sm, hcfg j hji]
        rw [inputActive, hsm, hin j hji]
        rw [validSource, hn] at hj
        rw [IsLevel, hsm] at hlevel
        exact hf j hj hlevel hbefore
    · exact hactive

/-- A step that changes no wiring keeps the property. -/
theorem Follows.keep (hf : a.Follows) (hp : Pends a b) (hn : b.numSources = a.numSources)
    (hcfg : b.sourcecfg = a.sourcecfg) (hin : b.input = a.input) : b.Follows := by
  intro j hj hlevel hpend
  rcases hp j hlevel hpend with hbefore | hactive
  · rw [inputActive, sm, hcfg, hin]
    rw [validSource, hn] at hj
    rw [IsLevel, sm, hcfg] at hlevel
    exact hf j hj hlevel hbefore
  · exact hactive

/-- The input of a level source is active when the line stands at the level of its type. -/
theorem active_iff {sm : BitVec 32} (hsm : sm = 6 ∨ sm = 7) (level : Bool) :
    (level ^^ decide (sm = 7 ∨ sm = 5)) = true ↔ level = decide (sm = 6) := by
  rcases hsm with rfl | rfl
  all_goals cases level <;> decide

theorem setIrq_numSources (a : Aplic) (sourceNum : Int) (level : Bool) :
    (a.setIrq sourceNum level).numSources = a.numSources := by
  rw [setIrq]
  dsimp only
  split_ifs
  all_goals first
    | rfl
    | exact (sameWiring_deliver _ _).numSources

theorem Follows.setIrq_iff (hf : a.Follows) (sourceNum : Int) (level : Bool) :
    (a.setIrq sourceNum level).Follows ↔ a.KeepsLevel (.setIrq sourceNum level) := by
  obtain ⟨hcfg, hin⟩ := setIrq_wires a sourceNum level
  have hn := setIrq_numSources a sourceNum level
  have hpends := pends_setIrq a sourceNum level
  by_cases hsrc : 0 < sourceNum ∧ sourceNum ≤ a.numSources ∧ a.sm sourceNum.toNat ≠ 0
  · rw [noteLevel, if_pos hsrc] at hin
    obtain ⟨hpos, hle, h0⟩ := hsrc
    have hvalid : a.validSource sourceNum.toNat := ⟨by omega, by omega⟩
    have hlevelIff : (a.setIrq sourceNum level).IsLevel sourceNum.toNat ↔ a.IsLevel sourceNum.toNat := by
      rw [IsLevel, sm, hcfg]
      rfl
    have hactive : (a.setIrq sourceNum level).inputActive sourceNum.toNat =
        (level ^^ decide (a.sm sourceNum.toNat = 7 ∨ a.sm sourceNum.toNat = 5)) := by
      rw [inputActive, sm, hcfg, hin, Function.update_self]
      exact if_neg h0
    rw [hf.step_iff hpends hn hvalid (fun j _ => congrFun hcfg j)
      (fun j hj => by rw [hin, Function.update_of_ne hj])
      (fun _ hp => by rw [setIrq_of_pending hp, hp]), hlevelIff, hactive]
    constructor
    · intro h _ _ hlevel hp
      exact (active_iff hlevel level).mp (h hlevel hp)
    · intro h hlevel hp
      exact (active_iff hlevel level).mpr (h hpos hle hlevel hp)
  · rw [noteLevel, if_neg hsrc] at hin
    apply iff_of_true
    · exact hf.keep hpends hn hcfg hin
    · intro hpos hle hlevel
      exfalso
      apply hsrc
      refine ⟨hpos, hle, fun h0 => ?_⟩
      rw [IsLevel, h0] at hlevel
      revert hlevel
      decide

theorem Follows.bindSource_iff (hf : a.Follows) (sourceNum hartId eiid : Int) :
    (a.bindSource sourceNum hartId eiid).Follows ↔ a.KeepsLevel (.bindSource sourceNum hartId eiid) := by
  have hpends := pends_step a (.bindSource sourceNum hartId eiid)
  by_cases hin : (0 < sourceNum ∧ sourceNum ≤ a.numSources) ∧ 0 ≤ hartId ∧ hartId ≤ 0x3FFF
  · obtain ⟨hsrc, hhart⟩ := hin
    have hvalid : a.validSource sourceNum.toNat := ⟨by omega, by omega⟩
    have heq := bindSource_eq hsrc hhart eiid
    change Pends a (a.bindSource sourceNum hartId eiid) at hpends
    have hsm : (a.bindSource sourceNum hartId eiid).sm sourceNum.toNat = 6 := by
      rw [sm, heq]
      change Function.update a.sourcecfg sourceNum.toNat 6 sourceNum.toNat &&& 7 = 6
      rw [Function.update_self]
      decide
    have hactive : (a.bindSource sourceNum hartId eiid).inputActive sourceNum.toNat = a.input sourceNum.toNat := by
      rw [inputActive, hsm, (bindSource_lines a sourceNum hartId eiid).2]
      exact Bool.xor_false _
    rw [hf.step_iff hpends (by rw [heq]) hvalid
      (fun j hj => by
        rw [heq]
        exact Function.update_of_ne hj _ _)
      (fun j _ => by rw [heq])
      (fun _ hp => by
        rw [heq]
        exact hp), hactive]
    constructor
    · exact fun h _ _ _ _ hp => h (.inl hsm) hp
    · exact fun h _ hp => h hsrc.1 hsrc.2 hhart.1 hhart.2 hp
  · have hsame : a.bindSource sourceNum hartId eiid = a := by
      rw [bindSource]
      split_ifs with hsrc hhart
      · exact absurd ⟨hsrc, hhart⟩ hin
      · rfl
      · rfl
    rw [hsame]
    exact iff_of_true hf fun h0 hle h0' hle' => absurd ⟨⟨h0, hle⟩, h0', hle'⟩ hin

theorem Follows.write_iff (hf : a.Follows) (offset : Nat) (v : BitVec 32) :
    (a.write offset v).Follows ↔ a.KeepsLevel (.write offset v) := by
  by_cases ho : 0x0004 ≤ offset ∧ offset < 0x0004 + a.numSources * 4
  · have hvalid : a.validSource (indexOf offset 0x0004) := by
      rw [validSource, indexOf]
      omega
    obtain ⟨hcfg, hin, hn⟩ := write_sourcecfg a ho v
    have hmask : v &&& 7 &&& 7 = v &&& 7 := by
      rw [BitVec.and_assoc, BitVec.and_self]
    have hlevelIff : (a.write offset v).IsLevel (indexOf offset 0x0004) ↔ v &&& 7 = 6 ∨ v &&& 7 = 7 := by
      rw [IsLevel, sm, hcfg, Function.update_self, hmask]
    have hne : v &&& 7 = 6 ∨ v &&& 7 = 7 → v &&& 7 ≠ 0 := by
      rintro (h | h) h0
      all_goals
        rw [h0] at h
        revert h
        decide
    rw [hf.step_iff (pends_sourcecfg a ho v) hn hvalid
      (fun j hj => by rw [hcfg, Function.update_of_ne hj])
      (fun j _ => congrFun hin j)
      (fun hlevel hp => by rw [write_sourcecfg_pending a ho (hne (hlevelIff.mp hlevel)), hp, Bool.true_or]),
      hlevelIff]
    constructor
    · intro h _ _ hlevel hp
      have hactive := h hlevel hp
      rw [write_sourcecfg_inputActive a ho (hne hlevel)] at hactive
      exact (active_iff hlevel _).mp hactive
    · intro h hlevel hp
      rw [write_sourcecfg_inputActive a ho (hne hlevel)]
      exact (active_iff hlevel _).mpr (h ho.1 ho.2 hlevel hp)
  · obtain ⟨hcfg, hin, hn⟩ := write_wires a ho v
    apply iff_of_true
    · exact hf.keep (pends_write a ho v) hn hcfg hin
    · exact fun h4 hlt => absurd ⟨h4, hlt⟩ ho

theorem Follows.step_iff_keepsLevel (hf : a.Follows) (op : AplicOp) : (a.step op).Follows ↔ a.KeepsLevel op := by
  cases op with
  | setIrq sourceNum level => exact hf.setIrq_iff sourceNum level
  | bindSource sourceNum hartId eiid => exact hf.bindSource_iff sourceNum hartId eiid
  | write offset v => exact hf.write_iff offset v

/-! ## The recorded level -/

theorem Wired.Records.step {t : Wired} (h : t.Records) (op : AplicOp) : (t.step op).Records := by
  obtain ⟨a, last⟩ := t
  have hsame : a.input = last := funext h
  intro src
  cases op with
  | setIrq sourceNum level =>
    change (a.setIrq sourceNum level).input src = a.noteLevel last (.setIrq sourceNum level) src
    rw [(setIrq_wires a sourceNum level).2, hsame]
  | bindSource sourceNum hartId eiid =>
    change (a.bindSource sourceNum hartId eiid).input src = last src
    rw [(bindSource_lines a sourceNum hartId eiid).2, hsame]
  | write offset v =>
    change (a.write offset v).input src = last src
    by_cases ho : 0x0004 ≤ offset ∧ offset < 0x0004 + a.numSources * 4
    · rw [(write_sourcecfg a ho v).2.1, hsame]
    · rw [(write_wires a ho v).2.1, hsame]

theorem Wired.Records.configures {t : Wired} (h : t.Records) (op : AplicOp) : t.Configures op := by
  cases op with
  | setIrq sourceNum level => trivial
  | bindSource sourceNum hartId eiid => trivial
  | write offset v =>
    intro h4 hlt hv
    rw [write_sourcecfg_pending t.1 ⟨h4, hlt⟩ hv, write_sourcecfg_inputActive t.1 ⟨h4, hlt⟩ hv, h]

theorem follows_init (numSources : Nat) (isMmode : Bool) : (init numSources isMmode).Follows := by
  rintro src _ _ hp
  cases hp

end New

end Aplic

end Pyremu
