import Pyremu.Lib.Run
import Mathlib.Data.BitVec
import Mathlib.Logic.Function.Basic

/-!
# The APLIC

Wired sources turned into messages. A message is sent by hand after some of the
writes that can make a source deliverable, so the question is which states keep
a source that is pending and enabled.
-/

namespace Pyremu

/-- A call of `set_ip_number`. -/
structure Msi where
  hart : Nat
  mmode : Bool
  eiid : Nat
  deriving DecidableEq, Repr

structure Aplic where
  numSources : Nat
  isMmode : Bool
  sourcecfg : Nat → BitVec 32
  target : Nat → BitVec 32
  input : Nat → Bool
  enabled : Nat → Bool
  pending : Nat → Bool
  domaincfg : BitVec 32
  sent : List Msi

/-- The calls of devices and of the platform, and register writes. -/
inductive AplicOp where
  | setIrq (sourceNum : Int) (level : Bool)
  | bindSource (sourceNum hartId eiid : Int)
  | write (offset : Nat) (v : BitVec 32)
  deriving DecidableEq, Repr

namespace Aplic

/-- `__init__`: delivery is enabled. -/
def init (numSources : Nat) (isMmode : Bool) : Aplic where
  numSources := numSources
  isMmode := isMmode
  sourcecfg := fun _ => 0
  target := fun _ => 0
  input := fun _ => false
  enabled := fun _ => false
  pending := fun _ => false
  domaincfg := 0x100
  sent := []

variable (a : Aplic)

/-- `_domaincfg & _DOMAINCFG_IE`. -/
def ie : Bool := decide (a.domaincfg &&& 0x100 ≠ 0)

/-- `_sourcecfg[src] & _SM_MASK`: 0 inactive, 4 edge rise, 5 edge fall, 6 level high, 7 level low. -/
def sm (src : Nat) : BitVec 32 := a.sourcecfg src &&& 7

def validSource (src : Nat) : Prop := 0 < src ∧ src ≤ a.numSources

instance (src : Nat) : Decidable (a.validSource src) := inferInstanceAs (Decidable (_ ∧ _))

def eiid (src : Nat) : Nat := (a.target src &&& 0x7FF).toNat

/-- The message of a source. -/
def msi (src : Nat) : Msi := ⟨((a.target src >>> 18) &&& 0x3FFF).toNat, a.isMmode, a.eiid src⟩

/-- `_input_active`: the input with the polarity of the trigger type. -/
def inputActive (src : Nat) : Bool :=
  if a.sm src = 0 then false
  else a.input src ^^ decide (a.sm src = 7 ∨ a.sm src = 5)

/-- `_deliver_from_source`: the pending bit goes whether or not there is an `eiid`. -/
def deliverFromSource (src : Nat) : Aplic :=
  if a.ie = false then a
  else if ¬ (a.pending src = true ∧ a.enabled src = true) then a
  else
    let cleared := { a with pending := Function.update a.pending src false }
    if a.eiid src = 0 then cleared else { cleared with sent := a.sent ++ [a.msi src] }

/-- `_set_pending`: whether the bit has been set comes with the state. -/
def setPending (src : Nat) (pending : Bool) : Aplic × Bool :=
  if a.sm src = 0 then (a, false)
  else if a.sm src = 6 ∨ a.sm src = 7 then
    if pending = false then ({ a with pending := Function.update a.pending src false }, false)
    else if a.inputActive src = false then (a, false)
    else ({ a with pending := Function.update a.pending src true }, true)
  else if pending then ({ a with pending := Function.update a.pending src true }, true)
  else ({ a with pending := Function.update a.pending src false }, false)

def setAndDeliver (src : Nat) (pending : Bool) : Aplic :=
  let r := a.setPending src pending
  if r.2 then r.1.deliverFromSource src else r.1

def setIrq (sourceNum : Int) (level : Bool) : Aplic :=
  if ¬ (0 < sourceNum ∧ sourceNum ≤ a.numSources) then a
  else
    let src := sourceNum.toNat
    let sm := a.sm src
    if sm = 0 then a
    else
      let oldInput := a.input src
      let notPending := !a.pending src
      let moved := { a with input := Function.update a.input src level }
      let update :=
        (sm = 6 && level && notPending) || (sm = 7 && !level && notPending) ||
          (sm = 4 && level && !oldInput && notPending) || (sm = 5 && !level && oldInput && notPending)
      if update then
        deliverFromSource { moved with pending := Function.update a.pending src true } src
      else moved

def bindSource (sourceNum hartId eiid : Int) : Aplic :=
  if ¬ (0 < sourceNum ∧ sourceNum ≤ a.numSources) then a
  else if ¬ (0 ≤ hartId ∧ hartId ≤ 0x3FFF) then a
  else
    let src := sourceNum.toNat
    { a with
      sourcecfg := Function.update a.sourcecfg src 6
      target := Function.update a.target src
        ((BitVec.ofInt 32 hartId <<< 18) ||| (BitVec.ofInt 32 eiid &&& 0x7FF))
      enabled := Function.update a.enabled src true }

def writeDomaincfg (v : BitVec 32) : Aplic :=
  let a := { a with domaincfg := v &&& 0x104 }
  if a.ie = false then a
  else (List.range' 1 a.numSources).foldl deliverFromSource a

/-- The source whose register stands at an offset from a base. -/
def indexOf (offset base : Nat) : Nat := (offset - base) / 4 + 1

def writeSourcecfg (offset : Nat) (v : BitVec 32) : Aplic :=
  let idx := indexOf offset 0x0004
  if ¬ a.validSource idx then a
  else
    let a := { a with sourcecfg := Function.update a.sourcecfg idx (v &&& 7) }
    if v &&& 7 = 0 then
      { a with
        pending := Function.update a.pending idx false
        enabled := Function.update a.enabled idx false }
    else if a.inputActive idx then { a with pending := Function.update a.pending idx true }
    else a

def writeTarget (offset : Nat) (v : BitVec 32) : Aplic :=
  let idx := indexOf offset 0x3004
  if a.validSource idx then { a with target := Function.update a.target idx v } else a

/-- `_write_numbered`; the registers without effect accept the write. -/
def writeNumbered (offset : Nat) (v : BitVec 32) : Aplic :=
  let src := v.toNat
  if ¬ a.validSource src then a
  else if 0x1CDC ≤ offset ∧ offset < 0x1CE0 then a.setAndDeliver src true
  else if 0x1DDC ≤ offset ∧ offset < 0x1DE0 then (a.setPending src false).1
  else if 0x1EDC ≤ offset ∧ offset < 0x1EE0 then
    deliverFromSource { a with enabled := Function.update a.enabled src true } src
  else if 0x1FDC ≤ offset ∧ offset < 0x1FE0 then
    { a with enabled := Function.update a.enabled src false }
  else if 0x2000 ≤ offset ∧ offset < 0x2004 then a.setAndDeliver src true
  else a

/-- One bit of `_write_word`, of the pending bits or of the enables. -/
def writeBit (pendingBits setBit : Bool) (v : BitVec 32) (word : Nat) (a : Aplic) (i : Nat) : Aplic :=
  let src := word * 32 + i
  if v.getLsbD i = false then a
  else if ¬ a.validSource src then a
  else if pendingBits then a.setAndDeliver src setBit
  else deliverFromSource { a with enabled := Function.update a.enabled src setBit } src

def writeWord (offset base : Nat) (pendingBits setBit : Bool) (v : BitVec 32) : Aplic :=
  (List.range 32).foldl (writeBit pendingBits setBit v ((offset - base) / 4)) a

/-- `_mmio_write`. -/
def write (offset : Nat) (v : BitVec 32) : Aplic :=
  if offset = 0 then a.writeDomaincfg v
  else if 0x0004 ≤ offset ∧ offset < 0x0004 + a.numSources * 4 then a.writeSourcecfg offset v
  else if 0x1C00 ≤ offset ∧ offset < 0x1C08 then a.writeWord offset 0x1C00 true true v
  else if 0x1D00 ≤ offset ∧ offset < 0x1D08 then a.writeWord offset 0x1D00 true false v
  else if 0x1E00 ≤ offset ∧ offset < 0x1E08 then a.writeWord offset 0x1E00 false true v
  else if 0x1F00 ≤ offset ∧ offset < 0x1F08 then a.writeWord offset 0x1F00 false false v
  else if 0x3004 ≤ offset ∧ offset < 0x3004 + a.numSources * 4 then a.writeTarget offset v
  else a.writeNumbered offset v

def step : AplicOp → Aplic
  | .setIrq sourceNum level => a.setIrq sourceNum level
  | .bindSource sourceNum hartId eiid => a.bindSource sourceNum hartId eiid
  | .write offset v => a.write offset v

/-! ## What is promised -/

/-- With delivery enabled no source is both pending and enabled. -/
def Settled : Prop :=
  a.ie = true → ∀ src, a.validSource src → ¬ (a.pending src = true ∧ a.enabled src = true)

/-- The message of every source whose input becomes active, by its line or by a register write, is
sent if the source is enabled, delivers, and has an identity. -/
def Announces : AplicOp → Prop
  | .bindSource _ _ _ => True
  | op =>
    ∀ src, a.validSource src → a.inputActive src = false → (a.step op).inputActive src = true →
      (a.step op).enabled src = true → (a.step op).ie = true → (a.step op).eiid src ≠ 0 →
      ∃ new, (a.step op).sent = a.sent ++ new ∧ (a.step op).msi src ∈ new

/-- A reserved trigger type does not see its line rise, `bind_source` meets no pending source, and a
write of `sourcecfg` does not find an enabled source active under the new type. -/
def Meets : AplicOp → Prop
  | .setIrq sourceNum level =>
    0 < sourceNum → sourceNum ≤ a.numSources → a.sm sourceNum.toNat = 0 ∨ 4 ≤ a.sm sourceNum.toNat ∨
      a.ie = false ∨ a.enabled sourceNum.toNat = false ∨ a.input sourceNum.toNat = true ∨ level = false ∨
      a.eiid sourceNum.toNat = 0
  | .bindSource sourceNum hartId _ =>
    0 < sourceNum → sourceNum ≤ a.numSources → 0 ≤ hartId → hartId ≤ 0x3FFF → a.ie = true →
      a.pending sourceNum.toNat = false
  | .write offset v =>
    0x0004 ≤ offset → offset < 0x0004 + a.numSources * 4 → v &&& 7 ≠ 0 → a.ie = true →
      a.enabled (indexOf offset 0x0004) = true →
      a.input (indexOf offset 0x0004) = decide (v &&& 7 = 7 ∨ v &&& 7 = 5)

/-! ## One delivery -/

section Deliver

variable {a} {src j : Nat}

/-- `a'` differs from `a` in the pending bits and the messages only. -/
structure SameWiring (a a' : Aplic) : Prop where
  numSources : a'.numSources = a.numSources
  isMmode : a'.isMmode = a.isMmode
  sourcecfg : a'.sourcecfg = a.sourcecfg
  target : a'.target = a.target
  input : a'.input = a.input
  domaincfg : a'.domaincfg = a.domaincfg

theorem SameWiring.refl (a : Aplic) : SameWiring a a := ⟨rfl, rfl, rfl, rfl, rfl, rfl⟩

theorem SameWiring.trans {b c : Aplic} (h : SameWiring a b) (h' : SameWiring b c) : SameWiring a c :=
  ⟨h'.numSources.trans h.numSources, h'.isMmode.trans h.isMmode, h'.sourcecfg.trans h.sourcecfg,
    h'.target.trans h.target, h'.input.trans h.input, h'.domaincfg.trans h.domaincfg⟩

theorem SameWiring.ie {b : Aplic} (h : SameWiring a b) : b.ie = a.ie := by
  rw [Aplic.ie, Aplic.ie, h.domaincfg]

theorem SameWiring.inputActive {b : Aplic} (h : SameWiring a b) (src : Nat) :
    b.inputActive src = a.inputActive src := by
  rw [Aplic.inputActive, Aplic.inputActive, Aplic.sm, Aplic.sm, h.sourcecfg, h.input]

theorem SameWiring.msi {b : Aplic} (h : SameWiring a b) (src : Nat) : b.msi src = a.msi src := by
  simp only [Aplic.msi, Aplic.eiid, h.target, h.isMmode]

theorem sameWiring_deliver (a : Aplic) (src : Nat) : SameWiring a (a.deliverFromSource src) := by
  rw [deliverFromSource]
  split_ifs
  all_goals exact ⟨rfl, rfl, rfl, rfl, rfl, rfl⟩

theorem deliver_enabled (a : Aplic) (src : Nat) : (a.deliverFromSource src).enabled = a.enabled := by
  rw [deliverFromSource]
  split_ifs
  all_goals rfl

theorem deliver_pending (a : Aplic) (src j : Nat) :
    (a.deliverFromSource src).pending j =
      (a.pending j && !(decide (j = src) && a.ie && a.enabled src)) := by
  rw [deliverFromSource]
  by_cases hie : a.ie = false
  · rw [if_pos hie, hie]
    simp
  · rw [if_neg hie]
    by_cases hboth : a.pending src = true ∧ a.enabled src = true
    · rw [if_neg (not_not.mpr hboth)]
      have hpend : (if a.eiid src = 0 then { a with pending := Function.update a.pending src false } else
          { a with pending := Function.update a.pending src false, sent := a.sent ++ [a.msi src] }).pending j =
          Function.update a.pending src false j := by
        split_ifs <;> rfl
      refine hpend.trans ?_
      by_cases hj : j = src
      · subst hj
        simp [hboth.2, Bool.eq_true_of_not_eq_false hie]
      · simp [hj]
    · rw [if_pos hboth]
      by_cases hj : j = src
      · subst hj
        cases hp : a.pending j
        · rfl
        · have hen : a.enabled j = false := Bool.eq_false_of_not_eq_true fun he => hboth ⟨hp, he⟩
          simp [hen]
      · simp [hj]

/-- A delivered source has sent its message, if it has an identity. -/
theorem deliver_sent (hie : a.ie = true) (hp : a.pending src = true) (he : a.enabled src = true)
    (h0 : a.eiid src ≠ 0) : (a.deliverFromSource src).sent = a.sent ++ [a.msi src] := by
  have hon : ¬ a.ie = false := by
    rw [hie]
    exact Bool.noConfusion
  rw [deliverFromSource, if_neg hon, if_neg (not_not.mpr ⟨hp, he⟩), if_neg h0]

/-- Source `j` is not left both pending and enabled. -/
def SettledAt (a : Aplic) (j : Nat) : Prop := a.ie = true → ¬ (a.pending j = true ∧ a.enabled j = true)

theorem settledAt_deliver (a : Aplic) (src : Nat) : (a.deliverFromSource src).SettledAt src := by
  intro hie
  rw [(sameWiring_deliver a src).ie] at hie
  rintro ⟨hp, he⟩
  rw [deliver_enabled] at he
  rw [deliver_pending, hie, he] at hp
  simp at hp

theorem SettledAt.deliver (h : a.SettledAt j) (src : Nat) : (a.deliverFromSource src).SettledAt j := by
  intro hie
  rw [(sameWiring_deliver a src).ie] at hie
  rintro ⟨hp, he⟩
  rw [deliver_enabled] at he
  rw [deliver_pending, Bool.and_eq_true] at hp
  exact h hie ⟨hp.1, he⟩

theorem settled_iff : a.Settled ↔ ∀ j, a.validSource j → a.SettledAt j :=
  ⟨fun h j hj hie => h hie j hj, fun h hie j hj => h j hj hie⟩

/-- A change of one source leaves the others as they are. -/
theorem Settled.of_one {b : Aplic} (h : a.Settled) (src : Nat) (hn : b.numSources = a.numSources)
    (hd : b.domaincfg = a.domaincfg) (hp : ∀ j, j ≠ src → b.pending j = a.pending j)
    (he : ∀ j, j ≠ src → b.enabled j = a.enabled j) (hsrc : b.SettledAt src) : b.Settled := by
  rw [settled_iff] at h ⊢
  intro j hj
  by_cases hjs : j = src
  · rw [hjs]
    exact hsrc
  · intro hie
    rw [hp j hjs, he j hjs]
    apply h j
    · rw [validSource, ← hn]
      exact hj
    · rw [← hie, Aplic.ie, Aplic.ie, hd]

end Deliver

/-! ## Pending bits -/

section Pending

variable {a} {src : Nat}

theorem sameWiring_setPending (a : Aplic) (src : Nat) (on : Bool) : SameWiring a (a.setPending src on).1 := by
  rw [setPending]
  split_ifs
  all_goals exact ⟨rfl, rfl, rfl, rfl, rfl, rfl⟩

theorem setPending_enabled (a : Aplic) (src : Nat) (on : Bool) : (a.setPending src on).1.enabled = a.enabled := by
  rw [setPending]
  split_ifs
  all_goals rfl

theorem setPending_other (a : Aplic) (on : Bool) {j : Nat} (h : j ≠ src) :
    (a.setPending src on).1.pending j = a.pending j := by
  rw [setPending]
  split_ifs
  all_goals first
    | rfl
    | exact Function.update_of_ne h _ _

/-- Without the answer that the bit has been set, it is as it was or clear. -/
theorem setPending_self (h : (a.setPending src on).2 = false) :
    (a.setPending src on).1.pending src = a.pending src ∨ (a.setPending src on).1.pending src = false := by
  rw [setPending] at h ⊢
  split_ifs at h ⊢
  all_goals first
    | exact .inl rfl
    | exact .inr (Function.update_self _ _ _)

theorem Settled.setPending_of_not (h : a.Settled) (hs : (a.setPending src on).2 = false) :
    (a.setPending src on).1.Settled := by
  have hwire := sameWiring_setPending a src on
  rw [settled_iff] at h ⊢
  intro j hj
  rw [validSource, hwire.numSources] at hj
  intro hie
  rw [hwire.ie] at hie
  rw [setPending_enabled]
  rintro ⟨hp, he⟩
  by_cases hjs : j = src
  · subst hjs
    rcases setPending_self hs with hsame | hclear
    · rw [hsame] at hp
      exact h j hj hie ⟨hp, he⟩
    · rw [hclear] at hp
      cases hp
  · rw [setPending_other a on hjs] at hp
    exact h j hj hie ⟨hp, he⟩

theorem Settled.setAndDeliver (h : a.Settled) (src : Nat) (on : Bool) : (a.setAndDeliver src on).Settled := by
  have hwire := sameWiring_setPending a src on
  rw [Aplic.setAndDeliver]
  by_cases hs : (a.setPending src on).2 = true
  · rw [if_pos hs]
    have hdel := sameWiring_deliver (a.setPending src on).1 src
    apply h.of_one src
    · exact hdel.numSources.trans hwire.numSources
    · exact hdel.domaincfg.trans hwire.domaincfg
    · intro j hj
      rw [deliver_pending, setPending_other a on hj, decide_eq_false hj]
      simp
    · intro j _
      rw [deliver_enabled, setPending_enabled]
    · exact settledAt_deliver _ src
  · rw [if_neg hs]
    exact h.setPending_of_not (Bool.eq_false_of_not_eq_true hs)

theorem sameWiring_setAndDeliver (a : Aplic) (src : Nat) (on : Bool) : SameWiring a (a.setAndDeliver src on) := by
  have hwire := sameWiring_setPending a src on
  rw [setAndDeliver]
  split_ifs
  · exact hwire.trans (sameWiring_deliver _ src)
  · exact hwire

/-- A new enable bit, with the delivery that follows it. -/
theorem Settled.enable (h : a.Settled) (src : Nat) (on : Bool) :
    (deliverFromSource { a with enabled := Function.update a.enabled src on } src).Settled := by
  have hdel := sameWiring_deliver { a with enabled := Function.update a.enabled src on } src
  apply h.of_one src
  · exact hdel.numSources
  · exact hdel.domaincfg
  · intro j hj
    rw [deliver_pending, decide_eq_false hj]
    simp
  · intro j hj
    rw [deliver_enabled]
    exact Function.update_of_ne hj _ _
  · exact settledAt_deliver _ src

theorem sameWiring_enable (a : Aplic) (src : Nat) (on : Bool) :
    SameWiring a (deliverFromSource { a with enabled := Function.update a.enabled src on } src) := by
  have henable : SameWiring a { a with enabled := Function.update a.enabled src on } :=
    ⟨rfl, rfl, rfl, rfl, rfl, rfl⟩
  exact henable.trans (sameWiring_deliver _ src)

theorem Settled.disable (h : a.Settled) (src : Nat) :
    Settled { a with enabled := Function.update a.enabled src false } := by
  intro hie j hj
  rintro ⟨hp, he⟩
  apply h hie j hj
  refine ⟨hp, ?_⟩
  change Function.update a.enabled src false j = true at he
  by_cases hjs : j = src
  · subst hjs
    rw [Function.update_self] at he
    cases he
  · rw [Function.update_of_ne hjs] at he
    exact he

end Pending

/-! ## Register writes -/

section Writes

variable {a} {offset : Nat} {v : BitVec 32}

theorem settledAt_foldl_deliver {j : Nat} (l : List Nat) (h : j ∈ l ∨ a.SettledAt j) :
    (l.foldl deliverFromSource a).SettledAt j := by
  induction l generalizing a with
  | nil => exact h.resolve_left List.not_mem_nil
  | cons src l ih =>
    apply ih
    rcases h with h | h
    · rcases List.mem_cons.mp h with rfl | h
      · exact .inr (settledAt_deliver a j)
      · exact .inl h
    · exact .inr (h.deliver src)

theorem sameWiring_foldl_deliver (a : Aplic) (l : List Nat) : SameWiring a (l.foldl deliverFromSource a) := by
  induction l generalizing a with
  | nil => exact .refl a
  | cons src l ih => exact (sameWiring_deliver a src).trans (ih _)

/-- Setting IE delivers every source; clearing it leaves nothing to deliver. -/
theorem settled_writeDomaincfg (a : Aplic) (v : BitVec 32) : (a.writeDomaincfg v).Settled := by
  rw [writeDomaincfg]
  by_cases hie : ie { a with domaincfg := v &&& 0x104 } = false
  · rw [if_pos hie]
    intro hon
    rw [hie] at hon
    cases hon
  · rw [if_neg hie, settled_iff]
    intro j hj
    rw [validSource, (sameWiring_foldl_deliver _ _).numSources] at hj
    exact settledAt_foldl_deliver _ (.inl (List.mem_range'_1.mpr ⟨hj.1, by omega⟩))

theorem writeDomaincfg_inputs (a : Aplic) (v : BitVec 32) (src : Nat) :
    (a.writeDomaincfg v).inputActive src = a.inputActive src := by
  rw [writeDomaincfg]
  by_cases hie : ie { a with domaincfg := v &&& 0x104 } = false
  · rw [if_pos hie]
    rfl
  · rw [if_neg hie]
    exact (sameWiring_foldl_deliver { a with domaincfg := v &&& 0x104 } _).inputActive src

theorem Settled.writeBit (h : a.Settled) (pendingBits setBit : Bool) (v : BitVec 32) (word i : Nat) :
    (a.writeBit pendingBits setBit v word i).Settled := by
  rw [Aplic.writeBit]
  split_ifs
  · exact h
  · exact h.setAndDeliver _ setBit
  · exact h.enable _ setBit
  · exact h

theorem sameWiring_writeBit (a : Aplic) (pendingBits setBit : Bool) (v : BitVec 32) (word i : Nat) :
    SameWiring a (a.writeBit pendingBits setBit v word i) := by
  rw [Aplic.writeBit]
  split_ifs
  · exact .refl a
  · exact sameWiring_setAndDeliver a _ setBit
  · exact sameWiring_enable a _ setBit
  · exact .refl a

theorem Settled.writeWord (h : a.Settled) (offset base : Nat) (pendingBits setBit : Bool) (v : BitVec 32) :
    (a.writeWord offset base pendingBits setBit v).Settled := by
  rw [Aplic.writeWord]
  generalize List.range 32 = l
  induction l generalizing a with
  | nil => exact h
  | cons i l ih => exact ih (h.writeBit pendingBits setBit v _ i)

theorem sameWiring_writeWord (a : Aplic) (offset base : Nat) (pendingBits setBit : Bool) (v : BitVec 32) :
    SameWiring a (a.writeWord offset base pendingBits setBit v) := by
  rw [Aplic.writeWord]
  generalize List.range 32 = l
  induction l generalizing a with
  | nil => exact .refl a
  | cons i l ih => exact (sameWiring_writeBit a pendingBits setBit v _ i).trans (ih _)

theorem Settled.writeNumbered (h : a.Settled) (offset : Nat) (v : BitVec 32) : (a.writeNumbered offset v).Settled := by
  have hclear : ∀ src, (a.setPending src false).2 = false := by
    intro src
    rw [setPending]
    split_ifs
    all_goals first
      | rfl
      | contradiction
  rw [Aplic.writeNumbered]
  split_ifs
  · exact h.setAndDeliver _ true
  · exact h.setPending_of_not (hclear _)
  · exact h.enable _ true
  · exact h.disable _
  · exact h.setAndDeliver _ true
  · exact h
  · exact h

theorem writeNumbered_inputs (a : Aplic) (offset : Nat) (v : BitVec 32) (src : Nat) :
    (a.writeNumbered offset v).inputActive src = a.inputActive src := by
  rw [Aplic.writeNumbered]
  split_ifs
  · exact (sameWiring_setAndDeliver a _ true).inputActive src
  · exact (sameWiring_setPending a _ false).inputActive src
  · exact (sameWiring_enable a _ true).inputActive src
  · rfl
  · exact (sameWiring_setAndDeliver a _ true).inputActive src
  · rfl
  · rfl

theorem Settled.writeTarget (h : a.Settled) (offset : Nat) (v : BitVec 32) : (a.writeTarget offset v).Settled := by
  rw [Aplic.writeTarget]
  split_ifs
  · exact h
  · exact h

theorem writeTarget_inputs (a : Aplic) (offset : Nat) (v : BitVec 32) (src : Nat) :
    (a.writeTarget offset v).inputActive src = a.inputActive src := by
  rw [Aplic.writeTarget]
  split_ifs
  · rfl
  · rfl

/-- Writes outside `sourcecfg` settle and leave the inputs as they are. -/
theorem Settled.write_other (h : a.Settled) (ho : ¬ (0x0004 ≤ offset ∧ offset < 0x0004 + a.numSources * 4))
    (v : BitVec 32) :
    (a.write offset v).Settled ∧ ∀ src, (a.write offset v).inputActive src = a.inputActive src := by
  rw [Aplic.write]
  by_cases h0 : offset = 0
  · rw [if_pos h0]
    exact ⟨settled_writeDomaincfg a v, writeDomaincfg_inputs a v⟩
  rw [if_neg h0, if_neg ho]
  split_ifs
  · exact ⟨h.writeWord _ _ true true v, (sameWiring_writeWord a _ _ true true v).inputActive⟩
  · exact ⟨h.writeWord _ _ true false v, (sameWiring_writeWord a _ _ true false v).inputActive⟩
  · exact ⟨h.writeWord _ _ false true v, (sameWiring_writeWord a _ _ false true v).inputActive⟩
  · exact ⟨h.writeWord _ _ false false v, (sameWiring_writeWord a _ _ false false v).inputActive⟩
  · exact ⟨h.writeTarget offset v, writeTarget_inputs a offset v⟩
  · exact ⟨h.writeNumbered offset v, writeNumbered_inputs a offset v⟩

/-- What a write of `sourcecfg` leaves. -/
theorem writeSourcecfg_eq (ho : 0x0004 ≤ offset ∧ offset < 0x0004 + a.numSources * 4) (v : BitVec 32) :
    a.write offset v =
      let idx := indexOf offset 0x0004
      let cfg := { a with sourcecfg := Function.update a.sourcecfg idx (v &&& 7) }
      if v &&& 7 = 0 then
        { cfg with
          pending := Function.update a.pending idx false
          enabled := Function.update a.enabled idx false }
      else if cfg.inputActive idx then { cfg with pending := Function.update a.pending idx true }
      else cfg := by
  have h0 : ¬ offset = 0 := by omega
  have hidx : a.validSource (indexOf offset 0x0004) := by
    rw [validSource, indexOf]
    omega
  rw [write, if_neg h0, if_pos ho, writeSourcecfg, if_neg (not_not.mpr hidx)]

end Writes

/-! ## The three inputs -/

section Steps

variable {a} {offset : Nat} {v : BitVec 32} {sourceNum : Int} {level : Bool}

theorem settled_sourcecfg_iff (h : a.Settled) (ho : 0x0004 ≤ offset ∧ offset < 0x0004 + a.numSources * 4) :
    (a.write offset v).Settled ∧ a.Announces (.write offset v) ↔ a.Meets (.write offset v) := by
  have hidx : a.validSource (indexOf offset 0x0004) := by
    rw [validSource, indexOf]
    omega
  have hmeets : a.Meets (.write offset v) ↔ (v &&& 7 ≠ 0 → a.ie = true → a.enabled (indexOf offset 0x0004) = true →
      a.input (indexOf offset 0x0004) = decide (v &&& 7 = 7 ∨ v &&& 7 = 5)) :=
    ⟨fun hm => hm ho.1 ho.2, fun hm _ _ => hm⟩
  have hwrite := writeSourcecfg_eq ho v
  dsimp only at hwrite
  rw [hmeets]
  generalize indexOf offset 0x0004 = idx at hidx hwrite ⊢
  have hactive : ∀ b : Aplic, b.sourcecfg = Function.update a.sourcecfg idx (v &&& 7) → b.input = a.input →
      ∀ src, b.inputActive src =
        if src = idx then (if v &&& 7 = 0 then false else a.input idx ^^ decide (v &&& 7 = 7 ∨ v &&& 7 = 5))
        else a.inputActive src := by
    intro b hcfg hin src
    have hmask : v &&& 7 &&& 7 = v &&& 7 := by
      rw [BitVec.and_assoc, BitVec.and_self]
    rw [inputActive, sm, hcfg, hin]
    by_cases hsrc : src = idx
    · subst hsrc
      rw [if_pos rfl, Function.update_self, hmask]
    · rw [if_neg hsrc, Function.update_of_ne hsrc]
      rfl
  by_cases h7 : v &&& 7 = 0
  · rw [if_pos h7] at hwrite
    apply iff_of_true
    · constructor
      · rw [hwrite]
        apply h.of_one idx
        · rfl
        · rfl
        · exact fun j hj => Function.update_of_ne hj _ _
        · exact fun j hj => Function.update_of_ne hj _ _
        · rintro _ ⟨hp, _⟩
          change Function.update a.pending idx false idx = true at hp
          rw [Function.update_self] at hp
          cases hp
      · intro src _ hbefore hafter
        change (a.write offset v).inputActive src = true at hafter
        have hcfg := hactive (a.write offset v) (by rw [hwrite]) (by rw [hwrite]) src
        rw [hcfg, if_pos h7] at hafter
        by_cases hsrc : src = idx
        · rw [if_pos hsrc] at hafter
          cases hafter
        · rw [if_neg hsrc, hbefore] at hafter
          cases hafter
    · exact fun h0 => absurd h7 h0
  · rw [if_neg h7] at hwrite
    -- an active type: the input decides whether the pending bit is set, and nothing is delivered
    have hin : inputActive { a with sourcecfg := Function.update a.sourcecfg idx (v &&& 7) } idx =
        (a.input idx ^^ decide (v &&& 7 = 7 ∨ v &&& 7 = 5)) := by
      have hcfg := hactive { a with sourcecfg := Function.update a.sourcecfg idx (v &&& 7) } rfl rfl idx
      rw [hcfg, if_pos rfl, if_neg h7]
    rw [hin] at hwrite
    have hother : ∀ b : Aplic, a.write offset v = b → b.enabled = a.enabled →
        b.sourcecfg = Function.update a.sourcecfg idx (v &&& 7) → b.input = a.input → b.ie = a.ie →
        (a.ie = true → a.enabled idx = true → a.input idx = decide (v &&& 7 = 7 ∨ v &&& 7 = 5)) →
        a.Announces (.write offset v) := by
      intro b hb hen hcfg hinput hie hcond src _ hbefore hafter henabled hieafter _
      exfalso
      change (a.write offset v).inputActive src = true at hafter
      change (a.write offset v).enabled src = true at henabled
      change (a.write offset v).ie = true at hieafter
      rw [hb] at hafter henabled hieafter
      rw [hactive b hcfg hinput src] at hafter
      by_cases hsrc : src = idx
      · subst hsrc
        rw [hen] at henabled
        rw [hie] at hieafter
        rw [if_pos rfl, if_neg h7, hcond hieafter henabled, Bool.xor_self] at hafter
        cases hafter
      · rw [if_neg hsrc, hbefore] at hafter
        cases hafter
    by_cases hraw : (a.input idx ^^ decide (v &&& 7 = 7 ∨ v &&& 7 = 5)) = true
    · rw [if_pos hraw] at hwrite
      have hne : a.input idx ≠ decide (v &&& 7 = 7 ∨ v &&& 7 = 5) := by
        intro heq
        rw [heq, Bool.xor_self] at hraw
        cases hraw
      constructor
      · rintro ⟨hs, _⟩ _ hie hen
        exfalso
        rw [hwrite] at hs
        exact hs hie idx hidx ⟨Function.update_self _ _ _, hen⟩
      · intro hm
        have hcond := hm h7
        refine ⟨?_, hother _ hwrite rfl rfl rfl rfl hcond⟩
        rw [hwrite]
        apply h.of_one idx
        · rfl
        · rfl
        · exact fun j hj => Function.update_of_ne hj _ _
        · exact fun j _ => rfl
        · rintro hie ⟨_, hen⟩
          exact hne (hcond hie hen)
    · rw [if_neg hraw] at hwrite
      have heq : a.input idx = decide (v &&& 7 = 7 ∨ v &&& 7 = 5) := by
        revert hraw
        cases a.input idx <;> cases decide (v &&& 7 = 7 ∨ v &&& 7 = 5) <;> decide
      apply iff_of_true _ fun _ _ _ => heq
      refine ⟨?_, hother _ hwrite rfl rfl rfl rfl fun _ _ => heq⟩
      rw [hwrite]
      exact h

theorem write_iff (h : a.Settled) (offset : Nat) (v : BitVec 32) :
    (a.write offset v).Settled ∧ a.Announces (.write offset v) ↔ a.Meets (.write offset v) := by
  by_cases ho : 0x0004 ≤ offset ∧ offset < 0x0004 + a.numSources * 4
  · exact settled_sourcecfg_iff h ho
  · obtain ⟨hs, hin⟩ := h.write_other ho v
    apply iff_of_true
    · refine ⟨hs, ?_⟩
      intro src _ hbefore hafter
      change (a.write offset v).inputActive src = true at hafter
      rw [hin src, hbefore] at hafter
      cases hafter
    · exact fun h4 hlt => absurd ⟨h4, hlt⟩ ho

theorem bindSource_iff (h : a.Settled) (sourceNum hartId eiid : Int) :
    (a.bindSource sourceNum hartId eiid).Settled ∧ a.Announces (.bindSource sourceNum hartId eiid) ↔
      a.Meets (.bindSource sourceNum hartId eiid) := by
  have hann : a.Announces (.bindSource sourceNum hartId eiid) := trivial
  rw [and_iff_left hann, bindSource]
  by_cases hsrc : 0 < sourceNum ∧ sourceNum ≤ a.numSources
  · rw [if_neg (not_not.mpr hsrc)]
    by_cases hhart : 0 ≤ hartId ∧ hartId ≤ 0x3FFF
    · rw [if_neg (not_not.mpr hhart)]
      have hmeets : a.Meets (.bindSource sourceNum hartId eiid) ↔
          (a.ie = true → a.pending sourceNum.toNat = false) :=
        ⟨fun hm => hm hsrc.1 hsrc.2 hhart.1 hhart.2, fun hm _ _ _ _ => hm⟩
      rw [hmeets]
      have hvalid : a.validSource sourceNum.toNat := ⟨by omega, by omega⟩
      constructor
      · intro hs hie
        have hnot := hs hie sourceNum.toNat hvalid
        by_contra hp
        exact hnot ⟨Bool.eq_true_of_not_eq_false hp, Function.update_self _ _ _⟩
      · intro hm
        apply h.of_one sourceNum.toNat
        · rfl
        · rfl
        · exact fun j _ => rfl
        · exact fun j hj => Function.update_of_ne hj _ _
        · rintro hie ⟨hp, _⟩
          have hclear := hm hie
          change a.pending sourceNum.toNat = true at hp
          rw [hclear] at hp
          cases hp
    · rw [if_pos hhart]
      exact iff_of_true h fun _ _ h0 hle => absurd ⟨h0, hle⟩ hhart
  · rw [if_pos hsrc]
    exact iff_of_true h fun h0 hle => absurd ⟨h0, hle⟩ hsrc

theorem sm_lt (a : Aplic) (src : Nat) : (a.sm src).toNat < 8 := by
  rw [sm, BitVec.toNat_and]
  exact Nat.lt_of_le_of_lt Nat.and_le_right (by decide)

/-- The test of `set_irq` for a new pending bit. -/
def raises (sm : BitVec 32) (level oldInput pending : Bool) : Bool :=
  (sm = 6 && level && !pending) || (sm = 7 && !level && !pending) ||
    (sm = 4 && level && !oldInput && !pending) || (sm = 5 && !level && oldInput && !pending)

/-- A call for a source in range that is not inactive. -/
theorem setIrq_eq (hsrc : 0 < sourceNum ∧ sourceNum ≤ a.numSources) (h0 : a.sm sourceNum.toNat ≠ 0) (level : Bool) :
    a.setIrq sourceNum level =
      if raises (a.sm sourceNum.toNat) level (a.input sourceNum.toNat) (a.pending sourceNum.toNat) then
        deliverFromSource
          { a with
            input := Function.update a.input sourceNum.toNat level
            pending := Function.update a.pending sourceNum.toNat true } sourceNum.toNat
      else { a with input := Function.update a.input sourceNum.toNat level } := by
  rw [setIrq, if_neg (not_not.mpr hsrc)]
  exact if_neg h0

/-- Under a documented trigger type a line that becomes active raises the pending bit. -/
theorem raises_of_rises {sm : BitVec 32} (hlt : sm.toNat < 8) (h4 : 4 ≤ sm) {level oldInput : Bool}
    (hbefore : (oldInput ^^ decide (sm = 7 ∨ sm = 5)) = false)
    (hafter : (level ^^ decide (sm = 7 ∨ sm = 5)) = true) : raises sm level oldInput false = true := by
  have hcases : sm = 4 ∨ sm = 5 ∨ sm = 6 ∨ sm = 7 := by bv_omega
  rcases hcases with rfl | rfl | rfl | rfl
  all_goals
    revert hbefore hafter
    cases level <;> cases oldInput <;> decide

theorem raises_reserved {sm : BitVec 32} (h4 : ¬ 4 ≤ sm) (level oldInput pending : Bool) :
    raises sm level oldInput pending = false := by
  have h6 : sm ≠ 6 := by bv_omega
  have h7 : sm ≠ 7 := by bv_omega
  have h4' : sm ≠ 4 := by bv_omega
  have h5 : sm ≠ 5 := by bv_omega
  rw [raises, decide_eq_false h6, decide_eq_false h7, decide_eq_false h4', decide_eq_false h5]
  rfl

/-- A reserved trigger type does not invert its line. -/
theorem polarity_reserved {sm : BitVec 32} (h4 : ¬ 4 ≤ sm) : decide (sm = 7 ∨ sm = 5) = false := by
  rw [decide_eq_false_iff_not]
  bv_omega

theorem setIrq_iff (h : a.Settled) (sourceNum : Int) (level : Bool) :
    (a.setIrq sourceNum level).Settled ∧ a.Announces (.setIrq sourceNum level) ↔
      a.Meets (.setIrq sourceNum level) := by
  have hsame : a.setIrq sourceNum level = a →
      (a.setIrq sourceNum level).Settled ∧ a.Announces (.setIrq sourceNum level) := by
    intro heq
    refine ⟨by rwa [heq], ?_⟩
    intro src _ hbefore hafter
    change (a.setIrq sourceNum level).inputActive src = true at hafter
    rw [heq, hbefore] at hafter
    cases hafter
  by_cases hsrc : 0 < sourceNum ∧ sourceNum ≤ a.numSources
  · by_cases h0 : a.sm sourceNum.toNat = 0
    · apply iff_of_true
      · apply hsame
        rw [setIrq, if_neg (not_not.mpr hsrc)]
        exact if_pos h0
      · exact fun _ _ => .inl h0
    · have hvalid : a.validSource sourceNum.toNat := ⟨by omega, by omega⟩
      have hmeets : a.Meets (.setIrq sourceNum level) ↔ (4 ≤ a.sm sourceNum.toNat ∨ a.ie = false ∨
          a.enabled sourceNum.toNat = false ∨ a.input sourceNum.toNat = true ∨ level = false ∨
          a.eiid sourceNum.toNat = 0) :=
        ⟨fun hm => (hm hsrc.1 hsrc.2).resolve_left h0, fun hm _ _ => .inr hm⟩
      have hstep := setIrq_eq hsrc h0 level
      rw [hmeets]
      generalize sourceNum.toNat = src at h0 hvalid hstep ⊢
      have hlt := sm_lt a src
      have hactive : ∀ b : Aplic, b.sourcecfg = a.sourcecfg → b.input = Function.update a.input src level →
          ∀ j, b.inputActive j =
            if j = src then level ^^ decide (a.sm src = 7 ∨ a.sm src = 5) else a.inputActive j := by
        intro b hcfg hin j
        rw [inputActive, sm, hcfg, hin]
        by_cases hj : j = src
        · subst hj
          rw [if_pos rfl, Function.update_self]
          exact if_neg h0
        · rw [if_neg hj, Function.update_of_ne hj]
          rfl
      have hbeforeEq : a.inputActive src = (a.input src ^^ decide (a.sm src = 7 ∨ a.sm src = 5)) := if_neg h0
      by_cases hr : raises (a.sm src) level (a.input src) (a.pending src) = true
      · rw [if_pos hr] at hstep
        have h4 : 4 ≤ a.sm src := by
          by_contra hnot
          rw [raises_reserved hnot] at hr
          cases hr
        apply iff_of_true _ (.inl h4)
        have hwire := sameWiring_deliver
          { a with
            input := Function.update a.input src level
            pending := Function.update a.pending src true } src
        rw [← hstep] at hwire
        constructor
        · rw [hstep]
          apply h.of_one src
          · exact (sameWiring_deliver _ src).numSources
          · exact (sameWiring_deliver _ src).domaincfg
          · intro j hj
            rw [deliver_pending, decide_eq_false hj, Bool.false_and, Bool.false_and, Bool.not_false, Bool.and_true]
            exact Function.update_of_ne hj _ _
          · intro j _
            rw [deliver_enabled]
          · exact settledAt_deliver _ src
        · intro j _ hbefore hafter henabled hie heiid
          change (a.setIrq sourceNum level).inputActive j = true at hafter
          change (a.setIrq sourceNum level).enabled j = true at henabled
          change (a.setIrq sourceNum level).ie = true at hie
          change (a.setIrq sourceNum level).eiid j ≠ 0 at heiid
          rw [hactive _ hwire.sourcecfg hwire.input j] at hafter
          by_cases hj : j = src
          · subst hj
            have hmsi : (a.step (.setIrq sourceNum level)).msi j = a.msi j := hwire.msi j
            rw [hmsi]
            refine ⟨[a.msi j], ?_, List.mem_singleton_self _⟩
            change (a.setIrq sourceNum level).sent = _
            have heiid' : a.eiid j ≠ 0 := by
              intro hz
              apply heiid
              rw [eiid, hwire.target]
              exact hz
            rw [hstep, deliver_enabled] at henabled
            rw [hwire.ie] at hie
            rw [hstep]
            exact deliver_sent hie (Function.update_self _ _ _) henabled heiid'
          · rw [if_neg hj, hbefore] at hafter
            cases hafter
      · rw [if_neg hr] at hstep
        have hs : (a.setIrq sourceNum level).Settled := by
          rw [hstep]
          exact h
        rw [and_iff_right hs]
        constructor
        · intro hann
          by_contra hnot
          simp only [not_or] at hnot
          obtain ⟨h4, hie, hen, hin, hlevel, heiid⟩ := hnot
          have hpol := polarity_reserved h4
          have hin := Bool.eq_false_of_not_eq_true hin
          have hlevel := Bool.eq_true_of_not_eq_false hlevel
          obtain ⟨new, hsent, hmem⟩ := hann src hvalid
            (by rw [hbeforeEq, hin, hpol]; rfl)
            (by
              change (a.setIrq sourceNum level).inputActive src = true
              rw [hactive (a.setIrq sourceNum level) (by rw [hstep]) (by rw [hstep]) src, if_pos rfl, hpol, hlevel]
              rfl)
            (by
              change (a.setIrq sourceNum level).enabled src = true
              rw [hstep]
              exact Bool.eq_true_of_not_eq_false hen)
            (by
              change (a.setIrq sourceNum level).ie = true
              rw [hstep]
              exact Bool.eq_true_of_not_eq_false hie)
            (by
              change (a.setIrq sourceNum level).eiid src ≠ 0
              rw [hstep]
              exact heiid)
          change (a.setIrq sourceNum level).sent = a.sent ++ new at hsent
          rw [hstep] at hsent
          rw [List.self_eq_append_right.mp hsent] at hmem
          exact List.not_mem_nil hmem
        · intro hm j _ hbefore hafter henabled hie heiid
          exfalso
          change (a.setIrq sourceNum level).inputActive j = true at hafter
          change (a.setIrq sourceNum level).enabled j = true at henabled
          change (a.setIrq sourceNum level).ie = true at hie
          change (a.setIrq sourceNum level).eiid j ≠ 0 at heiid
          rw [hactive (a.setIrq sourceNum level) (by rw [hstep]) (by rw [hstep]) j] at hafter
          rw [hstep] at henabled hie heiid
          by_cases hj : j = src
          · subst hj
            rw [if_pos rfl] at hafter
            rw [hbeforeEq] at hbefore
            have hp : a.pending j = false := by
              by_contra hp
              exact h hie j hvalid ⟨Bool.eq_true_of_not_eq_false hp, henabled⟩
            rw [hp] at hr
            rcases hm with h4 | hie' | hen' | hin' | hlow | hz
            · exact hr (raises_of_rises hlt h4 hbefore hafter)
            · change a.ie = true at hie
              rw [hie'] at hie
              cases hie
            · change a.enabled j = true at henabled
              rw [hen'] at henabled
              cases henabled
            · -- a line that is high and not active is of a falling type
              by_cases h4 : 4 ≤ a.sm j
              · exact hr (raises_of_rises hlt h4 hbefore hafter)
              · rw [hin'] at hbefore
                rw [polarity_reserved h4] at hbefore
                cases hbefore
            · by_cases h4 : 4 ≤ a.sm j
              · exact hr (raises_of_rises hlt h4 hbefore hafter)
              · rw [hlow] at hafter
                rw [polarity_reserved h4] at hafter
                cases hafter
            · exact heiid hz
          · rw [if_neg hj, hbefore] at hafter
            cases hafter
  · apply iff_of_true
    · apply hsame
      rw [setIrq, if_pos hsrc]
    · exact fun h0 hle => absurd ⟨h0, hle⟩ hsrc

end Steps

theorem settled_init (numSources : Nat) (isMmode : Bool) : (init numSources isMmode).Settled := by
  rintro _ src _ ⟨hp, _⟩
  cases hp

theorem step_iff {a : Aplic} (h : a.Settled) (op : AplicOp) :
    (a.step op).Settled ∧ a.Announces op ↔ a.Meets op := by
  cases op with
  | setIrq sourceNum level => exact setIrq_iff h sourceNum level
  | bindSource sourceNum hartId eiid => exact bindSource_iff h sourceNum hartId eiid
  | write offset v => exact write_iff h offset v

/-- No reachable state keeps a deliverable source and every activation is announced, exactly in the
runs whose inputs meet the condition. -/
theorem aplic_never_sits_iff (numSources : Nat) (isMmode : Bool) (ops : List AplicOp) :
    Run.Always step Settled (init numSources isMmode) ops ∧
        Run.Along step Announces (init numSources isMmode) ops ↔
      Run.Along step Meets (init numSources isMmode) ops := by
  have hinit := settled_init numSources isMmode
  rw [Run.always_iff, and_iff_right hinit, ← Run.along_and_iff]
  exact Run.along_iff_of_step (fun a op h => step_iff h op) (fun a op _ h => h.1) hinit

/-- Source 1 delivers an edge, becomes level triggered while its line is high, and is left pending and
enabled; so is a source that is pending when `bind_source` enables it; and a line of a reserved type
rises without a message. -/
theorem sourcecfg_write_sits :
    ¬ Settled ([.write 0x4 4, .write 0x3004 6, .write 0x1EDC 1, .setIrq 1 true, .write 0x4 6].foldl step
        (init 64 false)) ∧
      ¬ Settled ([.write 0x4 6, .setIrq 1 true, .bindSource 1 0 6].foldl step (init 64 false)) ∧
      ¬ Announces ([.write 0x4 1, .write 0x3004 6, .write 0x1EDC 1].foldl step (init 64 false)) (.setIrq 1 true) := by
  refine ⟨fun h => ?_, fun h => ?_, fun h => ?_⟩
  · exact h (by decide +kernel) 1 (by decide +kernel) ⟨by decide +kernel, by decide +kernel⟩
  · exact h (by decide +kernel) 1 (by decide +kernel) ⟨by decide +kernel, by decide +kernel⟩
  · obtain ⟨new, hsent, hmem⟩ := h 1 (by decide +kernel) (by decide +kernel) (by decide +kernel)
      (by decide +kernel) (by decide +kernel) (by decide +kernel)
    have hnone : (step ([.write 0x4 1, .write 0x3004 6, .write 0x1EDC 1].foldl step (init 64 false))
        (.setIrq 1 true)).sent = [] := by decide +kernel
    rw [hnone] at hsent
    rw [(List.append_eq_nil_iff.mp hsent.symm).2] at hmem
    exact List.not_mem_nil hmem

end Aplic

end Pyremu
