import Pyremu.ImsicClaim
import Pyremu.Lib.Run

/-!
# The IMSIC files across the engine boundary

One interrupt file as the Python list, the mirror in the state of the engine and
the snapshot taken when a round begins. Between `marshal` and `unmarshal` the
engine sets and claims bits of the mirror, while a device thread sets bits of
the list and copies the list to the mirror word by word under the lock. The
ghost `due` holds the identities that were set since they were claimed last.
-/

namespace Pyremu

/-- Bit `n` of an array of pending words. -/
def eipBit (eip : Nat → BitVec 32) (n : BitVec 32) : Bool := (eip (eipWordOf n)).getLsbD (n &&& 31).toNat

/-- `_ImsicFile`. -/
structure PyImsicFile where
  eip : Nat → BitVec 32
  eie : Nat → BitVec 32
  eidelivery : Nat
  eithreshold : Nat
  anyExt : Bool

/-- `_has_ext_interrupt`. -/
def hasExtInterrupt (eip : Nat → BitVec 32) : Bool :=
  decide (eip 0 &&& ~~~(1#32 <<< 1 ||| 1#32 <<< 3) ≠ 0) ||
    (List.range eipWords).any fun i => decide (i ≠ 0 ∧ eip i ≠ 0)

/-- `_merge_eip`: the bits of `current` that are not in `before` are kept. -/
def mergeEip (engineWords : Nat → BitVec 32) (before : Option (Nat → BitVec 32)) (current : Nat → BitVec 32) :
    Nat → BitVec 32 :=
  match before with
  | none => engineWords
  | some before => fun i => engineWords i ||| (current i &&& ~~~(before i))

/-- A device thread that holds the lock: the identity it has set in the list, and the words it has
not copied yet. -/
structure Publish where
  setting : Option (BitVec 32)
  words : List Nat

structure Boundary where
  file : PyImsicFile
  select : BitVec 32
  mirror : ImsicFile
  before : Option (Nat → BitVec 32)
  inRound : Bool
  publish : Option Publish
  due : BitVec 32 → Bool

inductive BoundaryStep where
  | marshal
  | unmarshal
  | deviceSet (num : Int)
  | publishNext
  | engineSet (num : BitVec 32)
  | engineClaim (iid : BitVec 32)
  deriving DecidableEq, Repr

namespace Boundary

/-- `_marshal_imsic`. -/
def marshal (b : Boundary) : Boundary :=
  { b with
    before := some b.file.eip
    mirror :=
      { eip := b.file.eip
        eie := b.file.eie
        eidelivery := BitVec.ofNat 8 b.file.eidelivery
        eithreshold := BitVec.ofNat 8 b.file.eithreshold
        select := b.select
        present := true
        eipExtAny := hasExtInterrupt b.file.eip }
    inRound := true }

/-- `_unmarshal_imsic`. -/
def unmarshal (b : Boundary) : Boundary :=
  let eip := mergeEip b.mirror.eip b.before b.file.eip
  { b with
    file :=
      { eip := eip
        eie := b.mirror.eie
        eidelivery := b.mirror.eidelivery.toNat
        eithreshold := b.mirror.eithreshold.toNat
        anyExt := (List.range eipWords).any fun i => decide (eip i ≠ 0) }
    select := b.mirror.select
    inRound := false }

/-- `set_ip_number` up to `_publish_eip`. A number out of range changes nothing and is published. -/
def deviceSet (b : Boundary) (num : Int) : Boundary :=
  if 0 < num ∧ num < 2048 then
    let n := BitVec.ofInt 32 num
    { b with
      file :=
        { b.file with
          eip := Function.update b.file.eip (eipWordOf n) (b.file.eip (eipWordOf n) ||| eipBitAt n)
          anyExt := true }
      publish := some ⟨some n, List.range eipWords⟩
      due := Function.update b.due n true }
  else { b with publish := some ⟨none, List.range eipWords⟩ }

/-- The next word of `_publish_eip`; after the last one the summary is written and the lock
released. -/
def publishNext (b : Boundary) : Boundary :=
  match b.publish with
  | none => b
  | some ⟨_, []⟩ => { b with mirror := { b.mirror with eipExtAny := b.file.anyExt }, publish := none }
  | some ⟨n, w :: ws⟩ =>
    { b with
      mirror := { b.mirror with eip := Function.update b.mirror.eip w (b.file.eip w) }
      publish := some ⟨n, ws⟩ }

/-- `imsic_eip_set` on the mirror. -/
def engineSet (b : Boundary) (num : BitVec 32) : Boundary :=
  let w := eipWordOf num
  if eipWords ≤ w then b
  else
    { b with
      mirror :=
        { b.mirror with
          eip := Function.update b.mirror.eip w (b.mirror.eip w ||| eipBitAt num)
          eipExtAny := true }
      due := Function.update b.due num true }

/-- The test of `imsic_topei_claim_iid` before it clears. -/
def claims (f : ImsicFile) (iid : BitVec 32) : Bool :=
  eipBit f.eip iid && !eipBit (imsicTopeiClaimIid f iid).eip iid

/-- `imsic_topei_claim_iid` on the mirror. -/
def engineClaim (b : Boundary) (iid : BitVec 32) : Boundary :=
  { b with
    mirror := imsicTopeiClaimIid b.mirror iid
    due := if claims b.mirror iid then Function.update b.due iid false else b.due }

/-- A step that has to wait leaves the state as it is: the lock excludes the boundary and other
devices, and the engine runs within a round only. -/
def step (b : Boundary) : BoundaryStep → Boundary
  | .marshal => if b.inRound = false ∧ b.publish.isNone then b.marshal else b
  | .unmarshal => if b.inRound = true ∧ b.publish.isNone then b.unmarshal else b
  | .deviceSet num => if b.publish.isNone then b.deviceSet num else b
  | .publishNext => b.publishNext
  | .engineSet num => if b.inRound then b.engineSet num else b
  | .engineClaim iid => if b.inRound then b.engineClaim iid else b

end Boundary

/-! ## Bits of the words -/

section Bits

variable {eip : Nat → BitVec 32} {m n : BitVec 32}

theorem eipBit_set (eip : Nat → BitVec 32) (m n : BitVec 32) :
    eipBit (Function.update eip (eipWordOf n) (eip (eipWordOf n) ||| eipBitAt n)) m =
      (eipBit eip m || decide (m = n)) := by
  rw [eipBit, eipBit]
  by_cases hw : eipWordOf m = eipWordOf n
  · rw [hw, Function.update_self, BitVec.getLsbD_or, getLsbD_eipBitAt]
    congr 1
    rw [decide_eq_decide]
    constructor
    · exact eq_of_same_bit hw
    · rintro rfl
      rfl
  · rw [Function.update_of_ne hw, decide_eq_false fun h => hw (by rw [h]), Bool.or_false]

theorem and_31_lt (m : BitVec 32) : (m &&& 31).toNat < 32 := by
  rw [toNat_and_31]
  omega

theorem eipBit_clear (eip : Nat → BitVec 32) (m n : BitVec 32) :
    eipBit (Function.update eip (eipWordOf n) (eip (eipWordOf n) &&& ~~~(eipBitAt n))) m =
      (eipBit eip m && !decide (m = n)) := by
  rw [eipBit, eipBit]
  by_cases hw : eipWordOf m = eipWordOf n
  · rw [hw, Function.update_self, BitVec.getLsbD_and, BitVec.getLsbD_not, getLsbD_eipBitAt,
      decide_eq_true (and_31_lt m), Bool.true_and]
    congr 2
    rw [decide_eq_decide]
    constructor
    · exact eq_of_same_bit hw
    · rintro rfl
      rfl
  · rw [Function.update_of_ne hw, decide_eq_false fun h => hw (by rw [h]), Bool.not_false, Bool.and_true]

/-- A claim clears its own bit or changes nothing. -/
theorem eipBit_claim (f : ImsicFile) (m iid : BitVec 32) :
    eipBit (imsicTopeiClaimIid f iid).eip m = (eipBit f.eip m && !(Boundary.claims f iid && decide (m = iid))) := by
  have hclear : (imsicTopeiClaimIid f iid).eip = f.eip ∨
      (imsicTopeiClaimIid f iid).eip =
        Function.update f.eip (eipWordOf iid) (f.eip (eipWordOf iid) &&& ~~~(eipBitAt iid)) := by
    rw [imsicTopeiClaimIid]
    split
    · exact .inl rfl
    · dsimp only
      split_ifs
      all_goals first | exact .inl rfl | exact .inr rfl
  rw [Boundary.claims]
  rcases hclear with h | h
  · rw [h]
    cases eipBit f.eip m <;> cases eipBit f.eip iid <;> rfl
  · rw [h, eipBit_clear, eipBit_clear]
    by_cases hm : m = iid
    · subst hm
      simp
    · simp [hm]

theorem eipBit_copy (eip file : Nat → BitVec 32) (w : Nat) (m : BitVec 32) :
    eipBit (Function.update eip w (file w)) m = if eipWordOf m = w then eipBit file m else eipBit eip m := by
  rw [eipBit, eipBit, eipBit]
  by_cases hw : eipWordOf m = w
  · rw [if_pos hw, hw, Function.update_self]
  · rw [if_neg hw, Function.update_of_ne hw]

theorem eipBit_merge (engine before current : Nat → BitVec 32) (m : BitVec 32) :
    eipBit (mergeEip engine (some before) current) m =
      (eipBit engine m || (eipBit current m && !eipBit before m)) := by
  rw [mergeEip, eipBit, eipBit, eipBit, eipBit, BitVec.getLsbD_or, BitVec.getLsbD_and, BitVec.getLsbD_not,
    decide_eq_true (and_31_lt m), Bool.true_and]

end Bits

/-! ## The boundary keeps what is due -/

namespace Boundary

/-- The device has set `n` in the list and not yet copied its word. -/
def InFlight (b : Boundary) (n : BitVec 32) : Prop :=
  ∃ p ∈ b.publish, p.setting = some n ∧ eipWordOf n ∈ p.words

instance (b : Boundary) (n : BitVec 32) : Decidable (b.InFlight n) :=
  match h : b.publish with
  | none => .isFalse fun ⟨p, hp, _⟩ => by simp [h] at hp
  | some p => decidable_of_iff (p.setting = some n ∧ eipWordOf n ∈ p.words) (by simp [InFlight, h])

/-- The bit of the identity that is being set, if it is in word `w`. -/
def Publish.mask (setting : Option (BitVec 32)) (w : Nat) : BitVec 32 :=
  match setting with
  | none => 0
  | some n => if eipWordOf n = w then eipBitAt n else 0

/-- Within a round a word is copied only where list and mirror agree but for the bit being set, and an
identity is claimed only if the device has not set it in this round or is about to publish it. -/
def Safe (b : Boundary) : BoundaryStep → Prop
  | .publishNext =>
    match b.publish with
    | some ⟨n, w :: _⟩ =>
      b.inRound = true → b.mirror.eip w ||| Publish.mask n w = b.file.eip w ||| Publish.mask n w
    | _ => True
  | .engineClaim iid =>
    b.inRound = true → claims b.mirror iid = true →
      ¬ b.InFlight iid ∧ ∀ before ∈ b.before, eipBit b.file.eip iid = true → eipBit before iid = true
  | _ => True

instance (b : Boundary) (a : BoundaryStep) : Decidable (b.Safe a) := by
  cases a with
  | publishNext =>
    unfold Safe
    dsimp only
    split <;> infer_instance
  | engineClaim iid =>
    unfold Safe
    dsimp only
    infer_instance
  | _ => exact .isTrue trivial

/-- At a round boundary an identity is pending exactly when it is due. -/
def Exact (b : Boundary) : Prop :=
  b.inRound = false → ∀ n < maxIid, eipBit b.file.eip n = b.due n

/-- What a round keeps: the mirror shows what is due, up to the identity in flight, and what the
device has set since the round began is due. -/
structure RoundOk (b : Boundary) (before : Nat → BitVec 32) (n : BitVec 32) : Prop where
  flight : b.InFlight n → b.due n = true ∧ eipBit b.file.eip n = true
  mirror : ¬ b.InFlight n → eipBit b.mirror.eip n = b.due n
  added : eipBit b.file.eip n = true → eipBit before n = false → b.due n = true

structure Inv (b : Boundary) : Prop where
  idle : b.Exact
  round : b.inRound = true → ∃ before, b.before = some before ∧ ∀ n < maxIid, b.RoundOk before n

theorem eipWordOf_lt {n : BitVec 32} (h : n < maxIid) : eipWordOf n < eipWords := by
  rw [BitVec.lt_def] at h
  rw [eipWordOf_eq]
  exact Nat.div_lt_of_lt_mul h

variable {b : Boundary}

theorem not_inFlight (h : b.publish = none) (n : BitVec 32) : ¬ b.InFlight n := by
  rintro ⟨p, hp, _⟩
  rw [h] at hp
  cases hp

theorem Inv.marshal (h : b.Inv) (hidle : b.inRound = false) (hlock : b.publish = none) : b.marshal.Inv := by
  refine ⟨fun hr => (by cases hr), fun _ => ⟨b.file.eip, rfl, ?_⟩⟩
  intro n hn
  have hdue := h.idle hidle n hn
  refine ⟨fun hf => absurd hf (not_inFlight (b := b.marshal) hlock n), fun _ => hdue, ?_⟩
  intro hset hclear
  rw [show eipBit b.file.eip n = true from hset] at hclear
  cases hclear

theorem Inv.unmarshal (h : b.Inv) (hround : b.inRound = true) (hlock : b.publish = none) :
    b.unmarshal.Inv := by
  obtain ⟨before, hbefore, hok⟩ := h.round hround
  refine ⟨fun _ n hn => ?_, fun hr => (by cases hr)⟩
  obtain ⟨_, hmirror, hadded⟩ := hok n hn
  show eipBit (mergeEip b.mirror.eip b.before b.file.eip) n = b.due n
  rw [hbefore, eipBit_merge, hmirror (not_inFlight hlock n)]
  cases hd : b.due n with
  | true => rfl
  | false =>
    cases hf : eipBit b.file.eip n with
    | false => rfl
    | true =>
      cases hp : eipBit before n with
      | true => rfl
      | false =>
        rw [hadded hf hp] at hd
        cases hd

theorem Inv.deviceSet (h : b.Inv) (hlock : b.publish = none) (num : Int) : (b.deviceSet num).Inv := by
  rw [Boundary.deviceSet]
  split
  · dsimp only
    generalize BitVec.ofInt 32 num = n
    constructor
    · intro hidle m hm
      dsimp only at hidle ⊢
      rw [eipBit_set, h.idle hidle m hm, Function.update_apply]
      by_cases hmn : m = n <;> simp [hmn]
    · intro hround
      obtain ⟨before, hbefore, hok⟩ := h.round hround
      refine ⟨before, hbefore, fun m hm => ?_⟩
      obtain ⟨_, hmirror, hadded⟩ := hok m hm
      by_cases hmn : m = n
      · subst hmn
        refine ⟨fun _ => ?_, fun hf => ?_, fun _ _ => ?_⟩
        · dsimp only
          rw [eipBit_set, Function.update_self]
          simp
        · exact absurd ⟨_, rfl, rfl, List.mem_range.mpr (eipWordOf_lt hm)⟩ hf
        · exact Function.update_self ..
      · refine ⟨?_, fun _ => ?_, ?_⟩
        · rintro ⟨p, hp, hset, _⟩
          cases hp
          exact absurd (Option.some.inj hset).symm hmn
        · dsimp only
          rw [Function.update_of_ne hmn]
          exact hmirror (not_inFlight hlock m)
        · dsimp only
          rw [eipBit_set, Function.update_of_ne hmn, decide_eq_false hmn, Bool.or_false]
          exact hadded
  · refine ⟨h.idle, fun hround => ?_⟩
    obtain ⟨before, hbefore, hok⟩ := h.round hround
    refine ⟨before, hbefore, fun m hm => ?_⟩
    obtain ⟨_, hmirror, hadded⟩ := hok m hm
    refine ⟨?_, fun _ => hmirror (not_inFlight hlock m), hadded⟩
    rintro ⟨p, hp, hset, _⟩
    cases hp
    cases hset

theorem eipBit_of_mask {n : BitVec 32} {setting : Option (BitVec 32)} {mirror file : Nat → BitVec 32} {w : Nat}
    (h : mirror w ||| Publish.mask setting w = file w ||| Publish.mask setting w) (hw : eipWordOf n = w)
    (hne : setting ≠ some n) : eipBit file n = eipBit mirror n := by
  have hmask : (Publish.mask setting w).getLsbD (n &&& 31).toNat = false := by
    cases setting with
    | none => exact BitVec.getLsbD_zero
    | some k =>
      rw [Publish.mask]
      split
      · rename_i hk
        rw [getLsbD_eipBitAt, decide_eq_false_iff_not]
        intro hb
        exact hne (congrArg some (eq_of_same_bit (hw.trans hk.symm) hb).symm)
      · exact BitVec.getLsbD_zero
  have hbit := congrArg (fun x => x.getLsbD (n &&& 31).toNat) h
  rw [BitVec.getLsbD_or, BitVec.getLsbD_or, hmask, Bool.or_false, Bool.or_false] at hbit
  rw [eipBit, eipBit, hw, hbit]

theorem Inv.publishNext (h : b.Inv) (hsafe : b.Safe .publishNext) : b.publishNext.Inv := by
  rw [Safe] at hsafe
  rw [Boundary.publishNext]
  cases hp : b.publish with
  | none => exact h
  | some p =>
    obtain ⟨setting, _ | ⟨w, ws⟩⟩ := p
    · refine ⟨h.idle, fun hround => ?_⟩
      obtain ⟨before, hbefore, hok⟩ := h.round hround
      refine ⟨before, hbefore, fun n hn => ?_⟩
      have hnone : ¬ b.InFlight n := by
        rintro ⟨p, hp', _, hmem⟩
        rw [hp] at hp'
        cases hp'
        cases hmem
      refine ⟨?_, fun _ => (hok n hn).mirror hnone, (hok n hn).added⟩
      rintro ⟨p, hp', _⟩
      cases hp'
    · rw [hp] at hsafe
      refine ⟨h.idle, fun hround => ?_⟩
      obtain ⟨before, hbefore, hok⟩ := h.round hround
      refine ⟨before, hbefore, fun n hn => ?_⟩
      obtain ⟨hflight, hmirror, hadded⟩ := hok n hn
      refine ⟨?_, fun hnot => ?_, hadded⟩
      · rintro ⟨p, hp', hset, hmem⟩
        cases hp'
        exact hflight ⟨_, hp, hset, .tail _ hmem⟩
      · show eipBit (Function.update b.mirror.eip w (b.file.eip w)) n = b.due n
        rw [eipBit_copy]
        by_cases hw : eipWordOf n = w
        · rw [if_pos hw]
          by_cases hset : setting = some n
          · -- this is the copy that ends the flight
            obtain ⟨hdue, hfile⟩ := hflight ⟨_, hp, hset, by rw [hw]; exact .head _⟩
            rw [hdue, hfile]
          · have hnone : ¬ b.InFlight n := by
              rintro ⟨p, hp', hset', _⟩
              rw [hp] at hp'
              cases hp'
              exact hset hset'
            rw [eipBit_of_mask (hsafe hround) hw hset]
            exact hmirror hnone
        · rw [if_neg hw]
          apply hmirror
          rintro ⟨p, hp', hset, hmem⟩
          rw [hp] at hp'
          cases hp'
          rcases List.mem_cons.mp hmem with hmem | hmem
          · exact hw hmem
          · exact hnot ⟨_, rfl, hset, hmem⟩

theorem Inv.engineSet (h : b.Inv) (hround : b.inRound = true) (num : BitVec 32) : (b.engineSet num).Inv := by
  rw [Boundary.engineSet]
  dsimp only
  split
  · exact h
  · obtain ⟨before, hbefore, hok⟩ := h.round hround
    refine ⟨fun hidle => absurd (hround.symm.trans hidle) (by decide), fun _ => ⟨before, hbefore, fun n hn => ?_⟩⟩
    obtain ⟨hflight, hmirror, hadded⟩ := hok n hn
    by_cases hn : n = num
    · subst hn
      refine ⟨fun hf => ⟨Function.update_self .., (hflight hf).2⟩, fun _ => ?_, fun _ _ => Function.update_self ..⟩
      dsimp only
      rw [eipBit_set, Function.update_self]
      simp
    · refine ⟨fun hf => ?_, fun hf => ?_, fun hset hclear => ?_⟩
      · dsimp only
        rw [Function.update_of_ne hn]
        exact hflight hf
      · dsimp only
        rw [eipBit_set, Function.update_of_ne hn, decide_eq_false hn, Bool.or_false]
        exact hmirror hf
      · dsimp only
        rw [Function.update_of_ne hn]
        exact hadded hset hclear

theorem Inv.engineClaim (h : b.Inv) (hround : b.inRound = true) {iid : BitVec 32}
    (hsafe : b.Safe (.engineClaim iid)) : (b.engineClaim iid).Inv := by
  obtain ⟨before, hbefore, hok⟩ := h.round hround
  refine ⟨fun hidle => absurd (hround.symm.trans hidle) (by decide), fun _ => ⟨before, hbefore, fun n hn => ?_⟩⟩
  obtain ⟨hflight, hmirror, hadded⟩ := hok n hn
  by_cases hclaim : claims b.mirror iid = true ∧ n = iid
  · obtain ⟨hc, rfl⟩ := hclaim
    obtain ⟨hnot, hold⟩ := hsafe hround hc
    refine ⟨fun hf => absurd hf hnot, fun _ => ?_, fun hset hclear => ?_⟩
    · show eipBit (imsicTopeiClaimIid b.mirror n).eip n =
        (if claims b.mirror n then Function.update b.due n false else b.due) n
      rw [eipBit_claim, hc, if_pos rfl, Function.update_self]
      simp
    · rw [hold before hbefore hset] at hclear
      cases hclear
  · have hdue : (b.engineClaim iid).due n = b.due n := by
      show (if claims b.mirror iid then Function.update b.due iid false else b.due) n = b.due n
      split
      · rename_i hc
        exact Function.update_of_ne (fun hn => hclaim ⟨hc, hn⟩) ..
      · rfl
    refine ⟨fun hf => ?_, fun hf => ?_, fun hset hclear => ?_⟩
    · rw [hdue]
      exact hflight hf
    · rw [hdue]
      show eipBit (imsicTopeiClaimIid b.mirror iid).eip n = b.due n
      have hother : (claims b.mirror iid && decide (n = iid)) = false := by
        rw [Bool.eq_false_iff, ne_eq, Bool.and_eq_true, decide_eq_true_iff]
        exact hclaim
      rw [eipBit_claim, hother, Bool.not_false, Bool.and_true]
      exact hmirror hf
    · rw [hdue]
      exact hadded hset hclear

theorem Inv.step (h : b.Inv) (a : BoundaryStep) (hsafe : b.Safe a) : (b.step a).Inv := by
  cases a with
  | marshal =>
    rw [Boundary.step]
    split
    · rename_i hc
      exact h.marshal hc.1 (Option.isNone_iff_eq_none.mp hc.2)
    · exact h
  | unmarshal =>
    rw [Boundary.step]
    split
    · rename_i hc
      exact h.unmarshal hc.1 (Option.isNone_iff_eq_none.mp hc.2)
    · exact h
  | deviceSet num =>
    rw [Boundary.step]
    split
    · rename_i hc
      exact h.deviceSet (Option.isNone_iff_eq_none.mp hc) num
    · exact h
  | publishNext => exact h.publishNext hsafe
  | engineSet num =>
    rw [Boundary.step]
    split
    · rename_i hc
      exact h.engineSet hc num
    · exact h
  | engineClaim iid =>
    rw [Boundary.step]
    split
    · rename_i hc
      exact h.engineClaim hc hsafe
    · exact h

end Boundary

/-- For every interleaving of safe steps from a round boundary: at each round boundary an identity is
pending exactly when it was set since its last claim. -/
theorem boundary_keeps_due (b : Boundary) (l : List BoundaryStep) (hstart : b.inRound = false) (hexact : b.Exact)
    (hsafe : Run.Along Boundary.step Boundary.Safe b l) : Run.Always Boundary.step Boundary.Exact b l := by
  apply Run.always_of_invariant (I := Boundary.Inv) (G := Boundary.Safe) (fun s a hs => hs.step a)
    (fun _ hs => hs.idle) ⟨hexact, fun hr => ?_⟩ hsafe
  rw [hstart] at hr
  cases hr

/-- A file with nothing pending that delivers and enables everything. -/
def quietBoundary : Boundary where
  file := ⟨fun _ => 0, fun _ => BitVec.allOnes 32, 1, 0, false⟩
  select := 0
  mirror := .empty
  before := none
  inRound := false
  publish := none
  due := fun _ => false

theorem quietBoundary_exact : quietBoundary.Exact := by
  intro _ n _
  exact BitVec.getLsbD_zero

/-- The words of one publication. -/
def publishAll : List BoundaryStep := List.replicate 65 .publishNext

/-- The engine sets identity 70 and claims it before the device publishes identity 40. -/
theorem boundary_keeps_due_quiet :
    Run.Always Boundary.step Boundary.Exact quietBoundary
      ([.marshal, .engineSet 70, .engineClaim 70, .deviceSet 40] ++ publishAll ++ [.unmarshal]) :=
  boundary_keeps_due _ _ rfl quietBoundary_exact (by decide +kernel)

/-- The device sets identity 40 and publishes it, the engine claims it in the same round, and the
merge makes it pending again. -/
theorem claimed_identity_resurrected :
    ¬ Run.Always Boundary.step Boundary.Exact quietBoundary
      ([.marshal, .deviceSet 40] ++ publishAll ++ [.engineClaim 40, .unmarshal]) := by
  intro h
  have hlast := h.last (by decide +kernel) 40 (by decide)
  revert hlast
  decide +kernel

end Pyremu
