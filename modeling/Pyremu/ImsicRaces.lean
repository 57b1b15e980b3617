import Pyremu.ImsicSteps

/-!
# Races on an interrupt file

Any number of harts work on one interrupt file, each access of each hart at any
time. Three things the code relies on: the summary `eip_ext_any` covers the
pending bits, the line in `mip` follows them, and the claim of an identity
leaves later occurrences alone.
-/

namespace Pyremu

open Interleave Backlog

/-- The harts that work on one file, and the accesses they still have to make. -/
abbrev ImsicConfig (ι : Type) := Config ImsicShared (List Micro) ι

def imsicMachine {ι : Type} [DecidableEq ι] (mfile : Bool) :
    ImsicConfig ι → ι × Act ImsicOp → ImsicConfig ι :=
  machine ImsicOp.steps (Micro.exec mfile)

/-- All operations have completed. -/
def Quiet {ι : Type} (c : ImsicConfig ι) : Prop := ∀ i, c.proc i = []

/-! ## What `imsic_topei_peek` sees -/

section Peek

theorem topeiValue_ne_zero {iid : Nat} (h0 : iid ≠ 0) (h : iid < 2048) : topeiValue iid ≠ 0 := by
  intro hz
  have hs := (BitVec.or_eq_zero_iff.mp hz).1
  have hn := congrArg BitVec.toNat hs
  rw [BitVec.toNat_shiftLeft, BitVec.toNat_ofNat, Nat.shiftLeft_eq] at hn
  rw [Nat.mod_eq_of_lt (by omega : iid < 2 ^ 64), Nat.mod_eq_of_lt (by omega)] at hn
  simp only [BitVec.toNat_zero] at hn
  omega

theorem highestBit_lt {v : BitVec 32} (h : v ≠ 0) : highestBit v < 32 := by
  have hv : v.toNat ≠ 0 := fun h0 => h (BitVec.eq_of_toNat_eq h0)
  exact (Nat.log2_lt hv).mpr v.isLt

/-- The external identities of word `i` that are pending and enabled. -/
def extPending (f : ImsicFile) (i : Nat) : BitVec 32 :=
  if i = 0 then f.eip 0 &&& f.eie 0 &&& ~~~(1#32 <<< 3 ||| 1#32 <<< 1) else f.eip i &&& f.eie i

theorem topeiWord_eq_some_iff {f : ImsicFile} {i : Nat} {v : Word} (hi : i < eipWords) :
    topeiWord f i = some v ↔ extPending f i ≠ 0 ∧ i * 32 + highestBit (extPending f i) ≠ 0 ∧
      f.eithreshold.toNat < (i * 32 + highestBit (extPending f i)) % 256 ∧
      v = topeiValue (i * 32 + highestBit (extPending f i)) := by
  have heq : topeiWord f i = if extPending f i = 0 then none
      else if i * 32 + highestBit (extPending f i) = 0 ∨ 2048 ≤ i * 32 + highestBit (extPending f i) then none
      else if f.eithreshold.toNat < (i * 32 + highestBit (extPending f i)) % 256 then
        some (topeiValue (i * 32 + highestBit (extPending f i)))
      else none := rfl
  rw [heq]
  by_cases hp : extPending f i = 0
  · rw [if_pos hp]
    exact iff_of_false (fun h => by cases h) (fun h => absurd hp h.1)
  · rw [if_neg hp]
    have hb := highestBit_lt hp
    have hlt : i * 32 + highestBit (extPending f i) < 2048 := by
      have : eipWords = 64 := rfl
      omega
    by_cases h0 : i * 32 + highestBit (extPending f i) = 0
    · rw [if_pos (.inl h0)]
      exact iff_of_false (fun h => by cases h) (fun h => absurd h0 h.2.1)
    · rw [if_neg (not_or.mpr ⟨h0, by omega⟩)]
      by_cases ht : f.eithreshold.toNat < (i * 32 + highestBit (extPending f i)) % 256
      · rw [if_pos ht, Option.some.injEq]
        exact ⟨fun h => ⟨hp, h0, ht, h.symm⟩, fun h => h.2.2.2.symm⟩
      · rw [if_neg ht]
        exact iff_of_false (fun h => by cases h) (fun h => absurd h.2.2.1 ht)

theorem topeiWord_ne_zero {f : ImsicFile} {i : Nat} {v : Word} (hi : i < eipWords)
    (h : topeiWord f i = some v) : v ≠ 0 := by
  obtain ⟨hp, h0, _, rfl⟩ := (topeiWord_eq_some_iff hi).mp h
  have hb := highestBit_lt hp
  have : eipWords = 64 := rfl
  exact topeiValue_ne_zero h0 (by omega)

/-- The software interrupts that are pending. -/
def ipiPending (f : ImsicFile) : BitVec 32 := f.eip 0 &&& (1#32 <<< 3 ||| 1#32 <<< 1)

theorem highestBit_ipi_ne_zero {f : ImsicFile} (h : ipiPending f ≠ 0) : highestBit (ipiPending f) ≠ 0 := by
  intro h0
  have hv : (ipiPending f).toNat ≠ 0 := fun hz => h (BitVec.eq_of_toNat_eq hz)
  have hbit := Nat.testBit_log2 hv
  rw [show (ipiPending f).toNat.log2 = 0 from h0, BitVec.testBit_toNat, ipiPending, BitVec.getLsbD_and] at hbit
  have hmask : (1#32 <<< 3 ||| 1#32 <<< 1).getLsbD 0 = false := by decide
  rw [hmask, Bool.and_false] at hbit
  cases hbit

theorem peek_ne_zero_iff {f : ImsicFile} :
    imsicTopeiPeek f ≠ 0 ↔ ipiPending f ≠ 0 ∨
      (f.eidelivery ≠ 0 ∧ f.eipExtAny = true ∧ ∃ i < eipWords, ∃ v, topeiWord f i = some v) := by
  have heq : imsicTopeiPeek f = if ipiPending f ≠ 0 then topeiValue (highestBit (ipiPending f))
      else if f.eidelivery = 0 ∨ f.eipExtAny = false then 0
      else ((List.range eipWords).reverse.findSome? (topeiWord f)).getD 0 := rfl
  rw [heq]
  by_cases hipi : ipiPending f ≠ 0
  · rw [if_pos hipi]
    have hb := highestBit_lt hipi
    exact iff_of_true (topeiValue_ne_zero (highestBit_ipi_ne_zero hipi) (by omega)) (.inl hipi)
  · rw [if_neg hipi]
    by_cases hoff : f.eidelivery = 0 ∨ f.eipExtAny = false
    · rw [if_pos hoff]
      apply iff_of_false (fun h => h rfl)
      rintro (h | ⟨hd, hany, _⟩)
      · exact hipi h
      · rcases hoff with h0 | hf
        · exact hd h0
        · rw [hany] at hf
          cases hf
    · rw [if_neg hoff]
      obtain ⟨hd, hany⟩ := not_or.mp hoff
      cases hscan : (List.range eipWords).reverse.findSome? (topeiWord f) with
      | none =>
        rw [List.findSome?_eq_none_iff] at hscan
        apply iff_of_false (fun h => h rfl)
        rintro (h | ⟨_, _, i, hi, v, hv⟩)
        · exact hipi h
        · rw [hscan i (List.mem_reverse.mpr (List.mem_range.mpr hi))] at hv
          cases hv
      | some v =>
        obtain ⟨i, hi, hv⟩ := List.exists_of_findSome?_eq_some hscan
        have hlt := List.mem_range.mp (List.mem_reverse.mp hi)
        exact iff_of_true (topeiWord_ne_zero hlt hv)
          (.inr ⟨hd, by simpa using hany, i, hlt, v, hv⟩)

/-- `f'` has lost pending bits of `f` and is the same otherwise. -/
structure Fewer (f' f : ImsicFile) : Prop where
  eip : ∀ i, ∃ m, f'.eip i = f.eip i &&& m
  eie : f'.eie = f.eie
  eidelivery : f'.eidelivery = f.eidelivery
  eithreshold : f'.eithreshold = f.eithreshold
  eipExtAny : f'.eipExtAny = f.eipExtAny

theorem Fewer.extPending {f' f : ImsicFile} (h : Fewer f' f) (i : Nat) :
    ∃ m, extPending f' i = extPending f i &&& m := by
  by_cases hi : i = 0
  · obtain ⟨m, hm⟩ := h.eip 0
    refine ⟨m, ?_⟩
    simp only [Pyremu.extPending, if_pos hi, hm, h.eie]
    ac_rfl
  · obtain ⟨m, hm⟩ := h.eip i
    refine ⟨m, ?_⟩
    simp only [Pyremu.extPending, if_neg hi, hm, h.eie]
    ac_rfl

theorem highestBit_and_le {v m : BitVec 32} (h : v &&& m ≠ 0) : highestBit (v &&& m) ≤ highestBit v := by
  have hv : (v &&& m).toNat ≠ 0 := fun hz => h (BitVec.eq_of_toNat_eq hz)
  have hle : (v &&& m).toNat ≤ v.toNat := by
    rw [BitVec.toNat_and]
    exact Nat.and_le_left
  have hlog : 2 ^ (v &&& m).toNat.log2 ≤ v.toNat := (Nat.log2_self_le hv).trans hle
  exact (Nat.le_log2 (by omega)).mpr hlog

theorem and_ne_zero_left {v m : BitVec 32} (h : v &&& m ≠ 0) : v ≠ 0 := by
  rintro rfl
  exact h (BitVec.zero_and)

/-- Within a word the priority grows with the identity, so a bit that is lost never uncovers an
interrupt. -/
theorem Fewer.peek {f' f : ImsicFile} (h : Fewer f' f) (hp : imsicTopeiPeek f' ≠ 0) :
    imsicTopeiPeek f ≠ 0 := by
  rw [peek_ne_zero_iff] at hp ⊢
  rcases hp with hipi | ⟨hd, hany, i, hi, v, hv⟩
  · left
    obtain ⟨m, hm⟩ := h.eip 0
    have hsub : ipiPending f' = ipiPending f &&& m := by
      simp only [ipiPending, hm]
      ac_rfl
    rw [hsub] at hipi
    exact and_ne_zero_left hipi
  · right
    refine ⟨h.eidelivery ▸ hd, h.eipExtAny ▸ hany, i, hi, ?_⟩
    obtain ⟨hpend, h0, hthr, _⟩ := (topeiWord_eq_some_iff hi).mp hv
    obtain ⟨m, hm⟩ := h.extPending i
    rw [hm] at hpend h0 hthr
    rw [h.eithreshold] at hthr
    have hle := highestBit_and_le hpend
    have hpend' := and_ne_zero_left hpend
    have hb := highestBit_lt hpend'
    refine ⟨_, (topeiWord_eq_some_iff hi).mpr ⟨hpend', ?_, ?_, rfl⟩⟩
    · omega
    · omega

end Peek

/-! ## The summary of the pending words -/

section Summary

/-- No pending word is hidden by `eip_ext_any`. -/
def SummaryCovers (f : ImsicFile) : Prop := (∃ w < eipWords, f.eip w ≠ 0) → f.eipExtAny = true

/-- Then `imsic_topei_peek` answers as if it never skipped the scan. -/
theorem SummaryCovers.peek {f : ImsicFile} (h : SummaryCovers f) :
    imsicTopeiPeek f = imsicTopeiPeek { f with eipExtAny := true } := by
  cases hany : f.eipExtAny with
  | true => rw [← hany]
  | false =>
    have hz : ∀ w < eipWords, f.eip w = 0 := by
      intro w hw
      by_contra hne
      rw [h ⟨w, hw, hne⟩] at hany
      cases hany
    have hipi : ∀ f' : ImsicFile, f'.eip = f.eip → ¬ ipiPending f' ≠ 0 := by
      intro f' hf' hne
      have h0 := and_ne_zero_left hne
      rw [hf'] at h0
      exact h0 (hz 0 (by decide))
    have hlow : imsicTopeiPeek f = 0 := by
      by_contra hne
      rcases peek_ne_zero_iff.mp hne with hi | ⟨_, htrue, _⟩
      · exact hipi f rfl hi
      · rw [hany] at htrue
        cases htrue
    have hhigh : imsicTopeiPeek { f with eipExtAny := true } = 0 := by
      by_contra hne
      rcases peek_ne_zero_iff.mp hne with hi | ⟨_, _, i, hlt, v, hv⟩
      · exact hipi _ rfl hi
      · apply ((topeiWord_eq_some_iff hlt).mp hv).1
        simp only [extPending, hz i hlt, hz 0 (by decide)]
        split_ifs <;> simp
    rw [hlow, hhigh]

/-- The accesses after which the summary is up to date. -/
def Micro.Announces : Micro → Prop
  | .orAny | .scan _ | .storeAny _ | .storeEip _ _ _ => True
  | _ => False

/-- The accesses that change the file. -/
def Micro.changesFile : Micro → Bool
  | .orEip _ | .orAny | .clrEip _ | .dropEip _ _ | .raiseEip _ | .storeEip _ _ _ | .storeAny _ => true
  | _ => false

theorem file_exec {mfile : Bool} {g : ImsicShared} {m : Micro} (hm : m.changesFile = false) :
    (m.exec mfile g).1.file mfile = g.file mfile := by
  have hmip : ∀ mask : Word, ((g.putMip (g.hart.clearMip mask)).file mfile) = g.file mfile := by
    intro mask
    cases mfile <;> rfl
  cases m with
  | orEip num => cases hm
  | orAny => cases hm
  | orMip => cases mfile <;> rfl
  | andMip => exact hmip _
  | ack iid => exact hmip _
  | clrEip num => cases hm
  | dropEip num first => cases hm
  | raiseEip num => cases hm
  | storeEip w v high => cases hm
  | scan i => simp only [Micro.exec]; split_ifs <;> rfl
  | storeAny any => cases hm
  | peekSync => simp only [Micro.exec]; split_ifs <;> rfl
  | peekClear => simp only [Micro.exec]; split_ifs <;> rfl
  | loadMip => simp only [Micro.exec]; split_ifs <;> rfl
  | peekCleanup => simp only [Micro.exec]; split_ifs <;> rfl
  | topei => simp only [Micro.exec]; split_ifs <;> rfl
  | topeiAny => simp only [Micro.exec]; split_ifs <;> rfl
  | topeiScan i =>
    simp only [Micro.exec]
    cases topeiWord (g.file mfile) i with
    | some raw => rfl
    | none => split_ifs <;> rfl
  | claim iid first => simp only [Micro.exec]; split_ifs <;> rfl

variable {ι : Type} [DecidableEq ι] {mfile : Bool} {c : ImsicConfig ι}

/-- A hart that is about to clear the summary is right to do so, or a remote set has still to
write the summary. -/
def StoresTruly (mfile : Bool) (c : ImsicConfig ι) (l : ι × Act ImsicOp) : Prop :=
  l.2 = .next → ∀ rest, c.proc l.1 = .storeAny false :: rest →
    (∀ w < eipWords, (c.shared.file mfile).eip w = 0) ∨ ∃ i, Micro.orAny ∈ c.proc i

/-- A word that the summary hides will be announced. -/
def SummaryInv (mfile : Bool) (c : ImsicConfig ι) : Prop :=
  Covered (fun g => ¬ SummaryCovers (g.file mfile)) Micro.Announces c

theorem SummaryCovers.of_clear {g : ImsicShared} {num : BitVec 32} (h : SummaryCovers (g.file mfile)) :
    SummaryCovers ((g.clearEip mfile num).file mfile) := by
  rw [ImsicShared.file_clearEip]
  rintro ⟨w, hw, hne⟩
  refine h ⟨w, hw, ?_⟩
  by_cases hweq : w = eipWordOf num
  · subst hweq
    simp only [Function.update_self] at hne
    exact and_ne_zero_left hne
  · simpa only [Function.update_of_ne hweq] using hne

theorem SummaryInv.step (hc : SummaryInv mfile c) (l : ι × Act ImsicOp) (ht : StoresTruly mfile c l) :
    SummaryInv mfile (imsicMachine mfile c l) := by
  obtain ⟨i, a⟩ := l
  apply Covered.step hc a
  intro m rest ha hi howed
  have other : m.changesFile = false → ¬ m.Announces →
      Outstanding (fun m' => m'.Announces ∧ m' ≠ m) c := by
    intro hm hquiet
    rw [file_exec hm] at howed
    exact hc.other howed hquiet
  cases m with
  | orEip num => exact .inl ⟨.orAny, List.mem_singleton_self _, trivial⟩
  | orAny =>
    refine absurd (fun _ => ?_) howed
    simp only [Micro.exec, ImsicShared.file_putFile]
  | clrEip num => exact .inr (hc.other (fun h => howed h.of_clear) id)
  | dropEip num first => exact .inl ⟨.scan 0, List.mem_singleton_self _, trivial⟩
  | raiseEip num => exact .inl ⟨.scan 0, List.mem_singleton_self _, trivial⟩
  | storeEip w v high =>
    left
    cases high with
    | some v => exact ⟨.storeEip (w + 1) v none, List.mem_singleton_self _, trivial⟩
    | none => exact ⟨.scan 0, List.mem_singleton_self _, trivial⟩
  | scan j =>
    left
    simp only [Micro.exec]
    split_ifs
    · exact ⟨.storeAny true, List.mem_singleton_self _, trivial⟩
    · exact ⟨.scan (j + 1), List.mem_singleton_self _, trivial⟩
    · exact ⟨.storeAny false, List.mem_singleton_self _, trivial⟩
  | storeAny any =>
    cases any with
    | true =>
      refine absurd (fun _ => ?_) howed
      simp only [Micro.exec, ImsicShared.file_putFile]
    | false =>
      -- the one access that may hide a word
      rcases ht ha rest hi with hz | ⟨j, hj⟩
      · refine absurd (fun h => ?_) howed
        obtain ⟨w, hw, hne⟩ := h
        simp only [Micro.exec, ImsicShared.file_putFile] at hne
        exact absurd (hz w hw) hne
      · exact .inr ⟨j, .orAny, hj, trivial, fun h => by cases h⟩
  | orMip | andMip | ack | peekSync | peekClear | loadMip | peekCleanup => exact .inr (other rfl id)
  | topei | topeiAny | topeiScan | claim => exact .inr (other rfl id)

/-- For every interleaving: once all operations have completed, the summary hides no pending word
and `imsic_topei_peek` does not skip the scan. -/
theorem summary_never_hides (mfile : Bool) (c : ImsicConfig ι) (run : List (ι × Act ImsicOp))
    (h0 : SummaryCovers (c.shared.file mfile))
    (ht : Run.Along (imsicMachine mfile) (StoresTruly mfile) c run) :
    Run.Always (imsicMachine mfile) (fun c => Quiet c → SummaryCovers (c.shared.file mfile) ∧
      imsicTopeiPeek (c.shared.file mfile) =
        imsicTopeiPeek { c.shared.file mfile with eipExtAny := true }) c run := by
  refine Run.always_of_invariant (fun _ l => SummaryInv.step (l := l)) ?_ (fun h => absurd h0 h) ht
  intro c hinv hq
  have hcov := not_not.mp (hinv.quiet hq)
  exact ⟨hcov, hcov.peek⟩

omit [DecidableEq ι] in
theorem storesTruly_of_head {l : ι × Act ImsicOp} (h : (c.proc l.1).head? ≠ some (.storeAny false)) :
    StoresTruly mfile c l := by
  intro _ rest hl
  rw [hl] at h
  exact absurd rfl h

/-- A machine-level file that delivers and enables everything. -/
def openFile (eip : Nat → BitVec 32) (any : Bool) : ImsicShared where
  hart := { HartState.zeroed with
    imsicM := { ImsicFile.empty with
      eip, present := true, eidelivery := 1, eie := fun _ => 0xFFFFFFFF, eipExtAny := any } }
  reported := none
  late := []

/-- Hart `true` clears identity 5 and hart `false` sets identity 70 before the summary is stored. -/
theorem set_before_store_covered :
    Run.Always (imsicMachine true) (fun c => Quiet c → SummaryCovers (c.shared.file true) ∧
        imsicTopeiPeek (c.shared.file true) = imsicTopeiPeek { c.shared.file true with eipExtAny := true })
      ⟨openFile (fun i => if i = 0 then 32 else if i = 1 then 1 else 0) true, fun _ => []⟩
      [(true, .start (.clrEipNum 5)), (true, .next), (true, .next), (false, .start (.eipSet 70)),
        (false, .next), (true, .next), (false, .next), (true, .next), (false, .next)] :=
  summary_never_hides true _ _ (fun _ => rfl)
    ⟨storesTruly_of_head (by decide +kernel), storesTruly_of_head (by decide +kernel),
      storesTruly_of_head (by decide +kernel), storesTruly_of_head (by decide +kernel),
      storesTruly_of_head (by decide +kernel), storesTruly_of_head (by decide +kernel),
      storesTruly_of_head (by decide +kernel), storesTruly_of_head (by decide +kernel),
      storesTruly_of_head (by decide +kernel), trivial⟩

/-- Hart `true` clears an identity of an empty file and stores the summary; hart `false` sets
identity 40 after the last load of the scan. -/
def hiddenRun : List (Bool × Act ImsicOp) :=
  [(true, .start (.clrEipNum 5))] ++ List.replicate 65 (true, .next) ++
    [(false, .start (.eipSet 40)), (false, .next), (false, .next), (false, .next), (true, .next)]

theorem late_set_hidden :
    ¬ Run.Always (imsicMachine true) (fun c => Quiet c → SummaryCovers (c.shared.file true))
      ⟨openFile (fun _ => 0) false, fun _ => []⟩ hiddenRun := by
  intro h
  have hany := h.last (by unfold Quiet; decide +kernel) ⟨1, by decide, by decide +kernel⟩
  exact absurd hany (by decide +kernel)

end Summary

/-! ## The line in `mip` -/

section Line

/-- A deliverable interrupt shows in `mip`. -/
def LineFollows (mfile : Bool) (g : ImsicShared) : Prop :=
  imsicTopeiPeek (g.file mfile) ≠ 0 → g.hart.mip.getLsbD (imsicLine mfile) = true

/-- The operations that keep the line up to date. -/
def ImsicOp.OnLine : ImsicOp → Prop
  | .eipSet _ | .eipClear _ | .sync | .cleanup => True
  | _ => False

/-- Their accesses. -/
def Micro.OnLine : Micro → Prop
  | .orEip _ | .orAny | .orMip | .andMip | .clrEip _ | .peekSync | .peekClear | .loadMip | .peekCleanup => True
  | _ => False

/-- The accesses of a remote set that are followed by an update of the line. -/
def Micro.Raises : Micro → Prop
  | .orAny | .orMip => True
  | _ => False

theorem ImsicOp.OnLine.steps {op : ImsicOp} (h : op.OnLine) : ∀ m ∈ op.steps, m.OnLine := by
  intro m hm
  cases op with
  | eipSet num =>
    simp only [ImsicOp.steps] at hm
    split_ifs at hm
    · cases hm
    · cases List.mem_singleton.mp hm
      trivial
  | eipClear num =>
    simp only [ImsicOp.steps] at hm
    split_ifs at hm
    · cases hm
    · cases List.mem_singleton.mp hm
      trivial
  | sync =>
    cases List.mem_singleton.mp hm
    trivial
  | cleanup =>
    cases List.mem_singleton.mp hm
    trivial
  | claim iid => cases h
  | writeEip idx v => cases h
  | setEipNum num => cases h
  | clrEipNum num => cases h
  | dropIpi iid => cases h
  | topei => cases h

/-- A peek leaves the state as it is, and puts at most one access in front. -/
theorem Micro.exec_peek {mfile : Bool} {g : ImsicShared} {m : Micro}
    (hm : m = .peekSync ∨ m = .peekClear ∨ m = .loadMip ∨ m = .peekCleanup) :
    (m.exec mfile g).1 = g ∧ ∀ m' ∈ (m.exec mfile g).2, m'.OnLine := by
  rcases hm with rfl | rfl | rfl | rfl
  all_goals
    simp only [Micro.exec]
    split_ifs
    all_goals
      refine ⟨rfl, fun m' hm' => ?_⟩
      cases hm' <;> trivial

theorem Micro.OnLine.exec {mfile : Bool} {g : ImsicShared} {m : Micro} (h : m.OnLine) :
    ∀ m' ∈ (m.exec mfile g).2, m'.OnLine := by
  intro m' hm'
  cases m with
  | orEip num => cases List.mem_singleton.mp hm'; trivial
  | orAny => cases List.mem_singleton.mp hm'; trivial
  | orMip => cases hm'
  | andMip => cases hm'
  | clrEip num => cases List.mem_singleton.mp hm'; trivial
  | peekSync => exact (Micro.exec_peek (.inl rfl)).2 m' hm'
  | peekClear => exact (Micro.exec_peek (.inr (.inl rfl))).2 m' hm'
  | loadMip => exact (Micro.exec_peek (.inr (.inr (.inl rfl)))).2 m' hm'
  | peekCleanup => exact (Micro.exec_peek (.inr (.inr (.inr rfl)))).2 m' hm'
  | ack iid => cases h
  | dropEip num first => cases h
  | raiseEip num => cases h
  | storeEip w v high => cases h
  | scan i => cases h
  | storeAny any => cases h
  | topei => cases h
  | topeiAny => cases h
  | topeiScan i => cases h
  | claim iid first => cases h

theorem getLsbD_or_line (mfile : Bool) (x : Word) :
    (x ||| imsicMipBit mfile).getLsbD (imsicLine mfile) = true := by
  cases mfile <;> rw [BitVec.getLsbD_or, Bool.or_eq_true] <;> right <;> decide

theorem ImsicShared.fewer_clearEip (mfile : Bool) (g : ImsicShared) (num : BitVec 32) :
    Fewer ((g.clearEip mfile num).file mfile) (g.file mfile) := by
  rw [ImsicShared.file_clearEip]
  refine ⟨fun i => ?_, rfl, rfl, rfl, rfl⟩
  by_cases hi : i = eipWordOf num
  · subst hi
    exact ⟨~~~(eipBitAt num), by simp only [Function.update_self]⟩
  · exact ⟨BitVec.allOnes 32, by simp only [Function.update_of_ne hi, BitVec.and_allOnes]⟩

theorem LineFollows.of_clear {mfile : Bool} {g : ImsicShared} {num : BitVec 32} (h : LineFollows mfile g) :
    LineFollows mfile (g.clearEip mfile num) := by
  intro hp
  have hmip : (g.clearEip mfile num).hart.mip = g.hart.mip := by
    cases mfile <;> rfl
  rw [hmip]
  exact h ((g.fewer_clearEip mfile num).peek hp)

variable {ι : Type} [DecidableEq ι] {mfile : Bool} {c : ImsicConfig ι}

/-- A hart that is about to clear the line is right to do so, or a remote set has still to raise
it. -/
def ClearsTruly (mfile : Bool) (c : ImsicConfig ι) (l : ι × Act ImsicOp) : Prop :=
  l.2 = .next → ∀ rest, c.proc l.1 = .andMip :: rest →
    imsicTopeiPeek (c.shared.file mfile) = 0 ∨ Outstanding Micro.Raises c

/-- The run consists of remote sets and of the owner's operations on the line. -/
def StartsOnLine (_ : ImsicConfig ι) (l : ι × Act ImsicOp) : Prop := ∀ op, l.2 = .start op → op.OnLine

/-- An interrupt that does not show will be shown. -/
structure LineInv (mfile : Bool) (c : ImsicConfig ι) : Prop where
  confined : Confined Micro.OnLine c
  covered : Covered (fun g => ¬ LineFollows mfile g) Micro.Raises c

theorem LineInv.step (hc : LineInv mfile c) (l : ι × Act ImsicOp)
    (h : StartsOnLine c l ∧ ClearsTruly mfile c l) : LineInv mfile (imsicMachine mfile c l) := by
  obtain ⟨i, a⟩ := l
  obtain ⟨hop, ht⟩ := h
  refine ⟨hc.confined.step a (fun op ha => (hop op ha).steps) (fun m hm => hm.exec), ?_⟩
  apply Covered.step hc.covered a
  intro m rest ha hi howed
  have hm : m.OnLine := hc.confined i m (hi ▸ List.mem_cons_self)
  have peeks : (m.exec mfile c.shared).1 = c.shared → ¬ m.Raises →
      Outstanding (fun m' => m'.Raises ∧ m' ≠ m) c := by
    intro hsame hnot
    rw [hsame] at howed
    exact hc.covered.other howed hnot
  cases m with
  | orEip num => exact .inl ⟨.orAny, List.mem_singleton_self _, trivial⟩
  | orAny => exact .inl ⟨.orMip, List.mem_singleton_self _, trivial⟩
  | orMip => exact absurd (fun _ => getLsbD_or_line mfile _) howed
  | andMip =>
    rcases ht ha rest hi with hz | ⟨j, m', hm', hr⟩
    · refine absurd (fun hp => ?_) howed
      rw [file_exec rfl] at hp
      exact absurd hz hp
    · refine .inr ⟨j, m', hm', hr, ?_⟩
      rintro rfl
      exact hr
  | clrEip num => exact .inr (hc.covered.other (fun h => howed h.of_clear) id)
  | peekSync => exact .inr (peeks (Micro.exec_peek (.inl rfl)).1 id)
  | peekClear => exact .inr (peeks (Micro.exec_peek (.inr (.inl rfl))).1 id)
  | loadMip => exact .inr (peeks (Micro.exec_peek (.inr (.inr (.inl rfl)))).1 id)
  | peekCleanup => exact .inr (peeks (Micro.exec_peek (.inr (.inr (.inr rfl)))).1 id)
  | ack | dropEip | raiseEip | storeEip | scan | storeAny => cases hm
  | topei | topeiAny | topeiScan | claim => cases hm

/-- For every interleaving of remote sets with the owner's operations: once all have completed, a
deliverable interrupt shows in `mip`. -/
theorem line_never_lags (mfile : Bool) (c : ImsicConfig ι) (run : List (ι × Act ImsicOp))
    (hq : Quiet c) (h0 : LineFollows mfile c.shared)
    (hrun : Run.Along (imsicMachine mfile) (fun c l => StartsOnLine c l ∧ ClearsTruly mfile c l) c run) :
    Run.Always (imsicMachine mfile) (fun c => Quiet c → LineFollows mfile c.shared) c run := by
  have hinv : LineInv mfile c := by
    refine ⟨fun i m hm => ?_, fun h => absurd h0 h⟩
    rw [hq i] at hm
    cases hm
  exact Run.always_of_invariant (fun _ l h hl => h.step l hl)
    (fun c h hq => not_not.mp (h.covered.quiet hq)) hinv hrun

omit [DecidableEq ι] in
theorem clearsTruly_of_head {l : ι × Act ImsicOp} (h : (c.proc l.1).head? ≠ some .andMip) :
    ClearsTruly mfile c l := by
  intro _ rest hl
  rw [hl] at h
  exact absurd rfl h

omit [DecidableEq ι] in
theorem startsOnLine_next {i : ι} : StartsOnLine c (i, .next) := by
  intro op h
  cases h

omit [DecidableEq ι] in
theorem startsOnLine_start {i : ι} {op : ImsicOp} (h : op.OnLine) : StartsOnLine c (i, .start op) := by
  intro op' h'
  cases h'
  exact h

/-- MEIP is set and nothing is pending. -/
def staleFile : ImsicShared := { openFile (fun _ => 0) false with
  hart := { (openFile (fun _ => 0) false).hart with mip := bit 11 } }

/-- Hart `true` removes the stale line before hart `false` sets identity 40. -/
theorem set_after_cleanup_shows :
    Run.Always (imsicMachine true) (fun c => Quiet c → LineFollows true c.shared)
      ⟨staleFile, fun _ => []⟩
      [(true, .start .cleanup), (true, .next), (true, .next), (false, .start (.eipSet 40)), (true, .next),
        (false, .next), (false, .next), (false, .next)] :=
  line_never_lags true _ _ (fun _ => rfl) (fun h => absurd (by decide +kernel) h)
    ⟨⟨startsOnLine_start trivial, clearsTruly_of_head (by decide +kernel)⟩,
      ⟨startsOnLine_next, clearsTruly_of_head (by decide +kernel)⟩,
      ⟨startsOnLine_next, clearsTruly_of_head (by decide +kernel)⟩,
      ⟨startsOnLine_start trivial, clearsTruly_of_head (by decide +kernel)⟩,
      ⟨startsOnLine_next, fun _ _ _ => .inl (by decide +kernel)⟩,
      ⟨startsOnLine_next, clearsTruly_of_head (by decide +kernel)⟩,
      ⟨startsOnLine_next, clearsTruly_of_head (by decide +kernel)⟩,
      ⟨startsOnLine_next, clearsTruly_of_head (by decide +kernel)⟩, trivial⟩

/-- Hart `false` sets identity 40 between the peek and the `fetch_and` of the cleanup. -/
theorem set_in_cleanup_lags :
    ¬ Run.Always (imsicMachine true) (fun c => Quiet c → LineFollows true c.shared)
      ⟨staleFile, fun _ => []⟩
      [(true, .start .cleanup), (true, .next), (true, .next), (false, .start (.eipSet 40)), (false, .next),
        (false, .next), (false, .next), (true, .next)] := by
  intro h
  have hline := h.last (by unfold Quiet; decide +kernel) (by decide +kernel)
  exact absurd hline (by decide +kernel)

end Line

end Pyremu
