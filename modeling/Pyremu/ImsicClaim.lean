import Pyremu.ImsicRaces

/-!
# The claim of an identity

A hart executes CSR instructions on MTOPEI or STOPEI while others set pending
bits of the same file. `csr_read` claims the identity it reports and
`handle_csr` claims it once more, so a set that comes between the two is in
danger.
-/

namespace Pyremu

open Interleave Backlog

/-! ## Pending bits -/

/-- The pending bit of identity `n`. -/
def ImsicFile.Pending (f : ImsicFile) (n : BitVec 32) : Prop :=
  (f.eip (eipWordOf n)).getLsbD (n &&& 31).toNat = true

section Pending

theorem toNat_and_31 (n : BitVec 32) : (n &&& 31).toNat = n.toNat % 32 := by
  rw [BitVec.toNat_and]
  exact Nat.and_two_pow_sub_one_eq_mod n.toNat 5

theorem eipWordOf_eq (n : BitVec 32) : eipWordOf n = n.toNat / 32 := by
  rw [eipWordOf, BitVec.toNat_ushiftRight, Nat.shiftRight_eq_div_pow]

theorem getLsbD_eipBitAt (n : BitVec 32) (k : Nat) :
    (eipBitAt n).getLsbD k = decide (k = (n &&& 31).toNat) := by
  have hlt : (n &&& 31).toNat < 32 := by
    rw [toNat_and_31]
    omega
  rw [eipBitAt, BitVec.shiftLeft_eq', BitVec.getLsbD_shiftLeft, BitVec.getLsbD_one]
  generalize (n &&& 31).toNat = b at hlt ⊢
  by_cases hk : k = b
  · subst hk
    simp [hlt]
  · rw [decide_eq_false hk]
    by_cases hk' : k < b
    · simp [hk']
    · have : k - b ≠ 0 := by omega
      simp [this]

/-- Two identities with the same bit are the same. -/
theorem eq_of_same_bit {m n : BitVec 32} (hw : eipWordOf m = eipWordOf n)
    (hb : (m &&& 31).toNat = (n &&& 31).toNat) : m = n := by
  rw [eipWordOf_eq, eipWordOf_eq] at hw
  rw [toNat_and_31, toNat_and_31] at hb
  apply BitVec.eq_of_toNat_eq
  omega

variable {mfile : Bool} {g : ImsicShared} {m n : BitVec 32}

theorem pending_setEip (h : m = n ∨ (g.file mfile).Pending m) : ((g.setEip mfile n).file mfile).Pending m := by
  rw [ImsicShared.file_setEip, ImsicFile.Pending]
  by_cases hw : eipWordOf m = eipWordOf n
  · simp only [hw, Function.update_self, BitVec.getLsbD_or, Bool.or_eq_true, getLsbD_eipBitAt,
      decide_eq_true_eq]
    rcases h with rfl | h
    · exact .inr rfl
    · left
      rw [← hw]
      exact h
  · simp only [Function.update_of_ne hw]
    rcases h with rfl | h
    · exact absurd rfl hw
    · exact h

theorem pending_clearEip (hne : m ≠ n) (h : (g.file mfile).Pending m) :
    ((g.clearEip mfile n).file mfile).Pending m := by
  rw [ImsicShared.file_clearEip, ImsicFile.Pending]
  by_cases hw : eipWordOf m = eipWordOf n
  · have hb : (m &&& 31).toNat ≠ (n &&& 31).toNat := fun hb => hne (eq_of_same_bit hw hb)
    have hlt : (m &&& 31).toNat < 32 := by
      rw [toNat_and_31]
      omega
    simp only [hw, Function.update_self, BitVec.getLsbD_and, BitVec.getLsbD_not, getLsbD_eipBitAt,
      decide_eq_false hb, decide_eq_true hlt, Bool.not_false, Bool.and_true]
    rw [← hw]
    exact h
  · simp only [Function.update_of_ne hw]
    exact h

end Pending

/-! ## A hart that claims, and harts that set -/

/-- The accesses of a CSR instruction while it looks for the identity to report. -/
def Looking (l : List Micro) : Prop := l = [.topei] ∨ l = [.topeiAny] ∨ ∃ i, l = [.topeiScan i]

/-- The accesses of a CSR instruction once it has reported an identity. Only the claim of
`csr_read` finds something to clear. -/
def Micro.Acknowledges (g : ImsicShared) : Micro → Prop
  | .claim iid _ => g.reported = some iid
  | .dropEip iid first => g.reported = some iid ∧ first = true
  | .orMip | .andMip | .ack _ | .scan _ | .storeAny _ | .peekSync => True
  | _ => False

theorem Micro.Acknowledges.of_reported {g g' : ImsicShared} {m : Micro} (h : m.Acknowledges g)
    (hr : g'.reported = g.reported) : m.Acknowledges g' := by
  cases m with
  | claim iid first => exact hr.trans h
  | dropEip iid first => exact ⟨hr.trans h.1, h.2⟩
  | _ => exact h

/-- The accesses of `imsic_eip_set`. -/
def Micro.Sets : Micro → Prop
  | .orEip _ | .orAny | .orMip => True
  | _ => False

variable {ι : Type} [DecidableEq ι] {mfile : Bool} {o : ι} {c : ImsicConfig ι}

/-- Hart `o` executes CSR instructions on MTOPEI or STOPEI, the others `imsic_eip_set`. -/
def ClaimsAndSets (o : ι) (_ : ImsicConfig ι) (l : ι × Act ImsicOp) : Prop :=
  ∀ op, l.2 = .start op → if l.1 = o then op = .topei else ∃ num, op = .eipSet num

/-- The claim that `handle_csr` makes after that of `csr_read` finds nothing to clear. -/
def SecondFindsNothing (mfile : Bool) (o : ι) (c : ImsicConfig ι) (l : ι × Act ImsicOp) : Prop :=
  l = (o, .next) → ∀ iid rest, c.proc o = .claim iid false :: rest → c.shared.claimable mfile iid = false

/-- The occurrences of the reported identity since its claim are pending. -/
def LateKept (mfile : Bool) (g : ImsicShared) : Prop :=
  ∀ n ∈ g.late, g.reported = some n → (g.file mfile).Pending n

structure ClaimInv (mfile : Bool) (o : ι) (c : ImsicConfig ι) : Prop where
  remote : ∀ i, i ≠ o → ∀ m ∈ c.proc i, m.Sets
  owner : Looking (c.proc o) ∨ ∀ m ∈ c.proc o, m.Acknowledges c.shared
  late : LateKept mfile c.shared

theorem report_acknowledges (g : ImsicShared) (raw : Word) :
    ∀ m ∈ (g.report raw).2, m.Acknowledges (g.report raw).1 := by
  intro m hm
  simp only [ImsicShared.report] at hm
  split_ifs at hm
  · simp only [List.mem_cons, List.not_mem_nil, or_false] at hm
    rcases hm with rfl | rfl | rfl | rfl | rfl <;> trivial
  · simp only [List.mem_cons, List.not_mem_nil, or_false] at hm
    rcases hm with rfl | rfl | rfl <;> trivial

/-- While it looks, an instruction changes nothing until it reports. -/
theorem looking_exec {g : ImsicShared} {m : Micro} (h : Looking [m]) :
    ((m.exec mfile g).1 = g ∧ Looking (m.exec mfile g).2) ∨ ∃ raw, m.exec mfile g = g.report raw := by
  rcases h with h | h | ⟨i, h⟩
  · cases h
    simp only [Micro.exec]
    split_ifs
    · exact .inr ⟨_, rfl⟩
    · exact .inl ⟨rfl, .inr (.inl rfl)⟩
  · cases h
    simp only [Micro.exec]
    split_ifs
    · exact .inr ⟨_, rfl⟩
    · exact .inl ⟨rfl, .inr (.inr ⟨_, rfl⟩)⟩
  · cases h
    simp only [Micro.exec]
    cases topeiWord (g.file mfile) i with
    | some raw => exact .inr ⟨raw, rfl⟩
    | none =>
      simp only []
      split_ifs
      · exact .inr ⟨_, rfl⟩
      · exact .inl ⟨rfl, .inr (.inr ⟨_, rfl⟩)⟩

/-- What an access must leave alone. -/
structure Spares (mfile : Bool) (g g' : ImsicShared) : Prop where
  late : LateKept mfile g → LateKept mfile g'
  others : ∀ n, g.reported ≠ some n → (g.file mfile).Pending n → (g'.file mfile).Pending n

theorem Spares.of_eip {g g' : ImsicShared} (hr : g'.reported = g.reported) (hl : g'.late = g.late)
    (he : (g'.file mfile).eip = (g.file mfile).eip) : Spares mfile g g' := by
  have hp : ∀ n, (g'.file mfile).Pending n ↔ (g.file mfile).Pending n := by
    intro n
    rw [ImsicFile.Pending, ImsicFile.Pending, he]
  refine ⟨fun h n hn hrep => ?_, fun n _ hn => (hp n).mpr hn⟩
  rw [hl] at hn
  rw [hr] at hrep
  exact (hp n).mpr (h n hn hrep)

theorem sets_exec {g : ImsicShared} {m : Micro} (h : m.Sets) :
    (m.exec mfile g).1.reported = g.reported ∧ (∀ m' ∈ (m.exec mfile g).2, m'.Sets) ∧
      Spares mfile g (m.exec mfile g).1 := by
  cases m with
  | orEip num =>
    refine ⟨rfl, fun m' hm' => ?_, fun hk n hn hrep => ?_, fun n _ hn => pending_setEip (.inr hn)⟩
    · cases List.mem_singleton.mp hm'
      trivial
    · apply pending_setEip (g := g)
      rcases List.mem_append.mp hn with hn | hn
      · exact .inr (hk n hn hrep)
      · exact .inl (List.mem_singleton.mp hn)
  | orAny =>
    refine ⟨rfl, fun m' hm' => ?_, .of_eip rfl rfl ?_⟩
    · cases List.mem_singleton.mp hm'
      trivial
    · simp only [Micro.exec, ImsicShared.file_putFile]
  | orMip =>
    refine ⟨rfl, fun m' hm' => ?_, .of_eip rfl rfl ?_⟩
    · cases hm'
    · rw [file_exec rfl]
  | _ => cases h

theorem acknowledges_exec {g : ImsicShared} {m : Micro} (h : m.Acknowledges g)
    (hc : ∀ iid, m = .claim iid false → g.claimable mfile iid = false) :
    (m.exec mfile g).1.reported = g.reported ∧ (∀ m' ∈ (m.exec mfile g).2, m'.Acknowledges g) ∧
      Spares mfile g (m.exec mfile g).1 := by
  cases m with
  | claim iid first =>
    simp only [Micro.exec]
    split_ifs with hcl
    · refine ⟨rfl, fun m' hm' => ?_, .of_eip rfl rfl rfl⟩
      cases List.mem_singleton.mp hm'
      refine ⟨h, ?_⟩
      cases first with
      | true => rfl
      | false =>
        rw [hc iid rfl] at hcl
        cases hcl
    · refine ⟨rfl, fun m' hm' => ?_, .of_eip rfl rfl rfl⟩
      cases hm'
  | dropEip iid first =>
    obtain ⟨hrep, rfl⟩ := h
    refine ⟨rfl, fun m' hm' => ?_, fun _ n hn => ?_, fun n hne hn => ?_⟩
    · cases List.mem_singleton.mp hm'
      trivial
    · cases hn
    · refine pending_clearEip (g := g) ?_ hn
      rintro rfl
      exact hne hrep
  | orMip | andMip | ack iid =>
    refine ⟨rfl, fun m' hm' => ?_, .of_eip rfl rfl ?_⟩
    · cases hm'
    · rw [file_exec rfl]
  | scan i =>
    simp only [Micro.exec]
    split_ifs
    all_goals
      refine ⟨rfl, fun m' hm' => ?_, .of_eip rfl rfl rfl⟩
      cases List.mem_singleton.mp hm'
      trivial
  | storeAny any =>
    refine ⟨rfl, fun m' hm' => ?_, .of_eip rfl rfl ?_⟩
    · cases hm'
    · simp only [Micro.exec, ImsicShared.file_putFile]
  | peekSync =>
    simp only [Micro.exec]
    split_ifs
    all_goals
      refine ⟨rfl, fun m' hm' => ?_, .of_eip rfl rfl rfl⟩
      cases hm' <;> trivial
  | _ => cases h

section Exec

variable {i : ι} {m : Micro} {rest : List Micro}

/-- What the other harts still have to do is not touched by an access of the owner. -/
theorem ClaimInv.remote_update (hc : ClaimInv mfile o c) (l : List Micro) :
    ∀ j, j ≠ o → ∀ m' ∈ Function.update c.proc o l j, m'.Sets := by
  intro j hj m' hm'
  rw [Function.update_of_ne hj] at hm'
  exact hc.remote j hj m' hm'

/-- An access of an instruction that still looks for the identity to report. -/
theorem ClaimInv.exec_looking (hc : ClaimInv mfile o c) (hm : Looking [m]) :
    ClaimInv mfile o ⟨(m.exec mfile c.shared).1,
        Function.update c.proc o (m.exec mfile c.shared).2⟩ ∧
      Spares mfile c.shared (m.exec mfile c.shared).1 := by
  rcases looking_exec hm with ⟨hsame, hnext⟩ | ⟨raw, hrep⟩
  · refine ⟨⟨hc.remote_update _, .inl ?_, ?_⟩, ?_⟩
    · simpa only [Function.update_self] using hnext
    · rw [hsame]
      exact hc.late
    · rw [hsame]
      exact .of_eip rfl rfl rfl
  · refine ⟨⟨hc.remote_update _, .inr ?_, ?_⟩, ?_⟩
    · simp only [Function.update_self, hrep]
      exact report_acknowledges _ raw
    · rw [hrep]
      intro n hn
      cases hn
    · rw [hrep]
      refine ⟨fun _ n hn => ?_, fun n _ hn => hn⟩
      cases hn

/-- An access of an instruction that has reported. -/
theorem ClaimInv.exec_acknowledging (hc : ClaimInv mfile o c)
    (hall : ∀ m' ∈ m :: rest, m'.Acknowledges c.shared)
    (hs : ∀ iid, m = .claim iid false → c.shared.claimable mfile iid = false) :
    ClaimInv mfile o ⟨(m.exec mfile c.shared).1,
        Function.update c.proc o ((m.exec mfile c.shared).2 ++ rest)⟩ ∧
      Spares mfile c.shared (m.exec mfile c.shared).1 := by
  obtain ⟨hrep, hnext, hsp⟩ := acknowledges_exec (hall m List.mem_cons_self) hs
  refine ⟨⟨hc.remote_update _, .inr ?_, hsp.late hc.late⟩, hsp⟩
  simp only [Function.update_self]
  intro m' hm'
  have hold : m'.Acknowledges c.shared := by
    rcases List.mem_append.mp hm' with hm' | hm'
    · exact hnext m' hm'
    · exact hall m' (List.mem_cons_of_mem m hm')
  exact hold.of_reported hrep

/-- An access of a hart that sets. -/
theorem ClaimInv.exec_remote (hc : ClaimInv mfile o c) (hi : c.proc i = m :: rest) (hio : i ≠ o) :
    ClaimInv mfile o ⟨(m.exec mfile c.shared).1,
        Function.update c.proc i ((m.exec mfile c.shared).2 ++ rest)⟩ ∧
      Spares mfile c.shared (m.exec mfile c.shared).1 := by
  have hall : ∀ m' ∈ m :: rest, m'.Sets := fun m' hm' => hc.remote i hio m' (hi ▸ hm')
  obtain ⟨hrep, hnext, hsp⟩ := sets_exec (hall m List.mem_cons_self)
  refine ⟨⟨fun j hj m' hm' => ?_, ?_, hsp.late hc.late⟩, hsp⟩
  · by_cases hji : j = i
    · subst hji
      simp only [Function.update_self] at hm'
      rcases List.mem_append.mp hm' with hm' | hm'
      · exact hnext m' hm'
      · exact hall m' (List.mem_cons_of_mem m hm')
    · simp only [Function.update_of_ne hji] at hm'
      exact hc.remote j hj m' hm'
  · simp only [Function.update_of_ne (Ne.symm hio)]
    exact hc.owner.imp_right fun h m' hm' => (h m' hm').of_reported hrep

theorem Looking.singleton (h : Looking (m :: rest)) : rest = [] ∧ Looking [m] := by
  rcases h with h | h | ⟨k, h⟩
  · cases h
    exact ⟨rfl, .inl rfl⟩
  · cases h
    exact ⟨rfl, .inr (.inl rfl)⟩
  · cases h
    exact ⟨rfl, .inr (.inr ⟨k, rfl⟩)⟩

/-- One access of any hart. -/
theorem ClaimInv.exec (hc : ClaimInv mfile o c) (hi : c.proc i = m :: rest)
    (hs : i = o → ∀ iid, m = .claim iid false → c.shared.claimable mfile iid = false) :
    ClaimInv mfile o ⟨(m.exec mfile c.shared).1,
        Function.update c.proc i ((m.exec mfile c.shared).2 ++ rest)⟩ ∧
      Spares mfile c.shared (m.exec mfile c.shared).1 := by
  by_cases hio : i = o
  · subst hio
    rcases hc.owner with hlook | hack
    · rw [hi] at hlook
      obtain ⟨rfl, hm⟩ := hlook.singleton
      rw [List.append_nil]
      exact hc.exec_looking hm
    · exact hc.exec_acknowledging (fun m' hm' => hack m' (hi ▸ hm')) (hs rfl)
  · exact hc.exec_remote hi hio

end Exec

theorem ClaimInv.step (hc : ClaimInv mfile o c) (l : ι × Act ImsicOp)
    (h : ClaimsAndSets o c l ∧ SecondFindsNothing mfile o c l) :
    ClaimInv mfile o (imsicMachine mfile c l) ∧ Spares mfile c.shared (imsicMachine mfile c l).shared := by
  obtain ⟨i, a⟩ := l
  obtain ⟨hop, hsecond⟩ := h
  have hsame : ClaimInv mfile o c ∧ Spares mfile c.shared c.shared := ⟨hc, .of_eip rfl rfl rfl⟩
  refine machine_cases (P := fun c' => ClaimInv mfile o c' ∧ Spares mfile c.shared c'.shared) hsame a ?_ ?_
  · intro op ha hi
    refine ⟨⟨fun j hj m hm => ?_, ?_, hc.late⟩, .of_eip rfl rfl rfl⟩
    · by_cases hji : j = i
      · subst hji
        have hset := hop op ha
        rw [if_neg hj] at hset
        obtain ⟨num, rfl⟩ := hset
        simp only [Function.update_self, ImsicOp.steps] at hm
        split_ifs at hm
        · cases hm
        · cases List.mem_singleton.mp hm
          trivial
      · simp only [Function.update_of_ne hji] at hm
        exact hc.remote j hj m hm
    · by_cases hio : o = i
      · subst hio
        have htopei := hop op ha
        rw [if_pos rfl] at htopei
        subst htopei
        simp only [Function.update_self]
        exact .inl (.inl rfl)
      · simp only [Function.update_of_ne hio]
        exact hc.owner
  · intro m rest ha hi
    apply hc.exec hi
    rintro rfl iid rfl
    subst ha
    exact hsecond rfl iid rest hi

/-- For every interleaving of CSR instructions on MTOPEI or STOPEI with remote sets: when an
instruction has finished, every set of the reported identity since its claim is pending, and no
access clears another identity. -/
theorem claim_spares_late_sets (mfile : Bool) (o : ι) (c : ImsicConfig ι) (run : List (ι × Act ImsicOp))
    (hq : Quiet c) (h0 : c.shared.reported = none)
    (hrun : Run.Along (imsicMachine mfile)
      (fun c l => ClaimsAndSets o c l ∧ SecondFindsNothing mfile o c l) c run) :
    Run.Always (imsicMachine mfile) (fun c => c.proc o = [] → LateKept mfile c.shared) c run ∧
      Run.Along (imsicMachine mfile) (fun c l => ∀ n, c.shared.reported ≠ some n →
        (c.shared.file mfile).Pending n → ((imsicMachine mfile c l).shared.file mfile).Pending n) c run := by
  have hinv : ClaimInv mfile o c := by
    refine ⟨fun i _ m hm => ?_, .inr fun m hm => ?_, fun n _ hn => ?_⟩
    · rw [hq i] at hm
      cases hm
    · rw [hq o] at hm
      cases hm
    · rw [h0] at hn
      cases hn
  exact ⟨Run.always_of_invariant (fun _ l h hl => (h.step l hl).1) (fun _ h _ => h.late) hinv hrun,
    Run.along_of_promised (fun _ l h hl => (h.step l hl).1) (fun _ l h hl => (h.step l hl).2.others) hinv hrun⟩

omit [DecidableEq ι] in
theorem secondFindsNothing_of_head {l : ι × Act ImsicOp} {m : Micro} (hm : (c.proc o).head? = some m)
    (h : ∀ iid, m = .claim iid false → c.shared.claimable mfile iid = false) :
    SecondFindsNothing mfile o c l := by
  intro _ iid rest hl
  rw [hl] at hm
  exact h iid (Option.some.inj hm).symm

theorem claimsAndSets_next {i : ι} : ClaimsAndSets o c (i, .next) := by
  intro op h
  cases h

/-- Identities 1 and 5 are pending, hart `true` reads MTOPEI, and hart `false` sets identity 1
again after the second claim. -/
theorem set_after_second_claim_kept :
    Run.Always (imsicMachine true) (fun c => c.proc true = [] → LateKept true c.shared)
        ⟨openFile (fun i => if i = 0 then 34 else 0) true, fun _ => []⟩
        [(true, .start .topei), (true, .next), (true, .next), (true, .next), (true, .next), (true, .next),
          (true, .next), (true, .next), (true, .next), (false, .start (.eipSet 1)), (false, .next)] ∧
      Run.Along (imsicMachine true) (fun c l => ∀ n, c.shared.reported ≠ some n →
          (c.shared.file true).Pending n → ((imsicMachine true c l).shared.file true).Pending n)
        ⟨openFile (fun i => if i = 0 then 34 else 0) true, fun _ => []⟩
        [(true, .start .topei), (true, .next), (true, .next), (true, .next), (true, .next), (true, .next),
          (true, .next), (true, .next), (true, .next), (false, .start (.eipSet 1)), (false, .next)] := by
  refine claim_spares_late_sets true true _ _ (fun _ => rfl) rfl
    ⟨⟨?_, ?_⟩, ⟨claimsAndSets_next, secondFindsNothing_of_head (m := .topei) (by decide +kernel) ?_⟩,
      ⟨claimsAndSets_next, secondFindsNothing_of_head (m := .claim 1 true) (by decide +kernel) ?_⟩,
      ⟨claimsAndSets_next, secondFindsNothing_of_head (m := .dropEip 1 true) (by decide +kernel) ?_⟩,
      ⟨claimsAndSets_next, secondFindsNothing_of_head (m := .scan 0) (by decide +kernel) ?_⟩,
      ⟨claimsAndSets_next, secondFindsNothing_of_head (m := .storeAny true) (by decide +kernel) ?_⟩,
      ⟨claimsAndSets_next, secondFindsNothing_of_head (m := .peekSync) (by decide +kernel) ?_⟩,
      ⟨claimsAndSets_next, secondFindsNothing_of_head (m := .orMip) (by decide +kernel) ?_⟩,
      ⟨claimsAndSets_next, secondFindsNothing_of_head (m := .claim 1 false) (by decide +kernel) ?_⟩,
      ⟨?_, ?_⟩, ⟨claimsAndSets_next, ?_⟩, trivial⟩
  · intro op h
    cases h
    rfl
  · intro h
    cases h
  · intro iid h
    cases h
  · intro iid h
    cases h
  · intro iid h
    cases h
  · intro iid h
    cases h
  · intro iid h
    cases h
  · intro iid h
    cases h
  · intro iid h
    cases h
  · intro iid h
    cases h
    decide +kernel
  · intro op h
    cases h
    exact ⟨1, rfl⟩
  · intro h
    cases h
  · intro h
    cases h

/-- Identities 1 and 5 are pending; hart `true` reads MTOPEI, and hart `false` sets identity 1
again as soon as its bit has been cleared. -/
def lostRun : List (Bool × Act ImsicOp) :=
  [(true, .start .topei), (true, .next), (true, .next), (true, .next),
    (false, .start (.eipSet 1)), (false, .next), (false, .next), (false, .next)] ++
  List.replicate 11 (true, .next)

/-- The second claim has cleared the new occurrence. -/
theorem late_set_cleared :
    ¬ Run.Always (imsicMachine true) (fun c => c.proc true = [] → LateKept true c.shared)
      ⟨openFile (fun i => if i = 0 then 34 else 0) true, fun _ => []⟩ lostRun := by
  intro h
  have hkept := h.last (by decide +kernel) 1 (by decide +kernel) (by decide +kernel)
  exact absurd hkept (by unfold ImsicFile.Pending; decide +kernel)

end Pyremu
