import Pyremu.PmpExact

/-!
# Accesses that a PMP region contains in part

The entry that decides is the first one that touches the access, and it denies
what it does not contain. `pmp_check` passes over an entry that does not contain
the access, so that a later one may grant what straddles an edge.
-/

namespace Pyremu

open FirstMatch

namespace PmpCtx

variable (p : PmpCtx) (pa : Word) (size : Nat)

/-- The exact region of entry `i` contains a byte of the access. -/
def Touches (i : Nat) : Prop :=
  ∃ b, p.bounds (2 ^ 64) i = some b ∧ ∃ k < size, b.1 ≤ pa.toNat + k ∧ pa.toNat + k < b.2

/-- Entry `i` is looked at: it is in the table and, in an enclave, not below the split. -/
def Visible (pmpsplit : BitVec 8) (mdid : Word) (i : Nat) : Prop :=
  i < p.num.toNat ∧ (mdid ≠ hostMdid ∧ 0#8 < pmpsplit → pmpsplit.toNat ≤ i)

/-- Entry `i` is the first visible one that touches the access, and does not contain all of it. -/
structure PartlyMatches (pmpsplit : BitVec 8) (mdid : Word) (i : Nat) : Prop where
  visible : p.Visible pmpsplit mdid i
  touches : p.Touches pa size i
  partly : ¬ p.Encloses pa size i
  first : ∀ j < i, p.Visible pmpsplit mdid j → ¬ p.Touches pa size j

/-- The permission bits of entry `i` allow the access. -/
def Permits (isWrite isExecute : Bool) (i : Nat) : Prop :=
  p.cfg i &&& Pmp.R ≠ 0 ∧ (isWrite = true → p.cfg i &&& Pmp.W ≠ 0) ∧
    (isExecute = true → p.cfg i &&& Pmp.X ≠ 0)

/-- The first visible entry to contain the access, with bounds modulo `2^64`, allows it. -/
def GrantsMod (isWrite isExecute : Bool) (pmpsplit : BitVec 8) (mdid : Word) : Prop :=
  ∃ i, p.Visible pmpsplit mdid i ∧ p.Permits isWrite isExecute i ∧ p.EnclosesMod pa size i ∧
    ∀ j < i, p.Visible pmpsplit mdid j → ¬ p.EnclosesMod pa size j

variable {p pa size} {isWrite isExecute : Bool} {mode : Mode} {mstatus : Word} {pmpsplit : BitVec 8} {mdid : Word}

theorem visible_iff {i : Nat} :
    p.Visible pmpsplit mdid i ↔ i < p.num.toNat ∧ enclaveSkip pmpsplit mdid ≤ i := by
  rw [Visible, le_enclaveSkip]

theorem grantsMod_iff : p.GrantsMod pa size isWrite isExecute pmpsplit mdid ↔
    First (p.verdictBy (p.EnclosesMod pa size) (enclaveSkip pmpsplit mdid) isWrite isExecute)
      p.num.toNat true := by
  simp only [GrantsMod, First, visible_iff, verdictBy_eq_some, verdictBy_eq_none, checkPerm_iff, ← Permits.eq_def]
  constructor
  · rintro ⟨i, ⟨hn, hi⟩, hp, he, hfirst⟩
    exact ⟨i, hn, ⟨hi, he, hp⟩, fun j hj hv => hfirst j hj ⟨hj.trans hn, hv⟩⟩
  · rintro ⟨i, hn, ⟨hi, he, hp⟩, hfirst⟩
    exact ⟨i, ⟨hn, hi⟩, hp, he, fun j hj hv => hfirst j hj hv.2⟩

/-- Below M: what a region contains in part is denied, unless the first entry to contain all of it
allows it. -/
theorem partial_match_denied_iff (he : pmpEffMode mode mstatus ≠ .M) (hs : 0 < size) (hs' : size ≤ 8) :
    (∀ i, p.PartlyMatches pa size pmpsplit mdid i →
        pmpCheck p pa size isWrite isExecute mode mstatus pmpsplit mdid = false) ↔
      ((∃ i, p.PartlyMatches pa size pmpsplit mdid i) → ¬ p.GrantsMod pa size isWrite isExecute pmpsplit mdid) := by
  rw [grantsMod_iff, ← pmpCheck_iff he hs hs', Bool.not_eq_true]
  constructor
  · rintro h ⟨i, hi⟩
    exact h i hi
  · intro h i hi
    exact h ⟨i, hi⟩

/-- NA4 without rights at 0x1000, below a region over everything with all rights. -/
def guardedWord : PmpCtx :=
  ⟨fun i => if i = 0 then Pmp.aNa4 else 0x1F, fun i => if i = 0 then 0x400 else BitVec.allOnes 64, 2⟩

theorem guardedWord_partly : guardedWord.PartlyMatches 0xFFE 4 0 0 0 := by
  apply PartlyMatches.mk
  · exact ⟨by decide, fun h => absurd h.1 (by decide)⟩
  · exact ⟨(0x1000, 0x1004), by decide, 2, by decide, by decide, by decide⟩
  · decide
  · exact fun j hj => absurd hj (Nat.not_lt_zero j)

/-- A read that runs into the guarded word is granted by the region behind it. -/
theorem straddling_read_granted :
    ¬ ∀ i, guardedWord.PartlyMatches 0xFFE 4 0 0 i → pmpCheck guardedWord 0xFFE 4 false false .S 0 0 0 = false := by
  intro h
  exact absurd (h 0 guardedWord_partly) (by decide)

/-- Without the region behind it the same read is denied. -/
theorem straddling_read_denied :
    ¬ ({ guardedWord with num := 1 }).GrantsMod 0xFFE 4 false false 0 0 ∧
      ∀ i, ({ guardedWord with num := 1 }).PartlyMatches 0xFFE 4 0 0 i →
        pmpCheck { guardedWord with num := 1 } 0xFFE 4 false false .S 0 0 0 = false := by
  have hdenied : ¬ ({ guardedWord with num := 1 }).GrantsMod 0xFFE 4 false false 0 0 := by
    rintro ⟨i, ⟨hi, -⟩, -, henc, -⟩
    have hno : ∀ i < 1, ¬ ({ guardedWord with num := 1 }).EnclosesMod 0xFFE 4 i := by decide
    exact hno i hi henc
  refine ⟨hdenied, ?_⟩
  exact (partial_match_denied_iff (by decide) (by decide) (by decide)).mpr fun _ => hdenied

/-! ## Tables whose bounds do not wrap -/

end PmpCtx

end Pyremu
