import Pyremu.Csr
import Pyremu.Lib.Run

/-!
# Writes of `mip` beside remote interrupts

`csr_write` loads `mip`, merges the written value and stores the result; other
harts set bits of the same word with `fetch_or` at any time. The ghost `owed`
collects the bits that were delivered and that no write has been entitled to
change since.
-/

namespace Pyremu

/-- The two registers through which software reaches `mip`. -/
inductive MipCsr where
  | mip | sip
  deriving DecidableEq, Repr

namespace MipCsr

/-- The bits a write leaves as they are. -/
def kept : MipCsr → Word
  | .mip => bit 3 ||| bit 7 ||| bit 9 ||| bit 11
  | .sip => ~~~(bit 1)

def reg : MipCsr → CsrReg
  | .mip => .mip
  | .sip => .sip

end MipCsr

/-- A write between its load and its store. -/
structure MipMerge where
  csr : MipCsr
  val : Word
  loaded : Word

structure MipRace where
  mip : Word
  merge : Option MipMerge
  owed : Word

/-- The two steps of the hart itself, and the `fetch_or` of any other hart. -/
inductive MipAct where
  | load (csr : MipCsr) (val : Word)
  | store
  | deliver (k : Nat)

namespace MipRace

def step (s : MipRace) : MipAct → MipRace
  | .load csr val =>
    match s.merge with
    | none => { s with merge := some ⟨csr, val, s.mip⟩ }
    | some _ => s
  | .store =>
    match s.merge with
    | none => s
    | some m =>
      { mip := (m.loaded &&& m.csr.kept) ||| (m.val &&& ~~~m.csr.kept)
        merge := none
        owed := s.owed &&& m.csr.kept }
  | .deliver k => { s with mip := s.mip ||| bit k, owed := s.owed ||| bit k }

/-- With nothing in between, the two steps are `csr_write`. -/
theorem write_alone (cfg : Features) (c : CsrCtx) (csr : MipCsr) (val owed : Word) :
    ([MipAct.load csr val, .store].foldl step ⟨c.state.mip, none, owed⟩).mip =
      (csrWriteReg cfg c csr.reg val).1.state.mip := by
  cases csr with
  | mip => rfl
  | sip =>
    have hbit : ~~~(~~~(bit 1)) = bit 1 := by decide
    simp only [List.foldl_cons, List.foldl_nil, step, MipCsr.kept, hbit]
    rfl

/-- What is owed is pending. -/
def Kept (s : MipRace) : Prop := ∀ i, s.owed.getLsbD i = true → s.mip.getLsbD i = true

/-- The write that is about to store has not missed a bit it keeps. -/
def NothingMissed (s : MipRace) (a : MipAct) : Prop :=
  a = .store → ∀ m, s.merge = some m → ∀ i, m.csr.kept.getLsbD i = true →
    s.mip.getLsbD i = true → m.loaded.getLsbD i = true

/-- Since its load, a write under way has seen no change but delivered bits. -/
def Inv (s : MipRace) : Prop :=
  ∀ m, s.merge = some m → ∀ i, s.mip.getLsbD i = true →
    m.loaded.getLsbD i = true ∨ s.owed.getLsbD i = true

theorem Inv.step {s : MipRace} (h : s.Inv) (a : MipAct) : (s.step a).Inv := by
  intro m hm i hi
  cases a with
  | load csr val =>
    simp only [MipRace.step] at hm hi ⊢
    split at hm <;> simp only [*] at hi ⊢
    · cases hm
      exact .inl hi
    · rename_i m' heq
      exact h m (heq.trans (heq ▸ hm)) i hi
  | store =>
    simp only [MipRace.step] at hm
    split at hm
    · rename_i hnone
      rw [hnone] at hm
      cases hm
    · cases hm
  | deliver k =>
    simp only [MipRace.step, BitVec.getLsbD_or, Bool.or_eq_true] at hm hi ⊢
    rcases hi with hi | hi
    · exact (h m hm i hi).imp_right .inl
    · exact .inr (.inr hi)

theorem kept_step_iff {s : MipRace} (h : s.Inv) (hk : s.Kept) (a : MipAct) :
    (s.step a).Kept ↔ s.NothingMissed a := by
  cases a with
  | load csr val =>
    refine iff_of_true ?_ fun ha => by cases ha
    simp only [step]
    split <;> exact hk
  | deliver k =>
    refine iff_of_true (fun i hi => ?_) fun ha => by cases ha
    simp only [step, BitVec.getLsbD_or, Bool.or_eq_true] at hi ⊢
    exact hi.imp_left (hk i)
  | store =>
    simp only [NothingMissed, true_imp_iff, step]
    cases hm : s.merge with
    | none => exact iff_of_true hk fun m hm' => by cases hm'
    | some m =>
      simp only [Option.some.injEq, forall_eq', Kept, BitVec.getLsbD_and, BitVec.getLsbD_or,
        Bool.and_eq_true, Bool.or_eq_true]
      constructor
      · intro hall i hkept hmip
        rcases h m hm i hmip with hl | ho
        · exact hl
        · rcases hall i ⟨ho, hkept⟩ with hl | hv
          · exact hl.1
          · have hnot := hv.2
            rw [BitVec.getLsbD_not, hkept, Bool.not_true, Bool.and_false] at hnot
            cases hnot
      · rintro hall i ⟨ho, hkept⟩
        exact .inl ⟨hall i hkept (hk i ho), hkept⟩

end MipRace

/-- For every interleaving of writes to `mip` and `sip` with deliveries: every delivered bit that
the writes keep is pending in every state, exactly when no write stores after it has missed such
a bit. -/
theorem mip_write_keeps_iff (s : MipRace) (run : List MipAct) (hm : s.merge = none) (hk : s.Kept) :
    Run.Always MipRace.step MipRace.Kept s run ↔ Run.Along MipRace.step MipRace.NothingMissed s run := by
  have hinv : s.Inv := by
    intro m hm'
    cases hm.symm.trans hm'
  exact Run.always_iff_along (fun _ a h _ => h.step a) (fun _ a h _ hq => MipRace.kept_step_iff h hq a)
    hinv hk Run.along_true

/-- A delivery before the load is kept. -/
theorem delivery_before_load_kept :
    Run.Always MipRace.step MipRace.Kept ⟨0, none, 0⟩ [.deliver 9, .load .sip 0, .store] := by
  refine (mip_write_keeps_iff _ _ rfl fun i hi => ?_).mpr ?_
  · exact hi
  · refine ⟨fun h => ?_, fun h => ?_, fun _ m hm i _ hi => ?_, trivial⟩
    · cases h
    · cases h
    · cases hm
      exact hi

/-- SEIP, delivered between the load and the store of a write to `sip`, is lost. -/
theorem delivery_in_between_lost :
    ¬ Run.Always MipRace.step MipRace.Kept ⟨0, none, 0⟩ [.load .sip 0, .deliver 9, .store] := by
  intro h
  exact absurd (h.last 9 (by decide)) (by decide)

end Pyremu
