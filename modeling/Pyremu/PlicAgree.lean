import Pyremu.PlicPython
import Pyremu.Lib.Bits
import Pyremu.Lib.FirstMatch
import Pyremu.Lib.Run

/-!
# One PLIC, two engines

The engine and the Python device work on the same arrays, in batches that
alternate. Each operation of the one is that of the other, so that a run may
change engines at any point.
-/

namespace Pyremu

namespace PlicPy

variable {p : Plic} {context : Nat}

/-! ## Arbitration -/

/-- The body of the scan, for a source that may not be pending. -/
def look (p : Plic) (context : Nat) (best : Nat × Nat) (i : Nat) : Nat × Nat :=
  if p.pending i then consider p context best i else best

theorem look_idle (best : Nat × Nat) (i : Nat) (h : p.pending i = false) : look p context best i = best := by
  rw [look, h]
  rfl

/-- The skips from one pending source to the next leave out nothing. -/
theorem scan_eq {n start : Nat} (h : limit p + 1 - start ≤ n) (best : Nat × Nat) :
    scan p context n start best = (List.range' start (limit p + 1 - start)).foldl (look p context) best := by
  induction n generalizing start best with
  | zero =>
    rw [Nat.le_zero.mp h]
    rfl
  | succ n ih =>
    rw [scan]
    cases hf : findPending p start with
    | none => exact (FirstMatch.foldl_of_find?_none look_idle hf best).symm
    | some i =>
      obtain ⟨⟨hle, hlt, hi⟩, hfold⟩ := FirstMatch.foldl_of_find?_some (g := look p context) look_idle hf best
      rw [hfold, show start + (limit p + 1 - start) - (i + 1) = limit p + 1 - (i + 1) by omega,
        look, if_pos hi]
      exact ih (by omega) _

theorem enable_bit_iff (e : BitVec 32) (i : Nat) :
    (e >>> (i % 32)) &&& 1 ≠ 0 ↔ ¬ e &&& (1#32 <<< (i % 32)) = 0 := by
  have hi : i % 32 < 32 := Nat.mod_lt _ (by decide)
  have hone : ∀ v : BitVec 32, v &&& 1 = 0 ↔ v.getLsbD 0 = false := fun v =>
    BitFields.and_twoPow_eq_zero (i := 0) (by decide)
  rw [ne_eq, not_iff_not, hone, BitVec.getLsbD_ushiftRight, Nat.add_zero, ← BitVec.twoPow_eq]
  exact (BitFields.and_twoPow_eq_zero hi).symm

theorem better_eq_look (best : Nat × Nat) {src : Nat} (h : src ≤ limit p) (h0 : 0 < src) :
    p.better context best src = look p context best src := by
  have hword : ¬ p.numWords ≤ src / 32 := by
    rw [limit] at h
    omega
  simp only [Plic.better, look, consider, if_neg hword, enable_bit_iff]
  cases p.pending src with
  | false => rfl
  | true =>
    simp only [Bool.not_true, Bool.false_eq_true, if_false, if_true, ite_not]
    split_ifs
    all_goals first | rfl | omega

theorem better_above (best : Nat × Nat) {src : Nat} (h : limit p < src) (hsrc : src ≤ p.numSources) :
    p.better context best src = best := by
  have hword : p.numWords ≤ src / 32 := by
    rw [limit] at h
    omega
  rw [Plic.better]
  exact if_pos hword

theorem foldl_above {l : List Nat} (h : ∀ src ∈ l, limit p < src ∧ src ≤ p.numSources) (best : Nat × Nat) :
    l.foldl (p.better context) best = best := by
  induction l with
  | nil => rfl
  | cons src l ih =>
    obtain ⟨hsrc, hl⟩ := List.forall_mem_cons.mp h
    rw [List.foldl_cons, better_above best hsrc.1 hsrc.2]
    exact ih hl

/-- The scan of the pending bytes finds what the pass over all sources finds. -/
theorem findHighest_eq (h : context < p.numContexts) : findHighest p context = p.findHighest context := by
  have hlim : limit p ≤ p.numSources := Nat.min_le_left ..
  have hsplit : (List.range p.numSources).map (· + 1) =
      List.range' 1 (limit p) ++ List.range' (1 + limit p) (p.numSources - limit p) := by
    rw [List.range'_append_1, Nat.add_sub_cancel' hlim, List.range'_eq_map_range]
    exact List.map_congr_left fun i _ => Nat.add_comm i 1
  have habove : ∀ src ∈ List.range' (1 + limit p) (p.numSources - limit p),
      limit p < src ∧ src ≤ p.numSources := by
    intro src hsrc
    obtain ⟨hlo, hhi⟩ := List.mem_range'_1.mp hsrc
    omega
  have hbelow : ∀ best, ∀ src ∈ List.range' 1 (limit p),
      p.better context best src = look p context best src := by
    intro best src hsrc
    obtain ⟨hlo, hhi⟩ := List.mem_range'_1.mp hsrc
    exact better_eq_look best (by omega) (by omega)
  rw [findHighest, scan_eq (by omega), Nat.add_sub_cancel, Plic.findHighest, if_neg (Nat.not_le.mpr h), hsplit,
    List.foldl_append, foldl_above habove, List.foldl_ext _ _ _ hbelow]

theorem getPendingMip_eq {hartId : Nat} (h : 2 * hartId < 2 ^ 32) : getPendingMip p hartId = p.pendingMip hartId := by
  simp only [getPendingMip, Plic.pendingMip, Nat.mod_eq_of_lt h]
  congr 1
  · refine if_congr (and_congr_right fun hc => ?_) rfl rfl
    rw [findHighest_eq hc]
  · refine if_congr (and_congr_right fun hc => ?_) rfl rfl
    rw [findHighest_eq hc]

/-! ## Registers -/

/-- There are fewer sources than a register can name, and source 0 is never pending. -/
structure Inv (p : Plic) : Prop where
  sources : p.numSources < 2 ^ 32
  pending : p.pending 0 = false

theorem readPendingWord_eq (h : p.pending 0 = false) (wordIdx : Nat) :
    readPendingWord p wordIdx = p.readPendingWord wordIdx := by
  apply List.foldl_ext
  intro acc i _
  simp only
  generalize wordIdx * 32 + i = src
  by_cases hsrc : src < 1
  · obtain rfl := Nat.lt_one_iff.mp hsrc
    rw [h, if_neg fun hc => Bool.false_ne_true hc.2, if_pos (.inl Nat.one_pos)]
  · by_cases hle : src ≤ p.numSources
    · rw [if_neg (not_or.mpr ⟨hsrc, Nat.not_lt.mpr hle⟩)]
      exact if_congr (and_iff_right hle) rfl rfl
    · rw [if_neg fun hc => hle hc.1, if_pos (.inr (Nat.not_le.mp hle))]

theorem writeEnableWord_eq (wordIdx : Nat) (val : Word) :
    writeEnableWord p context wordIdx (val.setWidth 32) = p.writeEnableWord context wordIdx val := by
  have hbase : wordIdx * 32 = 0 ↔ wordIdx = 0 := by omega
  have hshort : p.numSources + 1 - wordIdx * 32 < 32 ↔ ¬ 32 ≤ p.numSources + 1 - wordIdx * 32 := Nat.not_le.symm
  simp only [writeEnableWord, Plic.writeEnableWord, hbase, hshort]
  generalize (val.setWidth 32 : BitVec 32) = v
  generalize (1#32 <<< (p.numSources + 1 - wordIdx * 32)) - 1 = m
  have hones : 0xFFFFFFFF &&& (~~~1 : BitVec 32) = ~~~1 := BitVec.allOnes_and
  have hfull : v &&& 0xFFFFFFFF = v := BitVec.and_allOnes
  have hmask : v &&& ~~~1 &&& m = v &&& (m &&& ~~~1) := by
    rw [BitVec.and_assoc, BitVec.and_comm _ m]
  -- the masks in the other order
  by_cases hfit : 32 ≤ p.numSources + 1 - wordIdx * 32
  · simp only [if_pos hfit, if_neg (not_not_intro hfit)]
    by_cases h0 : wordIdx = 0
    · simp only [if_pos h0, hones]
    · simp only [if_neg h0, hfull]
  · simp only [if_neg hfit, if_pos hfit]
    by_cases h0 : wordIdx = 0
    · simp only [if_pos h0, hmask]
    · simp only [if_neg h0]

theorem doClaim_eq (h : context < p.numContexts) : doClaim p context = p.doClaim context := by
  rw [doClaim, Plic.doClaim, findHighest_eq h]

theorem doComplete_eq (src : BitVec 32) : doComplete p context src.toNat = p.doComplete context src := by
  have hzero : src = 0 ↔ src.toNat = 0 := BitVec.toNat_inj.symm
  have hclaimed : (p.claimed context).toNat = src.toNat ↔ p.claimed context = src := BitVec.toNat_inj
  simp only [doComplete, Plic.doComplete, hclaimed]
  by_cases hbad : src = 0 ∨ p.numSources < src.toNat
  · rw [if_pos hbad, if_neg]
    rintro ⟨hpos, hle, _⟩
    rw [hzero] at hbad
    omega
  · have hvalid : 0 < src.toNat ∧ src.toNat ≤ p.numSources := by
      rw [hzero] at hbad
      omega
    rw [if_neg hbad]
    by_cases hc : p.claimed context = src
    · rw [if_pos hc, if_pos ⟨hvalid.1, hvalid.2, hc⟩]
      split_ifs <;> rfl
    · rw [if_neg hc, if_neg fun h => hc h.2.2]

theorem mmioRead_eq (h : Inv p) (offset : Nat) : mmioRead p offset = p.mmioRead offset := by
  simp only [mmioRead, Plic.mmioRead, readPendingWord_eq h.pending, readContext]
  split_ifs with _ _ _ _ hc
  all_goals first | rfl | rw [doClaim_eq (Nat.not_le.mp hc)]

theorem low3_eq (val : Word) :
    ((val.setWidth 32 : BitVec 32) &&& 7).setWidth 8 = ((val &&& 7).setWidth 8 : BitVec 8) := by
  apply BitVec.eq_of_getLsbD_eq
  intro i hi
  simp only [BitVec.getLsbD_setWidth, BitVec.getLsbD_and]
  have h32 : i < 32 := by omega
  have h7 : (7 : BitVec 32).getLsbD i = (7 : Word).getLsbD i := rfl
  rw [decide_eq_true h32, Bool.true_and, h7]

theorem mmioWrite_eq (offset : Nat) (val : Word) : mmioWrite p offset (val.setWidth 32) = p.mmioWrite offset val := by
  simp only [mmioWrite, Plic.mmioWrite, writeEnableWord_eq, doComplete_eq, low3_eq]

theorem readPendingWord_lt (wordIdx : Nat) : (p.readPendingWord wordIdx).toNat < 2 ^ 32 := by
  have hstep : ∀ (l : List Nat) (acc : Word), (∀ i ∈ l, i < 32) → acc.toNat < 2 ^ 32 →
      (l.foldl (fun acc i =>
        let src := wordIdx * 32 + i
        if src < 1 ∨ p.numSources < src then acc
        else if p.pending src then acc ||| bit i else acc) acc).toNat < 2 ^ 32 := by
    intro l
    induction l with
    | nil => exact fun acc _ hacc => hacc
    | cons i l ih =>
      intro acc hl hacc
      obtain ⟨hi, hl⟩ := List.forall_mem_cons.mp hl
      have hbit : (bit i : Word).toNat < 2 ^ 32 := by
        rw [bit, ← BitVec.twoPow_eq, BitVec.toNat_twoPow_of_lt (by omega)]
        exact Nat.pow_lt_pow_right (by decide) hi
      refine ih _ hl ?_
      simp only
      split_ifs
      · exact hacc
      · rw [BitVec.toNat_or]
        exact Nat.or_lt_two_pow hacc hbit
      · exact hacc
  exact hstep _ 0 (fun i => List.mem_range.mp) (by decide)

theorem toNat_setWidth_lt {n : Nat} (v : BitVec n) (h : n ≤ 32) : (v.setWidth 64).toNat < 2 ^ 32 := by
  rw [BitVec.toNat_setWidth]
  exact (Nat.mod_le _ _).trans_lt (v.isLt.trans_le (Nat.pow_le_pow_right (by decide) h))

theorem mmioRead_lt (h : Inv p) (offset : Nat) : (p.mmioRead offset).2.toNat < 2 ^ 32 := by
  have hclaim : ∀ context, (BitVec.ofNat 64 (p.doClaim context).2).toNat < 2 ^ 32 := by
    intro context
    have hle : (p.doClaim context).2 ≤ p.numSources := by
      rw [Plic.doClaim]
      split_ifs
      · exact p.findHighest_le context
      · exact p.findHighest_le context
    rw [BitVec.toNat_ofNat]
    exact (Nat.mod_le _ _).trans_lt (hle.trans_lt h.sources)
  simp only [Plic.mmioRead, Plic.readEnableWord]
  split_ifs
  · exact toNat_setWidth_lt _ (by decide)
  · exact Nat.two_pow_pos 32
  · exact readPendingWord_lt _
  · exact Nat.two_pow_pos 32
  · exact toNat_setWidth_lt _ (by decide)
  · exact Nat.two_pow_pos 32
  · exact toNat_setWidth_lt _ (by decide)
  · exact hclaim _
  · exact Nat.two_pow_pos 32

/-- Four bytes hold every register. -/
theorem read_eq (h : Inv p) (offset : Nat) :
    read p offset 4 = ((p.mmioRead offset).1, some (p.mmioRead offset).2) := by
  simp only [read, mmioRead_eq h, if_neg (fun hs : 4 ≠ 2 ∧ 4 ≠ 4 => hs.2 rfl)]
  rw [if_pos (mmioRead_lt h offset)]

/-! ## Runs that change engines -/

inductive Engine where
  | native
  | python
  deriving DecidableEq, Repr

/-- An access of four bytes and its answer; none where it raises. -/
def access (p : Plic) : Engine → PlicAct → Plic × Option Word
  | _, .setIrq source high => (p.setIrq source high, some 0)
  | .native, .read offset => ((p.mmioRead offset).1, some (p.mmioRead offset).2)
  | .native, .write offset val => (p.mmioWrite offset val, some 0)
  | .python, .read offset => read p offset 4
  | .python, .write offset val => (mmioWrite p offset (val.setWidth 32), some 0)

/-- The state after a run and its answers, each access on the engine that is named with it. -/
def execute : Plic → List (Engine × PlicAct) → Plic × List (Option Word)
  | p, [] => (p, [])
  | p, a :: l =>
    let r := access p a.1 a.2
    let rest := execute r.1 l
    (rest.1, r.2 :: rest.2)

/-- The same on the engine alone. -/
def engineRun : Plic → List PlicAct → Plic × List Word
  | p, [] => (p, [])
  | p, .setIrq source high :: l =>
    let rest := engineRun (p.setIrq source high) l
    (rest.1, 0 :: rest.2)
  | p, .read offset :: l =>
    let r := p.mmioRead offset
    let rest := engineRun r.1 l
    (rest.1, r.2 :: rest.2)
  | p, .write offset val :: l =>
    let rest := engineRun (p.mmioWrite offset val) l
    (rest.1, 0 :: rest.2)

theorem access_eq (h : Inv p) (e : Engine) (a : PlicAct) : access p e a = access p .native a := by
  cases e with
  | native => rfl
  | python =>
    cases a with
    | setIrq source high => rfl
    | read offset => exact read_eq h offset
    | write offset val => simp only [access, mmioWrite_eq]

theorem Inv.setIrq (h : Inv p) (source : Nat) (high : Bool) : Inv (p.setIrq source high) := by
  rw [Plic.setIrq]
  split_ifs with hs
  · exact ⟨h.sources, (Function.update_of_ne (Nat.ne_of_lt hs.1) ..).trans h.pending⟩
  · exact h

theorem Inv.doClaim (h : Inv p) (context : Nat) : Inv (p.doClaim context).1 := by
  simp only [Plic.doClaim]
  split_ifs with hs
  · exact ⟨h.sources, (Function.update_of_ne (Nat.ne_of_lt hs) ..).trans h.pending⟩
  · exact h

theorem Inv.doComplete (h : Inv p) (context : Nat) (src : BitVec 32) : Inv (p.doComplete context src) := by
  rw [Plic.doComplete]
  split_ifs with hbad hc
  · exact h
  · have hne : 0 ≠ src.toNat := fun he => hbad (.inl (BitVec.eq_of_toNat_eq he.symm))
    exact ⟨h.sources, (Function.update_of_ne hne ..).trans h.pending⟩
  · exact ⟨h.sources, h.pending⟩
  · exact h

theorem Inv.access (h : Inv p) (e : Engine) (a : PlicAct) : Inv (access p e a).1 := by
  rw [access_eq h]
  cases a with
  | setIrq source high => exact h.setIrq source high
  | read offset =>
    rw [PlicPy.access]
    cases hc : p.claimContext offset with
    | none =>
      rw [Plic.mmioRead_none hc]
      exact h
    | some context =>
      rw [Plic.mmioRead_some hc]
      exact h.doClaim context
  | write offset val =>
    rw [PlicPy.access]
    cases hc : p.claimContext offset with
    | none =>
      have hsame := Plic.mmioWrite_none hc val
      exact ⟨hsame.numSources.trans_lt h.sources, (congrFun hsame.pending 0).trans h.pending⟩
    | some context =>
      rw [Plic.mmioWrite_some hc]
      exact h.doComplete context _

theorem Inv.execute (h : Inv p) (run : List (Engine × PlicAct)) : Inv (execute p run).1 := by
  induction run generalizing p with
  | nil => exact h
  | cons a l ih => exact ih (h.access a.1 a.2)

theorem inv_reset (base : Word) {numSources : Nat} (numContexts : Nat) (h : numSources < 2 ^ 32) :
    Inv (Plic.reset base numSources numContexts) := ⟨h, rfl⟩

theorem execute_eq (h : Inv p) (run : List (Engine × PlicAct)) :
    execute p run = ((engineRun p (run.map Prod.snd)).1, (engineRun p (run.map Prod.snd)).2.map some) := by
  induction run generalizing p with
  | nil => rfl
  | cons a l ih =>
    have hnext := h.access .native a.2
    have hrest := ih (h.access a.1 a.2)
    rw [execute, List.map_cons, hrest, access_eq h]
    cases ha : a.2 with
    | setIrq source high => rfl
    | read offset => rfl
    | write offset val => rfl

end PlicPy

/-- From reset, a run of level changes and four-byte register accesses gives the same state and the
same answers whichever engine carries out each of them, none raises, and after it both engines see
the same interrupts for every hart. -/
theorem plic_engines_interchange (base : Word) (numSources numContexts : Nat) (hn : numSources < 2 ^ 32)
    (run : List (PlicPy.Engine × PlicAct)) :
    let p := Plic.reset base numSources numContexts
    let r := PlicPy.engineRun p (run.map Prod.snd)
    PlicPy.execute p run = (r.1, r.2.map some) ∧
      ∀ hartId, 2 * hartId < 2 ^ 32 → PlicPy.getPendingMip r.1 hartId = r.1.pendingMip hartId :=
  ⟨PlicPy.execute_eq (PlicPy.inv_reset base numContexts hn) run, fun _ => PlicPy.getPendingMip_eq⟩

/-- Two sources raise their levels and one is claimed, every access on the other engine than the last. -/
def alternating : List (PlicPy.Engine × PlicAct) :=
  [(.native, .write 4 1), (.python, .write 8 1), (.native, .write 0x2000 7), (.python, .setIrq 1 true),
    (.native, .setIrq 2 true), (.python, .read 0x200004), (.native, .read 0x2000)]

theorem alternating_answers :
    (PlicPy.execute (Plic.reset 0xC000000 2 1) alternating).2 =
      [some 0, some 0, some 0, some 0, some 0, some 1, some 6] :=
  (congrArg Prod.snd (plic_engines_interchange 0xC000000 2 1 (by decide) alternating).1).trans (by decide)

namespace Plic

open FirstMatch

variable (p : Plic) (context : Nat)

/-- The priority with which a source takes part in the arbitration of a context. -/
def offered (src : Nat) : Option Nat :=
  if src / 32 < p.numWords ∧ p.pending src = true ∧
      (p.enable (context * p.numWords + src / 32)).getLsbD (src % 32) = true ∧
      (p.threshold context).toNat < (p.priority src).toNat then some (p.priority src).toNat
  else none

theorem better_eq_keepGreatest (best : Nat × Nat) (src : Nat) :
    p.better context best src = keepGreatest (p.offered context) best src := by
  have hbit : p.enable (context * p.numWords + src / 32) &&& (1#32 <<< (src % 32)) = 0 ↔
      ¬ (p.enable (context * p.numWords + src / 32)).getLsbD (src % 32) = true := by
    rw [← BitVec.twoPow_eq, Bool.not_eq_true]
    exact BitFields.and_twoPow_eq_zero (Nat.mod_lt _ (by decide))
  simp only [better, keepGreatest, hbit]
  by_cases hword : p.numWords ≤ src / 32
  · have hoff : p.offered context src = none := if_neg fun h => Nat.not_lt.mpr hword h.1
    rw [hoff, if_pos hword]
  rw [if_neg hword]
  by_cases hpend : p.pending src = true
  · rw [hpend, if_neg (by decide)]
    by_cases hen : (p.enable (context * p.numWords + src / 32)).getLsbD (src % 32) = true
    · rw [if_neg (not_not_intro hen)]
      by_cases hthr : (p.priority src).toNat ≤ (p.threshold context).toNat
      · have hoff : p.offered context src = none := if_neg fun h => Nat.not_lt.mpr hthr h.2.2.2
        rw [hoff, if_pos hthr]
      · have hoff : p.offered context src = some (p.priority src).toNat :=
          if_pos ⟨Nat.not_le.mp hword, hpend, hen, Nat.not_le.mp hthr⟩
        rw [hoff, if_neg hthr]
    · have hoff : p.offered context src = none := if_neg fun h => hen h.2.2.1
      rw [hoff, if_pos hen]
  · have hoff : p.offered context src = none := if_neg fun h => hpend h.2.1
    rw [hoff, Bool.eq_false_iff.mpr hpend, if_pos (by decide)]

/-- The arbitration finds the first source of greatest priority, and 0 only where no source takes part. -/
theorem findHighest_spec (h : context < p.numContexts) :
    p.findHighest context = 0 ∧ (∀ src, 0 < src → src ≤ p.numSources → p.offered context src = none) ∨
      FirstGreatest (p.offered context) p.numSources (p.findHighest context)
        (p.priority (p.findHighest context)).toNat := by
  have hpos : ∀ src k, p.offered context src = some k → k = (p.priority src).toNat ∧ 0 < k := by
    intro src k hk
    rw [offered] at hk
    split_ifs at hk with hc
    cases hk
    exact ⟨rfl, Nat.zero_lt_of_lt hc.2.2.2⟩
  have hfold : p.findHighest context =
      ((List.range' 1 p.numSources).foldl (keepGreatest (p.offered context)) (0, 0)).1 := by
    rw [findHighest, if_neg (Nat.not_le.mpr h), List.range'_eq_map_range,
      List.map_congr_left fun i _ => Nat.add_comm i 1]
    congr 1
    exact List.foldl_ext _ _ _ fun best src _ => p.better_eq_keepGreatest context best src
  rw [hfold]
  rcases foldl_keepGreatest (fun src k hk => (hpos src k hk).2) p.numSources with ⟨hnone, hall⟩ | hb
  · rw [hnone]
    exact .inl ⟨rfl, hall⟩
  · rw [← (hpos _ _ hb.here).1]
    exact .inr hb

/-- A level change or a complete that makes a source pending. -/
def Raises (src : Nat) (a : PlicAct) : Prop :=
  a = .setIrq src true ∨ ∃ offset val context, a = .write offset val ∧ p.claimContext offset = some context ∧
    (val.setWidth 32 : BitVec 32).toNat = src ∧ p.claimed context = val.setWidth 32 ∧ p.level src = true

end Plic

namespace PlicPy

variable {p : Plic} {context src : Nat}

/-- Nothing else makes a source pending. -/
theorem access_pending (h : Inv p) (e : Engine) {a : PlicAct} (hp : p.pending src = false) (ha : ¬ p.Raises src a) :
    (access p e a).1.pending src = false := by
  rw [access_eq h]
  cases a with
  | setIrq source high =>
    simp only [access, Plic.setIrq]
    split_ifs
    · by_cases hs : src = source
      · subst hs
        simp only [Function.update_self]
        cases high with
        | true => exact absurd (.inl rfl) ha
        | false => rfl
      · simp only [Function.update_of_ne hs]
        exact hp
    · exact hp
  | read offset =>
    rw [access]
    cases hc : p.claimContext offset with
    | none =>
      rw [Plic.mmioRead_none hc]
      exact hp
    | some context =>
      simp only [Plic.mmioRead_some hc, Plic.doClaim]
      split_ifs
      · by_cases hs : src = p.findHighest context
        · simp only [hs, Function.update_self]
        · simp only [Function.update_of_ne hs]
          exact hp
      · exact hp
  | write offset val =>
    rw [access]
    cases hc : p.claimContext offset with
    | none => exact (congrFun (Plic.mmioWrite_none hc val).pending src).trans hp
    | some context =>
      simp only [Plic.mmioWrite_some hc, Plic.doComplete]
      split_ifs with _ hcl hlev
      · exact hp
      · have hs : src ≠ (val.setWidth 32 : BitVec 32).toNat := by
          rintro rfl
          exact ha (.inr ⟨offset, val, context, rfl, hc, rfl, hcl, hlev⟩)
        simp only [Function.update_of_ne hs]
        exact hp
      · exact hp
      · exact hp

/-- The states and accesses of a run. -/
def Along (P : Plic → PlicAct → Prop) : Plic → List (Engine × PlicAct) → Prop :=
  Run.Along (fun p a => (access p a.1 a.2).1) (fun p a => P p a.2)

theorem execute_pending (h : Inv p) {run : List (Engine × PlicAct)} (hp : p.pending src = false)
    (hr : Along (fun p a => ¬ p.Raises src a) p run) : (execute p run).1.pending src = false := by
  induction run generalizing p with
  | nil => exact hp
  | cons a l ih => exact ih (h.access a.1 a.2) (access_pending h a.1 hp hr.1) hr.2

theorem findHighest_pending (hc : context < p.numContexts) (hs : 0 < p.findHighest context) :
    p.pending (p.findHighest context) = true := by
  rcases p.findHighest_spec context hc with ⟨h0, _⟩ | hb
  · omega
  · have hk := hb.here
    rw [Plic.offered] at hk
    split_ifs at hk with hcond
    exact hcond.2.1

/-- Offset of the claim register of a context. -/
def claimOffset (context : Nat) : Nat := 0x200000 + context * 0x1000 + 4

theorem access_claim (h : Inv p) (hc : context < p.numContexts) (e : Engine) :
    access p e (.read (claimOffset context)) =
      ((p.doClaim context).1, some (BitVec.ofNat 64 (p.doClaim context).2)) := by
  have hrel : claimOffset context - 0x200000 = context * 0x1000 + 4 := by
    rw [claimOffset]
    omega
  have hdiv : (context * 0x1000 + 4) / 0x1000 = context := by omega
  have hmod : (context * 0x1000 + 4) % 0x1000 = 4 := by omega
  have hread : p.mmioRead (claimOffset context) = ((p.doClaim context).1, BitVec.ofNat 64 (p.doClaim context).2) := by
    rw [Plic.mmioRead, if_neg (by rw [claimOffset]; omega), if_neg (by rw [claimOffset]; omega),
      if_neg (by rw [claimOffset]; omega)]
    simp only [hrel, hdiv, hmod, if_neg (Nat.not_le.mpr hc)]
    rfl
  rw [access_eq h, access, hread]

theorem doClaim_snd (p : Plic) (context : Nat) : (p.doClaim context).2 = p.findHighest context := by
  rw [Plic.doClaim]
  split_ifs <;> rfl

theorem numContexts_access (h : Inv p) (e : Engine) (a : PlicAct) :
    (access p e a).1.numContexts = p.numContexts := by
  rw [access_eq h]
  cases a with
  | setIrq source high =>
    simp only [access, Plic.setIrq]
    split_ifs <;> rfl
  | read offset =>
    rw [access]
    cases hc : p.claimContext offset with
    | none => rw [Plic.mmioRead_none hc]
    | some context =>
      simp only [Plic.mmioRead_some hc, Plic.doClaim]
      split_ifs <;> rfl
  | write offset val =>
    simp only [access, Plic.mmioWrite, Plic.writeEnableWord, Plic.doComplete]
    split_ifs <;> rfl

theorem numContexts_execute (h : Inv p) (run : List (Engine × PlicAct)) :
    (execute p run).1.numContexts = p.numContexts := by
  induction run generalizing p with
  | nil => rfl
  | cons a l ih => exact (ih (h.access a.1 a.2)).trans (numContexts_access h a.1 a.2)

end PlicPy

/-- In every run from reset on either engine: a claim answers 0 and changes nothing where no source
takes part, or it answers the first source of greatest priority, and no context is given that
source again before its level is raised or a complete makes it pending. -/
theorem plic_claims_once (base : Word) (numSources numContexts : Nat) (hn : numSources < 2 ^ 32)
    (before after : List (PlicPy.Engine × PlicAct)) (e e' : PlicPy.Engine) (context context' : Nat)
    (hc : context < numContexts) (hc' : context' < numContexts) :
    let p := (PlicPy.execute (Plic.reset base numSources numContexts) before).1
    let claim := PlicPy.access p e (.read (PlicPy.claimOffset context))
    (claim = (p, some 0) ∧ ∀ src, 0 < src → src ≤ p.numSources → p.offered context src = none) ∨
      ∃ src, claim.2 = some (BitVec.ofNat 64 src) ∧
        FirstMatch.FirstGreatest (p.offered context) p.numSources src (p.priority src).toNat ∧
        (PlicPy.Along (fun p a => ¬ p.Raises src a) claim.1 after →
          (PlicPy.access (PlicPy.execute claim.1 after).1 e' (.read (PlicPy.claimOffset context'))).2 ≠
            some (BitVec.ofNat 64 src)) := by
  simp only
  have hinv : PlicPy.Inv (PlicPy.execute (Plic.reset base numSources numContexts) before).1 :=
    (PlicPy.inv_reset base numContexts hn).execute before
  have hctx : (PlicPy.execute (Plic.reset base numSources numContexts) before).1.numContexts = numContexts :=
    PlicPy.numContexts_execute (PlicPy.inv_reset base numContexts hn) before
  generalize (PlicPy.execute (Plic.reset base numSources numContexts) before).1 = p at hinv hctx ⊢
  have hlt : context < p.numContexts := hctx ▸ hc
  rw [PlicPy.access_claim hinv hlt, PlicPy.doClaim_snd]
  rcases p.findHighest_spec context hlt with ⟨h0, hnone⟩ | hbest
  · refine .inl ⟨?_, hnone⟩
    rw [h0, Plic.doClaim, if_neg (by omega)]
    rfl
  · refine .inr ⟨p.findHighest context, rfl, hbest, fun hafter hagain => ?_⟩
    have hclaim : Plic.doClaim p context = ({ p with
        pending := Function.update p.pending (p.findHighest context) false
        claimed := Function.update p.claimed context (BitVec.ofNat 32 (p.findHighest context)) },
          p.findHighest context) := if_pos hbest.pos
    have hgone : (p.doClaim context).1.pending (p.findHighest context) = false := by
      rw [hclaim]
      exact Function.update_self ..
    have hinv' := hinv.doClaim context
    have hctx' : (PlicPy.execute (p.doClaim context).1 after).1.numContexts = numContexts := by
      rw [PlicPy.numContexts_execute hinv', hclaim]
      exact hctx
    have hlow := PlicPy.execute_pending hinv' hgone hafter
    have hend := hinv'.execute after
    generalize (PlicPy.execute (p.doClaim context).1 after).1 = q at hagain hctx' hlow hend
    have hlt' : context' < q.numContexts := hctx' ▸ hc'
    rw [PlicPy.access_claim hend hlt', PlicPy.doClaim_snd] at hagain
    have hsmall : q.findHighest context' < 2 ^ 64 :=
      (q.findHighest_le context').trans_lt (hend.sources.trans (by decide))
    have hsmall' : p.findHighest context < 2 ^ 64 :=
      (p.findHighest_le context).trans_lt (hinv.sources.trans (by decide))
    have hsame : q.findHighest context' = p.findHighest context := by
      have hnat := congrArg BitVec.toNat (Option.some.inj hagain)
      rwa [BitVec.toNat_ofNat, BitVec.toNat_ofNat, Nat.mod_eq_of_lt hsmall, Nat.mod_eq_of_lt hsmall'] at hnat
    have hpend := PlicPy.findHighest_pending hlt' (hsame ▸ hbest.pos)
    rw [hsame, hlow] at hpend
    cases hpend

/-- The second claim does not answer the first source again, although its level is still high. -/
theorem alternating_claimed_once :
    (PlicPy.access (PlicPy.execute (Plic.reset 0xC000000 2 1) alternating).1 .native (.read 0x200004)).2 ≠
      some 1 := by
  rcases plic_claims_once 0xC000000 2 1 (by decide) (alternating.take 5) [(.native, .read 0x2000)] .python .native 0 0
      (by decide) (by decide) with ⟨hzero, _⟩ | ⟨src, hsrc, _, honce⟩
  · exact absurd (congrArg Prod.snd hzero) (by decide)
  · have hone : some 1 = some (BitVec.ofNat 64 src) := Eq.trans (by decide) hsrc
    rw [hone]
    refine honce ⟨?_, trivial⟩
    rintro (hr | ⟨offset, val, context, hr, _⟩)
    · cases hr
    · cases hr

end Pyremu
