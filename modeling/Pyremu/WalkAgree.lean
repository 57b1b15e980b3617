import Pyremu.WalkPython

/-!
# Three copies of one walk

The class `PTE`, the native parser and the native walk classify an entry alike.
The Python walk finds the page of the tables at its root, the native walk that
of the tables at its own root, and without the native library the Python walk
also follows an invalid entry of the second level.
-/

namespace Pyremu

open ByteMem

/-! ## Fields of an entry -/

/-- A field cut out by a shifted mask of `k` ones. -/
theorem field_getLsbD {m : Word} {k s : Nat} (hm : ∀ i < 64, m.getLsbD i = decide (i < k)) (hk : k + s ≤ 64)
    (x : Word) (i : Nat) :
    ((x &&& (m <<< s)) >>> s).getLsbD i = (x.getLsbD (s + i) && decide (i < k)) := by
  rw [BitVec.getLsbD_ushiftRight, BitVec.getLsbD_and, BitVec.getLsbD_shiftLeft]
  by_cases hi : s + i < 64
  · have hlt : ¬ s + i < s := by omega
    rw [decide_eq_true hi, decide_eq_false hlt, Nat.add_sub_cancel_left, hm i (by omega), Bool.true_and,
      Bool.not_false, Bool.true_and]
  · rw [decide_eq_false hi, decide_eq_false (by omega : ¬ i < k), Bool.false_and, Bool.false_and]

namespace PtePy

/-- The three parts are the contiguous field of 44 bits. -/
theorem ppn_eq (raw : Word) : ppn raw = (raw >>> 10) &&& 0xFFFFFFFFFFF := by
  have h0 := field_getLsbD (m := 0x3ff) (k := 10) (s := 10) (by decide) (by omega) raw
  have h1 := field_getLsbD (m := 0x1ff) (k := 9) (s := 20) (by decide) (by omega) raw
  have h2 := field_getLsbD (m := 0x1ffffff) (k := 25) (s := 29) (by decide) (by omega) raw
  have hall : ∀ i < 64, (0xFFFFFFFFFFF : Word).getLsbD i = decide (i < 44) := by decide
  apply BitVec.eq_of_getLsbD_eq
  intro i hi
  rw [ppn, BitVec.getLsbD_or, BitVec.getLsbD_or, BitVec.getLsbD_shiftLeft, BitVec.getLsbD_shiftLeft, ppn0, ppn1,
    ppn2, ptePpn0, ptePpn1, ptePpn2, h0, h1, h2, BitVec.getLsbD_and, BitVec.getLsbD_ushiftRight, hall i hi,
    decide_eq_true hi, Bool.true_and, Bool.true_and]
  by_cases hlow : i < 10
  · rw [decide_eq_true hlow, decide_eq_true (by omega : i < 19), decide_eq_true (by omega : i < 44)]
    simp
  · by_cases hmid : i < 19
    · rw [decide_eq_false hlow, decide_eq_true hmid, decide_eq_true (by omega : i < 44),
        decide_eq_true (by omega : i - 10 < 9), show 20 + (i - 10) = 10 + i by omega]
      simp
    · rw [decide_eq_false hlow, decide_eq_false hmid, decide_eq_false (by omega : ¬ i - 10 < 9),
        show 29 + (i - 19) = 10 + i by omega]
      by_cases htop : i < 44
      · rw [decide_eq_true htop, decide_eq_true (by omega : i - 19 < 25)]
        simp
      · rw [decide_eq_false htop, decide_eq_false (by omega : ¬ i - 19 < 25)]
        simp

theorem r_or_x (raw : Word) : (r raw || x raw) = decide (raw &&& (Pte.R ||| Pte.X) ≠ 0) := by
  have hr : pteR = Pte.R := by decide
  have hx : pteX = Pte.X := by decide
  have hor : raw &&& (Pte.R ||| Pte.X) = 0 ↔ raw &&& Pte.R = 0 ∧ raw &&& Pte.X = 0 := by
    rw [BitVec.and_or_distrib_left]
    exact BitVec.or_eq_zero_iff
  rw [r, x, hr, hx, ← Bool.decide_or, decide_eq_decide, ne_eq, ne_eq, ne_eq, hor, not_and_or]

/-- The class sees what the native parser sees. -/
theorem leaf_eq (raw : Word) : (v raw && (r raw || x raw)) = (pteParse raw).isLeaf := by
  rw [r_or_x]
  rfl

theorem ptr_eq (raw : Word) : (v raw && !(r raw || x raw)) = (pteParse raw).isPtr := by
  rw [r_or_x]
  simp only [ne_eq, decide_not, Bool.not_not]
  rfl

end PtePy

/-- A page number of at most 52 bits survives the way through an address. -/
theorem page_of_address {y : Word} (hy : ∀ i, 52 ≤ i → y.getLsbD i = false) (va : Word) :
    ((y <<< 12) ||| (va &&& 0xFFF)) >>> 12 = y := by
  have hmask : ∀ i < 64, (0xFFF : Word).getLsbD i = decide (i < 12) := by decide
  apply BitVec.eq_of_getLsbD_eq
  intro i hi
  rw [BitVec.getLsbD_ushiftRight, BitVec.getLsbD_or, BitVec.getLsbD_shiftLeft, BitVec.getLsbD_and]
  by_cases h52 : i < 52
  · rw [hmask _ (by omega), decide_eq_true (by omega : 12 + i < 64), decide_eq_false (by omega : ¬ 12 + i < 12),
      Nat.add_sub_cancel_left]
    simp
  · rw [hy i (by omega), decide_eq_false (by omega : ¬ 12 + i < 64), BitVec.getLsbD_of_ge (0xFFF : Word) _ (by omega)]
    simp

theorem superPpn_high (raw va : Word) {i : Nat} (hi : 52 ≤ i) :
    (superPpn (pteParse raw).ppn ((va >>> 12) &&& 0x1FF)).getLsbD i = false := by
  by_cases h64 : i < 64
  · have h44 : ∀ i < 64, (0xFFFFFFFFFFF : Word).getLsbD i = decide (i < 44) := by decide
    have h9 : ∀ i < 64, (0x1FF : Word).getLsbD i = decide (i < 9) := by decide
    have hb : (pteParse raw).ppn.getLsbD i = false := by
      change ((raw >>> 10) &&& 0xFFFFFFFFFFF).getLsbD i = false
      rw [BitVec.getLsbD_and, h44 i h64, decide_eq_false (by omega), Bool.and_false]
    rw [superPpn, BitVec.getLsbD_or, BitVec.getLsbD_and, BitVec.getLsbD_and, hb, h9 i h64,
      decide_eq_false (by omega), Bool.false_and, Bool.and_false, Bool.or_false]
  · exact BitVec.getLsbD_of_ge _ _ (by omega)

/-! ## One level of the Python walk -/

namespace MmuPy

variable (nativeMmu : NativeMmu)

theorem sv39Vpn_eq (va : Word) :
    sv39Vpn nativeMmu va =
      ((sv39DecomposeVa va).vpn2, (sv39DecomposeVa va).vpn1, (sv39DecomposeVa va).vpn0) := by
  cases nativeMmu with
  | true => rfl
  | false => rfl

theorem level1NextPpn_eq (raw : Word) :
    level1NextPpn nativeMmu raw = if (pteParse raw).isPtr then some (pteParse raw).ppn else none := by
  cases nativeMmu with
  | true => rfl
  | false =>
    rw [level1NextPpn, if_neg Bool.false_ne_true, PtePy.ptr_eq, PtePy.ppn_eq]
    rfl

theorem level2Leaf_eq (raw va : Word) :
    level2Leaf nativeMmu raw va =
      if (pteParse raw).isLeaf then
        some (superPpn (pteParse raw).ppn (sv39DecomposeVa va).vpn0, (pteParse raw).perm)
      else none := by
  cases nativeMmu with
  | true =>
    simp only [level2Leaf, if_true]
    cases hl : (pteParse raw).isLeaf with
    | false => simp
    | true =>
      have hp := page_of_address (fun i hi => superPpn_high raw va hi) va
      simp only [leaf_valid hl, Bool.and_self, Bool.not_true, Bool.false_eq_true, if_false, pteAssemblePa,
        if_true, hp]
      rfl
  | false =>
    rw [level2Leaf, if_neg Bool.false_ne_true, PtePy.leaf_eq]
    cases (pteParse raw).isLeaf with
    | false => rfl
    | true =>
      simp only [Bool.not_true, Bool.false_eq_true, if_false, if_true, PtePy.ppn_eq]
      rfl

/-- Without the library every entry leads on. -/
theorem level2NextPpn_eq (raw : Word) :
    level2NextPpn nativeMmu raw =
      if nativeMmu && !(pteParse raw).isPtr then none else some (pteParse raw).ppn := by
  cases nativeMmu with
  | true =>
    simp only [level2NextPpn, if_true]
    cases hp : (pteParse raw).isPtr with
    | false => simp
    | true => simp [ptr_valid hp]
  | false =>
    simp only [level2NextPpn, Bool.false_eq_true, if_false, PtePy.ppn_eq, Bool.false_and]
    rfl

theorem level3Leaf_eq (raw : Word) :
    level3Leaf nativeMmu raw =
      if (pteParse raw).isLeaf then some ((pteParse raw).ppn, (pteParse raw).perm) else none := by
  cases nativeMmu with
  | true =>
    simp only [level3Leaf, if_true]
    cases hl : (pteParse raw).isLeaf with
    | false => simp
    | true => simp [leaf_valid hl]
  | false =>
    rw [level3Leaf, if_neg Bool.false_ne_true, PtePy.leaf_eq, PtePy.ppn_eq]
    cases (pteParse raw).isLeaf with
    | false => rfl
    | true => rfl

theorem checkPtePerm_eq (m : Mode) (perm : BitVec 8) (mstatus : Word) (isWrite isExecute : Bool) :
    checkPtePerm m perm mstatus isWrite isExecute = Pyremu.checkPtePerm perm m mstatus isWrite isExecute := by
  simp only [checkPtePerm, Pyremu.checkPtePerm]
  cases m <;> cases perm.getLsbD 4 <;> cases perm.getLsbD 1 <;> cases isExecute <;> cases isWrite <;>
    cases sum mstatus <;> simp

/-! ## The Python walk -/

variable {nativeMmu} {c : WalkCtx} {root satp va : Word}

theorem pteReader_some {a raw : Word} (h : pteReader c a = some raw) : raw = readPte c a := by
  rw [pteReader] at h
  split at h
  · rename_i hin
    have hoff : Translate.ramOffset c.toLayout a 8 = some (a - c.ramBase) := if_pos hin.2
    rw [readPte_eq hoff]
    exact (Option.some.inj h).symm
  · cases h

/-- The page that the Python walk finds: without the library an invalid entry of the second level
leads on. -/
def pageOf (nativeMmu : NativeMmu) (c : WalkCtx) (root va : Word) : Option TranslateResult :=
  let v := sv39DecomposeVa va
  let p2 := pteParse (readPte c (pteAddr root v.vpn2))
  let p1 := pteParse (readPte c (pteAddr p2.ppn v.vpn1))
  let p0 := pteParse (readPte c (pteAddr p1.ppn v.vpn0))
  if p2.isPtr then
    if p1.isLeaf then some (l1Result p1.ppn p1.perm v.vpn0 v.offset)
    else if !(nativeMmu && !p1.isPtr) && p0.isLeaf then some (l0Result p0.ppn p0.perm v.offset)
    else none
  else none

theorem translateVa_sv39 (hm : satp >>> 60 = satpModeSv39) (readPte : Word → Option Word) :
    translateVa nativeMmu va satp readPte =
      (sv39Walk nativeMmu (rootPpn satp) va readPte).bind fun o =>
        some (o.map fun r : Word × BitVec 8 × Nat => ((r.1 <<< 12) ||| (va &&& 0xFFF), r.2.1)) := by
  have h8 : satp >>> 60 = 8 := hm
  have h0 : satp >>> 60 ≠ 0 := by
    rw [h8]
    decide
  rw [translateVa, if_neg h0, if_pos h8]
  cases sv39Walk nativeMmu (rootPpn satp) va readPte with
  | none => rfl
  | some o =>
    cases o with
    | none => rfl
    | some r => rfl

theorem translateVa_eq (hm : satp >>> 60 = satpModeSv39)
    (hr : (translateVa nativeMmu va satp (pteReader c)).isSome = true) :
    translateVa nativeMmu va satp (pteReader c) =
      some ((pageOf nativeMmu c (rootPpn satp) va).map fun r => (r.pa, r.perm)) := by
  rw [translateVa_sv39 hm] at hr ⊢
  simp only [sv39Walk, sv39Vpn_eq, level1NextPpn_eq, level2Leaf_eq, level2NextPpn_eq, level3Leaf_eq,
    Option.bind_eq_bind] at hr ⊢
  cases h2 : pteReader c (pteAddr (rootPpn satp) (sv39DecomposeVa va).vpn2) with
  | none =>
    rw [h2] at hr
    cases hr
  | some raw2 =>
    rw [h2, Option.bind_some] at hr
    rw [Option.bind_some, pageOf, ← pteReader_some h2]
    cases hp2 : (pteParse raw2).isPtr with
    | false => rfl
    | true =>
      simp only [hp2, if_true] at hr ⊢
      cases h1 : pteReader c (pteAddr (pteParse raw2).ppn (sv39DecomposeVa va).vpn1) with
      | none =>
        rw [h1] at hr
        cases hr
      | some raw1 =>
        rw [h1, Option.bind_some] at hr
        rw [Option.bind_some, ← pteReader_some h1]
        cases hl1 : (pteParse raw1).isLeaf with
        | true => rfl
        | false =>
          simp only [hl1, Bool.false_eq_true, if_false] at hr ⊢
          cases hnext : nativeMmu && !(pteParse raw1).isPtr with
          | true => rfl
          | false =>
            simp only [hnext, Bool.false_eq_true, if_false, Bool.not_false, Bool.true_and] at hr ⊢
            cases h0 : pteReader c (pteAddr (pteParse raw1).ppn (sv39DecomposeVa va).vpn0) with
            | none =>
              rw [h0] at hr
              cases hr
            | some raw0 =>
              rw [Option.bind_some, ← pteReader_some h0]
              cases (pteParse raw0).isLeaf with
              | true => rfl
              | false => rfl

theorem pageOf_true (c : WalkCtx) (root va : Word) : pageOf true c root va = pageAt c root va := by
  simp only [pageOf, pageAt, Bool.true_and, Bool.not_not]

/-- The two variants part where the second level dangles, and nowhere else. -/
theorem pageOf_variants_iff :
    (pageOf true c root va).map (fun r => (r.pa, r.perm)) = (pageOf false c root va).map (fun r => (r.pa, r.perm)) ↔
      ¬ DanglingLeaf c root va := by
  simp only [pageOf, DanglingLeaf]
  generalize pteParse (readPte c (pteAddr root (sv39DecomposeVa va).vpn2)) = p2
  generalize hraw1 : readPte c (pteAddr p2.ppn (sv39DecomposeVa va).vpn1) = raw1
  generalize pteParse (readPte c (pteAddr (pteParse raw1).ppn (sv39DecomposeVa va).vpn0)) = p0
  have hkind := pteParse_kind raw1
  cases p2.isPtr with
  | false => simp
  | true =>
    cases hl : (pteParse raw1).isLeaf with
    | true => simp [leaf_valid hl]
    | false =>
      rw [hl, Bool.not_false, Bool.and_true] at hkind
      cases hv : (pteParse raw1).v with
      | true => simp [hkind, hv]
      | false =>
        cases p0.isLeaf with
        | true => simp [hkind, hv]
        | false => simp

end MmuPy

/-! ## The native walk -/

section Native

variable {c : WalkCtx} {s : HartState} {p : PmpCtx} {satp va a b : Word} {rwx : Rwx} {m : Mode}

theorem Layout.InMain.offset (h : c.toLayout.InMain a) :
    Translate.ramOffset c.toLayout a 8 = some (a - c.ramBase) := if_pos h.2

/-- In main memory an update of one entry leaves the fields of the others alone. -/
theorem pteParse_setPteBits (ha : c.toLayout.InMain a) (hb : c.toLayout.InMain b) (h8a : a.toNat % 8 = 0)
    (h8b : b.toNat % 8 = 0) : pteParse (readPte (setPteBits c a Pte.A) b) = pteParse (readPte c b) := by
  have hl := setPteBits_toLayout c a Pte.A
  by_cases hab : a = b
  · subst hab
    have hread : readPte (setPteBits c a Pte.A) a = readPte c a ||| Pte.A := by
      rw [readPte_eq (c := setPteBits c a Pte.A) (by rw [hl]; exact ha.offset), setPteBits_eq ha.offset pteA_low,
        readPte_eq ha.offset]
      exact readLe_writeLe_eight _ _ _
    rw [hread, pteParse_or_A]
  · have hoff : ∀ {x : Word}, c.toLayout.InMain x → (x - c.ramBase).toNat = x.toNat - c.ramBase.toNat := by
      intro x hx
      exact BitVec.toNat_sub_of_le hx.2.1
    have hne : a.toNat ≠ b.toNat := fun h => hab (BitVec.eq_of_toNat_eq h)
    have hla : c.ramBase.toNat ≤ a.toNat := ha.2.1
    have hlb : c.ramBase.toNat ≤ b.toNat := hb.2.1
    apply congrArg pteParse
    apply BitVec.eq_of_getLsbD_eq
    intro i hi
    apply readPte_setPteBits_other ha.offset hb.offset
    rw [hoff ha, hoff hb]
    omega

/-- A level of the walk when PMP permits everything. -/
theorem walkLevel_permitted {ppn idx : Word} (hp : ∀ isWrite, pmpOk s (pteAddr ppn idx) 8 isWrite false p = true) :
    walkLevel c s p ppn idx =
      if (pteParse (readPte c (pteAddr ppn idx))).v = false then (c, .ok none)
      else
        (setPteBits c (pteAddr ppn idx) Pte.A,
          .ok (some (readPte c (pteAddr ppn idx), pteParse (readPte c (pteAddr ppn idx))))) := by
  rw [walkLevel_eq]
  simp only [hp, Bool.true_eq_false, if_false, or_true, if_true]

/-- What the walk itself asks of the permissions. -/
def needMet (rwx : Rwx) (mstatus : Word) (r : TranslateResult) : Bool :=
  decide (r.perm &&& ptePermNeeded rwx (mxr mstatus) = ptePermNeeded rwx (mxr mstatus))

theorem walkL1Leaf_permitted (hp : ∀ isWrite, pmpOk s a 8 isWrite false p = true) {raw vpn0 offset : Word}
    (hl : (pteParse raw).isLeaf = true) (hcur : readPte c a = raw ||| Pte.A) :
    (walkL1Leaf c s p a raw (pteParse raw).ppn (pteParse raw).perm vpn0 offset rwx).2 =
      .ok ((some (l1Result (pteParse raw).ppn (pteParse raw).perm vpn0 offset)).filter (needMet rwx s.mstatus)) := by
  rw [walkL1Leaf_eq hl hcur (hp _) (.inr (hp _))]
  simp only [hp, or_true, if_true]
  by_cases hn : (pteParse raw).perm &&& ptePermNeeded rwx (mxr s.mstatus) = ptePermNeeded rwx (mxr s.mstatus)
  · have hmet : needMet rwx s.mstatus (l1Result (pteParse raw).ppn (pteParse raw).perm vpn0 offset) = true :=
      decide_eq_true hn
    rw [if_neg (not_not.mpr hn), Option.filter_some, if_pos hmet]
    split <;> rfl
  · have hmet : ¬ needMet rwx s.mstatus (l1Result (pteParse raw).ppn (pteParse raw).perm vpn0 offset) = true :=
      fun h => hn (of_decide_eq_true h)
    rw [if_pos hn, Option.filter_some, if_neg hmet]

theorem walkL0_permitted {ppn vpn0 : Word} (hp : ∀ isWrite, pmpOk s (pteAddr ppn vpn0) 8 isWrite false p = true)
    (offset : Word) :
    (walkL0 c s p ppn vpn0 offset rwx).2 =
      let pte := pteParse (readPte c (pteAddr ppn vpn0))
      .ok ((if pte.isLeaf then some (l0Result pte.ppn pte.perm offset) else none).filter
        (needMet rwx s.mstatus)) := by
  rw [walkL0_eq]
  simp only [hp, Bool.true_eq_false, if_false, or_true, if_true]
  generalize pteParse (readPte c (pteAddr ppn vpn0)) = pte
  cases hl : pte.isLeaf with
  | false => simp
  | true =>
    simp only [Bool.true_eq_false, false_or, if_true, Option.filter_some]
    by_cases hn : pte.perm &&& ptePermNeeded rwx (mxr s.mstatus) = ptePermNeeded rwx (mxr s.mstatus)
    · have hmet : needMet rwx s.mstatus (l0Result pte.ppn pte.perm offset) = true := decide_eq_true hn
      rw [if_neg (not_not.mpr hn), if_pos hmet]
    · have hmet : ¬ needMet rwx s.mstatus (l0Result pte.ppn pte.perm offset) = true :=
        fun h => hn (of_decide_eq_true h)
      rw [if_pos hn, if_neg hmet]

/-- Marking an entry that the walk reads leaves the fields of those that it reads alone. -/
def MarksOnly (c : WalkCtx) (root va : Word) : Prop :=
  ∀ c' : WalkCtx, c'.toLayout = c.toLayout → ∀ a ∈ entriesRead c root va, ∀ b ∈ entriesRead c root va,
    pteParse (readPte (setPteBits c' a Pte.A) b) = pteParse (readPte c' b)

theorem entriesRead_aligned {root : Word} (ha : a ∈ entriesRead c root va) : a.toNat % 8 = 0 := by
  simp only [entriesRead] at ha
  split at ha
  · split at ha
    · simp only [List.mem_cons, List.not_mem_nil, or_false] at ha
      rcases ha with rfl | rfl | rfl <;> exact pteAddr_aligned _ _
    · simp only [List.mem_cons, List.not_mem_nil, or_false] at ha
      rcases ha with rfl | rfl <;> exact pteAddr_aligned _ _
  · rw [List.mem_singleton] at ha
    subst ha
    exact pteAddr_aligned _ _

theorem marksOnly_of_inMain {root : Word} (hr : ∀ a ∈ entriesRead c root va, c.toLayout.InMain a) :
    MarksOnly c root va := by
  intro c' hl a ha b hb
  have hina : c'.toLayout.InMain a := by
    rw [hl]
    exact hr a ha
  have hinb : c'.toLayout.InMain b := by
    rw [hl]
    exact hr b hb
  exact pteParse_setPteBits hina hinb (entriesRead_aligned ha) (entriesRead_aligned hb)

theorem marksOnly_of_aligned (hal : c.toLayout.Aligned) (root va : Word) : MarksOnly c root va := by
  intro c' hl a ha b hb
  have hal' : c'.toLayout.Aligned := by
    rw [hl]
    exact hal
  exact pteParse_congr (SamePages.setPteBits hal' (entriesRead_aligned ha) .read b (entriesRead_aligned hb))

/-- The native walk finds the page of the tables at its root and asks for the bits of the access. -/
theorem sv39Walk_pageAt (hm : satp >>> 60 = satpModeSv39)
    (hp : ∀ a ∈ entriesRead c (satpRootPpn satp) va, ∀ isWrite, pmpOk s a 8 isWrite false p = true)
    (hmarks : MarksOnly c (satpRootPpn satp) va) :
    (sv39Walk c s p satp va rwx).2 =
      .ok ((pageAt c (satpRootPpn satp) va).filter (needMet rwx s.mstatus)) := by
  have hfirst : pteAddr (satpRootPpn satp) (sv39DecomposeVa va).vpn2 ∈ entriesRead c (satpRootPpn satp) va := by
    simp only [entriesRead]
    split
    · split <;> simp
    · simp
  simp only [sv39Walk, hm, ne_eq, not_true_eq_false, if_false, walkL2, walkLevel_permitted (hp _ hfirst)]
  simp only [pageAt]
  generalize hE : entriesRead c (satpRootPpn satp) va = E at hp hfirst
  have hfix : ∀ c' : WalkCtx, c'.toLayout = c.toLayout → ∀ a ∈ E, ∀ b ∈ E,
      pteParse (readPte (setPteBits c' a Pte.A) b) = pteParse (readPte c' b) := by
    rw [← hE]
    exact hmarks
  simp only [entriesRead] at hE
  generalize pteAddr (satpRootPpn satp) (sv39DecomposeVa va).vpn2 = a2 at hE hfirst ⊢
  cases hptr : (pteParse (readPte c a2)).isPtr with
  | false =>
    cases (pteParse (readPte c a2)).v with
    | false => rfl
    | true =>
      simp only [Bool.true_eq_false, if_false, hptr, Bool.not_false, if_true, Bool.false_eq_true]
      rfl
  | true =>
    simp only [hptr, if_true] at hE
    have hv2 := ptr_valid hptr
    have hsecond : pteAddr (pteParse (readPte c a2)).ppn (sv39DecomposeVa va).vpn1 ∈ E := by
      rw [← hE]
      split <;> simp
    simp only [hv2, Bool.true_eq_false, if_false, hptr, Bool.not_true, Bool.false_eq_true, if_true, walkL1,
      walkLevel_permitted (hp _ hsecond)]
    generalize pteAddr (pteParse (readPte c a2)).ppn (sv39DecomposeVa va).vpn1 = a1 at hE hsecond ⊢
    have hsame := hfix c rfl a2 hfirst a1 hsecond
    generalize hraw : readPte (setPteBits c a2 Pte.A) a1 = raw1 at hsame ⊢
    rw [hsame]
    cases hl : (pteParse (readPte c a1)).isLeaf with
    | true =>
      have hv := leaf_valid hl
      have hl' : (pteParse raw1).isLeaf = true := by rw [hsame, hl]
      have h0 : readPte (setPteBits c a2 Pte.A) a1 ≠ 0 := by
        rw [hraw]
        exact usable_ne_zero (leaf_valid hl')
      have hcur := readPte_setPteBits h0 pteA_low
      rw [hraw] at hcur
      have hleaf := @walkL1Leaf_permitted _ _ _ _ rwx (hp _ hsecond) _
        (sv39DecomposeVa va).vpn0 (sv39DecomposeVa va).offset hl' hcur
      simp only [hv, hl, Bool.true_eq_false, if_false, if_true]
      rw [hsame] at hleaf
      exact hleaf
    | false =>
      have hkind := pteParse_kind (readPte c a1)
      rw [hl, Bool.not_false, Bool.and_true] at hkind
      cases hv : (pteParse (readPte c a1)).v with
      | false =>
        rw [hv] at hkind
        simp only [hkind, if_true, Bool.false_eq_true, if_false, Bool.false_and]
        rfl
      | true =>
        rw [hv] at hkind
        simp only [hkind, if_true] at hE
        have hthird : pteAddr (pteParse (readPte c a1)).ppn (sv39DecomposeVa va).vpn0 ∈ E := by
          rw [← hE]
          simp
        simp only [hkind, hl, Bool.true_eq_false, Bool.false_eq_true, if_false, Bool.true_and,
          walkL0_permitted (hp _ hthird)]
        rw [hfix _ (setPteBits_toLayout c a2 Pte.A) a1 hsecond _ hthird, hfix c rfl a2 hfirst _ hthird]

/-- The check of the leaf asks for more than the walk. -/
theorem needMet_of_check {r : TranslateResult} {mstatus : Word}
    (h : checkPtePerm r.perm m mstatus (hasWrite rwx) (hasExec rwx) = true) : needMet rwx mstatus r = true := by
  have hr : ∀ x : BitVec 8, x.getLsbD 1 = true → x &&& Pte.R.setWidth 8 = Pte.R.setWidth 8 := by decide
  have hrw : ∀ x : BitVec 8, x.getLsbD 1 = true → x.getLsbD 2 = true →
      x &&& (Pte.R.setWidth 8 ||| (Pte.R ||| Pte.W).setWidth 8) =
        Pte.R.setWidth 8 ||| (Pte.R ||| Pte.W).setWidth 8 := by decide
  have hw : ∀ x : BitVec 8, x.getLsbD 1 = true → x.getLsbD 2 = true →
      x &&& (0 ||| (Pte.R ||| Pte.W).setWidth 8) = 0 ||| (Pte.R ||| Pte.W).setWidth 8 := by decide
  simp only [checkPtePerm] at h
  split at h
  · cases h
  · split at h
    · cases h
    · apply decide_eq_true
      cases rwx with
      | exec => simp [ptePermNeeded, hasRead, hasWrite]
      | write =>
        simp only [hasExec, hasWrite, Bool.false_eq_true, if_false, if_true, Bool.and_eq_true] at h
        simp only [ptePermNeeded, hasRead, hasExec, hasWrite, Bool.not_false, Bool.true_and, if_true]
        split
        · exact hrw _ h.1 h.2
        · exact hw _ h.1 h.2
      | read =>
        simp only [hasExec, hasWrite, Bool.false_eq_true, if_false, Bool.or_eq_true, Bool.and_eq_true] at h
        simp only [ptePermNeeded, hasRead, hasExec, hasWrite, Bool.not_false, Bool.true_and, Bool.false_eq_true,
          if_false]
        split
        · rename_i hx
          apply hr
          rcases h with h | h
          · exact h
          · rw [h.1] at hx
            cases hx
        · exact BitVec.and_zero

/-- What the native translation returns from empty TLBs. -/
theorem translateVa_pageAt {cfg : Features} (hmmu : s.mmuMode = 8) (heff : effectiveMode s = some m)
    (hempty : s.TlbsEmpty) (hm : s.satp >>> 60 = satpModeSv39)
    (hp : ∀ a ∈ entriesRead c (satpRootPpn s.satp) va, ∀ isWrite, pmpOk s a 8 isWrite false p = true)
    (hmarks : MarksOnly c (satpRootPpn s.satp) va) :
    (translateVa cfg s c va rwx p).2.2 =
      match (pageAt c (satpRootPpn s.satp) va).filter fun r =>
        checkPtePerm r.perm m s.mstatus (hasWrite rwx) (hasExec rwx) with
      | some r => .ok r
      | none => .error (.pageFault (faultCode (hasExec rwx) (hasWrite rwx))) := by
  have ha := (@translateVa_answer cfg _ c va rwx p _ hmmu heff).1
  rw [hempty.tlbHit] at ha
  rw [ha]
  simp only [walkAnswer, sv39Walk_pageAt hm hp hmarks]
  cases pageAt c (satpRootPpn s.satp) va with
  | none => rfl
  | some r =>
    by_cases hc : checkPtePerm r.perm m s.mstatus (hasWrite rwx) (hasExec rwx) = true
    · rw [Option.filter_some, if_pos (needMet_of_check hc), Option.filter_some, if_pos hc]
      simp only [permChecked, hc, if_true]
    · rw [Option.filter_some, Option.filter_some, if_neg hc]
      by_cases hn : needMet rwx s.mstatus r = true
      · rw [if_pos hn]
        simp only [permChecked, hc, if_false, Bool.false_eq_true]
      · rw [if_neg hn]

theorem translateVa_admitted {cfg : Features} (hmmu : s.mmuMode = 8) (heff : effectiveMode s = some m)
    (hempty : s.TlbsEmpty) (hm : s.satp >>> 60 = satpModeSv39)
    (hp : ∀ a ∈ entriesRead c (satpRootPpn s.satp) va, ∀ isWrite, pmpOk s a 8 isWrite false p = true)
    (hmarks : MarksOnly c (satpRootPpn s.satp) va) (pa : Word) :
    (∃ r, (translateVa cfg s c va rwx p).2.2 = .ok r ∧ r.pa = pa) ↔
      admitted c (satpRootPpn s.satp) va m s.mstatus rwx = some pa := by
  rw [translateVa_pageAt hmmu heff hempty hm hp hmarks, admitted]
  cases (pageAt c (satpRootPpn s.satp) va).filter fun r =>
      checkPtePerm r.perm m s.mstatus (hasWrite rwx) (hasExec rwx) with
  | none => simp
  | some r => simp

theorem native_iff {cfg : Features} (h : WalkSetting s c p va m) (pa : Word) :
    (∃ r, (translateVa cfg s c va rwx p).2.2 = .ok r ∧ r.pa = pa) ↔
      admitted c (satpRootPpn s.satp) va m s.mstatus rwx = some pa :=
  translateVa_admitted h.mmu_mode h.eff_mode h.tlbs_empty h.satp_mode
    (fun a ha isWrite => h.pmp_permits a isWrite (h.native_reads a ha)) (marksOnly_of_inMain h.native_reads) pa

/-- What the Python translation and its check reach. -/
theorem python_iff (h : WalkSetting s c p va m) (nativeMmu : Bool) (pa : Word) :
    (∃ perm, MmuPy.translateVa nativeMmu va s.satp (pteReader c) = some (some (pa, perm)) ∧
      MmuPy.checkPtePerm m perm s.mstatus (hasWrite rwx) (hasExec rwx) = true) ↔
    ((MmuPy.pageOf nativeMmu c (MmuPy.rootPpn s.satp) va).filter fun r =>
      checkPtePerm r.perm m s.mstatus (hasWrite rwx) (hasExec rwx)).map (·.pa) = some pa := by
  rw [MmuPy.translateVa_eq h.satp_mode (h.python_reads nativeMmu)]
  simp only [MmuPy.checkPtePerm_eq]
  cases MmuPy.pageOf nativeMmu c (MmuPy.rootPpn s.satp) va with
  | none => simp
  | some r =>
    by_cases hc : checkPtePerm r.perm m s.mstatus (hasWrite rwx) (hasExec rwx) = true
    · simp only [Option.map_some, Option.some.injEq, Prod.mk.injEq, Option.filter_some, if_pos hc]
      constructor
      · rintro ⟨perm, ⟨hpa, _⟩, _⟩
        exact hpa
      · intro hpa
        exact ⟨r.perm, ⟨hpa, rfl⟩, hc⟩
    · simp only [Option.map_some, Option.some.injEq, Prod.mk.injEq, Option.filter_some, if_neg hc, Option.map_none,
        reduceCtorEq, iff_false, not_exists, not_and]
      rintro perm ⟨_, rfl⟩
      exact hc

end Native


/-! ## Two settings -/

/-- The page of `onePage` behind the second-level entry `entry`. -/
def behindEntry (entry : Word) : World :=
  let w := onePage 0x47 (Pmp.R ||| Pmp.W)
  { w with mem := { w.mem with ram := writeLe w.mem.ram 0x2000 8 entry } }

/-- One entry over all of memory lets both kinds of access through. -/
theorem wholeRegion_permits {a : Word} (ha : a.toNat + 8 < 2 ^ 64) (isWrite : Bool) :
    pmpCheck ⟨fun _ => Pmp.aNapot ||| (Pmp.R ||| Pmp.W), fun _ => BitVec.allOnes 64, 1⟩ a 8 isWrite false .S 0 0 0 =
      true := by
  have hin : addrInRange a 8 0 (BitVec.allOnes 64) = true := by
    have hend : (0 : Word) + BitVec.allOnes 64 - 1 = 0xFFFFFFFFFFFFFFFE := by decide
    have h1 : (0 : Word) ≤ a := BitVec.le_def.mpr (Nat.zero_le _)
    have h2 : a + 8 - 1 ≤ (0xFFFFFFFFFFFFFFFE : Word) := by
      bv_omega
    simp only [addrInRange, hend, h1, decide_true, Bool.true_and]
    rw [if_neg (by decide)]
    exact decide_eq_true h2
  have hregion : PmpCtx.region ⟨fun _ => Pmp.aNapot ||| (Pmp.R ||| Pmp.W), fun _ => BitVec.allOnes 64, 1⟩ 0 =
      some (0, BitVec.allOnes 64) := by decide
  have hperm : checkPerm (Pmp.aNapot ||| (Pmp.R ||| Pmp.W)) isWrite false = true := by
    cases isWrite <;> decide
  have hone : (1 : BitVec 8).toNat = 1 := by decide
  have heff : pmpEffMode .S 0 ≠ .M := by decide
  rw [pmpCheck, if_neg heff, if_neg (by decide), if_neg (by decide)]
  simp only [hone, List.range_one, List.findSome?_cons, PmpCtx.verdict, enclaveSkip, ne_eq, hostMdid,
    not_true_eq_false, false_and, if_false, Nat.not_lt_zero, hregion, hin, if_true, hperm]

theorem behindEntry_permits (entry : Word) {a : Word} (isWrite : Bool)
    (ha : (behindEntry entry).mem.toLayout.InMain a) :
    pmpOk (behindEntry entry).hart a 8 isWrite false (behindEntry entry).pmp = true := by
  have hl : (behindEntry entry).mem.toLayout = ⟨0x80000000, 0x10000, 0, 0⟩ := rfl
  have hend : (0x80000000 : Word) + 0x10000 = 0x80010000 := by decide
  rw [hl] at ha
  simp only [Layout.InMain, hend] at ha
  obtain ⟨hwrap, _, hhi⟩ := ha
  have hbypass : pmpBypass (behindEntry entry).hart false = false := rfl
  have hnum : (behindEntry entry).pmp.num = 1 := rfl
  rw [pmpOk, hnum, if_neg (by decide), hbypass, if_neg Bool.false_ne_true]
  exact wholeRegion_permits (by bv_omega) isWrite

theorem behindEntry_setting {entry : Word} (k : Nat)
    (hpy : ∀ nativeMmu, (MmuPy.translateVa nativeMmu 0x10 (behindEntry entry).hart.satp
      (pteReader (behindEntry entry).mem)).isSome = true)
    (hnative : entriesRead (behindEntry entry).mem (satpRootPpn (behindEntry entry).hart.satp) 0x10 =
      ([0x80001000, 0x80002000, 0x80003000] : List Word).take k) :
    WalkSetting (behindEntry entry).hart (behindEntry entry).mem (behindEntry entry).pmp 0x10 .S where
  satp_mode := (by decide : (0x8000000000080001 : Word) >>> 60 = satpModeSv39)
  mmu_mode := rfl
  eff_mode := rfl
  tlbs_empty := onePage_empty 0x47 (Pmp.R ||| Pmp.W)
  pmp_permits := fun _ isWrite ha => behindEntry_permits entry isWrite ha
  python_reads := hpy
  native_reads := by
    have hl : (behindEntry entry).mem.toLayout = ⟨0x80000000, 0x10000, 0, 0⟩ := rfl
    have hall : ∀ a ∈ ([0x80001000, 0x80002000, 0x80003000] : List Word),
        Layout.InMain ⟨0x80000000, 0x10000, 0, 0⟩ a := by
      simp only [List.forall_mem_cons, List.not_mem_nil, IsEmpty.forall_iff, implies_true, and_true]
      decide
    intro a ha
    rw [hnative] at ha
    rw [hl]
    exact hall a (List.mem_of_mem_take ha)

end Pyremu
