import Pyremu.PageTable

/-!
# What a walk leaves in the tables

A walk should set A in every entry it gets past and D in the leaf of a write, and
nothing in the entry at which it fails. `walk_l2` and `walk_l1` set A before they
know what the entry is for. A leaf that the walk refuses afterwards is marked all
the same, and the write to a 2 MiB leaf with A clear loses D.
-/

namespace Pyremu

open ByteMem

/-! ## Changes of single bits -/

/-- Bit `j` of byte `i` is among the bits `e.2` of the entry at `e.1`. -/
def InPte (l : Layout) (e : Word × Word) (i j : Nat) : Prop :=
  ∃ off, Translate.ramOffset l e.1 8 = some off ∧ i = off.toNat ∧ e.2.getLsbD j = true

/-- Only RAM differs, and there only bits of these entries. -/
structure ChangesOnly (es : List (Word × Word)) (c c' : WalkCtx) : Prop where
  rest : c' = { c with ram := c'.ram }
  bits : ∀ i j, (c'.ram i).getLsbD j ≠ (c.ram i).getLsbD j → ∃ e ∈ es, InPte c.toLayout e i j

namespace ChangesOnly

variable {es es' : List (Word × Word)} {c c' c'' : WalkCtx}

theorem refl (es : List (Word × Word)) (c : WalkCtx) : ChangesOnly es c c :=
  ⟨rfl, fun _ _ h => absurd rfl h⟩

theorem trans (h : ChangesOnly es c c') (h' : ChangesOnly es c' c'') : ChangesOnly es c c'' := by
  have hl : c'.toLayout = c.toLayout := by rw [h.rest]
  refine ⟨by rw [h'.rest, h.rest], fun i j hij => ?_⟩
  by_cases hj : (c'.ram i).getLsbD j = (c.ram i).getLsbD j
  · rw [← hj] at hij
    rw [← hl]
    exact h'.bits i j hij
  · exact h.bits i j hj

/-- The bits of one entry. -/
theorem setPteBits {a d : Word} (c : WalkCtx) (h : (a, d) ∈ es) : ChangesOnly es c (setPteBits c a d) := by
  cases hoff : Translate.ramOffset c.toLayout a 8 with
  | none =>
    simp only [Pyremu.setPteBits, hoff]
    exact refl es c
  | some off =>
    simp only [Pyremu.setPteBits, hoff]
    refine ⟨rfl, fun i j hij => ⟨(a, d), h, off, hoff, ?_⟩⟩
    by_cases hi : i = off.toNat
    · subst hi
      simp only [orByte_same, BitVec.getLsbD_or, BitVec.getLsbD_setWidth] at hij
      refine ⟨rfl, ?_⟩
      by_contra hd
      simp [Bool.eq_false_of_not_eq_true hd] at hij
    · exact absurd (congrArg (fun b => b.getLsbD j) (orByte_other hi)) hij

end ChangesOnly

/-! ## The entries on the way -/

/-- An entry the walk comes to, and the memory it is read from. -/
structure Met where
  mem : WalkCtx
  addr : Word

namespace Met

def raw (m : Met) : Word := readPte m.mem m.addr

def pte (m : Met) : PteFields := pteParse m.raw

/-- The memory once the entry has its A bit. -/
def marked (m : Met) : WalkCtx := setPteBits m.mem m.addr Pte.A

/-- A valid entry that PMP lets the walk read, and mark when it is not. -/
def Passed (m : Met) (s : HartState) (p : PmpCtx) : Prop :=
  pmpOk s m.addr 8 false false p = true ∧ m.pte.v = true ∧
    (m.raw ||| Pte.A = m.raw ∨ pmpOk s m.addr 8 true false p = true)

instance (m : Met) (s : HartState) (p : PmpCtx) : Decidable (m.Passed s p) :=
  inferInstanceAs (Decidable (_ ∧ _ ∧ (_ ∨ _)))

/-- The permission bits the walk insists on are missing. -/
def Lacks (m : Met) (s : HartState) (rwx : Rwx) : Prop :=
  m.pte.perm &&& ptePermNeeded rwx (mxr s.mstatus) ≠ ptePermNeeded rwx (mxr s.mstatus)

/-- The root entry, and the ones below it when these are tables. -/
def root (c : WalkCtx) (satp va : Word) : Met :=
  ⟨c, pteAddr (satpRootPpn satp) (sv39DecomposeVa va).vpn2⟩

def middle (c : WalkCtx) (satp va : Word) : Met :=
  ⟨(root c satp va).marked, pteAddr (root c satp va).pte.ppn (sv39DecomposeVa va).vpn1⟩

def last (c : WalkCtx) (satp va : Word) : Met :=
  ⟨(middle c satp va).marked, pteAddr (middle c satp va).pte.ppn (sv39DecomposeVa va).vpn0⟩

/-- The leaf in the memory as the walk meets it. -/
def leaf (c : WalkCtx) (satp va : Word) : Option PageLeaf :=
  let m2 := root c satp va
  let m1 := middle c satp va
  let m0 := last c satp va
  if satp >>> 60 ≠ satpModeSv39 then none
  else if m2.pte.isPtr = false then none
  else if m1.pte.isLeaf then some ⟨m2.addr, m1.addr, m1.addr, 1⟩
  else if m1.pte.isPtr ∧ m0.pte.isLeaf then some ⟨m2.addr, m1.addr, m0.addr, 0⟩
  else none

/-- The walk comes to the middle entry. -/
def AtMiddle (c : WalkCtx) (s : HartState) (p : PmpCtx) (satp va : Word) : Prop :=
  satp >>> 60 = satpModeSv39 ∧ (root c satp va).Passed s p ∧ (root c satp va).pte.isPtr = true

/-- The middle entry is a 2 MiB leaf, and the walk has marked it. -/
def AtMega (c : WalkCtx) (s : HartState) (p : PmpCtx) (satp va : Word) : Prop :=
  AtMiddle c s p satp va ∧ (middle c satp va).Passed s p ∧ (middle c satp va).pte.isLeaf = true

/-- The walk comes to the last entry. -/
def AtLast (c : WalkCtx) (s : HartState) (p : PmpCtx) (satp va : Word) : Prop :=
  AtMiddle c s p satp va ∧ (middle c satp va).Passed s p ∧ (middle c satp va).pte.isPtr = true

instance (c : WalkCtx) (s : HartState) (p : PmpCtx) (satp va : Word) :
    Decidable (AtMiddle c s p satp va) := inferInstanceAs (Decidable (_ ∧ _ ∧ _))

instance (c : WalkCtx) (s : HartState) (p : PmpCtx) (satp va : Word) :
    Decidable (AtLast c s p satp va) := inferInstanceAs (Decidable (_ ∧ _ ∧ _))

/-- The entries above the one at which a walk ends that fails. -/
def above (c : WalkCtx) (s : HartState) (p : PmpCtx) (satp va : Word) : List Word :=
  if AtLast c s p satp va then [(root c satp va).addr, (middle c satp va).addr]
  else if AtMiddle c s p satp va then [(root c satp va).addr]
  else []

end Met

/-! ## The ends of a walk -/

/-- No mapping. -/
def Refused (r : Except TranslateFault (Option TranslateResult)) : Prop := ∀ t, r ≠ .ok (some t)

section Ends

open Met

variable (c : WalkCtx) (s : HartState) (p : PmpCtx) (satp va : Word) (rwx : Rwx)

/-- Where a walk ends and what it leaves. A `mega` end is at a 2 MiB leaf. -/
inductive WalkEnds : WalkCtx × Except TranslateFault (Option TranslateResult) → Prop
  | rootStuck (h : ¬ (satp >>> 60 = satpModeSv39 ∧ (root c satp va).Passed s p)) {r} (hr : Refused r) : WalkEnds (c, r)
  | rootLeaf (hm : satp >>> 60 = satpModeSv39) (h : (root c satp va).Passed s p)
      (hl : (root c satp va).pte.isLeaf = true) : WalkEnds ((root c satp va).marked, .ok none)
  | middleStuck (h : AtMiddle c s p satp va) (h1 : ¬ (middle c satp va).Passed s p) {r}
      (hr : Refused r) : WalkEnds ((root c satp va).marked, r)
  | megaRefused (h : AtMega c s p satp va) (hperm : (middle c satp va).Lacks s rwx) :
      WalkEnds ((middle c satp va).marked, .ok none)
  | megaClear (h : AtMega c s p satp va) (hperm : ¬ (middle c satp va).Lacks s rwx)
      (hA : (middle c satp va).raw ||| Pte.A ≠ (middle c satp va).raw) (t : TranslateResult) :
      WalkEnds ((middle c satp va).marked, .ok (some t))
  | megaDone (h : AtMega c s p satp va) (hperm : ¬ (middle c satp va).Lacks s rwx)
      (hA : (middle c satp va).raw ||| Pte.A = (middle c satp va).raw) (t : TranslateResult) :
      WalkEnds (setPteBits (middle c satp va).marked (middle c satp va).addr (adBits rwx), .ok (some t))
  | megaStuck (h : AtMega c s p satp va) (hperm : ¬ (middle c satp va).Lacks s rwx)
      (hA : (middle c satp va).raw ||| Pte.A = (middle c satp va).raw) {r} (hr : Refused r) :
      WalkEnds ((middle c satp va).marked, r)
  | lastStuck (h : AtLast c s p satp va) {r} (hr : Refused r) : WalkEnds ((middle c satp va).marked, r)
  | lastDone (h : AtLast c s p satp va) (hl : (last c satp va).pte.isLeaf = true) (t : TranslateResult) :
      WalkEnds (setPteBits (middle c satp va).marked (last c satp va).addr (adBits rwx), .ok (some t))

variable {c s p satp va rwx}

theorem refused_none : Refused (.ok none) := fun _ h => by cases h

theorem refused_error (e : TranslateFault) : Refused (.error e) := fun _ h => by cases h

/-- One level: the entry is passed and marked, or nothing is written. -/
theorem walkLevel_met (c : WalkCtx) (s : HartState) (p : PmpCtx) (ppn idx : Word) :
    let m : Met := ⟨c, pteAddr ppn idx⟩
    (m.Passed s p ∧ walkLevel c s p ppn idx = (m.marked, .ok (some (m.raw, m.pte)))) ∨
      (¬ m.Passed s p ∧ (walkLevel c s p ppn idx = (c, .error .accessFault) ∨
        walkLevel c s p ppn idx = (c, .ok none))) := by
  rw [walkLevel_eq]
  dsimp only [Met.Passed, Met.raw, Met.pte, Met.marked]
  by_cases hr : pmpOk s (pteAddr ppn idx) 8 false false p = false
  · rw [if_pos hr]
    exact .inr ⟨fun h => by simp [hr] at h, .inl rfl⟩
  · rw [if_neg hr]
    by_cases hv : (pteParse (readPte c (pteAddr ppn idx))).v = false
    · rw [if_pos hv]
      exact .inr ⟨fun h => by simp [hv] at h, .inr rfl⟩
    · rw [if_neg hv]
      by_cases hw : readPte c (pteAddr ppn idx) ||| Pte.A = readPte c (pteAddr ppn idx) ∨
          pmpOk s (pteAddr ppn idx) 8 true false p = true
      · rw [if_pos hw]
        exact .inl ⟨⟨by simpa using hr, by simpa using hv, hw⟩, rfl⟩
      · rw [if_neg hw]
        exact .inr ⟨fun h => hw h.2.2, .inl rfl⟩

theorem met_usable {m : Met} (h : m.pte.v = true) : readPte m.mem m.addr ≠ 0 := usable_ne_zero h

theorem met_isPtr_iff {m : Met} (h : m.pte.v = true) : m.pte.isPtr = true ↔ m.pte.isLeaf = false := by
  have hk : m.pte.isPtr = (m.pte.v && !m.pte.isLeaf) := pteParse_kind m.raw
  rw [hk, h, Bool.true_and, Bool.not_eq_true']

theorem mega_ends (h : AtMega c s p satp va) :
    WalkEnds c s p satp va rwx
      (walkL1Leaf (middle c satp va).marked s p (middle c satp va).addr (middle c satp va).raw
        (middle c satp va).pte.ppn (middle c satp va).pte.perm (sv39DecomposeVa va).vpn0
        (sv39DecomposeVa va).offset rwx) := by
  obtain ⟨hr, hv, hw⟩ := h.2.1
  have hcur : readPte (middle c satp va).marked (middle c satp va).addr =
      (middle c satp va).raw ||| Pte.A := readPte_setPteBits (met_usable hv) pteA_low
  rw [Met.pte, walkL1Leaf_eq h.2.2 hcur hr hw]
  dsimp only
  split
  · rename_i hperm
    exact .megaRefused h hperm
  · rename_i hperm
    by_cases hA : (middle c satp va).raw ||| Pte.A = (middle c satp va).raw
    · rw [if_neg (not_not.mpr hA)]
      split
      · exact .megaDone h hperm hA _
      · exact .megaStuck h hperm hA (refused_error _)
    · rw [if_pos hA]
      exact .megaClear h hperm hA _

theorem last_ends (h : AtLast c s p satp va) :
    WalkEnds c s p satp va rwx
      (walkL0 (middle c satp va).marked s p (middle c satp va).pte.ppn (sv39DecomposeVa va).vpn0
        (sv39DecomposeVa va).offset rwx) := by
  rw [walkL0_eq]
  dsimp only
  split
  · exact .lastStuck h (refused_error _)
  · split
    · exact .lastStuck h refused_none
    · rename_i hok
      split
      · have hl : (last c satp va).pte.isLeaf = true := by
          by_contra hn
          exact hok (.inl (Bool.eq_false_of_not_eq_true hn))
        exact .lastDone h hl _
      · exact .lastStuck h (refused_error _)

variable (c s p satp va rwx)

theorem walk_ends : WalkEnds c s p satp va rwx (sv39Walk c s p satp va rwx) := by
  have nextLevel := walkLevel_met c s p (satpRootPpn satp) (sv39DecomposeVa va).vpn2
  simp only [sv39Walk, walkL2, walkL1]
  by_cases hm : satp >>> 60 = satpModeSv39
  · rw [if_neg (not_not.mpr hm)]
    obtain ⟨h2, heq⟩ | ⟨h2, heq | heq⟩ := nextLevel
    · rw [heq]
      dsimp only
      by_cases hp : (root c satp va).pte.isPtr = true
      · have hmid : AtMiddle c s p satp va := ⟨hm, h2, hp⟩
        have hroot : (⟨c, pteAddr (satpRootPpn satp) (sv39DecomposeVa va).vpn2⟩ : Met) = root c satp va := rfl
        rw [hroot, hp, Bool.not_true, if_neg Bool.false_ne_true]
        obtain ⟨h1, heq1⟩ | ⟨h1, heq1 | heq1⟩ :=
          walkLevel_met (root c satp va).marked s p (root c satp va).pte.ppn (sv39DecomposeVa va).vpn1
        · rw [heq1]
          dsimp only
          by_cases hl : (middle c satp va).pte.isLeaf = true
          · exact (if_pos hl).symm ▸ mega_ends ⟨hmid, h1, hl⟩
          · have hp1 := (met_isPtr_iff h1.2.1).mpr (Bool.eq_false_of_not_eq_true hl)
            exact (if_neg hl).symm ▸ last_ends ⟨hmid, h1, hp1⟩
        · rw [heq1]
          exact .middleStuck hmid h1 (refused_error _)
        · rw [heq1]
          exact .middleStuck hmid h1 refused_none
      · have hl : (root c satp va).pte.isLeaf = true := by
          by_contra hn
          exact hp ((met_isPtr_iff h2.2.1).mpr (Bool.eq_false_of_not_eq_true hn))
        have hnp : (!(root c satp va).pte.isPtr) = true := by simpa using hp
        exact (if_pos hnp).symm ▸ WalkEnds.rootLeaf hm h2 hl
    · rw [heq]
      exact .rootStuck (fun h => h2 h.2) (refused_error _)
    · rw [heq]
      exact .rootStuck (fun h => h2 h.2) refused_none
  · rw [if_pos hm]
    exact .rootStuck (fun h => hm h.1) refused_none

/-! ## What it should leave -/

/-- A mapping is found with A on the whole path and D in the leaf of a write, and nothing else
changes; a failure leaves at most A above the entry it happens at. -/
structure AdExact (r : WalkCtx × Except TranslateFault (Option TranslateResult)) : Prop where
  found : ∀ t, r.2 = .ok (some t) → ∃ l, Met.leaf c satp va = some l ∧ l.Accessed r.1 ∧
    (hasWrite rwx = true → l.Dirty r.1) ∧
    ChangesOnly [(l.l2, Pte.A), (l.l1, Pte.A), (l.addr, adBits rwx)] c r.1
  failed : Refused r.2 → ChangesOnly ((above c s p satp va).map fun a => (a, Pte.A)) c r.1

/-- A has been set before in a 1 GiB leaf, and in a 2 MiB leaf that is refused or that a write
finds with D clear. -/
structure MarkedBefore : Prop where
  giga : satp >>> 60 = satpModeSv39 → (root c satp va).Passed s p → (root c satp va).pte.isLeaf = true →
    (root c satp va).raw ||| Pte.A = (root c satp va).raw
  mega : AtMega c s p satp va → (middle c satp va).raw ||| Pte.A = (middle c satp va).raw ∨
    ¬ (middle c satp va).Lacks s rwx ∧ (hasWrite rwx = true → (middle c satp va).raw.getLsbD 7 = true)

variable {c s p satp va rwx}

theorem root_not_leaf (h : AtMiddle c s p satp va) : (root c satp va).pte.isLeaf = false :=
  (met_isPtr_iff h.2.1.2.1).mp h.2.2

theorem mega_not_atLast (h : AtMega c s p satp va) : ¬ AtLast c s p satp va := fun hl => by
  have hleaf := (met_isPtr_iff h.2.1.2.1).mp hl.2.2
  rw [h.2.2] at hleaf
  cases hleaf

theorem marked_raw {m : Met} (h : m.pte.v = true) : readPte m.marked m.addr = m.raw ||| Pte.A :=
  readPte_setPteBits (met_usable h) pteA_low

/-- With A set before, marking changes nothing. -/
theorem marked_of_set {m : Met} (h : m.pte.v = true) (hA : m.raw ||| Pte.A = m.raw) : m.marked = m.mem :=
  setPteBits_of_set (met_usable h) pteA_low hA

/-- With A clear, marking sets a bit of RAM. -/
theorem marked_changes {m : Met} (h : m.pte.v = true) (hA : m.raw ||| Pte.A ≠ m.raw) :
    ∃ off, Translate.ramOffset m.mem.toLayout m.addr 8 = some off ∧
      (m.mem.ram off.toNat).getLsbD 6 = false ∧ (m.marked.ram off.toNat).getLsbD 6 = true := by
  obtain ⟨off, hoff⟩ := ramOffset_of_readPte (met_usable h)
  have hbit : (m.mem.ram off.toNat).getLsbD 6 = false := by
    have hraw : m.raw.getLsbD 6 = false := by
      rw [← and_A_eq_zero]
      exact not_not.mp (mt or_A_iff.mpr hA)
    rw [Met.raw, readPte_eq hoff, getLsbD_readLe] at hraw
    simpa using hraw
  refine ⟨off, hoff, hbit, ?_⟩
  simp only [Met.marked, setPteBits, hoff, orByte_same, BitVec.getLsbD_or, hbit, Bool.false_or]
  decide

theorem root_marked_frame : RamFrame c (root c satp va).marked :=
  .setPteBits c (pteAddr_aligned _ _) .read

theorem middle_marked_frame : RamFrame (root c satp va).marked (middle c satp va).marked :=
  .setPteBits _ (pteAddr_aligned _ _) .read

/-- The marks of both tables. -/
theorem middle_marked_changes (es : List (Word × Word)) (h2 : ((root c satp va).addr, Pte.A) ∈ es)
    (h1 : ((middle c satp va).addr, Pte.A) ∈ es) : ChangesOnly es c (middle c satp va).marked :=
  (ChangesOnly.setPteBits c h2).trans (.setPteBits _ h1)

/-- A mark of the middle entry is none of the root entry. -/
theorem middle_mark_visible (h : AtMiddle c s p satp va) (hv : (middle c satp va).pte.v = true)
    (hA : (middle c satp va).raw ||| Pte.A ≠ (middle c satp va).raw) :
    ¬ ChangesOnly [((root c satp va).addr, Pte.A)] c (middle c satp va).marked := by
  intro hc
  obtain ⟨off, hoff, hclear, hset⟩ := marked_changes hv hA
  have hbefore : (c.ram off.toNat).getLsbD 6 = false := by
    by_contra hb
    have hgrown : ((root c satp va).marked.ram off.toNat).getLsbD 6 = true :=
      root_marked_frame.grows _ _ (Bool.eq_true_of_not_eq_false hb)
    exact Bool.noConfusion (hclear.symm.trans hgrown)
  obtain ⟨e, he, off2, hoff2, hsame, _⟩ := hc.bits off.toNat 6 (by rw [hset, hbefore]; decide)
  rw [List.mem_singleton.mp he] at hoff2
  have hmark : ((root c satp va).marked.ram off.toNat).getLsbD 6 = true := by
    rw [hsame]
    simp only [Met.marked, setPteBits, root] at hoff2 ⊢
    simp only [hoff2, orByte_same, BitVec.getLsbD_or]
    rw [show ((Pte.A).setWidth 8).getLsbD 6 = true by decide, Bool.or_true]
  exact Bool.noConfusion (hclear.symm.trans hmark)

theorem adBits_A (rwx : Rwx) : (adBits rwx).getLsbD 6 = true := by
  cases rwx <;> decide

theorem adBits_D (h : hasWrite rwx = true) : (adBits rwx).getLsbD 7 = true := by
  rw [adBits, if_pos h]
  decide

/-- A on a path whose tables are marked, for the leaf at `a`. -/
theorem path_accessed (h : AtMiddle c s p satp va) (h1 : (middle c satp va).Passed s p) {c' : WalkCtx}
    (hf : RamFrame (middle c satp va).marked c') {a : Word} {level : BitVec 8}
    (ha : readPte c' a ||| Pte.A = readPte c' a) :
    PageLeaf.Accessed c' ⟨(root c satp va).addr, (middle c satp va).addr, a, level⟩ := by
  intro b hb
  simp only [PageLeaf.path, List.mem_cons, List.not_mem_nil, or_false] at hb
  obtain rfl | rfl | rfl := hb
  · exact accessed_after (met_usable h.2.1.2.1) pteA_low (by decide) (middle_marked_frame.trans hf)
  · exact accessed_after (met_usable h1.2.1) pteA_low (by decide) hf
  · exact ha

theorem leaf_mega (h : AtMega c s p satp va) :
    Met.leaf c satp va = some ⟨(root c satp va).addr, (middle c satp va).addr, (middle c satp va).addr, 1⟩ := by
  simp only [Met.leaf]
  rw [if_neg (not_not.mpr h.1.1), if_neg (by rw [h.1.2.2]; decide), if_pos h.2.2]

theorem leaf_last (h : AtLast c s p satp va) (hl : (last c satp va).pte.isLeaf = true) :
    Met.leaf c satp va = some ⟨(root c satp va).addr, (middle c satp va).addr, (last c satp va).addr, 0⟩ := by
  have hnl : ¬ (middle c satp va).pte.isLeaf = true := by
    rw [(met_isPtr_iff h.2.1.2.1).mp h.2.2]
    decide
  simp only [Met.leaf]
  rw [if_neg (not_not.mpr h.1.1), if_neg (by rw [h.1.2.2]; decide), if_neg hnl, if_pos ⟨h.2.2, hl⟩]

/-- The mapping of a leaf that has its bits. -/
theorem adExact_found {c' : WalkCtx} {t : TranslateResult} {l : PageLeaf} (hl : Met.leaf c satp va = some l)
    (hA : l.Accessed c') (hc : ChangesOnly [(l.l2, Pte.A), (l.l1, Pte.A), (l.addr, adBits rwx)] c c') :
    AdExact c s p satp va rwx (c', .ok (some t)) ↔ (hasWrite rwx = true → l.Dirty c') := by
  constructor
  · intro h
    obtain ⟨l', hl', _, hD, _⟩ := h.found t rfl
    rw [hl] at hl'
    cases hl'
    exact hD
  · intro hD
    exact ⟨fun _ _ => ⟨l, hl, hA, hD, hc⟩, fun hr => absurd rfl (hr t)⟩

theorem adExact_failed {c' : WalkCtx} {r : Except TranslateFault (Option TranslateResult)} (hr : Refused r) :
    AdExact c s p satp va rwx (c', r) ↔
      ChangesOnly ((above c s p satp va).map fun a => (a, Pte.A)) c c' :=
  ⟨fun h => h.failed hr, fun h => ⟨fun t ht => absurd ht (hr t), fun _ => h⟩⟩

theorem above_middle (h : AtMiddle c s p satp va) (hn : ¬ AtLast c s p satp va) :
    above c s p satp va = [(root c satp va).addr] := by
  rw [above, if_neg hn, if_pos h]

/-- A table at the root leaves the condition to the middle entry. -/
theorem markedBefore_iff (h : AtMiddle c s p satp va) : MarkedBefore c s p satp va rwx ↔
    (AtMega c s p satp va → (middle c satp va).raw ||| Pte.A = (middle c satp va).raw ∨
      ¬ (middle c satp va).Lacks s rwx ∧ (hasWrite rwx = true → (middle c satp va).raw.getLsbD 7 = true)) := by
  refine ⟨fun hm => hm.mega, fun hm => ⟨fun _ _ hl => ?_, hm⟩⟩
  rw [root_not_leaf h] at hl
  cases hl

/-- A walk keeps A and D exactly when no leaf is marked too early. -/
theorem adExact_iff_of_ends {r : WalkCtx × Except TranslateFault (Option TranslateResult)}
    (h : WalkEnds c s p satp va rwx r) :
    AdExact c s p satp va rwx r ↔ MarkedBefore c s p satp va rwx := by
  cases h with
  | rootStuck h hr =>
    rw [adExact_failed hr]
    refine iff_of_true (.refl _ _) ⟨fun hm h2 => absurd ⟨hm, h2⟩ h, fun hmega => ?_⟩
    exact absurd ⟨hmega.1.1, hmega.1.2.1⟩ h
  | rootLeaf hm h2 hl =>
    have hnot : ¬ AtMiddle c s p satp va := fun h => by
      rw [root_not_leaf h] at hl
      cases hl
    rw [adExact_failed refused_none, above, if_neg (fun h => hnot h.1), if_neg hnot, List.map_nil]
    constructor
    · intro hc
      refine ⟨fun _ _ _ => ?_, fun hmega => absurd hmega.1 hnot⟩
      by_contra hA
      obtain ⟨off, _, hclear, hset⟩ := marked_changes h2.2.1 hA
      have hclear : (c.ram off.toNat).getLsbD 6 = false := hclear
      obtain ⟨e, he, _⟩ := hc.bits off.toNat 6 (by rw [hset, hclear]; decide)
      exact absurd he List.not_mem_nil
    · intro hb
      rw [marked_of_set h2.2.1 (hb.giga hm h2 hl)]
      exact .refl _ _
  | middleStuck h h1 hr =>
    rw [adExact_failed hr, above_middle h (fun hl => h1 hl.2.1), markedBefore_iff h]
    exact iff_of_true (.setPteBits c (List.mem_singleton.mpr rfl)) fun hmega => absurd hmega.2.1 h1
  | megaRefused h hperm =>
    rw [adExact_failed refused_none, above_middle h.1 (mega_not_atLast h), markedBefore_iff h.1]
    constructor
    · intro hc
      by_contra hno
      have hA : (middle c satp va).raw ||| Pte.A ≠ (middle c satp va).raw := fun hA => hno fun _ => .inl hA
      exact middle_mark_visible h.1 h.2.1.2.1 hA hc
    · intro hb
      have hA := (hb h).resolve_right fun hn => hn.1 hperm
      rw [marked_of_set h.2.1.2.1 hA]
      exact .setPteBits c (List.mem_singleton.mpr rfl)
  | megaClear h hperm hA t =>
    have hset : readPte (middle c satp va).marked (middle c satp va).addr ||| Pte.A =
        readPte (middle c satp va).marked (middle c satp va).addr :=
      accessed_after (met_usable h.2.1.2.1) pteA_low (by decide) (.refl _)
    have hdirty : PageLeaf.Dirty (middle c satp va).marked
        ⟨(root c satp va).addr, (middle c satp va).addr, (middle c satp va).addr, 1⟩ ↔
        (middle c satp va).raw.getLsbD 7 = true := by
      rw [PageLeaf.Dirty, marked_raw h.2.1.2.1, BitVec.getLsbD_or, show Pte.A.getLsbD 7 = false by decide,
        Bool.or_false]
    rw [adExact_found (leaf_mega h) (path_accessed h.1 h.2.1 (.refl _) hset)
      (middle_marked_changes _ (by simp) (by simp)), hdirty, markedBefore_iff h.1]
    constructor
    · intro hD _
      exact .inr ⟨hperm, hD⟩
    · intro hb
      exact ((hb h).resolve_left hA).2
  | megaDone h hperm hA t =>
    have h0 : readPte (middle c satp va).marked (middle c satp va).addr ≠ 0 := by
      rw [marked_raw h.2.1.2.1, hA]
      exact met_usable h.2.1.2.1
    have hal : RamFrame (middle c satp va).marked
        (setPteBits (middle c satp va).marked (middle c satp va).addr (adBits rwx)) :=
      .setPteBits _ (pteAddr_aligned _ _) rwx
    have hset := accessed_after h0 (adBits_low rwx) (adBits_A rwx) (.refl _)
    rw [adExact_found (leaf_mega h) (path_accessed h.1 h.2.1 hal hset)
      ((middle_marked_changes _ (by simp) (by simp)).trans (.setPteBits _ (by simp))), markedBefore_iff h.1]
    refine iff_of_true (fun hw => ?_) fun _ => .inl hA
    rw [PageLeaf.Dirty, readPte_setPteBits h0 (adBits_low rwx), BitVec.getLsbD_or, adBits_D hw, Bool.or_true]
  | megaStuck h hperm hA hr =>
    rw [adExact_failed hr, above_middle h.1 (mega_not_atLast h), markedBefore_iff h.1,
      marked_of_set h.2.1.2.1 hA]
    exact iff_of_true (.setPteBits c (List.mem_singleton.mpr rfl)) fun _ => .inl hA
  | lastStuck h hr =>
    rw [adExact_failed hr, above, if_pos h, markedBefore_iff h.1]
    exact iff_of_true (middle_marked_changes _ (by simp) (by simp)) fun hmega =>
      absurd h (mega_not_atLast hmega)
  | lastDone h hl t =>
    have h0 : readPte (middle c satp va).marked (last c satp va).addr ≠ 0 := usable_ne_zero (leaf_valid hl)
    have hal : RamFrame (middle c satp va).marked
        (setPteBits (middle c satp va).marked (last c satp va).addr (adBits rwx)) :=
      .setPteBits _ (pteAddr_aligned _ _) rwx
    have hset := accessed_after h0 (adBits_low rwx) (adBits_A rwx) (.refl _)
    rw [adExact_found (leaf_last h hl) (path_accessed h.1 h.2.1 hal hset)
      ((middle_marked_changes _ (by simp) (by simp)).trans (.setPteBits _ (by simp))), markedBefore_iff h.1]
    refine iff_of_true (fun hw => ?_) fun hmega => absurd h (mega_not_atLast hmega)
    rw [PageLeaf.Dirty, readPte_setPteBits h0 (adBits_low rwx), BitVec.getLsbD_or, adBits_D hw, Bool.or_true]

/-- For every memory, request and PMP table. -/
theorem walk_bits_exact_iff (c : WalkCtx) (s : HartState) (p : PmpCtx) (satp va : Word) (rwx : Rwx) :
    AdExact c s p satp va rwx (sv39Walk c s p satp va rwx) ↔ MarkedBefore c s p satp va rwx :=
  adExact_iff_of_ends (walk_ends c s p satp va rwx)

end Ends

/-- A root table at `0x80001000` over a 2 MiB page at address zero, with A and D clear in its leaf. -/
def megaPage : WalkCtx :=
  let c := (World.zeroed ⟨0x80000000, 0x10000, 0, 0⟩).mem
  { c with ram := writeLe (writeLe c.ram 0x1000 8 0x20000841) 0x2000 8 0x20080007 }

/-- The write is translated, and D stays clear in the leaf. -/
theorem mega_write_loses_dirty :
    (∃ t, (sv39Walk megaPage .zeroed ⟨fun _ => 0, fun _ => 0, 0⟩ 0x8000000000080001 0x10 .write).2 =
        .ok (some t)) ∧
      ¬ AdExact megaPage .zeroed ⟨fun _ => 0, fun _ => 0, 0⟩ 0x8000000000080001 0x10 .write
        (sv39Walk megaPage .zeroed ⟨fun _ => 0, fun _ => 0, 0⟩ 0x8000000000080001 0x10 .write) := by
  refine ⟨⟨⟨0x80200010, 6, 1⟩, by decide +kernel⟩, fun h => ?_⟩
  obtain ⟨l, hl, _, hD, _⟩ := h.found ⟨0x80200010, 6, 1⟩ (by decide +kernel)
  have hleaf : Met.leaf megaPage 0x8000000000080001 0x10 = some ⟨0x80001000, 0x80002000, 0x80002000, 1⟩ := by
    decide +kernel
  rw [hleaf] at hl
  cases hl
  have hd := hD rfl
  rw [PageLeaf.Dirty] at hd
  revert hd
  decide +kernel

end Pyremu
