import Pyremu.Sittim.Paging
import Pyremu.Lib.Bits

/-!
# What the page tables map

The leaf that covers an address is the view of a radix tree. Each function that
changes entries is described by what it does to the leaves: installing, clearing
and rewriting touch the addresses under one entry, splitting keeps them.
-/

namespace Pyremu.Sittim

open Radix

/-- The table that a pointer entry leads to. -/
def Pte.child (pte : Word) : Option Word :=
  if Pte.isValid pte && !Pte.isLeaf pte then some (Pte.ppn pte <<< 12) else none

/-- The indices that a walk for `va` uses. -/
def vpns (va : Word) : List (Fin 512) := (List.range 3).map (getVpn va)

/-- Both addresses use the same entry at `level`. -/
def SameEntry (level : Nat) (va va' : Word) : Prop := ∀ i ≤ level, getVpn va i = getVpn va' i

instance (level : Nat) (va va' : Word) : Decidable (SameEntry level va va') :=
  inferInstanceAs (Decidable (∀ i ≤ level, _))

namespace Pte

theorem child_of_leaf {pte : Word} (h : isLeaf pte = true) : child pte = none := by
  rw [child, h, Bool.not_true, Bool.and_false]
  rfl

theorem child_of_invalid {pte : Word} (h : isValid pte = false) : child pte = none := by
  rw [child, h, Bool.false_and]
  rfl

theorem child_of_pointer {pte : Word} (hv : isValid pte = true) (hl : isLeaf pte = false) :
    child pte = some (ppn pte <<< 12) := by
  rw [child, hv, hl]
  rfl

theorem valid_of_child {pte : Word} (h : child pte ≠ none) : isValid pte = true := by
  cases hv : isValid pte with
  | true => rfl
  | false => exact absurd (child_of_invalid hv) h

/-- The flags give a leaf at every level. -/
def LeafFlags (flags : Word) : Prop := flags &&& (Pte.R ||| Pte.W ||| Pte.X ||| Pte.U) ≠ 0

end Pte

/-! ## Words of entries -/

namespace Pte

/-- A page number with flags below it. -/
def entry (ppn flags : Word) : Word := ((ppn &&& 0xfffffffff) <<< 10) ||| flags

section Entry

variable {p f : Word}

theorem toNat_and_ppn_mask (p : Word) : (p &&& 0xfffffffff).toNat = p.toNat % 2 ^ 36 :=
  BitFields.toNat_and_mask rfl

theorem ppn_mask_fits (p : Word) : (p &&& 0xfffffffff).toNat * 2 ^ 10 < 2 ^ 64 := by
  rw [toNat_and_ppn_mask]
  have hlt : p.toNat % 2 ^ 36 < 2 ^ 36 := Nat.mod_lt _ (by decide)
  omega

theorem toNat_entry (p : Word) (hf : f.toNat < 2 ^ 10) :
    (entry p f).toNat = p.toNat % 2 ^ 36 * 2 ^ 10 + f.toNat := by
  rw [entry, BitFields.toNat_shiftLeft_or (ppn_mask_fits p) hf, toNat_and_ppn_mask]

theorem toNat_entry_lt (p : Word) (hf : f.toNat < 2 ^ 10) : (entry p f).toNat < 2 ^ 46 := by
  rw [toNat_entry p hf]
  have hlt : p.toNat % 2 ^ 36 < 2 ^ 36 := Nat.mod_lt _ (by decide)
  omega

theorem ppn_entry (p : Word) (hf : f.toNat < 2 ^ 10) : ppn (entry p f) = p &&& 0xfffffffff := by
  rw [ppn, entry, BitFields.shiftLeft_or_ushiftRight (ppn_mask_fits p) hf, BitVec.and_assoc]
  rfl

theorem entry_and (p f : Word) {m : Word} (hm : m.toNat < 2 ^ 10) : entry p f &&& m = f &&& m :=
  BitFields.shiftLeft_or_and hm

theorem isValid_entry (p f : Word) : isValid (entry p f) = isValid f := by
  rw [isValid, isValid, entry_and p f (by decide)]

theorem isLeaf_entry (p f : Word) : isLeaf (entry p f) = isLeaf f := by
  rw [isLeaf, isLeaf, entry_and p f (by decide)]

theorem meets_or (x y m : Word) :
    decide ((x ||| y) &&& m ≠ 0) = (decide (x &&& m ≠ 0) || decide (y &&& m ≠ 0)) := by
  rw [Bool.eq_iff_iff, Bool.or_eq_true, decide_eq_true_iff, decide_eq_true_iff, decide_eq_true_iff,
    BitVec.and_or_distrib_right, ← not_and_or, not_iff_not]
  exact BitVec.or_eq_zero_iff

theorem isValid_or (x y : Word) : isValid (x ||| y) = (isValid x || isValid y) := meets_or x y _

theorem isLeaf_or (x y : Word) : isLeaf (x ||| y) = (isLeaf x || isLeaf y) := meets_or x y _

theorem or_lt_flags {x y : Word} (hx : x.toNat < 2 ^ 10) (hy : y.toNat < 2 ^ 10) :
    (x ||| y).toNat < 2 ^ 10 := by
  rw [BitVec.toNat_or]
  exact Nat.or_lt_two_pow hx hy

theorem and_lt_flags (x : Word) {m : Word} (hm : m.toNat < 2 ^ 10) : (x &&& m).toNat < 2 ^ 10 := by
  rw [BitVec.toNat_and]
  exact Nat.lt_of_le_of_lt Nat.and_le_right hm

theorem setPpn_zero (p : Word) : setPpn 0 p = (p &&& 0xfffffffff) <<< 10 := by
  simp [setPpn]

end Entry

end Pte

/-- What `map_page` and `set_leaf_flags` add to the flags. -/
def leafFlags (flags : Word) : Word := flags ||| (Pte.A ||| Pte.D) ||| Pte.V

/-- The entry that `map_page` writes. -/
def leafEntry (pa flags : Word) : Word := Pte.entry (pa >>> 12) (leafFlags flags)

/-- The entry that `set_leaf_flags` writes in the place of `pte`. -/
def reflaggedEntry (pte flags : Word) : Word :=
  Pte.entry (Pte.ppn pte) (leafFlags flags ||| (pte &&& PTE_RSW_MASK))

namespace Space

variable {M : Manager} {s : Space}

/-- The leaf that covers `va` under a root, with its level. -/
def leaf (s : Space) (root va : Word) : Option (Nat × Word) :=
  view Pte.child Pte.isValid s.mem root (vpns va)

/-! ## The lookups -/

section Walk

variable {last : Bool} {va t : Word} {i : Nat} {is : List Nat}

theorem walkFrom_absent (hv : Pte.isValid (s.mem t (getVpn va i)) = false) :
    s.walkFrom last va (i :: is) t = none := by
  rw [walkFrom]
  exact if_pos (congrArg not hv)

theorem walkFrom_leaf (hv : Pte.isValid (s.mem t (getVpn va i)) = true)
    (hl : (Pte.isLeaf (s.mem t (getVpn va i)) || (last && i == 2)) = true) :
    s.walkFrom last va (i :: is) t = some (i, s.mem t (getVpn va i)) := by
  rw [walkFrom]
  simp only [pte, hv, hl, Bool.not_true, Bool.false_eq_true, if_false, if_true]

theorem walkFrom_down (hv : Pte.isValid (s.mem t (getVpn va i)) = true)
    (hl : (Pte.isLeaf (s.mem t (getVpn va i)) || (last && i == 2)) = false) :
    s.walkFrom last va (i :: is) t = s.walkFrom last va is (Pte.ppn (s.mem t (getVpn va i)) <<< 12) := by
  rw [walkFrom]
  simp only [pte, hv, hl, Bool.not_true, Bool.false_eq_true, if_false]

end Walk

theorem vpns_eq (va : Word) : vpns va = [getVpn va 0, getVpn va 1, getVpn va 2] := rfl

/-- The three walks end at the leaf; one of them does not take a last entry without leaf bits. -/
theorem walkFrom_eq (s : Space) (last : Bool) (root va : Word) :
    s.walkFrom last va [0, 1, 2] root = (s.leaf root va).filter fun r => last || Pte.isLeaf r.2 := by
  rw [leaf, vpns_eq]
  cases hv : Pte.isValid (s.mem root (getVpn va 0)) with
  | false => rw [walkFrom_absent hv, view_absent hv]; rfl
  | true =>
    cases hl : Pte.isLeaf (s.mem root (getVpn va 0)) with
    | true =>
      rw [walkFrom_leaf hv (by simp [hl]), view_last hv (.inl (Pte.child_of_leaf hl))]
      simp [Option.filter, hl]
    | false =>
      rw [walkFrom_down hv (by simp [hl]), view_down hv (Pte.child_of_pointer hv hl) (by simp)]
      generalize Pte.ppn (s.mem root (getVpn va 0)) <<< 12 = t
      cases hv : Pte.isValid (s.mem t (getVpn va 1)) with
      | false => rw [walkFrom_absent hv, view_absent hv]; rfl
      | true =>
        cases hl : Pte.isLeaf (s.mem t (getVpn va 1)) with
        | true =>
          rw [walkFrom_leaf hv (by simp [hl]), view_last hv (.inl (Pte.child_of_leaf hl))]
          simp [Option.filter, hl]
        | false =>
          rw [walkFrom_down hv (by simp [hl]), view_down hv (Pte.child_of_pointer hv hl) (by simp)]
          generalize Pte.ppn (s.mem t (getVpn va 1)) <<< 12 = t
          cases hv : Pte.isValid (s.mem t (getVpn va 2)) with
          | false => rw [walkFrom_absent hv, view_absent hv]; rfl
          | true =>
            rw [view_last hv (.inr rfl)]
            cases hl : Pte.isLeaf (s.mem t (getVpn va 2)) || last with
            | true =>
              rw [Bool.or_comm] at hl
              rw [walkFrom_leaf hv (by simpa [Bool.or_comm] using hl)]
              simp [Option.filter, hl]
            | false =>
              rw [walkFrom_down hv (by simpa using hl), walkFrom]
              rw [Bool.or_comm] at hl
              simp [Option.filter, hl]

theorem walkFrom_true (s : Space) (root va : Word) :
    s.walkFrom true va [0, 1, 2] root = s.leaf root va := by
  rw [walkFrom_eq]
  cases s.leaf root va <;> rfl

theorem vaRealPageLevel_eq (s : Space) {va : Word} (h : isCanonicalVa va = true) :
    s.vaRealPageLevel va = (s.leaf s.root va).map Prod.fst := by
  rw [vaRealPageLevel, h, ← walkFrom_true]
  rfl

theorem leafPteFlags_eq (s : Space) {va : Word} (h : isCanonicalVa va = true) :
    s.leafPteFlags va = (s.leaf s.root va).map fun r => r.2 &&& (0xff ||| PTE_RSW_MASK) := by
  rw [leafPteFlags, h, ← walkFrom_true]
  rfl

theorem walkPageTable_eq (s : Space) {va : Word} (h : isCanonicalVa va = true) :
    s.walkPageTable va = (s.leaf s.root va).filter fun r => Pte.isLeaf r.2 := by
  rw [walkPageTable, h]
  exact walkFrom_eq s false s.root va

end Space

/-! ## The invariant -/

/-- Where the pool begins. -/
@[irreducible] def Manager.poolStart (M : Manager) : Nat := M.managerPaStart.toNat + M.poolOffset.toNat

/-- Entries have no bit above their page number, those that are not valid are zero, and those of the
last level that are valid are leaves. -/
def Pte.Clean (depth : Nat) (pte : Word) : Prop :=
  pte.toNat < 2 ^ 46 ∧ (Pte.isValid pte = false → pte = 0) ∧
    (depth = 2 → Pte.isValid pte = true → Pte.isLeaf pte = true)

theorem Pte.child_some {pte b : Word} (h : child pte = some b) :
    isValid pte = true ∧ isLeaf pte = false ∧ ppn pte <<< 12 = b := by
  rw [child] at h
  split at h
  · rename_i hc
    rw [Bool.and_eq_true, Bool.not_eq_true'] at hc
    exact ⟨hc.1, hc.2, Option.some.inj h⟩
  · cases h

/-- Flags that make a leaf at every level. -/
def UsableFlags (flags : Word) : Prop :=
  flags.toNat < 2 ^ 10 ∧ flags &&& (Pte.R ||| Pte.W ||| Pte.X ||| Pte.U) ≠ 0

instance (flags : Word) : Decidable (UsableFlags flags) := inferInstanceAs (Decidable (_ ∧ _))

namespace Space

/-- The root of the first process and the pages of the pool that were handed out. -/
def Owned (M : Manager) (s : Space) (a : Word) : Prop :=
  a = M.rootPa ∨
    M.poolStart ≤ a.toNat ∧ a.toNat < M.poolStart + s.usedPages.toNat * 4096 ∧ 2 ^ 12 ∣ a.toNat

/-- The tables under the paths `P` form a forest in the pool. -/
structure Ok (M : Manager) (P : Paths Word (Fin 512)) (s : Space) : Prop where
  pool : s.usedPages.toNat * 4096 ≤ M.poolSize.toNat
  forest : Forest Pte.child P (s.Owned M) s.mem
  clean : Forest.Entries Pte.child P Pte.Clean s.mem
  short : ∀ {r p}, P.mem r p → p.length ≤ 2

/-- Table pages may have been added; nothing else is mapped, and no other page has changed. -/
structure Grows (M : Manager) (P : Paths Word (Fin 512)) (s s' : Space) : Prop where
  root : s'.root = s.root
  ok : s'.Ok M P
  leaf : ∀ {r va}, P.Through r (vpns va) → s'.leaf r va = s.leaf r va
  used : s.usedPages.toNat ≤ s'.usedPages.toNat
  frame : ∀ {a}, ¬ s'.Owned M a → s'.mem a = s.mem a

variable {M : Manager} {P : Paths Word (Fin 512)} {s s' : Space}

theorem Owned.mono {a : Word} (h : s.usedPages.toNat ≤ s'.usedPages.toNat) (ha : s.Owned M a) :
    s'.Owned M a := by
  rcases ha with ha | ⟨hlo, hhi, hal⟩
  · exact .inl ha
  · have hlt : a.toNat < M.poolStart + s'.usedPages.toNat * 4096 := by lia
    exact .inr ⟨hlo, hlt, hal⟩

theorem Grows.refl (h : s.Ok M P) : Grows M P s s := ⟨rfl, h, fun _ => rfl, le_rfl, fun _ => rfl⟩

theorem Grows.trans {s'' : Space} (h : Grows M P s s') (h' : Grows M P s' s'') : Grows M P s s'' where
  root := h'.root.trans h.root
  ok := h'.ok
  leaf ht := (h'.leaf ht).trans (h.leaf ht)
  used := h.used.trans h'.used
  frame ha := (h'.frame ha).trans (h.frame fun hs => ha (hs.mono h'.used))

/-! ## The pool -/

section Pool

variable {a : Word}

theorem tryAllocSmodePage_some (h : s.tryAllocSmodePage M 1 = some (a, s'))
    (hp : s.usedPages.toNat * 4096 ≤ M.poolSize.toNat) :
    a.toNat = M.poolStart + s.usedPages.toNat * 4096 ∧ s'.usedPages.toNat = s.usedPages.toNat + 1 ∧
      s'.usedPages.toNat * 4096 ≤ M.poolSize.toNat ∧ s'.mem = s.mem ∧ s'.root = s.root := by
  have hfit := M.fits
  have hsize : M.poolSize.toNat < 2 ^ 49 := by omega
  have hused : s.usedPages.toNat < 2 ^ 37 := by omega
  have hnext : (s.usedPages + 1).toNat = s.usedPages.toNat + 1 := by
    rw [BitVec.toNat_add]
    exact Nat.mod_eq_of_lt (by simp; omega)
  have hbytes : ((s.usedPages + 1) * PAGE_SIZE).toNat = (s.usedPages.toNat + 1) * 4096 := by
    rw [BitVec.toNat_mul, hnext]
    exact Nat.mod_eq_of_lt (by simp [PAGE_SIZE]; omega)
  rw [tryAllocSmodePage] at h
  split at h
  · cases h
  · rename_i hgt
    rw [Option.some.injEq, Prod.mk.injEq] at h
    obtain ⟨rfl, rfl⟩ := h
    have hle : (s.usedPages.toNat + 1) * 4096 ≤ M.poolSize.toNat := by
      rw [gt_iff_lt, BitVec.lt_def, hbytes] at hgt
      exact Nat.le_of_not_lt hgt
    refine ⟨?_, hnext, ?_, rfl, rfl⟩
    · have hmul : (s.usedPages * PAGE_SIZE).toNat = s.usedPages.toNat * 4096 := by
        rw [BitVec.toNat_mul]
        exact Nat.mod_eq_of_lt (by simp [PAGE_SIZE]; omega)
      rw [BitVec.toNat_add, BitVec.toNat_add, hmul, Manager.poolStart]
      omega
    · rw [hnext]
      exact hle

variable (ha : a.toNat = M.poolStart + s.usedPages.toNat * 4096)
  (hu : s'.usedPages.toNat = s.usedPages.toNat + 1)

include ha

/-- A new page is not in use yet. -/
theorem fresh_not_owned : ¬ s.Owned M a := by
  rintro (rfl | ⟨_, hlt, _⟩)
  · have hroot := M.root_in_image
    rw [Manager.poolStart] at ha
    omega
  · omega

include hu

theorem fresh_owned : s'.Owned M a := by
  right
  refine ⟨by omega, by omega, ?_⟩
  have h1 := M.start_aligned
  have h2 := M.offset_aligned
  rw [ha, Manager.poolStart]
  omega

end Pool

/-! ## Words in a clean table -/

theorem isValid_zero : Pte.isValid 0 = false := rfl

theorem pointer_eq (next : Word) : pointer 0 next = Pte.entry (next >>> 12) Pte.V := by
  rw [pointer, Pte.setPpn_zero, Pte.entry]

theorem clean_zero (depth : Nat) : Pte.Clean depth 0 := by
  refine ⟨by decide, fun _ => rfl, ?_⟩
  intro _ h
  cases h

theorem clean_entry {f : Word} {depth : Nat} (p : Word) (hf : f.toNat < 2 ^ 10)
    (hv : Pte.isValid f = true) (hl : depth = 2 → Pte.isLeaf f = true) :
    Pte.Clean depth (Pte.entry p f) := by
  refine ⟨Pte.toNat_entry_lt p hf, ?_, ?_⟩
  · intro h
    rw [Pte.isValid_entry, hv] at h
    cases h
  · intro hd _
    rw [Pte.isLeaf_entry]
    exact hl hd

theorem child_pointer {a : Word} (h48 : a.toNat < 2 ^ 48) (hal : 2 ^ 12 ∣ a.toNat) :
    Pte.child (pointer 0 a) = some a := by
  rw [pointer_eq, Pte.child_of_pointer, Pte.ppn_entry _ (by decide)]
  · congr 1
    apply BitVec.eq_of_toNat_eq
    rw [BitVec.toNat_shiftLeft, Pte.toNat_and_ppn_mask, BitVec.toNat_ushiftRight,
      Nat.shiftRight_eq_div_pow, Nat.shiftLeft_eq]
    omega
  · rw [Pte.isValid_entry]
    rfl
  · rw [Pte.isLeaf_entry]
    rfl

theorem clean_pointer (a : Word) {depth : Nat} (h : depth < 2) : Pte.Clean depth (pointer 0 a) := by
  rw [pointer_eq]
  exact clean_entry _ (by decide) rfl (by omega)

section LeafEntry

variable {flags : Word}

theorem leafFlags_lt (h : flags.toNat < 2 ^ 10) : (leafFlags flags).toNat < 2 ^ 10 :=
  Pte.or_lt_flags (Pte.or_lt_flags h (by decide)) (by decide)

theorem isValid_leafFlags (flags : Word) : Pte.isValid (leafFlags flags) = true := by
  rw [leafFlags, Pte.isValid_or]
  exact Bool.or_true _

theorem isLeaf_leafFlags (h : UsableFlags flags) : Pte.isLeaf (leafFlags flags) = true := by
  have hf : Pte.isLeaf flags = true := decide_eq_true h.2
  rw [leafFlags, Pte.isLeaf_or, Pte.isLeaf_or, hf]
  rfl

theorem clean_leafEntry (pa : Word) (depth : Nat) (h : UsableFlags flags) :
    Pte.Clean depth (leafEntry pa flags) :=
  clean_entry _ (leafFlags_lt h.1) (isValid_leafFlags flags) fun _ => isLeaf_leafFlags h

theorem isLeaf_leafEntry (pa : Word) (h : UsableFlags flags) : Pte.isLeaf (leafEntry pa flags) = true := by
  rw [leafEntry, Pte.isLeaf_entry, isLeaf_leafFlags h]

theorem isValid_leafEntry (pa flags : Word) : Pte.isValid (leafEntry pa flags) = true := by
  rw [leafEntry, Pte.isValid_entry, isValid_leafFlags]

theorem reflaggedFlags_lt (pte : Word) (h : flags.toNat < 2 ^ 10) :
    (leafFlags flags ||| (pte &&& PTE_RSW_MASK)).toNat < 2 ^ 10 :=
  Pte.or_lt_flags (leafFlags_lt h) (Pte.and_lt_flags pte (by decide))

theorem isLeaf_reflaggedFlags (pte : Word) (h : UsableFlags flags) :
    Pte.isLeaf (leafFlags flags ||| (pte &&& PTE_RSW_MASK)) = true := by
  rw [Pte.isLeaf_or, isLeaf_leafFlags h, Bool.true_or]

theorem clean_reflaggedEntry (pte : Word) (depth : Nat) (h : UsableFlags flags) :
    Pte.Clean depth (reflaggedEntry pte flags) := by
  apply clean_entry _ (reflaggedFlags_lt pte h.1)
  · rw [Pte.isValid_or, isValid_leafFlags, Bool.true_or]
  · exact fun _ => isLeaf_reflaggedFlags pte h

theorem isLeaf_reflaggedEntry (pte : Word) (h : UsableFlags flags) :
    Pte.isLeaf (reflaggedEntry pte flags) = true := by
  rw [reflaggedEntry, Pte.isLeaf_entry, isLeaf_reflaggedFlags pte h]

theorem isValid_reflaggedEntry (pte flags : Word) : Pte.isValid (reflaggedEntry pte flags) = true := by
  rw [reflaggedEntry, Pte.isValid_entry, Pte.isValid_or, isValid_leafFlags, Bool.true_or]

end LeafEntry

/-! ## Finding the entry of a level -/

theorem vpns_length (va : Word) : (vpns va).length = 3 := rfl

section Install

variable {s₁ : Space} {a r t : Word} {p : List (Fin 512)} {i : Fin 512} {e : Word} {c : Fin 512 → Word}

/-- A table whose entries lead nowhere takes the place of an entry above the last level. -/
theorem install_ok (hok : s.Ok M P) (hp : P.mem r p) (hlen : p.length < 2)
    (ht : reach Pte.child s.mem r p = some t) (ha : s.tryAllocSmodePage M 1 = some (a, s₁))
    (hleaf : ∀ j, Pte.child (c j) = none) (hclean : ∀ j, Pte.Clean (p.length + 1) (c j)) :
    (s₁.install ⟨t, i⟩ (pointer 0 a) a c).Ok M P ∧ ¬ s.Owned M a ∧ Pte.child (pointer 0 a) = some a := by
  obtain ⟨hat, hu, hpool, hmem, _⟩ := tryAllocSmodePage_some ha hok.pool
  have hfresh : ¬ s.Owned M a := fresh_not_owned hat
  have hown : s₁.Owned M a := fresh_owned hat hu
  have h48 : a.toNat < 2 ^ 48 := by
    have hfit := M.fits
    rw [Manager.poolStart] at hat
    omega
  have hchild : Pte.child (pointer 0 a) = some a := by
    rcases hown with rfl | ⟨_, _, hal⟩
    · exact absurd (.inl rfl) hfresh
    · exact child_pointer h48 hal
  refine ⟨⟨hpool, ?_, ?_, hok.short⟩, hfresh, hchild⟩
  · show Forest Pte.child P (s₁.Owned M) (link s₁.mem t i (pointer 0 a) a c)
    rw [hmem]
    apply (hok.forest.linked hp ht hfresh hchild hleaf).mono
    rintro x (hx | rfl)
    · exact hx.mono (by omega)
    · exact hown
  · show Forest.Entries Pte.child P _ (link s₁.mem t i (pointer 0 a) a c)
    rw [hmem]
    exact hok.forest.entries_link hok.clean hp ht hfresh hchild hleaf (clean_pointer a hlen) hclean

theorem install_frame (hok : s.Ok M P) (hp : P.mem r p) (ht : reach Pte.child s.mem r p = some t)
    (ha : s.tryAllocSmodePage M 1 = some (a, s₁)) {x : Word}
    (hx : ¬ (s₁.install ⟨t, i⟩ e a c).Owned M x) : (s₁.install ⟨t, i⟩ e a c).mem x = s.mem x := by
  obtain ⟨hat, hu, _, hmem, _⟩ := tryAllocSmodePage_some ha hok.pool
  have hle : s.usedPages.toNat ≤ s₁.usedPages.toNat := by omega
  have hxt : x ≠ t := by
    rintro rfl
    exact hx ((hok.forest.closed hp ht).mono hle)
  have hxa : x ≠ a := by
    rintro rfl
    exact hx (fresh_owned hat hu)
  funext j
  show link s₁.mem t i e a c x j = s.mem x j
  rw [link, put_other (fun h => hxt h.1), fill_other hxa, hmem]

end Install

/-- A missing table is added where the entry is not valid. -/
theorem install_grows {s₁ : Space} {a r t : Word} {p : List (Fin 512)} {i : Fin 512} (hok : s.Ok M P)
    (hp : P.mem r (p ++ [i])) (ht : reach Pte.child s.mem r p = some t)
    (hv : Pte.isValid (s.mem t i) = false) (ha : s.tryAllocSmodePage M 1 = some (a, s₁)) :
    Grows M P s (s₁.install ⟨t, i⟩ (pointer 0 a) a fun _ => 0) ∧
      reach Pte.child (s₁.install ⟨t, i⟩ (pointer 0 a) a fun _ => 0).mem r (p ++ [i]) = some a := by
  have hp₀ : P.mem r p := P.init hp
  have hlen₀ : p.length < 2 := by
    have hshort := hok.short hp
    rw [List.length_append, List.length_singleton] at hshort
    omega
  obtain ⟨hok', hfresh, hchild⟩ := install_ok (i := i) hok hp₀ hlen₀ ht ha (c := fun _ => 0)
    (fun _ => Pte.child_of_invalid isValid_zero) fun _ => clean_zero _
  obtain ⟨_, hu, _, hmem, hroot⟩ := tryAllocSmodePage_some ha hok.pool
  refine ⟨⟨hroot, hok', ?_, ?_, install_frame hok hp₀ ht ha⟩, ?_⟩
  · intro r' va' hthr
    show view _ _ (link s₁.mem t i (pointer 0 a) a fun _ => 0) r' (vpns va') = view _ _ s.mem r' (vpns va')
    rw [hmem]
    by_cases hq : r = r' ∧ p ++ [i] <+: vpns va'
    · obtain ⟨rfl, q, hq⟩ := hq
      have hlen : (p ++ [i]).length + q.length = 3 := by rw [← List.length_append, hq, vpns_length]
      rw [← hq, List.append_assoc, List.singleton_append]
      cases q with
      | nil =>
        rw [List.length_append, List.length_singleton, List.length_nil] at hlen
        omega
      | cons j q =>
        rw [hok.forest.view_link_same hp₀ ht hfresh hchild (fun _ => Pte.child_of_invalid isValid_zero)
          fun _ => Pte.valid_of_child]
        rw [view_append (fun _ => Pte.valid_of_child) ht (by simp), view_absent hv]
        rfl
    · exact hok.forest.view_link_other hp₀ ht hfresh hthr hq
  · show _ ≤ s₁.usedPages.toNat
    omega
  · show reach _ (link s₁.mem t i (pointer 0 a) a fun _ => 0) r (p ++ [i]) = some a
    rw [hmem]
    exact hok.forest.reach_link hp₀ ht hfresh hchild

/-- What `get_leaf_pte` does above the level asked for. -/
theorem descend_spec (va : Word) (alloc : Bool) (is : List Nat) {s : Space} {r t : Word}
    {p : List (Fin 512)} (hok : s.Ok M P) (hp : P.mem r (p ++ is.map (getVpn va)))
    (ht : reach Pte.child s.mem r p = some t) :
    Grows M P s (descend M va alloc is s t).1 ∧
      (alloc = false → (descend M va alloc is s t).1 = s) ∧
      ∀ t', (descend M va alloc is s t).2 = .ok t' →
        reach Pte.child (descend M va alloc is s t).1.mem r (p ++ is.map (getVpn va)) = some t' := by
  induction is generalizing s t p with
  | nil =>
    refine ⟨.refl hok, fun _ => rfl, ?_⟩
    rintro t' ⟨⟩
    simpa [descend] using ht
  | cons i is ih =>
    have hpath : p ++ (i :: is).map (getVpn va) = (p ++ [getVpn va i]) ++ is.map (getVpn va) := by simp
    rw [hpath] at hp ⊢
    have hpi : P.mem r (p ++ [getVpn va i]) := P.initial hp ⟨_, rfl⟩
    have hclean : Pte.Clean p.length (s.mem t (getVpn va i)) := hok.clean r p t _ (P.init hpi) ht
    rw [descend]
    cases hv : Pte.isValid (s.pte ⟨t, getVpn va i⟩) with
    | false =>
      cases alloc with
      | false =>
        refine ⟨.refl hok, fun _ => rfl, ?_⟩
        rintro t' ⟨⟩
      | true =>
        cases ha : s.tryAllocSmodePage M 1 with
        | none =>
          refine ⟨.refl hok, fun _ => rfl, ?_⟩
          rintro t' ⟨⟩
        | some x =>
          obtain ⟨a, s₁⟩ := x
          have hzero : s.pte ⟨t, getVpn va i⟩ = 0 := hclean.2.1 hv
          obtain ⟨hgrow, hreach⟩ := install_grows hok hpi ht hv ha
          rw [hzero]
          obtain ⟨hgrow', _, hok'⟩ := ih hgrow.ok hp hreach
          refine ⟨hgrow.trans hgrow', ?_, hok'⟩
          intro h
          cases h
    | true =>
      cases hl : Pte.isLeaf (s.pte ⟨t, getVpn va i⟩) with
      | true =>
        refine ⟨.refl hok, fun _ => rfl, ?_⟩
        rintro t' ⟨⟩
      | false =>
        apply ih hok hp
        rw [reach_snoc, ht, Option.bind_some]
        exact Pte.child_of_pointer hv hl

/-- The indices above the entry of a level. -/
def levelPath (va : Word) (level : Nat) : List (Fin 512) := (List.range level).map (getVpn va)

theorem levelPath_succ (va : Word) (level : Nat) :
    levelPath va (level + 1) = levelPath va level ++ [getVpn va level] := by
  rw [levelPath, List.range_succ, List.map_append]
  rfl

theorem levelPath_length (va : Word) (level : Nat) : (levelPath va level).length = level := by
  rw [levelPath, List.length_map, List.length_range]

theorem sameEntry_iff {level : Nat} (hl : level ≤ 2) (va va' : Word) :
    SameEntry level va va' ↔ levelPath va level ++ [getVpn va level] <+: vpns va' := by
  have htake : (vpns va').take (level + 1) = levelPath va' (level + 1) := by
    rw [vpns, levelPath, ← List.map_take, List.take_range, Nat.min_eq_left (by omega)]
  rw [← levelPath_succ, List.prefix_iff_eq_take, levelPath_length, htake, levelPath, levelPath,
    List.map_inj_left]
  constructor
  · intro h i hi
    exact h i (Nat.le_of_lt_succ (List.mem_range.mp hi))
  · intro h i hi
    exact h i (List.mem_range.mpr (Nat.lt_succ_of_le hi))

theorem levelPath_mem {va r : Word} {level : Nat} (hl : level ≤ 2) (h : P.Through r (vpns va)) :
    P.mem r (levelPath va level) :=
  h _ _ ((sameEntry_iff hl va va).mp fun _ _ => rfl)

theorem getLeafPte_spec (va : Word) {level : Nat} (alloc : Bool) (hok : s.Ok M P) (hl : level ≤ 2)
    (hthr : P.Through s.root (vpns va)) :
    Grows M P s (s.getLeafPte M va level alloc).1 ∧
      (alloc = false → (s.getLeafPte M va level alloc).1 = s) ∧
      ∀ slot, (s.getLeafPte M va level alloc).2 = .ok slot →
        isCanonicalVa va = true ∧ slot.index = getVpn va level ∧
          reach Pte.child (s.getLeafPte M va level alloc).1.mem s.root (levelPath va level) =
            some slot.table := by
  have hgrow := descend_spec va alloc (List.range level) (p := []) hok
    (levelPath_mem hl hthr) rfl
  rw [getLeafPte]
  cases hcan : isCanonicalVa va with
  | false =>
    refine ⟨.refl hok, fun _ => rfl, ?_⟩
    rintro slot ⟨⟩
  | true =>
    generalize descend M va alloc (List.range level) s s.root = d at hgrow ⊢
    obtain ⟨s', r⟩ := d
    cases r with
    | error e =>
      refine ⟨hgrow.1, hgrow.2.1, ?_⟩
      rintro slot ⟨⟩
    | ok table =>
      simp only [Bool.not_true, Bool.false_eq_true, if_false]
      split
      · refine ⟨hgrow.1, hgrow.2.1, ?_⟩
        rintro slot ⟨⟩
      · refine ⟨hgrow.1, hgrow.2.1, ?_⟩
        rintro slot ⟨⟩
        exact ⟨trivial, rfl, hgrow.2.2 table rfl⟩

/-! ## What the operations do to the leaves -/

/-- The addresses under one entry of the running address space have the leaves `new`, all others
keep theirs. -/
structure Changes (M : Manager) (P : Paths Word (Fin 512)) (s s' : Space) (va : Word) (level : Nat)
    (new : Word → Option (Nat × Word)) : Prop where
  root : s'.root = s.root
  ok : s'.Ok M P
  under : ∀ {va'}, P.Through s.root (vpns va') → SameEntry level va va' → s'.leaf s.root va' = new va'
  other : ∀ {r va'}, P.Through r (vpns va') → ¬ (s.root = r ∧ SameEntry level va va') →
    s'.leaf r va' = s.leaf r va'
  used : s.usedPages.toNat ≤ s'.usedPages.toNat
  frame : ∀ {a}, ¬ s'.Owned M a → s'.mem a = s.mem a

theorem Grows.changes {s'' : Space} {va : Word} {level : Nat} {new : Word → Option (Nat × Word)}
    (h : Grows M P s s') (h' : Changes M P s' s'' va level new) : Changes M P s s'' va level new where
  root := h'.root.trans h.root
  ok := h'.ok
  under ht hs := by
    rw [← h.root] at ht ⊢
    exact h'.under ht hs
  other ht hs := by
    rw [h'.other ht (by rwa [h.root]), h.leaf ht]
  used := h.used.trans h'.used
  frame ha := (h'.frame ha).trans (h.frame fun hs => ha (hs.mono h'.used))

/-- An entry that is not a pointer is written. -/
theorem write_changes {va t e : Word} {level : Nat} (hok : s.Ok M P) (hl : level ≤ 2)
    (hthr : P.Through s.root (vpns va)) (ht : reach Pte.child s.mem s.root (levelPath va level) = some t)
    (hc : Pte.child e = none) (hclean : Pte.Clean level e) :
    Changes M P s (s.write ⟨t, getVpn va level⟩ e) va level
      fun _ => if Pte.isValid e then some (level, e) else none := by
  have hp := levelPath_mem hl hthr
  refine ⟨rfl, ⟨hok.pool, hok.forest.put hp ht hc, ?_, hok.short⟩, ?_, ?_, le_rfl, ?_⟩
  · exact hok.forest.entries_put hok.clean hp ht hc (by rwa [levelPath_length])
  · intro va' _ hsame
    obtain ⟨q, hq⟩ := (sameEntry_iff hl va va').mp hsame
    rw [leaf, ← hq, List.append_assoc, List.singleton_append]
    show view _ _ (Radix.put s.mem t (getVpn va level) e) _ _ = _
    rw [hok.forest.view_put_same (fun _ => Pte.valid_of_child) hp ht (.inl hc), levelPath_length]
  · intro r va' hthr' hne
    rw [sameEntry_iff hl] at hne
    exact hok.forest.view_put_other hp ht hthr' hne
  · intro a ha
    funext j
    apply put_other
    rintro ⟨rfl, _⟩
    exact ha (hok.forest.closed hp ht)

theorem leafEntry_eq (pa flags : Word) :
    Pte.setFlags (Pte.setPpn 0 (pa >>> 12)) flags ||| Pte.V = leafEntry pa flags := by
  rw [Pte.setFlags, Pte.setPpn_zero, leafEntry, Pte.entry, leafFlags]
  simp only [BitVec.or_assoc]

/-- `map_page` puts a leaf over the addresses under the entry, or maps nothing. -/
theorem mapPage_spec {va pa flags : Word} {level : Nat} (hok : s.Ok M P) (hl : level ≤ 2)
    (hthr : P.Through s.root (vpns va)) (hflags : UsableFlags flags) :
    match (s.mapPage M va pa flags level).2 with
    | .ok _ =>
      isCanonicalVa va = true ∧
        Changes M P s (s.mapPage M va pa flags level).1 va level fun _ => some (level, leafEntry pa flags)
    | .error _ => Grows M P s (s.mapPage M va pa flags level).1 := by
  obtain ⟨hgrow, _, hslot⟩ := getLeafPte_spec va true hok hl hthr
  rw [mapPage]
  generalize s.getLeafPte M va level true = d at hgrow hslot ⊢
  obtain ⟨s', r⟩ := d
  cases r with
  | error e => exact hgrow
  | ok slot =>
    obtain ⟨table, index⟩ := slot
    obtain ⟨hcan, rfl, hreach⟩ := hslot _ rfl
    refine ⟨hcan, hgrow.changes ?_⟩
    rw [← hgrow.root] at hthr hreach
    have hw := write_changes hgrow.ok hl hthr hreach
      (Pte.child_of_leaf (isLeaf_leafEntry pa hflags)) (clean_leafEntry pa level hflags)
    rw [isValid_leafEntry] at hw
    rwa [leafEntry_eq]

/-- `unmap_page` clears an entry, or changes nothing. -/
theorem unmapPage_spec {va : Word} {level : Nat} (hok : s.Ok M P) (hl : level ≤ 2)
    (hthr : P.Through s.root (vpns va)) :
    if (s.unmapPage M va level).2 then
      isCanonicalVa va = true ∧ Changes M P s (s.unmapPage M va level).1 va level fun _ => none
    else (s.unmapPage M va level).1 = s := by
  obtain ⟨_, hsame, hslot⟩ := getLeafPte_spec va false hok hl hthr
  rw [unmapPage]
  generalize s.getLeafPte M va level false = d at hsame hslot ⊢
  obtain ⟨s', r⟩ := d
  obtain rfl : s' = s := hsame rfl
  cases r with
  | error e => exact rfl
  | ok slot =>
    obtain ⟨table, index⟩ := slot
    obtain ⟨hcan, rfl, hreach⟩ := hslot _ rfl
    exact ⟨hcan, write_changes hok hl hthr hreach (Pte.child_of_invalid isValid_zero) (clean_zero level)⟩

/-! ### Operations that look the entry up first -/

theorem descend_of_reach {va : Word} {alloc : Bool} (is : List Nat) {t t' : Word}
    (h : reach Pte.child s.mem t (is.map (getVpn va)) = some t') :
    descend M va alloc is s t = (s, .ok t') := by
  induction is generalizing t with
  | nil =>
    rw [descend]
    cases h
    rfl
  | cons i is ih =>
    rw [List.map_cons, reach_cons, Option.bind_eq_some_iff] at h
    obtain ⟨b, hb, h⟩ := h
    obtain ⟨hv, hl, rfl⟩ := Pte.child_some hb
    rw [descend]
    simp only [pte, hv, hl, Bool.not_true, Bool.false_eq_true, if_false]
    exact ih h

/-- The leaf of an address is found where the lookup saw it. -/
theorem leaf_slot {r va e : Word} {level : Nat} (h : s.leaf r va = some (level, e)) :
    level ≤ 2 ∧ Pte.isValid e = true ∧ ∃ t, reach Pte.child s.mem r (levelPath va level) = some t ∧
      s.mem t (getVpn va level) = e := by
  obtain ⟨t, j, hpre, hk, hreach, he, hv, _⟩ := view_some h
  have hl : level ≤ 2 := Nat.le_of_lt_succ hk
  have htake : (vpns va).take level = levelPath va level := by
    rw [vpns, levelPath, ← List.map_take, List.take_range, Nat.min_eq_left (by omega)]
  have hj : getVpn va level = j := by
    have hown := (sameEntry_iff hl va va).mp fun _ _ => rfl
    rw [htake] at hpre
    have heq := List.prefix_of_prefix_length_le hown hpre (by simp)
    have := heq.eq_of_length (by simp)
    simpa using this
  rw [htake] at hreach
  exact ⟨hl, hv, t, hreach, by rw [hj, he]⟩

theorem getLeafPte_of_leaf {va e : Word} {level : Nat} (hcan : isCanonicalVa va = true)
    (h : s.leaf s.root va = some (level, e)) :
    ∃ t, s.getLeafPte M va level false = (s, .ok ⟨t, getVpn va level⟩) ∧
      reach Pte.child s.mem s.root (levelPath va level) = some t ∧ s.mem t (getVpn va level) = e := by
  obtain ⟨_, hv, t, hreach, he⟩ := leaf_slot h
  refine ⟨t, ?_, hreach, he⟩
  rw [getLeafPte, hcan, descend_of_reach (List.range level) hreach]
  simp only [pte, he, hv, Bool.not_true, Bool.false_eq_true, if_false, Bool.false_and]

theorem reflaggedEntry_eq (pte flags : Word) :
    Pte.setFlags (Pte.setPpn 0 (Pte.ppn pte)) flags ||| (Pte.V ||| (pte &&& PTE_RSW_MASK)) =
      reflaggedEntry pte flags := by
  rw [Pte.setFlags, Pte.setPpn_zero, reflaggedEntry, Pte.entry, leafFlags]
  simp only [BitVec.or_assoc]

/-- `set_leaf_flags` rewrites a leaf below the 1 GiB level, or changes nothing. -/
theorem setLeafFlags_spec {va flags : Word} (hok : s.Ok M P) (hthr : P.Through s.root (vpns va))
    (hflags : UsableFlags flags) :
    if (s.setLeafFlags M va flags).2 then
      isCanonicalVa va = true ∧ ∃ level e, s.leaf s.root va = some (level, e) ∧ level ≠ LEVEL_GIGA ∧
        Changes M P s (s.setLeafFlags M va flags).1 va level fun _ => some (level, reflaggedEntry e flags)
    else (s.setLeafFlags M va flags).1 = s := by
  rw [setLeafFlags]
  cases hcan : isCanonicalVa va with
  | false => simp [vaRealPageLevel, hcan]
  | true =>
    rw [vaRealPageLevel_eq s hcan]
    cases hleaf : s.leaf s.root va with
    | none => simp
    | some x =>
      obtain ⟨level, e⟩ := x
      by_cases hgiga : level = LEVEL_GIGA
      · simp [hgiga]
      · obtain ⟨t, hget, hreach, rfl⟩ := getLeafPte_of_leaf (M := M) hcan hleaf
        simp only [Option.map_some, if_neg hgiga, hget, if_true]
        refine ⟨trivial, level, _, rfl, hgiga, ?_⟩
        have hw := write_changes hok (leaf_slot hleaf).1 hthr hreach
          (Pte.child_of_leaf (isLeaf_reflaggedEntry (s.mem t (getVpn va level)) hflags))
          (clean_reflaggedEntry _ level hflags)
        rw [isValid_reflaggedEntry] at hw
        rwa [reflaggedEntry_eq]

theorem splitEntry_eq (e : Word) (i : Fin 512) :
    splitEntry e i = Pte.entry ((Pte.ppn e &&& ~~~0x1ff) + BitVec.ofNat 64 i)
      ((e &&& (0xff ||| PTE_RSW_MASK)) ||| Pte.V) := by
  rw [splitEntry, Pte.setPpn_zero, Pte.entry]

theorem splitFlags_lt (e : Word) : ((e &&& (0xff ||| PTE_RSW_MASK)) ||| Pte.V).toNat < 2 ^ 10 :=
  Pte.or_lt_flags (Pte.and_lt_flags e (by decide)) (by decide)

theorem isValid_splitEntry (e : Word) (i : Fin 512) : Pte.isValid (splitEntry e i) = true := by
  rw [splitEntry_eq, Pte.isValid_entry, Pte.isValid_or]
  exact Bool.or_true _

theorem isLeaf_splitFlags {e : Word} (h : Pte.isLeaf e = true) :
    Pte.isLeaf ((e &&& (0xff ||| PTE_RSW_MASK)) ||| Pte.V) = true := by
  rw [Pte.isLeaf_or, Pte.isLeaf, BitVec.and_assoc]
  exact Bool.or_eq_true_iff.mpr (.inl h)

theorem isLeaf_splitEntry {e : Word} (h : Pte.isLeaf e = true) (i : Fin 512) :
    Pte.isLeaf (splitEntry e i) = true := by
  rw [splitEntry_eq, Pte.isLeaf_entry, isLeaf_splitFlags h]

theorem clean_splitEntry {e : Word} (h : Pte.isLeaf e = true) (depth : Nat) (i : Fin 512) :
    Pte.Clean depth (splitEntry e i) := by
  have hv := isValid_splitEntry e i
  rw [splitEntry_eq] at hv ⊢
  rw [Pte.isValid_entry] at hv
  exact clean_entry _ (splitFlags_lt e) hv fun _ => isLeaf_splitFlags h

/-- A leaf above the last level has leaf bits. -/
theorem isLeaf_of_leaf {r va e : Word} {level : Nat} (h : s.leaf r va = some (level, e)) (hl : level ≠ 2) :
    Pte.isLeaf e = true := by
  obtain ⟨_, _, _, _, _, rfl, hv, hc⟩ := view_some h
  rcases hc with hc | hc
  · by_contra hn
    rw [Bool.not_eq_true] at hn
    rw [Pte.child_of_pointer hv hn] at hc
    cases hc
  · rw [vpns_length] at hc
    omega

/-- Splitting gives each 4 KiB page of a 2 MiB leaf a leaf of its own, or fails for want of a page. -/
theorem splitMegaLeaf_spec {va : Word} (hok : s.Ok M P) (hthr : P.Through s.root (vpns va)) :
    (s.splitMegaLeaf M va).1 = s ∧
        (s.vaRealPageLevel va = some LEVEL_MEGA → (s.splitMegaLeaf M va).2 = false) ∨
      (s.splitMegaLeaf M va).2 = true ∧ isCanonicalVa va = true ∧
        ∃ e, s.leaf s.root va = some (LEVEL_MEGA, e) ∧
          Changes M P s (s.splitMegaLeaf M va).1 va LEVEL_MEGA fun va' =>
            some (LEVEL_PAGE, splitEntry e (getVpn va' 2)) := by
  rw [splitMegaLeaf]
  cases hcan : isCanonicalVa va with
  | false => simp [vaRealPageLevel, hcan]
  | true =>
    rw [vaRealPageLevel_eq s hcan]
    cases hleaf : s.leaf s.root va with
    | none => simp
    | some x =>
      obtain ⟨level, e⟩ := x
      by_cases hmega : level = LEVEL_MEGA
      · subst hmega
        obtain ⟨t, hget, hreach, rfl⟩ := getLeafPte_of_leaf (M := M) hcan hleaf
        simp only [Option.map_some, ne_eq, not_true_eq_false, if_false, hget]
        cases ha : s.tryAllocSmodePage M 1 with
        | none => exact .inl ⟨rfl, fun _ => rfl⟩
        | some y =>
          obtain ⟨a, s₁⟩ := y
          right
          refine ⟨rfl, trivial, _, rfl, ?_⟩
          have hp : P.mem s.root (levelPath va LEVEL_MEGA) := levelPath_mem (by decide) hthr
          have hisLeaf := isLeaf_of_leaf hleaf (by decide)
          have hchild := fun j => Pte.child_of_leaf (isLeaf_splitEntry hisLeaf j)
          obtain ⟨hok', hfresh, hnext⟩ := install_ok (i := getVpn va LEVEL_MEGA) hok hp
            (by rw [levelPath_length]; decide) hreach ha hchild (clean_splitEntry hisLeaf _)
          obtain ⟨_, hu, _, hmem, hroot⟩ := tryAllocSmodePage_some ha hok.pool
          refine ⟨hroot, hok', ?_, ?_, ?_, install_frame hok hp hreach ha⟩
          · intro va' _ hsame
            obtain ⟨q, hq⟩ := (sameEntry_iff (by decide) va va').mp hsame
            have hq' : q = [getVpn va' 2] := by
              rw [← levelPath_succ, vpns_eq] at hq
              have := congrArg (List.drop 2) hq
              rwa [List.drop_append_of_le_length (by rw [levelPath_length]; decide),
                List.drop_of_length_le (by rw [levelPath_length]; decide), List.nil_append] at this
            show view _ _ (link s₁.mem t (getVpn va LEVEL_MEGA) (pointer 0 a) a
              (splitEntry (s.mem t (getVpn va LEVEL_MEGA)))) s.root (vpns va') = _
            rw [hmem, ← hq, hq', List.append_assoc, List.singleton_append,
              hok.forest.view_link_same hp hreach hfresh hnext hchild (fun _ => Pte.valid_of_child),
              isValid_splitEntry, levelPath_length]
            rfl
          · intro r va' hthr' hne
            rw [sameEntry_iff (by decide)] at hne
            show view _ _ (link s₁.mem t _ _ a _) r (vpns va') = view _ _ s.mem r (vpns va')
            rw [hmem]
            exact hok.forest.view_link_other hp hreach hfresh hthr' hne
          · show _ ≤ s₁.usedPages.toNat
            omega
      · left
        simp [hmega]

/-- In clean tables every leaf has leaf bits. -/
theorem Ok.isLeaf (hok : s.Ok M P) {r va e : Word} {level : Nat} (hthr : P.Through r (vpns va))
    (h : s.leaf r va = some (level, e)) : Pte.isLeaf e = true := by
  by_cases hl : level = 2
  · exact (Forest.entries_view hok.clean hthr h).2.2 hl (leaf_slot h).2.1
  · exact isLeaf_of_leaf h hl

end Space

end Pyremu.Sittim
