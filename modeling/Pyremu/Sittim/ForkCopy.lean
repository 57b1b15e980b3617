import Pyremu.Sittim.ForkPages
import Pyremu.Sittim.ForkTables

/-!
# Copies of tables and pages

Whatever is copied, all leaves of the parent and what stands in its pages stay.
When an entry has been copied, the child sees the same below it: a shared leaf is
the same entry, and a private one has pages of its own with the same contents.
-/

namespace Pyremu.Sittim

open Radix

/-- The tables of the parent, and those of the child below the lower half of its root. -/
def forkPaths (R C : Word) : Paths Word (Fin 512) where
  mem r p := p.length ≤ 2 ∧ (r = R ∨ r = C ∧ Space.LowerPath p)
  init {r p i} h := by
    have hlen := h.1
    rw [List.length_append] at hlen
    exact ⟨by omega, h.2.imp_right fun hc => ⟨hc.1, Space.lowerPath_of_extends hc.2 ⟨[i], rfl⟩⟩⟩

theorem forkPaths_parent (R C : Word) {p : List (Fin 512)} (h : p.length ≤ 2) : (forkPaths R C).mem R p :=
  ⟨h, .inl rfl⟩

theorem through_parent (R C va : Word) : (forkPaths R C).Through R (vpns va) :=
  Space.through_of_mem fun _ => forkPaths_parent R C

theorem through_child (R C : Word) {va : Word} (h : Space.Lower va) : (forkPaths R C).Through C (vpns va) := by
  intro p j hp
  have hlen := hp.length_le
  rw [List.length_append, List.length_singleton, Space.vpns_length] at hlen
  exact ⟨by omega, .inr ⟨rfl, Space.lowerPath_of_extends (Space.lowerPath_vpns h) ((List.prefix_append p [j]).trans hp)⟩⟩

/-- The number of pages under a leaf. -/
def leafPages (level : Nat) : Nat := 2 ^ ((2 - level) * 9)

theorem leafPages_size (level : Nat) : leafPages level * 4096 = 2 ^ offsetBits level := by
  rw [leafPages, offsetBits, show 4096 = 2 ^ 12 from rfl, ← Nat.pow_add, Nat.add_comm]

theorem leafBase_of_dvd {level : Nat} {pa : Word} (h : leafPages level * 4096 ∣ pa.toNat) : leafBase level pa = pa := by
  rw [leafPages_size] at h
  apply BitVec.eq_of_toNat_eq
  rw [toNat_leafBase]
  exact Nat.div_mul_cancel h

namespace ForkSys

variable {α : Type} {M : Manager} {R C : Word} {s s' s'' : ForkSys α} {W W' : Word → Prop} {n level : Nat} {e : Word}

abbrev leaf (s : ForkSys α) (root va : Word) : Option (Nat × Word) := s.sys.space.leaf root va

/-- From `s` to `s'` only the leaves of the child at `W` have changed, and only spare pages. -/
structure Goes (M : Manager) (R C : Word) (W : Word → Prop) (n : Nat) (s s' : ForkSys α) : Prop where
  root : s'.sys.space.root = s.sys.space.root
  ok : s'.sys.space.Ok M (forkPaths R C)
  reaches : Space.Reaches (forkPaths R C) n s.sys.space s'.sys.space
  leaf : ∀ {r va}, (forkPaths R C).Through r (vpns va) → ¬ (r = C ∧ W va) → s'.leaf r va = s.leaf r va
  chunks : s'.ChunksOk
  spare : ∀ f, s'.Spare f → s.Spare f
  page : ∀ f, ¬ s.Spare f → s'.page f = s.page f

namespace Goes

theorem refl (hok : s.sys.space.Ok M (forkPaths R C)) (hch : s.ChunksOk) : Goes M R C W n s s :=
  ⟨rfl, hok, .refl n _, fun _ _ => rfl, hch, fun _ h => h, fun _ _ => rfl⟩

theorem trans (h : Goes M R C W n s s') (h' : Goes M R C W n s' s'') : Goes M R C W n s s'' where
  root := h'.root.trans h.root
  ok := h'.ok
  reaches := h.reaches.trans h'.reaches
  leaf ht hn := (h'.leaf ht hn).trans (h.leaf ht hn)
  chunks := h'.chunks
  spare f hf := h.spare f (h'.spare f hf)
  page f hf := (h'.page f fun hs => hf (h.spare f hs)).trans (h.page f hf)

theorem mono {k : Nat} (h : Goes M R C W n s s') (hW : ∀ va, W va → W' va) (hk : k ≤ n) : Goes M R C W' k s s' :=
  { h with
    reaches := h.reaches.mono hk
    leaf := fun ht hn => h.leaf ht fun hc => hn ⟨hc.1, hW _ hc.2⟩ }

end Goes

/-- Partitions and pages that are taken. -/
theorem Draws.goes (h : Draws s s') (hok : s.sys.space.Ok M (forkPaths R C)) : Goes M R C W n s s' where
  root := by rw [h.space]
  ok := by rwa [h.space]
  reaches := by
    rw [h.space]
    exact .refl n _
  leaf _ _ := by rw [ForkSys.leaf, h.space]
  chunks := h.chunks
  spare := h.spare
  page f _ := by rw [h.page]

/-! ## Private leaves -/

/-- The pages behind `pa` are those behind the leaf `e`, as they will be in the child. -/
structure Filled (s s' : ForkSys α) (level : Nat) (e pa : Word) : Prop where
  classes : KeepsClass s s'
  small : pa.toNat < 2 ^ 48
  aligned : leafPages level * 4096 ∣ pa.toNat
  spare : ∀ k < leafPages level, s.Spare (pa.toNat / 4096 + k)
  used : ∀ k < leafPages level, ¬ s'.Spare (pa.toNat / 4096 + k)
  cls : ∀ k < leafPages level, s'.ClassOk (pa.toNat / 4096 + k) (MemSys.attrOfPteFlags e)
  page : ∀ k < leafPages level, s'.page (pa.toNat / 4096 + k) = s.page ((Pte.ppn e).toNat + k)

/-- The pages of a private leaf that can be copied. -/
structure Source (s : ForkSys α) (level : Nat) (e : Word) : Prop where
  aligned : leafPages level * 4096 ∣ (Pte.ppn e <<< 12).toNat
  used : ∀ k < leafPages level, ¬ s.Spare ((Pte.ppn e).toNat + k)

/-- Nothing is mapped where pages are copied through. -/
structure WindowsFree (s : ForkSys α) : Prop where
  page : s.WindowFree FORK_SRC_VA_PAGE FORK_DST_VA_PAGE LEVEL_PAGE
  mega : s.WindowFree FORK_SRC_VA_MEGA FORK_DST_VA_MEGA LEVEL_MEGA

theorem toNat_ppn_div (e : Word) : (Pte.ppn e <<< 12).toNat / 4096 = (Pte.ppn e).toNat := by
  rw [Pte.toNat_ppn_shift, Nat.mul_div_cancel _ (by decide)]

/-- Pages that were granted are filled. -/
theorem copyPa_fills {s₁ : ForkSys α} {srcVa dstVa pa : Word} (hw : IsWindow srcVa dstVa level (leafPages level))
    (hok : s.sys.space.Ok M (forkPaths R C)) (hroot : s.sys.space.root = R)
    (hfree : s.WindowFree srcVa dstVa level) (hsrc : s.Source level e)
    (hg : Granted s s₁ (MemSys.attrOfPteFlags e) pa (leafPages level)) :
    Goes M R C W level s (s₁.copyPa M srcVa dstVa level (leafPages level) (Pte.ppn e <<< 12) pa).1 ∧
      ((s₁.copyPa M srcVa dstVa level (leafPages level) (Pte.ppn e <<< 12) pa).2 = true →
        Filled s (s₁.copyPa M srcVa dstVa level (leafPages level) (Pte.ppn e <<< 12) pa).1 level e pa) := by
  have hspace := hg.draws.space
  have hppn := Pte.toNat_ppn_lt e
  have hshift := Pte.toNat_ppn_shift e
  have hapart : ∀ k < leafPages level, ∀ j < leafPages level,
      (Pte.ppn e <<< 12).toNat / 4096 + k ≠ pa.toNat / 4096 + j := by
    intro k hk j hj heq
    rw [toNat_ppn_div] at heq
    exact hsrc.used k hk (heq ▸ hg.spare j hj)
  have hspec := copyPa_spec (P := forkPaths R C) (s := s₁) hw (by rwa [hspace])
    (fun p hp => by rw [hspace, hroot]; exact forkPaths_parent R C hp)
    (fun va hs => by rw [hspace]; exact hfree va hs) (by omega) hg.small (leafBase_of_dvd hsrc.aligned)
    (leafBase_of_dvd hg.aligned) hapart
  generalize s₁.copyPa M srcVa dstVa level (leafPages level) (Pte.ppn e <<< 12) pa = r at hspec ⊢
  obtain ⟨s₂, done⟩ := r
  obtain ⟨hmoved, hpage⟩ := hspec
  rw [toNat_ppn_div] at hpage
  have hspare := spare_congr hmoved.mmode hmoved.chunkPa hmoved.chunkLeft
  have hcls := classOk_congr hmoved.mmode hmoved.chunkPa
  have hgrows := hspace ▸ hmoved.grows
  refine ⟨⟨hgrows.root, hgrows.ok, hspace ▸ hmoved.reaches, fun ht _ => hgrows.leaf ht,
    hg.draws.chunks.congr hmoved.mmode hmoved.chunkPa hmoved.chunkLeft,
    fun f hf => hg.draws.spare f ((hspare f).mp hf), fun f hf => ?_⟩, fun hdone => ?_⟩
  · rw [hpage, if_neg, hg.draws.page]
    rintro ⟨_, hlo, hhi⟩
    have hpart := hg.spare (f - pa.toNat / 4096) (by omega)
    rw [Nat.add_sub_cancel' hlo] at hpart
    exact hf hpart
  · refine ⟨?_, hg.small, hg.aligned, hg.spare, ?_, ?_, ?_⟩
    · exact hg.classes.trans hg.draws.spare fun f a _ hc => (hcls f a).mpr hc
    · exact fun k hk hs => hg.used k hk ((hspare _).mp hs)
    · exact fun k hk => (hcls _ _).mpr (hg.cls k hk)
    · intro k hk
      rw [hpage, if_pos ⟨hdone, by omega, by omega⟩, Nat.add_sub_cancel_left, hg.draws.page]

theorem Filled.draws {pa : Word} (h : Filled s s' level e pa) (hs : ∀ f, s'.Spare f → s.Spare f)
    (hd : Draws s' s'') (hk : KeepsClass s' s'') : Filled s s'' level e pa where
  classes := h.classes.trans hs hk
  small := h.small
  aligned := h.aligned
  spare := h.spare
  used k hk hspare := h.used k hk (hd.spare _ hspare)
  cls k hlt := hk _ _ (h.used k hlt) (h.cls k hlt)
  page k hk := by rw [hd.page, h.page k hk]

theorem Filled.withSpace {pa : Word} (h : Filled s s' level e pa) (space : Space) : Filled s (s'.withSpace space) level e pa where
  classes f a hf hc := (classOk_congr rfl rfl f a).mpr (h.classes f a hf hc)
  small := h.small
  aligned := h.aligned
  spare := h.spare
  used k hk hs := h.used k hk ((spare_congr rfl rfl rfl _).mp hs)
  cls k hk := (classOk_congr rfl rfl _ _).mpr (h.cls k hk)
  page := h.page

/-- A private leaf of 2 MiB or 4 KiB gets pages of its own. -/
theorem copyLeaf_spec (hlevel : level = LEVEL_MEGA ∨ level = LEVEL_PAGE) (hok : s.sys.space.Ok M (forkPaths R C))
    (hroot : s.sys.space.root = R) (hch : s.ChunksOk) (hfree : s.WindowsFree) (hsrc : s.Source level e) :
    match s.copyLeaf M level e with
    | (s', none) => Goes M R C W level s s'
    | (s', some pa) => Goes M R C W level s s' ∧ Filled s s' level e pa := by
  rw [copyLeaf]
  rcases hlevel with rfl | rfl
  · have halloc := forkAllocChunk_spec (M := M) hch (MemSys.attrOfPteFlags e)
    rw [if_pos rfl]
    generalize s.forkAllocChunk M (MemSys.attrOfPteFlags e) = r at halloc ⊢
    obtain ⟨s₁, res⟩ := r
    cases res with
    | none => exact halloc.goes hok
    | some pa =>
      have hcopy := copyPa_fills (W := W) megaWindow hok hroot hfree.mega hsrc halloc
      rw [show leafPages LEVEL_MEGA = 512 from rfl, ← copyChunkPa] at hcopy
      dsimp only
      generalize s₁.copyChunkPa M (Pte.ppn e <<< 12) pa = r at hcopy ⊢
      obtain ⟨s₂, done⟩ := r
      obtain ⟨hgoes, hfilled⟩ := hcopy
      cases done with
      | false => exact hgoes
      | true =>
        have hseal := forkSealChunk_spec (M := M) s₂ hgoes.chunks
        dsimp only
        generalize s₂.forkSealChunk M = r at hseal ⊢
        obtain ⟨s₃, done⟩ := r
        have hdraws := Seals.draws hseal hgoes.chunks
        have hgoes₃ := hgoes.trans (hdraws.goes hgoes.ok)
        cases done with
        | false => exact hgoes₃
        | true => exact ⟨hgoes₃, (hfilled rfl).draws hgoes.spare hdraws (Seals.keepsClass hseal)⟩
  · have halloc := forkAllocPage_spec (M := M) hch (MemSys.attrOfPteFlags e)
    rw [if_neg (by decide)]
    generalize s.forkAllocPage M (MemSys.attrOfPteFlags e) = r at halloc ⊢
    obtain ⟨s₁, res⟩ := r
    cases res with
    | none => exact halloc.goes hok
    | some pa =>
      have hcopy := copyPa_fills (W := W) pageWindow hok hroot hfree.page hsrc halloc
      rw [show leafPages LEVEL_PAGE = 1 from rfl, ← copyPagePa] at hcopy
      dsimp only
      generalize s₁.copyPagePa M (Pte.ppn e <<< 12) pa = r at hcopy ⊢
      obtain ⟨s₂, done⟩ := r
      obtain ⟨hgoes, hfilled⟩ := hcopy
      cases done with
      | false => exact hgoes
      | true => exact ⟨hgoes, hfilled rfl⟩

/-! ## What the child sees -/

/-- The entry `e'` of the child stands for the private leaf `e`. -/
structure CopyOf (s₀ s : ForkSys α) (level : Nat) (e e' : Word) : Prop where
  small : level ≠ LEVEL_GIGA
  entry : ∃ p, e' = Pte.setPpn e p
  aligned : leafPages level * 4096 ∣ (Pte.ppn e' <<< 12).toNat
  spare : ∀ k < leafPages level, s₀.Spare ((Pte.ppn e').toNat + k)
  used : ∀ k < leafPages level, ¬ s.Spare ((Pte.ppn e').toNat + k)
  cls : ∀ k < leafPages level, s.ClassOk ((Pte.ppn e').toNat + k) (MemSys.attrOfPteFlags e)
  page : ∀ k < leafPages level, s.page ((Pte.ppn e').toNat + k) = s₀.page ((Pte.ppn e).toNat + k)

/-- Below an address the child in `s` has a copy of what the parent had in `s₀`. -/
def Copied (s₀ s : ForkSys α) (C va : Word) : Prop :=
  match s₀.leaf s₀.sys.space.root va with
  | none => s.leaf C va = none
  | some (level, e) => ∃ e', s.leaf C va = some (level, e') ∧ if Pte.isPrivate e then CopyOf s₀ s level e e' else e' = e

/-- No page is behind two private leaves of the child, nor spare. -/
structure Separate (C : Word) (s : ForkSys α) : Prop where
  used : ∀ {va level e}, Space.Lower va → s.leaf C va = some (level, e) → Pte.isPrivate e = true →
    ∀ k < leafPages level, ¬ s.Spare ((Pte.ppn e).toNat + k)
  apart : ∀ {va va' level level' e e'}, Space.Lower va → Space.Lower va' → s.leaf C va = some (level, e) →
    s.leaf C va' = some (level', e') → Pte.isPrivate e = true → Pte.isPrivate e' = true →
      ∀ k < leafPages level, ∀ k' < leafPages level', (Pte.ppn e).toNat + k = (Pte.ppn e').toNat + k' →
        level = level' ∧ SameEntry level va va'

/-- What a copy needs of the address space it starts from. -/
structure Forkable (M : Manager) (s : ForkSys α) : Prop where
  wellFormed : s.sys.space.WellFormed M
  chunks : s.ChunksOk
  windows : s.WindowsFree
  source : ∀ {va level e}, Space.Lower va → s.leaf s.sys.space.root va = some (level, e) → Pte.isPrivate e = true →
    level ≠ LEVEL_GIGA → s.Source level e

/-- A copy of `s₀` is under way. -/
structure Copying (M : Manager) (C : Word) (s₀ s : ForkSys α) : Prop where
  ok : s.sys.space.Ok M (forkPaths s₀.sys.space.root C)
  root : s.sys.space.root = s₀.sys.space.root
  chunks : s.ChunksOk
  parent : ∀ va, s.leaf s₀.sys.space.root va = s₀.leaf s₀.sys.space.root va
  spare : ∀ f, s.Spare f → s₀.Spare f
  page : ∀ f, ¬ s₀.Spare f → s.page f = s₀.page f

/-- How a part of the copy ends: the leaves at `W` are copied on success. -/
structure Outcome (M : Manager) (C : Word) (s₀ s : ForkSys α) (W : Word → Prop) (n : Nat) (r : ForkSys α × Bool) : Prop where
  goes : Goes M s₀.sys.space.root C W n s r.1
  classes : r.2 = true → KeepsClass s r.1
  separate : r.2 = true → Separate C s → Separate C r.1
  copied : r.2 = true → ∀ va, Space.Lower va → W va → Copied s₀ r.1 C va

section Copy

variable {s₀ : ForkSys α}

theorem Copying.goes (h : Copying M C s₀ s) (hne : C ≠ s₀.sys.space.root) (hg : Goes M s₀.sys.space.root C W n s s') :
    Copying M C s₀ s' where
  ok := hg.ok
  root := hg.root.trans h.root
  chunks := hg.chunks
  parent va := (hg.leaf (through_parent _ C va) fun hc => hne hc.1.symm).trans (h.parent va)
  spare f hf := h.spare f (hg.spare f hf)
  page f hf := (hg.page f fun hs => hf (h.spare f hs)).trans (h.page f hf)

theorem Copying.windows (h : Copying M C s₀ s) (h₀ : s₀.WindowsFree) : s.WindowsFree := by
  constructor
  · intro va hs
    rw [h.root]
    exact (h.parent va).trans (h₀.page va hs)
  · intro va hs
    rw [h.root]
    exact (h.parent va).trans (h₀.mega va hs)

/-- A leaf of the child is a copy as long as nothing happens to it. -/
theorem Copied.goes {va : Word} (h : Copied s₀ s C va) (hg : Goes M s₀.sys.space.root C W n s s')
    (hk : KeepsClass s s') (hl : Space.Lower va) (hW : ¬ W va) : Copied s₀ s' C va := by
  have hleaf : s'.leaf C va = s.leaf C va := hg.leaf (through_child _ C hl) fun hc => hW hc.2
  rw [Copied] at h ⊢
  rw [hleaf]
  split at h
  · exact h
  · obtain ⟨e', he', hcopy⟩ := h
    refine ⟨e', he', ?_⟩
    split_ifs at hcopy ⊢ with hp
    · exact {
        small := hcopy.small
        entry := hcopy.entry
        aligned := hcopy.aligned
        spare := hcopy.spare
        used := fun k hk hs => hcopy.used k hk (hg.spare _ hs)
        cls := fun k hlt => hk _ _ (hcopy.used k hlt) (hcopy.cls k hlt)
        page := fun k hk => (hg.page _ (hcopy.used k hk)).trans (hcopy.page k hk) }
    · exact hcopy

theorem Filled.copyOf {pa : Word} (h : Filled s s' level e pa) (hc : Copying M C s₀ s) (hsrc : s₀.Source level e)
    (hlevel : level ≠ LEVEL_GIGA) : CopyOf s₀ s' level e (Pte.setPpn e (pa >>> 12)) := by
  have hppn : (Pte.ppn (Pte.setPpn e (pa >>> 12))).toNat = pa.toNat / 4096 := Pte.toNat_ppn_setPpn e h.small
  refine ⟨hlevel, ⟨_, rfl⟩, ?_, ?_, ?_, ?_, ?_⟩
  · have hal : 4096 ∣ pa.toNat := (Nat.dvd_mul_left 4096 _).trans h.aligned
    rw [Pte.toNat_ppn_shift, hppn, Nat.div_mul_cancel hal]
    exact h.aligned
  · exact fun k hk => hppn ▸ hc.spare _ (h.spare k hk)
  · exact fun k hk => hppn ▸ h.used k hk
  · exact fun k hk => hppn ▸ h.cls k hk
  · intro k hk
    rw [hppn, h.page k hk, hc.page _ (hsrc.used k hk)]

/-- The private leaves of the child after its leaves at `W` became `e`. -/
theorem Separate.step (h : Separate C s) (hspare : ∀ f, s'.Spare f → s.Spare f)
    (hother : ∀ va, Space.Lower va → ¬ W va → s'.leaf C va = s.leaf C va)
    (hunder : ∀ va, W va → s'.leaf C va = some (level, e)) (hW : ∀ va va', W va → W va' → SameEntry level va va')
    (hnew : Pte.isPrivate e = true → ∀ k < leafPages level,
      s.Spare ((Pte.ppn e).toNat + k) ∧ ¬ s'.Spare ((Pte.ppn e).toNat + k)) : Separate C s' := by
  have hold : ∀ {va level' e'}, Space.Lower va → ¬ W va → s'.leaf C va = some (level', e') →
      Pte.isPrivate e' = true → ∀ k < leafPages level', ¬ s.Spare ((Pte.ppn e').toNat + k) := by
    intro va level' e' hl hw he hp
    rw [hother va hl hw] at he
    exact h.used hl he hp
  constructor
  · intro va level' e' hl he hp k hk
    by_cases hw : W va
    · obtain ⟨rfl, rfl⟩ := Prod.mk.inj (Option.some.inj ((hunder va hw).symm.trans he))
      exact (hnew hp k hk).2
    · exact fun hs => hold hl hw he hp k hk (hspare _ hs)
  · intro va va' l l' e₁ e₂ hl hl' he he' hp hp' k hk k' hk' heq
    by_cases hw : W va
    · obtain ⟨rfl, rfl⟩ := Prod.mk.inj (Option.some.inj ((hunder va hw).symm.trans he))
      by_cases hw' : W va'
      · obtain ⟨rfl, rfl⟩ := Prod.mk.inj (Option.some.inj ((hunder va' hw').symm.trans he'))
        exact ⟨rfl, hW va va' hw hw'⟩
      · exact absurd (heq ▸ (hnew hp k hk).1) (hold hl' hw' he' hp' k' hk')
    · by_cases hw' : W va'
      · obtain ⟨rfl, rfl⟩ := Prod.mk.inj (Option.some.inj ((hunder va' hw').symm.trans he'))
        exact absurd (heq ▸ (hnew hp' k' hk').1) (hold hl hw he hp k hk)
      · rw [hother va hl hw] at he
        rw [hother va' hl' hw'] at he'
        exact h.apart hl hl' he he' hp hp' k hk k' hk' heq

theorem Separate.of_same (h : Separate C s) (hspare : ∀ f, s'.Spare f → s.Spare f)
    (hleaf : ∀ va, Space.Lower va → s'.leaf C va = s.leaf C va) : Separate C s' where
  used hl he hp k hk hs := h.used hl ((hleaf _ hl).symm.trans he) hp k hk (hspare _ hs)
  apart hl hl' he he' := h.apart hl hl' ((hleaf _ hl).symm.trans he) ((hleaf _ hl').symm.trans he')

end Copy

end ForkSys

end Pyremu.Sittim
