import Pyremu.Sittim.ForkAddressSpace

/-!
# Two address spaces after a fork

A fork that succeeds leaves a second tree of tables whose lower half is separate
from that of the parent, with pages of its own behind each private leaf. Both
processes read the same at every address. A fork that fails leaves the parent
as it was.
-/

namespace Pyremu.Sittim

open Radix

namespace Space

variable {M : Manager} {s space : Space} {child : Word}

/-- The pages when the root of the child has been filled. -/
def withRoot (space : Space) (child : Word) : Space :=
  { space with mem := Radix.fill space.mem child (ForkSys.childRoot space) }

section Start

variable (hs : s.WellFormed M) (ha : s.tryAllocSmodePage M 1 = some (child, space))

theorem childRoot_lower {i : Fin 512} (hi : i.val < USER_ROOT_ENTRIES) : ForkSys.childRoot space i = 0 :=
  if_neg (Nat.not_le.mpr hi)

/-- Below the lower half of its root the child has no tables yet. -/
theorem reach_withRoot {p : List (Fin 512)} {t : Word} (hp : LowerPath p)
    (h : reach Pte.child (space.withRoot child).mem child p = some t) : p = [] ∧ t = child := by
  cases p with
  | nil => exact ⟨rfl, (Option.some.inj h).symm⟩
  | cons i p =>
    have hentry : (space.withRoot child).mem child i = 0 := by
      show Radix.fill space.mem child _ child i = 0
      rw [fill_same]
      exact childRoot_lower (hp i rfl)
    rw [reach_cons, hentry, Pte.child_of_invalid isValid_zero] at h
    cases h

include hs ha

theorem child_ne_root : child ≠ s.root := by
  rintro rfl
  obtain ⟨hat, _⟩ := tryAllocSmodePage_some ha hs.pool
  exact fresh_not_owned hat (hs.forest.closed (p := []) ⟨rfl, Nat.zero_le 2⟩ rfl)

theorem reach_withRoot_parent {p : List (Fin 512)} (hp : p.length ≤ 2) :
    reach Pte.child (space.withRoot child).mem s.root p = reach Pte.child s.mem s.root p := by
  obtain ⟨hat, _, _, hmem, _⟩ := tryAllocSmodePage_some ha hs.pool
  show reach Pte.child (Radix.fill space.mem child _) s.root p = _
  rw [hmem]
  exact hs.forest.reach_fill_mem (fresh_not_owned hat) ⟨rfl, hp⟩

theorem leaf_withRoot_parent (va : Word) : (space.withRoot child).leaf s.root va = s.leaf s.root va := by
  obtain ⟨hat, _, _, hmem, _⟩ := tryAllocSmodePage_some ha hs.pool
  show view _ _ (Radix.fill space.mem child _) s.root (vpns va) = _
  rw [hmem]
  exact view_congr (hs.forest.sameAlong_fill (fresh_not_owned hat) (through_tablesFrom s.root va))

/-- The tables that both processes start with. -/
theorem withRoot_ok : (space.withRoot child).Ok M (forkPaths s.root child) := by
  obtain ⟨hat, hu, hpool, hmem, hroot⟩ := tryAllocSmodePage_some ha hs.pool
  have hfresh : ¬ s.Owned M child := fresh_not_owned hat
  have hown : (space.withRoot child).Owned M child := fresh_owned hat hu
  have hmono : ∀ {a}, s.Owned M a → (space.withRoot child).Owned M a := by
    intro a
    apply Owned.mono
    show _ ≤ space.usedPages.toNat
    omega
  refine ⟨hpool, ⟨?_, ?_⟩, ?_, fun h => h.1⟩
  · rintro r p t ⟨hlen, rfl | ⟨rfl, hlow⟩⟩ ht
    · rw [reach_withRoot_parent hs ha hlen] at ht
      exact hmono (hs.forest.closed ⟨rfl, hlen⟩ ht)
    · obtain ⟨_, rfl⟩ := reach_withRoot hlow ht
      exact hown
  · rintro r p r' p' t ⟨hlen, rfl | ⟨rfl, hlow⟩⟩ ⟨hlen', rfl | ⟨rfl, hlow'⟩⟩ ht ht'
    · rw [reach_withRoot_parent hs ha hlen] at ht
      rw [reach_withRoot_parent hs ha hlen'] at ht'
      exact hs.forest.apart ⟨rfl, hlen⟩ ⟨rfl, hlen'⟩ ht ht'
    · rw [reach_withRoot_parent hs ha hlen] at ht
      obtain ⟨_, rfl⟩ := reach_withRoot hlow' ht'
      exact absurd (hs.forest.closed ⟨rfl, hlen⟩ ht) hfresh
    · rw [reach_withRoot_parent hs ha hlen'] at ht'
      obtain ⟨_, rfl⟩ := reach_withRoot hlow ht
      exact absurd (hs.forest.closed ⟨rfl, hlen'⟩ ht') hfresh
    · obtain ⟨rfl, rfl⟩ := reach_withRoot hlow ht
      obtain ⟨rfl, _⟩ := reach_withRoot hlow' ht'
      exact ⟨rfl, rfl⟩
  · rintro r p t i ⟨hlen, rfl | ⟨rfl, hlow⟩⟩ ht
    · rw [reach_withRoot_parent hs ha hlen] at ht
      have hentry : (space.withRoot child).mem t i = s.mem t i := by
        show Radix.fill space.mem child _ t i = _
        rw [fill_other, hmem]
        rintro rfl
        exact hfresh (hs.forest.closed ⟨rfl, hlen⟩ ht)
      rw [hentry]
      exact hs.clean _ p t i ⟨rfl, hlen⟩ ht
    · obtain ⟨hnil, heq⟩ := reach_withRoot hlow ht
      rw [hnil, heq]
      show Pte.Clean 0 (Radix.fill space.mem r (ForkSys.childRoot space) r i)
      rw [fill_same, ForkSys.childRoot, hmem, hroot]
      split_ifs
      · exact hs.clean s.root [] s.root i ⟨rfl, Nat.zero_le 2⟩ rfl
      · exact clean_zero 0

end Start

/-- Trees whose roots have the same entry are the same behind it. -/
theorem leaf_of_root_entry {s : Space} {r r' va : Word} (h : s.mem r (getVpn va 0) = s.mem r' (getVpn va 0)) :
    s.leaf r va = s.leaf r' va := by
  rw [leaf, leaf, vpns_eq, view, view, h]

theorem reach_of_root_entry {s : Space} {r r' : Word} {i : Fin 512} {p : List (Fin 512)} (h : s.mem r i = s.mem r' i) :
    reach Pte.child s.mem r (i :: p) = reach Pte.child s.mem r' (i :: p) := by
  rw [reach_cons, reach_cons, h]

/-- The child on its own: the upper half of its root is that of the parent. -/
theorem child_wellFormed {M : Manager} {s : Space} {R child : Word} (hok : s.Ok M (forkPaths R child))
    (hupper : ∀ i : Fin 512, USER_ROOT_ENTRIES ≤ i.val → s.mem child i = s.mem R i) :
    ({ s with root := child } : Space).WellFormed M := by
  -- each table of the child is one of its own or one behind the upper half of the parent
  have hplace : ∀ {p t}, p.length ≤ 2 → reach Pte.child s.mem child p = some t →
      ∃ r, (forkPaths R child).mem r p ∧ reach Pte.child s.mem r p = some t := by
    intro p t hlen ht
    by_cases hlow : LowerPath p
    · exact ⟨child, ⟨hlen, .inr ⟨rfl, hlow⟩⟩, ht⟩
    · cases p with
      | nil => exact absurd (by rintro i ⟨⟩) hlow
      | cons i p =>
        have hi : USER_ROOT_ENTRIES ≤ i.val := by
          by_contra hlt
          refine hlow ?_
          rintro j ⟨⟩
          exact Nat.not_le.mp hlt
        rw [reach_of_root_entry (hupper i hi)] at ht
        exact ⟨R, ⟨hlen, .inl rfl⟩, ht⟩
  refine ⟨hok.pool, ⟨?_, ?_⟩, ?_, fun h => h.2⟩
  · rintro r p t ⟨rfl, hlen⟩ ht
    obtain ⟨r, hp, ht'⟩ := hplace hlen ht
    exact hok.forest.closed hp ht'
  · rintro r p r' p' t ⟨rfl, hlen⟩ ⟨rfl, hlen'⟩ ht ht'
    obtain ⟨r, hp, ht⟩ := hplace hlen ht
    obtain ⟨r', hp', ht'⟩ := hplace hlen' ht'
    exact ⟨rfl, (hok.forest.apart hp hp' ht ht').2⟩
  · rintro r p t i ⟨rfl, hlen⟩ ht
    obtain ⟨r, hp, ht'⟩ := hplace hlen ht
    exact hok.clean r p t i hp ht'

end Space

namespace ForkSys

variable {α : Type} {M : Manager} {s s' : ForkSys α} {child : Word}

/-- What the code reads at an address under a root. -/
def readsAt (s : ForkSys α) (root va : Word) : Option α :=
  (({ s.sys.space with root := root } : Space).getPa va).map fun pa => s.page (pa.toNat / 4096)

/-- The parent has the leaves that it had, and in its pages stands what stood there. -/
structure ParentKept (M : Manager) (s s' : ForkSys α) : Prop where
  root : s'.sys.space.root = s.sys.space.root
  forkable : s'.Forkable M
  leaf : ∀ va, s'.leaf s.sys.space.root va = s.leaf s.sys.space.root va
  spare : ∀ f, s'.Spare f → s.Spare f
  page : ∀ f, ¬ s.Spare f → s'.page f = s.page f

/-- The space under `child` is a copy of the one that runs. -/
structure IsCopy (M : Manager) (s s' : ForkSys α) (child : Word) : Prop where
  tables : s'.sys.space.Ok M (forkPaths s.sys.space.root child)
  wellFormed : ({ s'.sys.space with root := child } : Space).WellFormed M
  upper : ∀ va, ¬ Space.Lower va → s'.leaf child va = s.leaf s.sys.space.root va
  lower : ∀ va, Space.Lower va → Copied s s' child va
  separate : Separate child s'
  reads : ∀ va, s'.readsAt child va = s'.readsAt s.sys.space.root va
  classes : ∀ va level e, Space.Lower va → s'.leaf child va = some (level, e) → Pte.isPrivate e = true →
    ∀ k < leafPages level, s'.sys.mmode.cls (((Pte.ppn e).toNat + k) / 512) = MemSys.attrOfPteFlags e

/-- A fork of `s` ends with a copy, or without one. -/
structure Forks (M : Manager) (s : ForkSys α) (r : ForkSys α × Option Word) : Prop where
  parent : ParentKept M s r.1
  copy : ∀ child, r.2 = some child → IsCopy M s r.1 child

/-- Every outcome leaves a parent that can fork again. -/
theorem Copying.parentKept (h : Copying M child s s') (h₀ : s.Forkable M) : ParentKept M s s' where
  root := h.root
  forkable := {
    wellFormed := h.ok.wellFormed fun p hp => h.root ▸ forkPaths_parent _ child hp
    chunks := h.chunks
    windows := h.windows h₀.windows
    source := by
      intro va level e hl he hp hg
      rw [h.root] at he
      have hsrc := h₀.source hl ((h.parent va).symm.trans he) hp hg
      exact ⟨hsrc.aligned, fun k hk hs => hsrc.used k hk (h.spare _ hs)⟩ }
  leaf := h.parent
  spare := h.spare
  page := h.page

/-- The page of an address under a leaf. -/
theorem target_page {level : Nat} {e : Word} (va : Word) (hal : leafPages level * 4096 ∣ (Pte.ppn e <<< 12).toNat) :
    ∃ k < leafPages level, k = va.toNat % 2 ^ offsetBits level / 4096 ∧
      (Space.target va (level, e)).toNat / 4096 = (Pte.ppn e).toNat + k := by
  refine ⟨_, ?_, rfl, ?_⟩
  · have hmod := Nat.mod_lt va.toNat (Nat.two_pow_pos (offsetBits level))
    rw [← leafPages_size] at hmod ⊢
    omega
  · rw [leafPages_size, Pte.toNat_ppn_shift] at hal
    rw [Space.toNat_target hal]
    omega

theorem readsAt_eq {root : Word} (h : ({ s.sys.space with root := root } : Space).WellFormed M) (va : Word) :
    s.readsAt root va =
      if isCanonicalVa va then (s.leaf root va).map fun r => s.page ((Space.target va r).toNat / 4096) else none := by
  rw [readsAt, Space.getPa_eq h, Space.leafAt]
  split_ifs
  · rw [Option.map_map]
    rfl
  · rfl

/-- Where the leaf of the child stands for that of the parent, both read the same. -/
theorem Copied.reads {va : Word} (h : Copied s s' child va) (h₀ : s.Forkable M) (hk : ParentKept M s s')
    (hl : Space.Lower va) :
    (s'.leaf child va).map (fun r => s'.page ((Space.target va r).toNat / 4096)) =
      (s'.leaf s.sys.space.root va).map fun r => s'.page ((Space.target va r).toNat / 4096) := by
  rw [hk.leaf]
  rw [Copied] at h
  cases hleaf : s.leaf s.sys.space.root va with
  | none =>
    rw [hleaf] at h
    rw [h]
  | some r =>
    obtain ⟨level, e⟩ := r
    rw [hleaf] at h
    obtain ⟨e', he', hcopy⟩ := h
    rw [he', Option.map_some, Option.map_some]
    split_ifs at hcopy with hp
    · have hsrc := h₀.source hl hleaf hp hcopy.small
      obtain ⟨k, hlt, rfl, hpage⟩ := target_page va hsrc.aligned
      obtain ⟨_, _, rfl, hpage'⟩ := target_page va hcopy.aligned
      rw [hpage, hpage', hcopy.page _ hlt, hk.page _ (hsrc.used _ hlt)]
    · rw [hcopy]

/-- The loop over the lower half of the root. -/
theorem copyRootEntry_spec {s₀ : ForkSys α} {i : Fin 512} (hc : Copying M child s₀ s) (h₀ : s₀.Forkable M)
    (hne : child ≠ s₀.sys.space.root) (hi : i.val < USER_ROOT_ENTRIES)
    (hblank : ∀ va, Under [i] va → s.leaf child va = none) :
    Outcome M child s₀ s (Under [i]) 0 (s.copyRootEntry M s₀.sys.space.root child i) := by
  have hlow : Space.LowerPath ([] ++ [i]) := by
    rintro j ⟨⟩
    exact hi
  have hdown : CopiesTable M child s₀ (copyTableLevel M 2 LEVEL_MEGA) ([] ++ [i]) :=
    copyTableLevel_spec h₀ hne 2 (p := [i]) (by simp) (by simp) hlow
  rw [copyRootEntry]
  cases hv : Pte.isValid (s.pte ⟨s₀.sys.space.root, i⟩) with
  | false => exact outcome_absent (p := []) hc rfl hv hblank
  | true =>
    cases hl : Pte.isLeaf (s.pte ⟨s₀.sys.space.root, i⟩) with
    | false => exact outcome_pointer (p := []) hc hne (Nat.zero_le 2) hlow rfl rfl hv hl hblank fun _ => hdown
    | true =>
      simp only [Bool.not_true, Bool.false_eq_true, if_false, if_true]
      split_ifs with huser
      · exact .fail (.refl hc.ok hc.chunks)
      · have hshared : Pte.isPrivate (s.pte ⟨s₀.sys.space.root, i⟩) = false := by
          rw [Pte.isPrivate, decide_eq_false huser]
          rfl
        exact outcome_shared (p := []) hc (Nat.zero_le 2) hlow rfl rfl hv hl hshared

/-- The state in which the copy starts. -/
theorem copying_start (h : s.Forkable M) {space : Space} (ha : s.sys.space.tryAllocSmodePage M 1 = some (child, space)) :
    Copying M child s (s.withSpace (space.withRoot child)) where
  ok := Space.withRoot_ok h.wellFormed ha
  root := (Space.tryAllocSmodePage_some ha h.wellFormed.pool).2.2.2.2
  chunks := ChunksOk.congr (s := s) rfl rfl rfl h.chunks
  parent va := Space.leaf_withRoot_parent h.wellFormed ha va
  spare f hf := (spare_congr rfl rfl rfl f).mp hf
  page _ _ := rfl

theorem leaf_start (s : ForkSys α) {space : Space} {va : Word} (hl : Space.Lower va) :
    (s.withSpace (space.withRoot child)).leaf child va = none := by
  have hentry : (space.withRoot child).mem child (getVpn va 0) = 0 := by
    show Radix.fill space.mem child _ child _ = 0
    rw [fill_same]
    exact Space.childRoot_lower hl
  show (space.withRoot child).leaf child va = none
  rw [Space.leaf, Space.vpns_eq, view_absent (by rw [hentry]; rfl)]

theorem mem_lowerHalf {i : Fin 512} : i ∈ lowerHalf ↔ i.val < USER_ROOT_ENTRIES := by
  simp [lowerHalf]

theorem nodup_lowerHalf : lowerHalf.Nodup := by
  rw [lowerHalf]
  exact (List.nodup_finRange 512).filter _

theorem under_lowerHalf {va : Word} (hl : Space.Lower va) : ∃ i ∈ lowerHalf, Under ([] ++ [i]) va :=
  ⟨getVpn va 0, mem_lowerHalf.mpr hl, [getVpn va 1, getVpn va 2], rfl⟩

/-- The loop over the lower half, from the root that was filled. -/
theorem copyRoot_spec (h : s.Forkable M) {space : Space} (ha : s.sys.space.tryAllocSmodePage M 1 = some (child, space)) :
    Outcome M child s (s.withSpace (space.withRoot child)) (fun va => ∃ i ∈ lowerHalf, Under ([] ++ [i]) va) 0
      (copyEntries (fun s₁ i => s₁.copyRootEntry M space.root child i) (s.withSpace (space.withRoot child)) lowerHalf) := by
  have hstart := copying_start h ha
  have hne := Space.child_ne_root h.wellFormed ha
  have hroot : space.root = s.sys.space.root := hstart.root
  have hlow : ∀ i ∈ lowerHalf, Space.LowerPath ([] ++ [i]) := by
    intro i hi
    rintro j ⟨⟩
    exact mem_lowerHalf.mp hi
  rw [hroot]
  refine copyEntries_spec (p := []) _ hne (Nat.zero_le 2) lowerHalf nodup_lowerHalf hlow ?_ hstart rfl rfl ?_
  · exact fun s₁ i hi hc _ _ hblank => copyRootEntry_spec hc h hne (mem_lowerHalf.mp hi) hblank
  · exact fun i hi va hu => leaf_start s (Space.lower_of_lowerPath (hlow i hi) hu)

/-- The end of a copy that has reached every entry of the lower half. -/
theorem Outcome.isCopy {s₂ s₃ : ForkSys α} {space : Space} (h : s.Forkable M)
    (ha : s.sys.space.tryAllocSmodePage M 1 = some (child, space))
    (hout : Outcome M child s (s.withSpace (space.withRoot child)) (fun va => ∃ i ∈ lowerHalf, Under ([] ++ [i]) va) 0 (s₂, true))
    (hseal : Seals s₂ s₃ true) : ParentKept M s s₃ ∧ IsCopy M s s₃ child := by
  have hne := Space.child_ne_root h.wellFormed ha
  have hdraws := hseal.draws hout.goes.chunks
  have hgoes : Goes M s.sys.space.root child (fun _ => False) 0 s₂ s₃ := hdraws.goes hout.goes.ok
  have hc₂ := (copying_start h ha).goes hne hout.goes
  have hc₃ := hc₂.goes hne hgoes
  have hkept := hc₃.parentKept h
  have hcopied : ∀ va, Space.Lower va → Copied s s₃ child va := fun va hl =>
    (hout.copied rfl va hl (under_lowerHalf hl)).goes hgoes hseal.keepsClass hl id
  have hsep₃ : Separate child s₃ := by
    refine (hout.separate rfl ?_).of_same hgoes.spare fun va hl => hgoes.leaf (through_child _ child hl) fun h => h.2
    constructor
    · intro va level e hl he
      rw [leaf_start s hl] at he
      cases he
    · intro va va' level level' e e' hl _ he
      rw [leaf_start s hl] at he
      cases he
  have hupper : ∀ i : Fin 512, USER_ROOT_ENTRIES ≤ i.val →
      s₃.sys.space.mem child i = s₃.sys.space.mem s.sys.space.root i := by
    intro i hi
    have hreaches := hout.goes.reaches.trans hgoes.reaches
    rw [hreaches.upper child i ⟨Nat.zero_le 2, .inr ⟨rfl, nofun⟩⟩ hi,
      hreaches.upper _ i (forkPaths_parent _ child (Nat.zero_le 2)) hi]
    show Radix.fill space.mem child _ child i = Radix.fill space.mem child _ s.sys.space.root i
    have hroot : space.root = s.sys.space.root := (copying_start h ha).root
    rw [fill_same, fill_other hne.symm, childRoot, if_pos hi, hroot]
  have hchild := Space.child_wellFormed hc₃.ok hupper
  have hparent : ({ s₃.sys.space with root := s.sys.space.root } : Space).WellFormed M := by
    rw [← hc₃.root]
    exact hkept.forkable.wellFormed
  have hleaf : ∀ va, ¬ Space.Lower va → s₃.leaf child va = s₃.leaf s.sys.space.root va := fun va hl =>
    Space.leaf_of_root_entry (hupper _ (Nat.not_lt.mp hl))
  refine ⟨hkept, hc₃.ok, hchild, fun va hl => (hleaf va hl).trans (hkept.leaf va), hcopied, hsep₃, fun va => ?_, ?_⟩
  · rw [readsAt_eq hchild, readsAt_eq hparent]
    split_ifs
    · by_cases hl : Space.Lower va
      · exact (hcopied va hl).reads h hkept hl
      · rw [hleaf va hl]
    · rfl
  · intro va level e' hl he' hp k hk
    have hcopy := hcopied va hl
    rw [Copied, he'] at hcopy
    cases hsrc : s.leaf s.sys.space.root va with
    | none =>
      rw [hsrc] at hcopy
      cases hcopy
    | some r =>
      obtain ⟨l, e⟩ := r
      rw [hsrc] at hcopy
      obtain ⟨e₁, heq, hcopy⟩ := hcopy
      obtain ⟨rfl, rfl⟩ := Prod.mk.inj (Option.some.inj heq)
      split_ifs at hcopy with hpe
      · obtain ⟨p, hentry⟩ := hcopy.entry
        have hattr : MemSys.attrOfPteFlags e' = MemSys.attrOfPteFlags e := by
          rw [hentry, Pte.attrOfPteFlags_setPpn]
        rw [hattr]
        exact (hcopy.cls k hk).cls hseal.instr
      · exact absurd (hcopy ▸ hp) hpe

/-- `fork_address_space` makes a copy of the running address space, or fails; neither changes what the
parent has mapped or what stands there. -/
theorem fork_address_space_copies {α : Type} {M : Manager} {s : ForkSys α} (h : s.Forkable M) :
    Forks M s (s.forkAddressSpace M) := by
  cases ha : s.sys.space.tryAllocSmodePage M 1 with
  | none =>
    have hself : ParentKept M s s := ⟨rfl, h, fun _ => rfl, fun _ hf => hf, fun _ _ => rfl⟩
    rw [forkAddressSpace, ha]
    exact ⟨hself, nofun⟩
  | some x =>
    obtain ⟨child, space⟩ := x
    have hout := copyRoot_spec h ha
    have hstart := copying_start h ha
    have hne := Space.child_ne_root h.wellFormed ha
    rw [forkAddressSpace, ha]
    rw [Space.withRoot] at hout
    dsimp only
    generalize copyEntries (fun s₁ i => s₁.copyRootEntry M space.root child i) _ lowerHalf = r at hout ⊢
    obtain ⟨s₂, done⟩ := r
    have hc₂ := hstart.goes hne hout.goes
    cases done with
    | false => exact ⟨hc₂.parentKept h, nofun⟩
    | true =>
      have hseal := forkSealChunk_spec (M := M) s₂ hc₂.chunks
      dsimp only
      generalize s₂.forkSealChunk M = r at hseal ⊢
      obtain ⟨s₃, done⟩ := r
      cases done with
      | true =>
        obtain ⟨hkept, hcopy⟩ := hout.isCopy h ha hseal
        refine ⟨hkept, ?_⟩
        rintro _ ⟨⟩
        exact hcopy
      | false =>
        have hgoes : Goes M s.sys.space.root child (fun _ => False) 0 s₂ s₃ := (Seals.draws hseal hc₂.chunks).goes hc₂.ok
        exact ⟨(hc₂.goes hne hgoes).parentKept h, nofun⟩

/-! ## A process with one page -/

def ownPage : Word := Pte.U ||| Pte.R ||| Pte.W

/-- One page is mapped, and M mode has one partition to offer. -/
def onePage : ForkSys Nat where
  sys := {
    space := ((Space.empty smallManager).mapPage smallManager 0x10000 0x90003000 ownPage LEVEL_PAGE).1
    ctx := ⟨0, 0, 0, 0⟩
    mmode := ⟨[0x500], [], fun q => decide (q = 0x480), fun _ => .data⟩ }
  page := id
  chunkPa _ := 0
  chunkLeft _ := 0

theorem onePage_leaf (va : Word) : onePage.leaf onePage.sys.space.root va =
    if SameEntry LEVEL_PAGE 0x10000 va then some (LEVEL_PAGE, leafEntry 0x90003000 ownPage) else none := by
  have hspec := @Space.mapPage_spec smallManager (tablesFrom smallManager.rootPa) (Space.empty smallManager) 0x10000
    0x90003000 ownPage LEVEL_PAGE (Space.wellFormed_empty smallManager) (by decide) (through_tablesFrom _ _) (by decide)
  rw [show ((Space.empty smallManager).mapPage smallManager 0x10000 0x90003000 ownPage LEVEL_PAGE).2 = .ok () from rfl]
    at hspec
  have habsent : Pte.isValid ((Space.empty smallManager).mem smallManager.rootPa (getVpn va 0)) = false :=
    Space.isValid_zero
  have hempty : (Space.empty smallManager).leaf smallManager.rootPa va = none := by
    rw [Space.leaf, Space.vpns_eq, view_absent habsent]
  have hleaf := hspec.2.leaf_eq (r := smallManager.rootPa) (through_tablesFrom _ va)
  have hroot : onePage.sys.space.root = smallManager.rootPa := hspec.2.root
  rw [hempty] at hleaf
  rw [hroot]
  refine hleaf.trans ?_
  simp only [show (Space.empty smallManager).root = smallManager.rootPa from rfl, true_and]

theorem onePage_forkable : onePage.Forkable smallManager := by
  have hfar : ∀ {level va₀ va}, getVpn va₀ 0 ≠ getVpn 0x10000 0 → SameEntry level va₀ va →
      onePage.leaf onePage.sys.space.root va = none := by
    intro level va₀ va hne hs
    rw [onePage_leaf, if_neg]
    exact fun h => hne ((hs 0 (Nat.zero_le level)).trans (h 0 (Nat.zero_le 2)).symm)
  constructor
  · exact (Space.wellFormed_empty smallManager).mapPage (by decide) (by decide)
  · exact ⟨fun _ => Nat.dvd_zero _, fun _ => Nat.two_pow_pos 48, fun _ => Nat.zero_le 512, fun _ _ => rfl, fun _ h => absurd rfl h,
      fun h => absurd rfl h, fun h => absurd rfl h⟩
  · constructor
    · rintro va (hs | hs)
      · exact hfar (by decide) hs
      · exact hfar (by decide) hs
    · rintro va (hs | hs)
      · exact hfar (by decide) hs
      · exact hfar (by decide) hs
  · intro va level e _ he _ _
    rw [onePage_leaf] at he
    split_ifs at he with hs
    obtain ⟨rfl, rfl⟩ := Prod.mk.inj (Option.some.inj he)
    refine ⟨by decide, fun k hk => ?_⟩
    obtain rfl : k = 0 := Nat.lt_one_iff.mp hk
    rintro (hf | ⟨attr, hne, _⟩)
    · cases hf
    · exact hne rfl

theorem fork_address_space_one_page : Forks smallManager onePage (onePage.forkAddressSpace smallManager) :=
  fork_address_space_copies onePage_forkable

end ForkSys

end Pyremu.Sittim
