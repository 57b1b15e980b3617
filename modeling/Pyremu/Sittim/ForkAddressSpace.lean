import Pyremu.Sittim.ForkCopy

/-!
# The copy of an address space

The loops of the copy go from the root of the child down to its tables. Each of
them ends with the leaves below its table copied, or it fails, and then only
table pages and partitions are lost.
-/

namespace Pyremu.Sittim

open Radix

namespace Space

/-- Every walk is that of an address. -/
theorem exists_vpns (i j k : Fin 512) : ∃ va, vpns va = [i, j, k] := by
  refine ⟨BitVec.ofNat 64 (i.val * 2 ^ 30 + j.val * 2 ^ 21 + k.val * 2 ^ 12), ?_⟩
  have hval : (BitVec.ofNat 64 (i.val * 2 ^ 30 + j.val * 2 ^ 21 + k.val * 2 ^ 12)).toNat =
      i.val * 2 ^ 30 + j.val * 2 ^ 21 + k.val * 2 ^ 12 := by
    rw [BitVec.toNat_ofNat]
    exact Nat.mod_eq_of_lt (by omega)
  rw [vpns_eq, List.cons.injEq, List.cons.injEq, List.cons.injEq]
  refine ⟨Fin.ext ?_, Fin.ext ?_, Fin.ext ?_, rfl⟩
  · rw [getVpn_val (by decide), hval, offsetBits]
    omega
  · rw [getVpn_val (by decide), hval, offsetBits]
    omega
  · rw [getVpn_val (by decide), hval, offsetBits]
    omega

theorem exists_below {p : List (Fin 512)} (i : Fin 512) (hlen : p.length ≤ 2) : ∃ va, p ++ [i] <+: vpns va := by
  cases p with
  | nil =>
    obtain ⟨va, hva⟩ := exists_vpns i 0 0
    exact ⟨va, hva ▸ ⟨[0, 0], rfl⟩⟩
  | cons j p =>
    cases p with
    | nil =>
      obtain ⟨va, hva⟩ := exists_vpns j i 0
      exact ⟨va, hva ▸ ⟨[0], rfl⟩⟩
    | cons k p =>
      rw [List.length_cons, List.length_cons] at hlen
      obtain rfl : p = [] := List.eq_nil_of_length_eq_zero (by omega)
      obtain ⟨va, hva⟩ := exists_vpns j k i
      exact ⟨va, hva ▸ List.prefix_refl _⟩

/-- Addresses under one entry. -/
theorem sameEntry_of_extends {p : List (Fin 512)} {i : Fin 512} {va va' : Word} (hlen : p.length ≤ 2)
    (h : p ++ [i] <+: vpns va) (h' : p ++ [i] <+: vpns va') : SameEntry p.length va va' := by
  rw [sameEntry_iff hlen]
  have hown := (sameEntry_iff hlen va va).mp fun _ _ => rfl
  have heq : levelPath va p.length ++ [getVpn va p.length] = p ++ [i] :=
    (List.prefix_of_prefix_length_le hown h (by simp [levelPath_length])).eq_of_length (by simp [levelPath_length])
  rw [heq]
  exact h'

end Space

namespace ForkSys

variable {α : Type} {M : Manager} {C : Word} {s₀ s s' : ForkSys α} {n : Nat}

/-- The addresses under an entry. -/
def Under (p : List (Fin 512)) (va : Word) : Prop := p <+: vpns va

theorem Outcome.fail {W : Word → Prop} (h : Goes M s₀.sys.space.root C W n s s') : Outcome M C s₀ s W n (s', false) :=
  ⟨h, nofun, nofun, nofun⟩

theorem Outcome.after {W : Word → Prop} {r : ForkSys α × Bool} (hg : Goes M s₀.sys.space.root C W n s s')
    (hk : KeepsClass s s') (hsep : Separate C s → Separate C s') (h : Outcome M C s₀ s' W n r) :
    Outcome M C s₀ s W n r where
  goes := hg.trans h.goes
  classes hr := hk.trans hg.spare (h.classes hr)
  separate hr hs := h.separate hr (hsep hs)
  copied := h.copied

/-- What copies the table at a place of the parent into an empty one at the same place of the child. -/
def CopiesTable (M : Manager) (C : Word) (s₀ : ForkSys α) (down : ForkSys α → Word → Word → ForkSys α × Bool)
    (p : List (Fin 512)) : Prop :=
  ∀ s src dst, Copying M C s₀ s → reach Pte.child s.sys.space.mem s₀.sys.space.root p = some src →
    reach Pte.child s.sys.space.mem C p = some dst → (∀ va, Under p va → s.leaf C va = none) →
      Outcome M C s₀ s (Under p) p.length (down s src dst)

/-! ## One entry -/

section Entry

variable {src dst : Word} {p : List (Fin 512)} {i : Fin 512} (hc : Copying M C s₀ s) (h₀ : s₀.Forkable M)
  (hne : C ≠ s₀.sys.space.root) (hlen : p.length ≤ 2) (hlow : Space.LowerPath (p ++ [i]))
  (hsrc : reach Pte.child s.sys.space.mem s₀.sys.space.root p = some src)
  (hdst : reach Pte.child s.sys.space.mem C p = some dst)

include hlen hlow

omit hlen in
theorem path_mem (R C : Word) (hlen : p.length ≤ 2) : (forkPaths R C).mem C p :=
  ⟨hlen, .inr ⟨rfl, Space.lowerPath_of_extends hlow ⟨[i], rfl⟩⟩⟩

include hc hsrc

omit hlen hlow in
/-- The leaf of the parent under an entry that leads nowhere. -/
theorem parent_leaf {va : Word} (hu : Under (p ++ [i]) va) (he : Pte.child (s.pte ⟨src, i⟩) = none) :
    s₀.leaf s₀.sys.space.root va =
      if Pte.isValid (s.pte ⟨src, i⟩) then some (p.length, s.pte ⟨src, i⟩) else none := by
  rw [← hc.parent va]
  exact Space.leaf_of_entry hsrc hu he

omit hlow in
theorem entry_clean : Pte.Clean p.length (s.pte ⟨src, i⟩) :=
  hc.ok.clean _ p src i (forkPaths_parent _ C hlen) hsrc

omit hlen hlow in
/-- Nothing to copy. -/
theorem outcome_absent (hv : Pte.isValid (s.pte ⟨src, i⟩) = false)
    (hblank : ∀ va, Under (p ++ [i]) va → s.leaf C va = none) :
    Outcome M C s₀ s (Under (p ++ [i])) p.length (s, true) := by
  refine ⟨.refl hc.ok hc.chunks, fun _ => .refl s, fun _ h => h, fun _ va _ hu => ?_⟩
  rw [Copied, parent_leaf hc hsrc hu (Pte.child_of_invalid hv), hv]
  exact hblank va hu

include hdst

omit hsrc in
/-- An entry of the child that leads nowhere is written. -/
theorem write_goes {e : Word} (he : Pte.child e = none) (hclean : Pte.Clean p.length e) :
    Goes M s₀.sys.space.root C (Under (p ++ [i])) p.length s (s.write ⟨dst, i⟩ e) := by
  have hp := path_mem hlow s₀.sys.space.root C hlen
  exact {
    root := rfl
    ok := Space.write_ok hc.ok hp hdst he hclean
    reaches := Space.write_reaches hc.ok hp hdst hlow le_rfl
    leaf := fun ht hn => Space.write_leaf_other hc.ok hp hdst ht fun h => hn ⟨h.1.symm, h.2⟩
    chunks := ChunksOk.congr (s := s) rfl rfl rfl hc.chunks
    spare := fun f hf => (spare_congr rfl rfl rfl f).mp hf
    page := fun _ _ => rfl }

omit hsrc in
theorem write_leaf {e va : Word} (he : Pte.child e = none) (hv : Pte.isValid e = true) (hu : Under (p ++ [i]) va) :
    (s.write ⟨dst, i⟩ e).leaf C va = some (p.length, e) := by
  have hleaf := Space.write_leaf_under hc.ok (path_mem hlow s₀.sys.space.root C hlen) hdst hu he
  rw [hv] at hleaf
  exact hleaf

/-- A shared leaf is the same entry in the child. -/
theorem outcome_shared (hv : Pte.isValid (s.pte ⟨src, i⟩) = true) (hl : Pte.isLeaf (s.pte ⟨src, i⟩) = true)
    (hp : Pte.isPrivate (s.pte ⟨src, i⟩) = false) :
    Outcome M C s₀ s (Under (p ++ [i])) p.length (s.write ⟨dst, i⟩ (s.pte ⟨src, i⟩), true) := by
  have hchild := Pte.child_of_leaf hl
  have hgoes := write_goes hc hlen hlow hdst hchild (entry_clean hc hlen hsrc)
  have hleaf : ∀ va, Under (p ++ [i]) va → _ := fun va hu => write_leaf hc hlen hlow hdst hchild hv hu
  refine ⟨hgoes, fun _ f a _ h => (classOk_congr rfl rfl f a).mpr h, fun _ h => ?_, fun _ va _ hu => ?_⟩
  · refine h.step hgoes.spare (fun va hlow' hn => ?_) hleaf (fun va va' => Space.sameEntry_of_extends hlen) fun h' => ?_
    · exact hgoes.leaf (through_child _ C hlow') fun hn' => hn hn'.2
    · rw [hp] at h'
      cases h'
  · rw [Copied, parent_leaf hc hsrc hu hchild, hv]
    refine ⟨_, hleaf va hu, ?_⟩
    rw [hp]
    rfl

include h₀ hne

/-- A private leaf has pages of its own in the child. -/
theorem outcome_private (hv : Pte.isValid (s.pte ⟨src, i⟩) = true) (hl : Pte.isLeaf (s.pte ⟨src, i⟩) = true)
    (hp : Pte.isPrivate (s.pte ⟨src, i⟩) = true) (hlevel : p.length ≠ LEVEL_GIGA) :
    Outcome M C s₀ s (Under (p ++ [i])) p.length
      (match s.copyLeaf M p.length (s.pte ⟨src, i⟩) with
        | (s', none) => (s', false)
        | (s', some dstPa) => (s'.write ⟨dst, i⟩ (Pte.setPpn (s.pte ⟨src, i⟩) (dstPa >>> 12)), true)) := by
  have hchild := Pte.child_of_leaf hl
  have hparent : ∀ {va}, Under (p ++ [i]) va → s₀.leaf s₀.sys.space.root va = some (p.length, s.pte ⟨src, i⟩) := by
    intro va hu
    rw [parent_leaf hc hsrc hu hchild, hv]
    rfl
  obtain ⟨va₀, hu₀⟩ := Space.exists_below i hlen
  have hsource := h₀.source (Space.lower_of_lowerPath hlow hu₀) (hparent hu₀) hp hlevel
  have hlevels : p.length = LEVEL_MEGA ∨ p.length = LEVEL_PAGE := by
    rw [LEVEL_GIGA] at hlevel
    rw [LEVEL_MEGA, LEVEL_PAGE]
    omega
  have hcopy := copyLeaf_spec (M := M) (C := C) (W := Under (p ++ [i])) hlevels hc.ok hc.root hc.chunks
    (hc.windows h₀.windows) ⟨hsource.aligned, fun k hk hs => hsource.used k hk (hc.spare _ hs)⟩
  generalize s.copyLeaf M p.length (s.pte ⟨src, i⟩) = r at hcopy ⊢
  obtain ⟨s₂, res⟩ := r
  cases res with
  | none => exact .fail hcopy
  | some pa =>
    obtain ⟨hgoes, hfilled⟩ := hcopy
    have hc₂ := hc.goes hne hgoes
    have hdst₂ := hgoes.reaches.keep C p dst (path_mem hlow _ C hlen) le_rfl hdst
    have hl' : Pte.isLeaf (Pte.setPpn (s.pte ⟨src, i⟩) (pa >>> 12)) = true := (Pte.isLeaf_setPpn _ _).trans hl
    have hv' : Pte.isValid (Pte.setPpn (s.pte ⟨src, i⟩) (pa >>> 12)) = true := (Pte.isValid_setPpn _ _).trans hv
    have hchild' := Pte.child_of_leaf hl'
    have hgoes' := hgoes.trans (write_goes hc₂ hlen hlow hdst₂ hchild' (Space.clean_setPpn _ hv fun _ => hl))
    have hleaf : ∀ va, Under (p ++ [i]) va → _ := fun va hu => write_leaf hc₂ hlen hlow hdst₂ hchild' hv' hu
    have hfilled' : Filled s (s₂.write ⟨dst, i⟩ (Pte.setPpn (s.pte ⟨src, i⟩) (pa >>> 12))) p.length (s.pte ⟨src, i⟩) pa :=
      hfilled.withSpace _
    refine ⟨hgoes', fun _ => hfilled'.classes, fun _ h => ?_, fun _ va _ hu => ?_⟩
    · refine h.step hgoes'.spare (fun va hlow' hn => ?_) hleaf (fun va va' => Space.sameEntry_of_extends hlen)
        fun _ k hk => ?_
      · exact hgoes'.leaf (through_child _ C hlow') fun hn' => hn hn'.2
      · rw [Pte.toNat_ppn_setPpn _ hfilled'.small]
        exact ⟨hfilled'.spare k hk, hfilled'.used k hk⟩
    · rw [Copied, hparent hu]
      refine ⟨_, hleaf va hu, ?_⟩
      rw [if_pos hp]
      exact hfilled'.copyOf hc hsource hlevel

omit h₀

/-- The table behind a pointer is copied into a new one. -/
theorem outcome_pointer {down : ForkSys α → Word → Word → ForkSys α × Bool} (hv : Pte.isValid (s.pte ⟨src, i⟩) = true)
    (hl : Pte.isLeaf (s.pte ⟨src, i⟩) = false) (hblank : ∀ va, Under (p ++ [i]) va → s.leaf C va = none)
    (hdown : p.length < 2 → CopiesTable M C s₀ down (p ++ [i])) :
    Outcome M C s₀ s (Under (p ++ [i])) p.length (s.copyPointer M down ⟨dst, i⟩ (s.pte ⟨src, i⟩)) := by
  have hshort : p.length < 2 := by
    refine lt_of_le_of_ne hlen fun heq => ?_
    rw [(entry_clean hc hlen hsrc).2.2 heq hv] at hl
    cases hl
  have hlen' : (p ++ [i]).length = p.length + 1 := List.length_append
  have hmem := path_mem hlow s₀.sys.space.root C hlen
  rw [copyPointer]
  cases ha : s.sys.space.tryAllocSmodePage M 1 with
  | none => exact .fail (.refl hc.ok hc.chunks)
  | some x =>
    obtain ⟨t, space⟩ := x
    obtain ⟨h48, hal⟩ := Space.fresh_page hc.ok ha
    have hchild : Pte.child (Pte.setPpn (s.pte ⟨src, i⟩) (t >>> 12)) = some t := Pte.child_setPpn hv hl h48 hal
    have hclean : Pte.Clean p.length (Pte.setPpn (s.pte ⟨src, i⟩) (t >>> 12)) :=
      Space.clean_setPpn _ hv fun h2 => absurd h2 (Nat.ne_of_lt hshort)
    have hok := Space.install_pointer_ok (i := i) hc.ok hmem hdst ha hchild hclean
    have hgoes : Goes M s₀.sys.space.root C (Under (p ++ [i])) p.length s
        (s.withSpace (space.install ⟨dst, i⟩ (Pte.setPpn (s.pte ⟨src, i⟩) (t >>> 12)) t fun _ => 0)) := {
      root := (Space.tryAllocSmodePage_some ha hc.ok.pool).2.2.2.2
      ok := hok
      reaches := Space.install_reaches hc.ok hmem hdst hlow ha le_rfl
      leaf := fun ht hn => Space.install_pointer_other hc.ok hmem hdst ha ht fun h => hn ⟨h.1.symm, h.2⟩
      chunks := ChunksOk.congr (s := s) rfl rfl rfl hc.chunks
      spare := fun f hf => (spare_congr rfl rfl rfl f).mp hf
      page := fun _ _ => rfl }
    have hblank' : ∀ va, Under (p ++ [i]) va →
        (space.install ⟨dst, i⟩ (Pte.setPpn (s.pte ⟨src, i⟩) (t >>> 12)) t fun _ => 0).leaf C va = none :=
      fun va hu => Space.install_pointer_under hc.ok hmem hdst ha hchild hshort hu
    refine .after hgoes (fun f a _ h => (classOk_congr rfl rfl f a).mpr h) (fun h => ?_) ?_
    · refine h.of_same hgoes.spare fun va hlow' => ?_
      by_cases hu : Under (p ++ [i]) va
      · exact (hblank' va hu).trans (hblank va hu).symm
      · exact hgoes.leaf (through_child _ C hlow') fun h => hu h.2
    · have hsrc' : reach Pte.child
          (space.install ⟨dst, i⟩ (Pte.setPpn (s.pte ⟨src, i⟩) (t >>> 12)) t fun _ => 0).mem s₀.sys.space.root (p ++ [i]) =
            some (Pte.ppn (s.pte ⟨src, i⟩) <<< 12) := by
        rw [Space.install_pointer_reach_other hc.ok hmem hdst ha (forkPaths_parent _ C (by omega)) fun h => hne h.1,
          reach_snoc, hsrc, Option.bind_some]
        exact Pte.child_of_pointer hv hl
      have hdst' := Space.install_pointer_reach (i := i) hc.ok hmem hdst ha hchild
      have hout := hdown hshort _ _ _ (hc.goes hne hgoes) hsrc' hdst' hblank'
      rw [hlen'] at hout
      exact { hout with goes := hout.goes.mono (fun _ h => h) (Nat.le_succ _) }

include h₀

/-- The body of the loop over the entries of a table. -/
theorem copyEntry_spec {down : ForkSys α → Word → Word → ForkSys α × Bool}
    (hblank : ∀ va, Under (p ++ [i]) va → s.leaf C va = none)
    (hdown : p.length < 2 → CopiesTable M C s₀ down (p ++ [i])) :
    Outcome M C s₀ s (Under (p ++ [i])) p.length (s.copyEntry M down p.length src dst i) := by
  rw [copyEntry]
  cases hv : Pte.isValid (s.pte ⟨src, i⟩) with
  | false => exact outcome_absent hc hsrc hv hblank
  | true =>
    cases hl : Pte.isLeaf (s.pte ⟨src, i⟩) with
    | false => exact outcome_pointer hc hne hlen hlow hsrc hdst hv hl hblank hdown
    | true =>
      cases hp : Pte.isPrivate (s.pte ⟨src, i⟩) with
      | false => exact outcome_shared hc hlen hlow hsrc hdst hv hl hp
      | true =>
        simp only [Bool.not_true, Bool.false_eq_true, if_false, if_true]
        split_ifs with hgiga
        · exact .fail (.refl hc.ok hc.chunks)
        · have hout := outcome_private hc h₀ hne hlen hlow hsrc hdst hv hl hp hgiga
          generalize s.copyLeaf M p.length (s.pte ⟨src, i⟩) = r at hout ⊢
          obtain ⟨s₂, res⟩ := r
          cases res with
          | none => exact hout
          | some pa => exact hout

end Entry

/-! ## Tables -/

section Table

variable {src dst : Word} {p : List (Fin 512)}

/-- The loop over entries, each of them copied on its own. -/
theorem copyEntries_spec (body : ForkSys α → Fin 512 → ForkSys α × Bool) (hne : C ≠ s₀.sys.space.root)
    (hlen : p.length ≤ 2) (is : List (Fin 512)) (hnodup : is.Nodup) (hlow : ∀ i ∈ is, Space.LowerPath (p ++ [i]))
    (hbody : ∀ s, ∀ i ∈ is, Copying M C s₀ s → reach Pte.child s.sys.space.mem s₀.sys.space.root p = some src →
      reach Pte.child s.sys.space.mem C p = some dst → (∀ va, Under (p ++ [i]) va → s.leaf C va = none) →
        Outcome M C s₀ s (Under (p ++ [i])) p.length (body s i))
    (hc : Copying M C s₀ s) (hsrc : reach Pte.child s.sys.space.mem s₀.sys.space.root p = some src)
    (hdst : reach Pte.child s.sys.space.mem C p = some dst)
    (hblank : ∀ i ∈ is, ∀ va, Under (p ++ [i]) va → s.leaf C va = none) :
    Outcome M C s₀ s (fun va => ∃ i ∈ is, Under (p ++ [i]) va) p.length (copyEntries body s is) := by
  induction is generalizing s with
  | nil =>
    refine ⟨.refl hc.ok hc.chunks, fun _ => .refl s, fun _ h => h, fun _ va _ hu => ?_⟩
    obtain ⟨i, hi, _⟩ := hu
    cases hi
  | cons i is ih =>
    obtain ⟨hi, hnodup'⟩ := List.nodup_cons.mp hnodup
    have hhead := hbody s i List.mem_cons_self hc hsrc hdst (hblank i List.mem_cons_self)
    rw [copyEntries]
    generalize body s i = r at hhead ⊢
    obtain ⟨s', done⟩ := r
    have hgoes : Goes M s₀.sys.space.root C (fun va => ∃ j ∈ i :: is, Under (p ++ [j]) va) p.length s s' :=
      hhead.goes.mono (fun va hu => ⟨i, List.mem_cons_self, hu⟩) le_rfl
    cases done with
    | false => exact .fail hgoes
    | true =>
      have hc' := hc.goes hne hhead.goes
      have hp := path_mem (hlow i List.mem_cons_self) s₀.sys.space.root C hlen
      have hblank' : ∀ j ∈ is, ∀ va, Under (p ++ [j]) va → s'.leaf C va = none := by
        intro j hj va hu
        have hlow' := Space.lower_of_lowerPath (hlow j (List.mem_cons_of_mem i hj)) hu
        rw [hhead.goes.leaf (through_child _ C hlow') fun h => hi ?_]
        · exact hblank j (List.mem_cons_of_mem i hj) va hu
        · have heq := (List.prefix_of_prefix_length_le hu h.2 (by simp)).eq_of_length (by simp)
          rw [List.append_cancel_left_eq, List.singleton_inj] at heq
          exact heq ▸ hj
      have htail := ih hnodup' (fun j hj => hlow j (List.mem_cons_of_mem i hj))
        (fun s j hj => hbody s j (List.mem_cons_of_mem i hj)) hc'
        (hhead.goes.reaches.keep _ p src (forkPaths_parent _ C hlen) le_rfl hsrc)
        (hhead.goes.reaches.keep C p dst hp le_rfl hdst) hblank'
      refine ⟨hgoes.trans (htail.goes.mono ?_ le_rfl), fun h => (hhead.classes rfl).trans hhead.goes.spare (htail.classes h),
        fun h hs => htail.separate h (hhead.separate rfl hs), fun h va hlow' hu => ?_⟩
      · rintro va ⟨j, hj, hu⟩
        exact ⟨j, List.mem_cons_of_mem i hj, hu⟩
      · by_cases htl : ∃ j ∈ is, Under (p ++ [j]) va
        · exact htail.copied h va hlow' htl
        · obtain ⟨j, hj, hu⟩ := hu
          rcases List.mem_cons.mp hj with rfl | hj
          · exact (hhead.copied rfl va hlow' hu).goes htail.goes (htail.classes h) hlow' htl
          · exact absurd ⟨j, hj, hu⟩ htl

theorem under_iff {va : Word} (hlen : p.length ≤ 2) :
    (∃ i ∈ List.finRange 512, Under (p ++ [i]) va) ↔ Under p va := by
  constructor
  · rintro ⟨i, _, hu⟩
    exact (List.prefix_append p [i]).trans hu
  · rintro ⟨q, hq⟩
    cases q with
    | nil =>
      rw [List.append_nil] at hq
      rw [hq, Space.vpns_length] at hlen
      omega
    | cons i q => exact ⟨i, List.mem_finRange i, q, by rw [← hq]; simp⟩

/-- `copy_table_level`, by the levels that are left. -/
theorem copyTableLevel_spec (h₀ : s₀.Forkable M) (hne : C ≠ s₀.sys.space.root) (n : Nat) {p : List (Fin 512)}
    (hlen : p.length ≤ 2) (hp : p ≠ []) (hlow : Space.LowerPath p) :
    CopiesTable M C s₀ (copyTableLevel M n p.length) p := by
  induction n generalizing p with
  | zero => exact fun s src dst hc _ _ _ => .fail (.refl hc.ok hc.chunks)
  | succ n ih =>
    intro s src dst hc hsrc hdst hblank
    have hlow' : ∀ i, Space.LowerPath (p ++ [i]) := by
      intro i
      cases p with
      | nil => exact absurd rfl hp
      | cons j p => exact hlow
    have hrun := copyEntries_spec
      (fun s i => s.copyEntry M (copyTableLevel M n (p.length + 1)) p.length src dst i) hne hlen (List.finRange 512)
      (List.nodup_finRange 512) (fun i _ => hlow' i) ?_ hc hsrc hdst
      fun i _ va hu => hblank va ((List.prefix_append p [i]).trans hu)
    · simp only [under_iff hlen] at hrun
      exact hrun
    · intro s i _ hc hsrc hdst hblank
      refine copyEntry_spec hc h₀ hne hlen (hlow' i) hsrc hdst hblank fun hshort => ?_
      have hdown := ih (p := p ++ [i]) (by rw [List.length_append, List.length_singleton]; omega) (by simp) (hlow' i)
      rwa [List.length_append] at hdown

end Table

end ForkSys

end Pyremu.Sittim
