import Pyremu.Sittim.ForkSpace

/-!
# Tables of two address spaces

While a copy is made, two trees of tables stand in the pool: all tables of the
parent, and those of the child below the lower half of its root. What one
operation does to one entry leaves every other leaf of both alone.
-/

namespace Pyremu.Sittim

open Radix

/-! ## Entries -/

namespace Pte

/-- An entry with another page number. -/
theorem setPpn_eq (e p : Word) : setPpn e p = entry p (e &&& (0x3ff : Word)) := by
  rw [setPpn, entry, BitVec.or_comm]

theorem flags_lt (e : Word) : (e &&& (0x3ff : Word)).toNat < 2 ^ 10 := and_lt_flags e (by decide)

theorem setPpn_and (e p : Word) {m : Word} (hm : (0x3ff : Word) &&& m = m) (hlt : m.toNat < 2 ^ 10) :
    setPpn e p &&& m = e &&& m := by
  rw [setPpn_eq, entry_and _ _ hlt, BitVec.and_assoc, hm]

theorem isValid_setPpn (e p : Word) : isValid (setPpn e p) = isValid e := by
  rw [isValid, isValid, setPpn_and e p (by decide) (by decide)]

theorem isLeaf_setPpn (e p : Word) : isLeaf (setPpn e p) = isLeaf e := by
  rw [isLeaf, isLeaf, setPpn_and e p (by decide) (by decide)]

theorem attrOfPteFlags_setPpn (e p : Word) : MemSys.attrOfPteFlags (setPpn e p) = MemSys.attrOfPteFlags e := by
  rw [MemSys.attrOfPteFlags, MemSys.attrOfPteFlags, setPpn_and e p (by decide) (by decide)]

theorem ppn_setPpn (e p : Word) : ppn (setPpn e p) = p &&& 0xfffffffff := by
  rw [setPpn_eq, ppn_entry _ (flags_lt e)]

theorem toNat_ppn_lt (e : Word) : (ppn e).toNat < 2 ^ 36 := by
  rw [ppn, toNat_and_ppn_mask]
  exact Nat.mod_lt _ (by decide)

/-- The page number of a page that an entry can lead to. -/
theorem toNat_ppn_setPpn (e : Word) {pa : Word} (hpa : pa.toNat < 2 ^ 48) :
    (ppn (setPpn e (pa >>> 12))).toNat = pa.toNat / 4096 := by
  rw [ppn_setPpn, toNat_and_ppn_mask, BitVec.toNat_ushiftRight, Nat.shiftRight_eq_div_pow]
  omega

theorem toNat_ppn_shift (e : Word) : (ppn e <<< 12).toNat = (ppn e).toNat * 4096 := by
  have hlt := toNat_ppn_lt e
  rw [BitVec.toNat_shiftLeft, Nat.shiftLeft_eq]
  exact Nat.mod_eq_of_lt (by omega)

/-- A pointer with the address of another table. -/
theorem child_setPpn {e a : Word} (hv : isValid e = true) (hl : isLeaf e = false) (h48 : a.toNat < 2 ^ 48)
    (hal : 2 ^ 12 ∣ a.toNat) : child (setPpn e (a >>> 12)) = some a := by
  rw [child_of_pointer ((isValid_setPpn _ _).trans hv) ((isLeaf_setPpn _ _).trans hl)]
  congr 1
  apply BitVec.eq_of_toNat_eq
  rw [toNat_ppn_shift, toNat_ppn_setPpn e h48]
  exact Nat.div_mul_cancel hal

end Pte

namespace Space

variable {M : Manager} {P : Paths Word (Fin 512)} {s s' s'' : Space} {e : Word}

theorem clean_setPpn {depth : Nat} (p : Word) (hv : Pte.isValid e = true) (hl : depth = 2 → Pte.isLeaf e = true) :
    Pte.Clean depth (Pte.setPpn e p) := by
  rw [Pte.setPpn_eq]
  refine clean_entry p (Pte.flags_lt e) ?_ fun hd => ?_
  · rw [← Pte.isValid_entry p, ← Pte.setPpn_eq, Pte.isValid_setPpn, hv]
  · rw [← Pte.isLeaf_entry p, ← Pte.setPpn_eq, Pte.isLeaf_setPpn, hl hd]

/-! ## Tables that stay where they are -/

/-- A place below the lower half of a root. -/
def LowerPath (p : List (Fin 512)) : Prop := ∀ i ∈ p.head?, i.val < USER_ROOT_ENTRIES

/-- An address of the lower half. -/
def Lower (va : Word) : Prop := (getVpn va 0).val < USER_ROOT_ENTRIES

theorem lowerPath_of_extends {p q : List (Fin 512)} (h : LowerPath q) (hp : p <+: q) : LowerPath p := by
  obtain ⟨s, rfl⟩ := hp
  cases p with
  | nil => rintro i ⟨⟩
  | cons j p => exact h

theorem lowerPath_vpns {va : Word} (h : Lower va) : LowerPath (vpns va) := by
  rintro i ⟨⟩
  exact h

theorem lower_of_lowerPath {p : List (Fin 512)} {i : Fin 512} {va : Word} (h : LowerPath (p ++ [i]))
    (hp : p ++ [i] <+: vpns va) : Lower va := by
  obtain ⟨s, hs⟩ := hp
  cases p with
  | nil =>
    rw [vpns_eq, List.nil_append, List.singleton_append, List.cons.injEq] at hs
    rw [Lower, ← hs.1]
    exact h i rfl
  | cons j p =>
    rw [vpns_eq, List.cons_append, List.cons_append, List.cons.injEq] at hs
    rw [Lower, ← hs.1]
    exact h j rfl

theorem lowerPath_singleton {i : Fin 512} (h : LowerPath [i]) : i.val < USER_ROOT_ENTRIES := h i rfl

/-- The tables of the first `n` levels below a root are still reached, and the upper half of a root has
the entries that it had. -/
structure Reaches (P : Paths Word (Fin 512)) (n : Nat) (s s' : Space) : Prop where
  keep : ∀ r p t, P.mem r p → p.length ≤ n → reach Pte.child s.mem r p = some t →
    reach Pte.child s'.mem r p = some t
  upper : ∀ r i, P.mem r [] → USER_ROOT_ENTRIES ≤ i.val → s'.mem r i = s.mem r i

theorem Reaches.refl (n : Nat) (s : Space) : Reaches P n s s := ⟨fun _ _ _ _ _ h => h, fun _ _ _ _ => rfl⟩

theorem Reaches.trans {n : Nat} (h : Reaches P n s s') (h' : Reaches P n s' s'') : Reaches P n s s'' :=
  ⟨fun r p t hp hn ht => h'.keep r p t hp hn (h.keep r p t hp hn ht),
    fun r i hr hi => (h'.upper r i hr hi).trans (h.upper r i hr hi)⟩

theorem Reaches.mono {n k : Nat} (h : Reaches P n s s') (hk : k ≤ n) : Reaches P k s s' :=
  ⟨fun r p t hp hn ht => h.keep r p t hp (hn.trans hk) ht, h.upper⟩

/-- A written entry that is not in the upper half of a root. -/
theorem put_upper {r t r' : Word} {p : List (Fin 512)} {i j : Fin 512} (hok : s.Ok M P) (hp : P.mem r p)
    (ht : reach Pte.child s.mem r p = some t) (hlow : LowerPath (p ++ [i])) (hr : P.mem r' [])
    (hj : USER_ROOT_ENTRIES ≤ j.val) : ¬ (r' = t ∧ j = i) := by
  rintro ⟨rfl, rfl⟩
  obtain ⟨_, rfl⟩ := hok.forest.apart hp hr ht rfl
  exact Nat.not_lt.mpr hj (lowerPath_singleton hlow)

/-- A path through the entry that is written is longer than those to its table. -/
theorem not_through {p q : List (Fin 512)} {i : Fin 512} {n : Nat} (hn : n ≤ p.length) (hq : q.length ≤ n) :
    ¬ p ++ [i] <+: q := by
  intro hpre
  have hlen := hpre.length_le
  rw [List.length_append, List.length_singleton] at hlen
  omega

section Install

variable {s₁ : Space} {a r t c : Word} {p : List (Fin 512)} {i : Fin 512} {f : Fin 512 → Word}
  (hok : s.Ok M P) (hp : P.mem r p) (ht : reach Pte.child s.mem r p = some t) (hlow : LowerPath (p ++ [i]))
  (ha : s.tryAllocSmodePage M 1 = some (a, s₁))

include hok hp ht hlow ha

theorem install_upper {r' : Word} {j : Fin 512} (hr : P.mem r' []) (hj : USER_ROOT_ENTRIES ≤ j.val) :
    (s₁.install ⟨t, i⟩ c a f).mem r' j = s.mem r' j := by
  obtain ⟨hat, _, _, hmem, _⟩ := tryAllocSmodePage_some ha hok.pool
  show link s₁.mem t i c a f r' j = _
  rw [link, put_other (put_upper hok hp ht hlow hr hj), hmem, fill_other]
  rintro rfl
  exact fresh_not_owned hat (hok.forest.closed hr rfl)

/-- A table that is put below tables that stay. -/
theorem install_reaches {n : Nat} (hn : n ≤ p.length) : Reaches P n s (s₁.install ⟨t, i⟩ c a f) := by
  obtain ⟨hat, _, _, hmem, _⟩ := tryAllocSmodePage_some ha hok.pool
  refine ⟨fun r' q b hq hqn hb => ?_, fun r' j hr hj => install_upper hok hp ht hlow ha hr hj⟩
  show reach Pte.child (link s₁.mem t i c a f) r' q = some b
  rw [hmem, hok.forest.reach_link_other hp ht (fresh_not_owned hat) hq fun hc => not_through hn hqn hc.2, hb]

/-- A table that is put where none was. -/
theorem install_reaches_free (n : Nat) (hi : Pte.child (s.mem t i) = none) :
    Reaches P n s (s₁.install ⟨t, i⟩ c a f) := by
  obtain ⟨hat, _, _, hmem, _⟩ := tryAllocSmodePage_some ha hok.pool
  refine ⟨fun r' q b hq _ hb => ?_, fun r' j hr hj => install_upper hok hp ht hlow ha hr hj⟩
  show reach Pte.child (link s₁.mem t i c a f) r' q = some b
  rw [hmem]
  exact hok.forest.reach_link_old hp ht (fresh_not_owned hat) hi hq hb

end Install

theorem descend_reaches (n : Nat) (va : Word) (alloc : Bool) (is : List Nat) {s : Space} {r t : Word}
    {p : List (Fin 512)} (hok : s.Ok M P) (hp : P.mem r (p ++ is.map (getVpn va)))
    (hlow : LowerPath (p ++ is.map (getVpn va))) (ht : reach Pte.child s.mem r p = some t) :
    Reaches P n s (descend M va alloc is s t).1 := by
  induction is generalizing s t p with
  | nil => exact .refl n s
  | cons i is ih =>
    have hpath : p ++ (i :: is).map (getVpn va) = (p ++ [getVpn va i]) ++ is.map (getVpn va) := by simp
    rw [hpath] at hp hlow
    have hpi : P.mem r (p ++ [getVpn va i]) := P.initial hp ⟨_, rfl⟩
    have hclean : Pte.Clean p.length (s.mem t (getVpn va i)) := hok.clean r p t _ (P.init hpi) ht
    rw [descend]
    cases hv : Pte.isValid (s.pte ⟨t, getVpn va i⟩) with
    | false =>
      cases alloc with
      | false => exact .refl n s
      | true =>
        cases ha : s.tryAllocSmodePage M 1 with
        | none => exact .refl n s
        | some x =>
          obtain ⟨a, s₁⟩ := x
          have hzero : s.pte ⟨t, getVpn va i⟩ = 0 := hclean.2.1 hv
          obtain ⟨hgrow, hreach⟩ := install_grows hok hpi ht hv ha
          have hnone : Pte.child (s.mem t (getVpn va i)) = none := Pte.child_of_invalid hv
          rw [hzero]
          exact (install_reaches_free hok (P.init hpi) ht (lowerPath_of_extends hlow ⟨_, rfl⟩) ha n hnone).trans
            (ih hgrow.ok hp hlow hreach)
    | true =>
      cases hl : Pte.isLeaf (s.pte ⟨t, getVpn va i⟩) with
      | true => exact .refl n s
      | false =>
        apply ih hok hp hlow
        rw [reach_snoc, ht, Option.bind_some]
        exact Pte.child_of_pointer hv hl

/-- A write below the first `n` levels. -/
theorem write_reaches {r t : Word} {p : List (Fin 512)} {i : Fin 512} {n : Nat} (hok : s.Ok M P) (hp : P.mem r p)
    (ht : reach Pte.child s.mem r p = some t) (hlow : LowerPath (p ++ [i])) (hn : n ≤ p.length) :
    Reaches P n s (s.write ⟨t, i⟩ e) := by
  refine ⟨fun r' q b hq hqn hb => ?_, fun r' j hr hj => put_other (put_upper hok hp ht hlow hr hj)⟩
  show reach Pte.child (put s.mem t i e) r' q = some b
  rw [hok.forest.reach_put_other hp ht hq fun hc => not_through hn hqn hc.2, hb]

theorem lowerPath_levelPath {va : Word} {level : Nat} (hl : level ≤ 2) (h : Lower va) :
    LowerPath (levelPath va level ++ [getVpn va level]) :=
  lowerPath_of_extends (lowerPath_vpns h) ((sameEntry_iff hl va va).mp fun _ _ => rfl)

theorem mapPage_reaches {va pa flags : Word} {level : Nat} (hok : s.Ok M P) (hl : level ≤ 2)
    (hthr : P.Through s.root (vpns va)) (hlow : Lower va) : Reaches P level s (s.mapPage M va pa flags level).1 := by
  obtain ⟨hgrow, _, hslot⟩ := getLeafPte_spec va true hok hl hthr
  have hpath := lowerPath_levelPath hl hlow
  have hreaches : Reaches P level s (s.getLeafPte M va level true).1 := by
    have hdesc := descend_reaches level va true (List.range level) (p := []) hok (levelPath_mem hl hthr)
      (lowerPath_of_extends hpath ⟨_, rfl⟩) (t := s.root) rfl
    rw [getLeafPte]
    split
    · exact .refl level s
    · split
      · rename_i heq
        rwa [heq] at hdesc
      · rename_i heq
        rw [heq] at hdesc
        dsimp only
        split <;> exact hdesc
  rw [mapPage]
  generalize s.getLeafPte M va level true = d at hgrow hslot hreaches ⊢
  obtain ⟨s', r⟩ := d
  cases r with
  | error e => exact hreaches
  | ok slot =>
    obtain ⟨table, index⟩ := slot
    obtain ⟨_, rfl, hreach⟩ := hslot _ rfl
    refine hreaches.trans (write_reaches hgrow.ok (levelPath_mem hl hthr) hreach hpath ?_)
    rw [levelPath_length]

theorem unmapPage_reaches {va : Word} {level : Nat} (hok : s.Ok M P) (hl : level ≤ 2)
    (hthr : P.Through s.root (vpns va)) (hlow : Lower va) : Reaches P level s (s.unmapPage M va level).1 := by
  obtain ⟨_, hsame, hslot⟩ := getLeafPte_spec va false hok hl hthr
  rw [unmapPage]
  generalize s.getLeafPte M va level false = d at hsame hslot ⊢
  obtain ⟨s', r⟩ := d
  obtain rfl : s' = s := hsame rfl
  cases r with
  | error e => exact .refl level s'
  | ok slot =>
    obtain ⟨table, index⟩ := slot
    obtain ⟨_, rfl, hreach⟩ := hslot _ rfl
    refine write_reaches hok (levelPath_mem hl hthr) hreach (lowerPath_levelPath hl hlow) ?_
    rw [levelPath_length]

/-! ## Entries of either tree -/

section Entry

variable {r t : Word} {p : List (Fin 512)} {i : Fin 512} (hok : s.Ok M P) (hp : P.mem r p)
  (ht : reach Pte.child s.mem r p = some t)

include ht

/-- Where a walk ends, seen from the entry of a table. -/
theorem leaf_of_entry {va : Word} (hpre : p ++ [i] <+: vpns va) (he : Pte.child (s.mem t i) = none) :
    s.leaf r va = if Pte.isValid (s.mem t i) then some (p.length, s.mem t i) else none := by
  obtain ⟨q, hq⟩ := hpre
  rw [leaf, ← hq, List.append_assoc, List.singleton_append, view_append (fun _ => Pte.valid_of_child) ht (by simp)]
  cases hv : Pte.isValid (s.mem t i) with
  | false => rw [view_absent hv]; rfl
  | true => rw [view_last hv (.inl he), Option.map_some, Nat.zero_add]; rfl

include hok hp

/-- An entry that is not a pointer is written. -/
theorem write_ok (hc : Pte.child e = none) (hclean : Pte.Clean p.length e) : (s.write ⟨t, i⟩ e).Ok M P :=
  ⟨hok.pool, hok.forest.put hp ht hc, hok.forest.entries_put hok.clean hp ht hc hclean, hok.short⟩

theorem write_leaf_under {va : Word} (hpre : p ++ [i] <+: vpns va) (hc : Pte.child e = none) :
    (s.write ⟨t, i⟩ e).leaf r va = if Pte.isValid e then some (p.length, e) else none := by
  obtain ⟨q, hq⟩ := hpre
  rw [leaf, ← hq, List.append_assoc, List.singleton_append]
  exact hok.forest.view_put_same (fun _ => Pte.valid_of_child) hp ht (.inl hc)

theorem write_leaf_other {r' va : Word} (hthr : P.Through r' (vpns va)) (hne : ¬ (r = r' ∧ p ++ [i] <+: vpns va)) :
    (s.write ⟨t, i⟩ e).leaf r' va = s.leaf r' va :=
  hok.forest.view_put_other hp ht hthr hne

section Pointer

variable {s₁ : Space} {a : Word} (ha : s.tryAllocSmodePage M 1 = some (a, s₁))

omit hp ht

include ha

theorem fresh_page : a.toNat < 2 ^ 48 ∧ 2 ^ 12 ∣ a.toNat := by
  obtain ⟨hat, hu, hpool, _, _⟩ := tryAllocSmodePage_some ha hok.pool
  have hfit := M.fits
  have hown : s₁.Owned M a := fresh_owned hat hu
  constructor
  · rw [Manager.poolStart] at hat
    omega
  · rcases hown with rfl | ⟨_, _, hal⟩
    · exact absurd (.inl rfl) (fresh_not_owned hat)
    · exact hal

include hp ht

variable {c : Word} (hc : Pte.child c = some a)

include hc

/-- An empty table is put behind a pointer. -/
theorem install_pointer_ok (hclean : Pte.Clean p.length c) : (s₁.install ⟨t, i⟩ c a fun _ => 0).Ok M P := by
  obtain ⟨hat, hu, hpool, hmem, _⟩ := tryAllocSmodePage_some ha hok.pool
  have hfresh : ¬ s.Owned M a := fresh_not_owned hat
  have hnone : ∀ j : Fin 512, Pte.child ((fun _ => 0 : Fin 512 → Word) j) = none := fun _ => Pte.child_of_invalid isValid_zero
  refine ⟨hpool, ?_, ?_, hok.short⟩
  · show Forest Pte.child P (s₁.Owned M) (link s₁.mem t i c a fun _ => 0)
    rw [hmem]
    apply (hok.forest.linked hp ht hfresh hc hnone).mono
    rintro x (hx | rfl)
    · exact hx.mono (by omega)
    · exact fresh_owned hat hu
  · show Forest.Entries Pte.child P _ (link s₁.mem t i c a fun _ => 0)
    rw [hmem]
    exact hok.forest.entries_link hok.clean hp ht hfresh hc hnone hclean fun _ => clean_zero _

theorem install_pointer_reach : reach Pte.child (s₁.install ⟨t, i⟩ c a fun _ => 0).mem r (p ++ [i]) = some a := by
  obtain ⟨hat, _, _, hmem, _⟩ := tryAllocSmodePage_some ha hok.pool
  show reach _ (link s₁.mem t i c a fun _ => 0) r (p ++ [i]) = some a
  rw [hmem]
  exact hok.forest.reach_link hp ht (fresh_not_owned hat) hc

theorem install_pointer_under {va : Word} (hlen : p.length < 2) (hpre : p ++ [i] <+: vpns va) :
    (s₁.install ⟨t, i⟩ c a fun _ => 0).leaf r va = none := by
  obtain ⟨q, hq⟩ := hpre
  obtain ⟨hat, _, _, hmem, _⟩ := tryAllocSmodePage_some ha hok.pool
  have hlength : (p ++ [i]).length + q.length = 3 := by rw [← List.length_append, hq, vpns_length]
  show view _ _ (link s₁.mem t i c a fun _ => 0) r (vpns va) = none
  rw [hmem, ← hq, List.append_assoc, List.singleton_append]
  cases q with
  | nil =>
    rw [List.length_append, List.length_singleton, List.length_nil] at hlength
    omega
  | cons j q =>
    rw [hok.forest.view_link_same hp ht (fresh_not_owned hat) hc (fun _ => Pte.child_of_invalid isValid_zero)
      fun _ => Pte.valid_of_child]
    rfl

omit hc

theorem install_pointer_other {r' va : Word} (hthr : P.Through r' (vpns va))
    (hne : ¬ (r = r' ∧ p ++ [i] <+: vpns va)) : (s₁.install ⟨t, i⟩ c a fun _ => 0).leaf r' va = s.leaf r' va := by
  obtain ⟨hat, _, _, hmem, _⟩ := tryAllocSmodePage_some ha hok.pool
  show view _ _ (link s₁.mem t i c a fun _ => 0) r' (vpns va) = view _ _ s.mem r' (vpns va)
  rw [hmem]
  exact hok.forest.view_link_other hp ht (fresh_not_owned hat) hthr hne

theorem install_pointer_reach_other {r' : Word} {q : List (Fin 512)} (hq : P.mem r' q)
    (hne : ¬ (r = r' ∧ p ++ [i] <+: q)) :
    reach Pte.child (s₁.install ⟨t, i⟩ c a fun _ => 0).mem r' q = reach Pte.child s.mem r' q := by
  obtain ⟨hat, _, _, hmem, _⟩ := tryAllocSmodePage_some ha hok.pool
  show reach _ (link s₁.mem t i c a fun _ => 0) r' q = _
  rw [hmem]
  exact hok.forest.reach_link_other hp ht (fresh_not_owned hat) hq hne

end Pointer

end Entry

/-- A leaf that is there can be taken away. -/
theorem unmapPage_of_leaf {va : Word} {level : Nat} (hcan : isCanonicalVa va = true)
    (h : s.leaf s.root va = some (level, e)) : (s.unmapPage M va level).2 = true := by
  obtain ⟨t, hget, _, _⟩ := getLeafPte_of_leaf (M := M) hcan h
  rw [unmapPage, hget]

/-- An address space on its own. -/
theorem Ok.wellFormed (hok : s.Ok M P) (hP : ∀ p, p.length ≤ 2 → P.mem s.root p) : s.WellFormed M where
  pool := hok.pool
  forest := hok.forest.restrict fun _ p h => h.1 ▸ hP p h.2
  clean r p t i hp := hok.clean r p t i (hp.1 ▸ hP p hp.2)
  short h := h.2

theorem through_of_mem {r va : Word} (hP : ∀ p, p.length ≤ 2 → P.mem r p) : P.Through r (vpns va) := by
  intro p j hp
  have hlen := hp.length_le
  rw [List.length_append, List.length_singleton, vpns_length] at hlen
  exact hP p (Nat.le_of_succ_le_succ hlen)

/-- All leaves after a change. -/
theorem Changes.leaf_eq {va va' r : Word} {level : Nat} {new : Word → Option (Nat × Word)}
    (h : Changes M P s s' va level new) (hthr : P.Through r (vpns va')) :
    s'.leaf r va' = if s.root = r ∧ SameEntry level va va' then new va' else s.leaf r va' := by
  by_cases hc : s.root = r ∧ SameEntry level va va'
  · rw [if_pos hc]
    obtain ⟨rfl, hs⟩ := hc
    exact h.under hthr hs
  · rw [if_neg hc]
    exact h.other hthr hc

/-- A leaf that is put where nothing was, and taken away. -/
theorem Changes.undo {s₃ : Space} {va : Word} {level : Nat} {new : Word → Option (Nat × Word)}
    (h : Changes M P s s' va level new) (hg : Grows M P s' s'') (h' : Changes M P s'' s₃ va level fun _ => none)
    (hfree : ∀ va', SameEntry level va va' → s.leaf s.root va' = none) : Grows M P s s₃ where
  root := h'.root.trans (hg.root.trans h.root)
  ok := h'.ok
  leaf {r va'} ht := by
    rw [h'.leaf_eq ht, hg.root, h.root, hg.leaf ht, h.leaf_eq ht]
    split_ifs with hc
    · obtain ⟨rfl, hs⟩ := hc
      exact (hfree va' hs).symm
    · rfl
  used := h.used.trans (hg.used.trans h'.used)
  frame {a} ha := by
    have hs'' : ¬ s''.Owned M a := fun ho => ha (ho.mono h'.used)
    have hs' : ¬ s'.Owned M a := fun ho => hs'' (ho.mono hg.used)
    rw [h'.frame ha, hg.frame hs'', h.frame hs']

/-- Two leaves of a pair of windows. -/
theorem Changes.undo_both {s₃ s₄ : Space} {va vb : Word} {level : Nat} {new new' : Word → Option (Nat × Word)}
    (h₁ : Changes M P s s' va level new) (h₂ : Changes M P s' s'' vb level new')
    (h₃ : Changes M P s'' s₃ va level fun _ => none) (h₄ : Changes M P s₃ s₄ vb level fun _ => none)
    (hfree : ∀ va', SameEntry level va va' ∨ SameEntry level vb va' → s.leaf s.root va' = none) :
    Grows M P s s₄ where
  root := h₄.root.trans (h₃.root.trans (h₂.root.trans h₁.root))
  ok := h₄.ok
  leaf {r va'} ht := by
    rw [h₄.leaf_eq ht, h₃.leaf_eq ht, h₂.leaf_eq ht, h₁.leaf_eq ht, h₃.root, h₂.root, h₁.root]
    split_ifs with hb ha
    · obtain ⟨rfl, hs⟩ := hb
      exact (hfree va' (.inr hs)).symm
    · obtain ⟨rfl, hs⟩ := ha
      exact (hfree va' (.inl hs)).symm
    · rfl
  used := h₁.used.trans (h₂.used.trans (h₃.used.trans h₄.used))
  frame {a} ha := by
    have h3 : ¬ s₃.Owned M a := fun ho => ha (ho.mono h₄.used)
    have h2 : ¬ s''.Owned M a := fun ho => h3 (ho.mono h₃.used)
    have h1 : ¬ s'.Owned M a := fun ho => h2 (ho.mono h₂.used)
    rw [h₄.frame ha, h₃.frame h3, h₂.frame h2, h₁.frame h1]

/-- What `unmap_page` does where a leaf is. -/
theorem unmapPage_changes {va : Word} {level : Nat} (hok : s.Ok M P) (hl : level ≤ 2)
    (hthr : P.Through s.root (vpns va)) (hcan : isCanonicalVa va = true) (h : s.leaf s.root va = some (level, e)) :
    Changes M P s (s.unmapPage M va level).1 va level fun _ => none := by
  have hspec := unmapPage_spec hok hl hthr
  rw [if_pos (unmapPage_of_leaf hcan h)] at hspec
  exact hspec.2

end Space

/-! ## Contents -/

/-- A pair of addresses that pages are moved through, `n` pages under one entry of a level each. -/
structure IsWindow (srcVa dstVa : Word) (level n : Nat) : Prop where
  depth : level ≤ 2
  size : n * 4096 = 2 ^ offsetBits level
  src : isCanonicalVa srcVa = true
  dst : isCanonicalVa dstVa = true
  srcBase : leafBase level srcVa = srcVa
  dstBase : leafBase level dstVa = dstVa
  apart : srcVa ≠ dstVa
  low : srcVa.toNat < 2 ^ 38 ∧ dstVa.toNat < 2 ^ 38
  lower : (getVpn srcVa 0).val < USER_ROOT_ENTRIES ∧ (getVpn dstVa 0).val < USER_ROOT_ENTRIES

theorem pageWindow : IsWindow FORK_SRC_VA_PAGE FORK_DST_VA_PAGE LEVEL_PAGE 1 := by
  constructor <;> decide

theorem megaWindow : IsWindow FORK_SRC_VA_MEGA FORK_DST_VA_MEGA LEVEL_MEGA 512 := by
  constructor <;> decide

namespace ForkSys

variable {α : Type} {M : Manager} {s : ForkSys α} {srcVa dstVa src dst : Word} {level n : Nat}

/-- Pages that are behind two ranges of addresses and do not meet. -/
theorem copyThrough_page {a b : Nat} (hsrc : ∀ k < n, s.pageBehind (srcVa + BitVec.ofNat 64 (k * 4096)) = some (a + k))
    (hdst : ∀ k < n, s.pageBehind (dstVa + BitVec.ofNat 64 (k * 4096)) = some (b + k))
    (hapart : ∀ k < n, ∀ j < n, a + k ≠ b + j) (f : Nat) :
    (s.copyThrough srcVa dstVa n).page f = if b ≤ f ∧ f < b + n then s.page (a + (f - b)) else s.page f := by
  rw [copyThrough]
  dsimp only
  induction n generalizing f with
  | zero =>
    rw [if_neg (by omega)]
    rfl
  | succ n ih =>
    have ih' := ih (fun k hk => hsrc k (Nat.lt_succ_of_lt hk)) (fun k hk => hdst k (Nat.lt_succ_of_lt hk))
      fun k hk j hj => hapart k (Nat.lt_succ_of_lt hk) j (Nat.lt_succ_of_lt hj)
    have hother : ¬ (b ≤ a + n ∧ a + n < b + n) := by
      rintro ⟨hlo, hhi⟩
      exact hapart n (Nat.lt_succ_self n) (a + n - b) (by omega) (by omega)
    rw [List.range_succ, List.foldl_append, List.foldl_cons, List.foldl_nil, hsrc n (Nat.lt_succ_self n),
      hdst n (Nat.lt_succ_self n)]
    dsimp only
    by_cases hf : f = b + n
    · rw [hf, Function.update_self, ih', if_neg hother, if_pos (by omega), Nat.add_sub_cancel_left]
    · rw [Function.update_of_ne hf, ih']
      by_cases hin : b ≤ f ∧ f < b + n
      · rw [if_pos hin, if_pos (by omega)]
      · rw [if_neg hin, if_neg (by omega)]

/-- The pages behind a window are those of the block that it is mapped to. -/
theorem window_page {va pa : Word} {k : Nat} (hbase : leafBase level va = va) (hlow : va.toNat < 2 ^ 38)
    (hn : n * 4096 = 2 ^ offsetBits level) (hal : 4096 ∣ pa.toNat) (hpa : pa.toNat < 2 ^ 48) (hk : k < n) :
    leafBase level (va + BitVec.ofNat 64 (k * 4096)) = va ∧
      (pa + (va + BitVec.ofNat 64 (k * 4096) - va)).toNat / 4096 = pa.toNat / 4096 + k := by
  have hsize : 2 ^ offsetBits level ≤ 2 ^ 30 := Nat.pow_le_pow_right (by decide) (offsetBits_le level)
  have hoff : (BitVec.ofNat 64 (k * 4096)).toNat = k * 4096 := by
    rw [BitVec.toNat_ofNat]
    exact Nat.mod_eq_of_lt (by omega)
  have hsum : (va + BitVec.ofNat 64 (k * 4096)).toNat = va.toNat + k * 4096 := by
    rw [BitVec.toNat_add, hoff]
    exact Nat.mod_eq_of_lt (by omega)
  constructor
  · conv_rhs => rw [← hbase]
    refine (leafBase_eq_iff_mem.mpr ?_).symm
    rw [hbase, hsum]
    omega
  · have hcancel : va + BitVec.ofNat 64 (k * 4096) - va = BitVec.ofNat 64 (k * 4096) := by
      rw [BitVec.add_comm, BitVec.add_sub_cancel]
    rw [hcancel, BitVec.toNat_add, hoff, Nat.mod_eq_of_lt (by omega)]
    omega

/-- Table pages may have been added; partitions and contents are as before. -/
structure Moved (M : Manager) (P : Paths Word (Fin 512)) (level : Nat) (s s' : ForkSys α) : Prop where
  grows : Space.Grows M P s.sys.space s'.sys.space
  reaches : Space.Reaches P level s.sys.space s'.sys.space
  mmode : s'.sys.mmode = s.sys.mmode
  chunkPa : s'.chunkPa = s.chunkPa
  chunkLeft : s'.chunkLeft = s.chunkLeft

/-- The addresses of the windows of a level are not in use. -/
def WindowFree (s : ForkSys α) (srcVa dstVa : Word) (level : Nat) : Prop :=
  ∀ va, SameEntry level srcVa va ∨ SameEntry level dstVa va → s.sys.space.leaf s.sys.space.root va = none

theorem copyPa_of_error {s₁ : Space} {e : MapError} (h : s.sys.space.mapPage M srcVa src Pte.R level = (s₁, .error e)) :
    s.copyPa M srcVa dstVa level n src dst = (s.withSpace s₁, false) := by
  rw [copyPa, h]

theorem copyPa_of_error_dst {s₁ s₂ : Space} {e : MapError}
    (h : s.sys.space.mapPage M srcVa src Pte.R level = (s₁, .ok ()))
    (h' : s₁.mapPage M dstVa dst (Pte.R ||| Pte.W) level = (s₂, .error e)) :
    s.copyPa M srcVa dstVa level n src dst = (s.withSpace (s₂.unmapPage M srcVa level).1, false) := by
  rw [copyPa, h]
  simp only [h']

theorem copyPa_of_ok {s₁ s₂ : Space} (h : s.sys.space.mapPage M srcVa src Pte.R level = (s₁, .ok ()))
    (h' : s₁.mapPage M dstVa dst (Pte.R ||| Pte.W) level = (s₂, .ok ())) :
    s.copyPa M srcVa dstVa level n src dst =
      (((s.withSpace s₂).copyThrough srcVa dstVa n).withSpace
        ((s₂.unmapPage M srcVa level).1.unmapPage M dstVa level).1, true) := by
  rw [copyPa, h]
  simp only [h']

/-- Pages are copied through a pair of mappings that is gone afterwards, or nothing is copied. -/
theorem copyPa_spec {P : Paths Word (Fin 512)} (hw : IsWindow srcVa dstVa level n) (hok : s.sys.space.Ok M P)
    (hP : ∀ p, p.length ≤ 2 → P.mem s.sys.space.root p) (hfree : s.WindowFree srcVa dstVa level)
    (hsrc : src.toNat < 2 ^ 48) (hdst : dst.toNat < 2 ^ 48) (hsrcBase : leafBase level src = src)
    (hdstBase : leafBase level dst = dst)
    (hapart : ∀ k < n, ∀ j < n, src.toNat / 4096 + k ≠ dst.toNat / 4096 + j) :
    Moved M P level s (s.copyPa M srcVa dstVa level n src dst).1 ∧
      ∀ f, (s.copyPa M srcVa dstVa level n src dst).1.page f =
        if (s.copyPa M srcVa dstVa level n src dst).2 = true ∧ dst.toNat / 4096 ≤ f ∧ f < dst.toNat / 4096 + n then
          s.page (src.toNat / 4096 + (f - dst.toNat / 4096))
        else s.page f := by
  have hthr : ∀ {r va}, r = s.sys.space.root → P.Through r (vpns va) := fun h => Space.through_of_mem (h ▸ hP)
  have hwf : s.sys.space.WellFormed M := hok.wellFormed hP
  have hself : ∀ va, SameEntry level va va := fun _ _ _ => rfl
  have hne : ∀ {va vb : Word}, isCanonicalVa va = true → isCanonicalVa vb = true → leafBase level va = va →
      leafBase level vb = vb → va ≠ vb → ¬ SameEntry level va vb := by
    intro va vb hca hcb ha hb hab hs
    exact hab (ha.symm.trans (((sameEntry_iff_base hw.depth hca hcb).mp hs).trans hb))
  have hmap := @Space.mapPage_spec M P s.sys.space srcVa src Pte.R level hok hw.depth (hthr rfl) (by decide)
  have hreach := @Space.mapPage_reaches M P s.sys.space srcVa src Pte.R level hok hw.depth (hthr rfl) hw.lower.1
  have hpa := @map_page_installs_leaf M s.sys.space srcVa src Pte.R level hwf hw.depth hsrc hsrcBase (by decide)
  cases hr₁ : s.sys.space.mapPage M srcVa src Pte.R level with
  | mk s₁ res₁ =>
  rw [hr₁] at hmap hreach hpa
  cases res₁ with
  | error e =>
    rw [copyPa_of_error hr₁]
    exact ⟨⟨hmap, hreach, rfl, rfl, rfl⟩, fun f => by rw [if_neg (by simp)]; rfl⟩
  | ok u =>
  obtain ⟨hcan₁, hch₁⟩ := hmap
  obtain ⟨hwf₁, hpa₁⟩ := hpa
  have hmap := @Space.mapPage_spec M P s₁ dstVa dst (Pte.R ||| Pte.W) level hch₁.ok hw.depth (hthr hch₁.root) (by decide)
  have hreach₂ := @Space.mapPage_reaches M P s₁ dstVa dst (Pte.R ||| Pte.W) level hch₁.ok hw.depth (hthr hch₁.root)
    hw.lower.2
  have hpa := @map_page_installs_leaf M s₁ dstVa dst (Pte.R ||| Pte.W) level hwf₁ hw.depth hdst hdstBase (by decide)
  have hleaf₁ : s₁.leaf s₁.root srcVa = some (level, leafEntry src Pte.R) := by
    rw [hch₁.root]
    exact hch₁.under (hthr rfl) (hself srcVa)
  cases hr₂ : s₁.mapPage M dstVa dst (Pte.R ||| Pte.W) level with
  | mk s₂ res₂ =>
  rw [hr₂] at hmap hreach₂ hpa
  cases res₂ with
  | error e =>
    -- the first mapping goes again
    have hroot₂ : s₂.root = s.sys.space.root := hmap.root.trans hch₁.root
    have hleaf₂ : s₂.leaf s₂.root srcVa = some (level, leafEntry src Pte.R) := by
      rw [hmap.root, hmap.leaf (hthr hch₁.root), hleaf₁]
    have hch₃ := Space.unmapPage_changes hmap.ok hw.depth (hthr hroot₂) hw.src hleaf₂
    have hreach₃ := @Space.unmapPage_reaches M P _ srcVa level hmap.ok hw.depth (hthr hroot₂) hw.lower.1
    rw [copyPa_of_error_dst hr₁ hr₂]
    exact ⟨⟨hch₁.undo hmap hch₃ fun va hs => hfree va (.inl hs), hreach.trans (hreach₂.trans hreach₃), rfl, rfl, rfl⟩,
      fun f => by rw [if_neg (by simp)]; rfl⟩
  | ok u =>
  obtain ⟨_, hch₂⟩ := hmap
  obtain ⟨_, hpa₂⟩ := hpa
  have hroot₂ : s₂.root = s.sys.space.root := hch₂.root.trans hch₁.root
  have hleaf₂ : s₂.leaf s₂.root srcVa = some (level, leafEntry src Pte.R) := by
    rw [hch₂.root, hch₂.other (hthr hch₁.root) fun hc => hne hw.dst hw.src hw.dstBase hw.srcBase hw.apart.symm hc.2, hleaf₁]
  have hch₃ := Space.unmapPage_changes hch₂.ok hw.depth (hthr hroot₂) hw.src hleaf₂
  have hreach₃ := @Space.unmapPage_reaches M P _ srcVa level hch₂.ok hw.depth (hthr hroot₂) hw.lower.1
  have hroot₃ := hch₃.root.trans hroot₂
  have hleaf₃ : (s₂.unmapPage M srcVa level).1.leaf (s₂.unmapPage M srcVa level).1.root dstVa =
      some (level, leafEntry dst (Pte.R ||| Pte.W)) := by
    rw [hch₃.root, hch₃.other (hthr hroot₂) fun hc => hne hw.src hw.dst hw.srcBase hw.dstBase hw.apart hc.2, hch₂.root]
    exact hch₂.under (hthr hch₁.root) (hself dstVa)
  have hch₄ := Space.unmapPage_changes hch₃.ok hw.depth (hthr hroot₃) hw.dst hleaf₃
  have hreach₄ := @Space.unmapPage_reaches M P _ dstVa level hch₃.ok hw.depth (hthr hroot₃) hw.lower.2
  rw [copyPa_of_ok hr₁ hr₂]
  refine ⟨⟨hch₁.undo_both hch₂ hch₃ hch₄ hfree, hreach.trans (hreach₂.trans (hreach₃.trans hreach₄)), rfl, rfl, rfl⟩,
    fun f => ?_⟩
  have hpage : ∀ {pa : Word}, leafBase level pa = pa → 4096 ∣ pa.toNat := by
    intro pa h
    rw [← h]
    exact page_dvd_leafBase level pa
  have hsrcPages : ∀ k < n, (s.withSpace s₂).pageBehind (srcVa + BitVec.ofNat 64 (k * 4096)) =
      some (src.toNat / 4096 + k) := by
    intro k hk
    obtain ⟨hbase, hnum⟩ := window_page hw.srcBase hw.low.1 hw.size (hpage hsrcBase) hsrc hk
    rw [pageBehind, withSpace, hpa₂, hbase, hw.dstBase, if_neg hw.apart, hpa₁, hbase, hw.srcBase, if_pos rfl,
      Option.map_some, hnum]
  have hdstPages : ∀ k < n, (s.withSpace s₂).pageBehind (dstVa + BitVec.ofNat 64 (k * 4096)) =
      some (dst.toNat / 4096 + k) := by
    intro k hk
    obtain ⟨hbase, hnum⟩ := window_page hw.dstBase hw.low.2 hw.size (hpage hdstBase) hdst hk
    rw [pageBehind, withSpace, hpa₂, hbase, hw.dstBase, if_pos rfl, Option.map_some, hnum]
  have hcopy := copyThrough_page hsrcPages hdstPages hapart f
  simpa only [withSpace, true_and] using hcopy

end ForkSys

end Pyremu.Sittim
