import Mathlib.Data.List.Basic
import Mathlib.Data.List.Induction
import Mathlib.Tactic.Common

/-!
# Radix trees in a flat store

A store maps a table and an index to an entry, and an entry may lead to a
further table. Nothing in the store says that two entries lead to different
tables; that is the invariant `Forest`, and under it one written entry is seen
by exactly the paths that run through it.
-/

namespace Radix

variable {A I E : Type}

abbrev Store (A I E : Type) := A → I → E

/-- The table reached from `t` along `p`. -/
def reach (child : E → Option A) (m : Store A I E) : A → List I → Option A
  | t, [] => some t
  | t, i :: p =>
    match child (m t i) with
    | none => none
    | some b => reach child m b p

/-- The entry a walk along the whole of `p` ends at, with its depth: the first one that leads
nowhere, or the last. -/
def view (child : E → Option A) (present : E → Bool) (m : Store A I E) :
    A → List I → Option (Nat × E)
  | _, [] => none
  | t, [i] => if present (m t i) then some (0, m t i) else none
  | t, i :: j :: q =>
    if present (m t i) then
      match child (m t i) with
      | none => some (0, m t i)
      | some b => (view child present m b (j :: q)).map fun r => (r.1 + 1, r.2)
    else none

section Walks

variable {child : E → Option A} {present : E → Bool} {m m' : Store A I E} {t b : A} {i : I} {p q : List I}

@[simp] theorem reach_nil : reach child m t [] = some t := rfl

theorem reach_cons : reach child m t (i :: p) = (child (m t i)).bind fun b => reach child m b p := by
  rw [reach]
  cases child (m t i) <;> rfl

theorem reach_append : reach child m t (p ++ q) = (reach child m t p).bind fun b => reach child m b q := by
  induction p generalizing t with
  | nil => rfl
  | cons i p ih =>
    rw [List.cons_append, reach_cons, reach_cons, Option.bind_assoc]
    congr 1
    funext b
    exact ih

theorem reach_snoc : reach child m t (p ++ [i]) = (reach child m t p).bind fun b => child (m b i) := by
  rw [reach_append]
  congr 1
  funext b
  rw [reach_cons]
  cases child (m b i) <;> rfl

/-- A walk passes every table on its way. -/
theorem reach_initial (h : reach child m t q = some b) (hp : p <+: q) : ∃ a, reach child m t p = some a := by
  obtain ⟨s, rfl⟩ := hp
  rw [reach_append, Option.bind_eq_some_iff] at h
  obtain ⟨a, ha, _⟩ := h
  exact ⟨a, ha⟩

theorem view_absent (h : present (m t i) = false) : view child present m t (i :: p) = none := by
  cases p with
  | nil => rw [view, h]; rfl
  | cons j q => rw [view, h]; rfl

theorem view_last (h : present (m t i) = true) (hc : child (m t i) = none ∨ p = []) :
    view child present m t (i :: p) = some (0, m t i) := by
  cases p with
  | nil => rw [view, if_pos h]
  | cons j q =>
    rcases hc with hc | hc
    · rw [view, if_pos h, hc]
    · cases hc

theorem view_down (h : present (m t i) = true) (hc : child (m t i) = some b) (hp : p ≠ []) :
    view child present m t (i :: p) = (view child present m b p).map fun r => (r.1 + 1, r.2) := by
  cases p with
  | nil => exact absurd rfl hp
  | cons j q => rw [view, if_pos h, hc]

/-- A walk that gets to `t` goes on from there. -/
theorem view_append (hpres : ∀ e, child e ≠ none → present e = true) {r : A}
    (h : reach child m r p = some t) (hq : q ≠ []) :
    view child present m r (p ++ q) =
      (view child present m t q).map fun x => (x.1 + p.length, x.2) := by
  induction p generalizing r with
  | nil =>
    obtain rfl : r = t := Option.some.inj h
    simp
  | cons i p ih =>
    rw [reach_cons, Option.bind_eq_some_iff] at h
    obtain ⟨b, hb, h⟩ := h
    have hne : p ++ q ≠ [] := by simp [hq]
    rw [List.cons_append, view_down (hpres _ (by simp [hb])) hb hne, ih h, Option.map_map]
    simp only [Function.comp_def, List.length_cons, Nat.add_assoc]

/-- Where a walk ends, seen from the store. -/
theorem view_some {k : Nat} {e : E} (h : view child present m t p = some (k, e)) :
    ∃ a j, p.take k ++ [j] <+: p ∧ k < p.length ∧ reach child m t (p.take k) = some a ∧ m a j = e ∧
      present e = true ∧ (child e = none ∨ k + 1 = p.length) := by
  induction p generalizing t k with
  | nil => cases h
  | cons i p ih =>
    cases hp : present (m t i) with
    | false =>
      rw [view_absent hp] at h
      cases h
    | true =>
      by_cases hend : child (m t i) = none ∨ p = []
      · rw [view_last hp hend] at h
        cases h
        refine ⟨t, i, ?_, by simp, rfl, rfl, hp, ?_⟩
        · simp
        · exact hend.imp_right fun hn => by rw [hn]; rfl
      · rw [not_or] at hend
        obtain ⟨b, hb⟩ := Option.ne_none_iff_exists'.mp hend.1
        rw [view_down hp hb hend.2, Option.map_eq_some_iff] at h
        obtain ⟨⟨k', e'⟩, hv, heq⟩ := h
        cases heq
        obtain ⟨a, j, hpre, hk, hreach, hm, hpe, hc⟩ := ih hv
        refine ⟨a, j, ?_, ?_, ?_, hm, hpe, ?_⟩
        · rw [List.take_succ_cons, List.cons_append]
          exact (List.cons_prefix_cons).mpr ⟨rfl, hpre⟩
        · rw [List.length_cons]
          omega
        · rw [List.take_succ_cons, reach_cons, hb, Option.bind_some, hreach]
        · rw [List.length_cons]
          exact hc.imp_right fun hl => by omega

/-- Two stores agree on every entry that a walk along `p` can read. -/
def SameAlong (child : E → Option A) (m m' : Store A I E) (t : A) (p : List I) : Prop :=
  ∀ p₁ j a, p₁ ++ [j] <+: p → reach child m t p₁ = some a → m' a j = m a j

theorem SameAlong.tail (h : SameAlong child m m' t (i :: p)) (hb : child (m t i) = some b) :
    SameAlong child m m' b p := by
  intro p₁ j a hp ha
  apply h (i :: p₁) j a
  · rw [List.cons_append]
    exact (List.cons_prefix_cons).mpr ⟨rfl, hp⟩
  · rw [reach_cons, hb, Option.bind_some, ha]

theorem SameAlong.head (h : SameAlong child m m' t (i :: p)) : m' t i = m t i :=
  h [] i t (by simp) rfl

theorem reach_congr (h : SameAlong child m m' t p) : reach child m' t p = reach child m t p := by
  induction p generalizing t with
  | nil => rfl
  | cons i p ih =>
    rw [reach_cons, reach_cons, h.head]
    cases hb : child (m t i) with
    | none => rfl
    | some b => exact ih (h.tail hb)

theorem view_congr (h : SameAlong child m m' t p) :
    view child present m' t p = view child present m t p := by
  induction p generalizing t with
  | nil => rfl
  | cons i p ih =>
    cases hp : present (m t i) with
    | false => rw [view_absent hp, view_absent (by rw [h.head, hp])]
    | true =>
      cases hb : child (m t i) with
      | none => rw [view_last hp (.inl hb), view_last (by rw [h.head, hp]) (.inl (by rw [h.head, hb])), h.head]
      | some b =>
        cases p with
        | nil => rw [view_last hp (.inr rfl), view_last (by rw [h.head, hp]) (.inr rfl), h.head]
        | cons j q =>
          rw [view_down hp hb (by simp), view_down (by rw [h.head, hp]) (by rw [h.head, hb]) (by simp),
            ih (h.tail hb)]

end Walks

/-! ## Writing one entry -/

section Put

variable [DecidableEq A]

/-- The store with a whole table replaced. -/
def fill (m : Store A I E) (b : A) (c : I → E) : Store A I E := fun a j => if a = b then c j else m a j

/-- The store with one entry replaced. -/
def put [DecidableEq I] (m : Store A I E) (t : A) (i : I) (e : E) : Store A I E :=
  fun a j => if a = t ∧ j = i then e else m a j

variable {m : Store A I E} {t b : A} {i : I} {e : E} {c : I → E}

@[simp] theorem fill_same : fill m b c b = c := by
  funext j
  exact if_pos rfl

theorem fill_other {a : A} (h : a ≠ b) : fill m b c a = m a := by
  funext j
  exact if_neg h

variable [DecidableEq I]

@[simp] theorem put_same : put m t i e t i = e := if_pos ⟨rfl, rfl⟩

theorem put_other {a : A} {j : I} (h : ¬ (a = t ∧ j = i)) : put m t i e a j = m a j := if_neg h

end Put

/-- The store with the table `b` filled with `c` and the entry `e` that leads to it. -/
def link [DecidableEq A] [DecidableEq I] (m : Store A I E) (t : A) (i : I) (e : E) (b : A) (c : I → E) :
    Store A I E :=
  put (fill m b c) t i e

/-! ## Forests -/

/-- The paths in use start at roots, and a part of one is one. -/
structure Paths (A I : Type) where
  mem : A → List I → Prop
  init : ∀ {r p i}, mem r (p ++ [i]) → mem r p

/-- Tables in use are owned, and each is reached along one path only. -/
structure Forest (child : E → Option A) (P : Paths A I) (owned : A → Prop) (m : Store A I E) : Prop where
  closed : ∀ {r p t}, P.mem r p → reach child m r p = some t → owned t
  apart : ∀ {r p r' p' t}, P.mem r p → P.mem r' p' →
    reach child m r p = some t → reach child m r' p' = some t → r = r' ∧ p = p'

theorem Paths.initial (P : Paths A I) {r : A} {p q : List I} (h : P.mem r q) (hp : p <+: q) : P.mem r p := by
  obtain ⟨s, rfl⟩ := hp
  induction s using List.reverseRecOn with
  | nil => simpa using h
  | append_singleton s i ih =>
    rw [← List.append_assoc] at h
    exact ih (P.init h)

/-- The tables that a walk along the whole of `q` reads are on paths in use. -/
def Paths.Through (P : Paths A I) (r : A) (q : List I) : Prop := ∀ p j, p ++ [j] <+: q → P.mem r p

theorem Paths.through_of_mem (P : Paths A I) {r : A} {q : List I} (h : P.mem r q) : P.Through r q :=
  fun _ _ hp => P.init (P.initial h hp)

namespace Forest

variable {child : E → Option A} {present : E → Bool} {P : Paths A I} {owned : A → Prop} {m : Store A I E}
  {r t b : A} {p q : List I} {i : I} {e : E} {c : I → E}

theorem mono {owned' : A → Prop} (F : Forest child P owned m) (h : ∀ a, owned a → owned' a) :
    Forest child P owned' m where
  closed hp ht := h _ (F.closed hp ht)
  apart := F.apart

/-- Fewer paths. -/
theorem restrict {P' : Paths A I} (F : Forest child P owned m) (h : ∀ r p, P'.mem r p → P.mem r p) :
    Forest child P' owned m where
  closed hp ht := F.closed (h _ _ hp) ht
  apart hp hp' ht ht' := F.apart (h _ _ hp) (h _ _ hp') ht ht'

/-- A table that is not owned is none of the tables reached. -/
theorem ne_of_reach (F : Forest child P owned m) (hp : P.mem r p) (ht : reach child m r p = some t)
    (hb : ¬ owned b) : b ≠ t := by
  rintro rfl
  exact hb (F.closed hp ht)

variable [DecidableEq A]

/-- A table that is not owned is on no path. -/
theorem sameAlong_fill (F : Forest child P owned m) (hb : ¬ owned b) (hq : P.Through r q) :
    SameAlong child m (fill m b c) r q := by
  intro p₁ j a hpre ha
  rw [fill_other]
  rintro rfl
  exact hb (F.closed (hq p₁ j hpre) ha)

theorem reach_fill_mem (F : Forest child P owned m) (hb : ¬ owned b) (hq : P.mem r q) :
    reach child (Radix.fill m b c) r q = reach child m r q :=
  reach_congr (F.sameAlong_fill hb (P.through_of_mem hq))

theorem fill (F : Forest child P owned m) (hb : ¬ owned b) : Forest child P owned (Radix.fill m b c) where
  closed hp ht := by
    rw [F.reach_fill_mem hb hp] at ht
    exact F.closed hp ht
  apart hp hp' ht ht' := by
    rw [F.reach_fill_mem hb hp] at ht
    rw [F.reach_fill_mem hb hp'] at ht'
    exact F.apart hp hp' ht ht'

variable [DecidableEq I]

/-- A path that does not run through the entry does not see the write. -/
theorem sameAlong_put (F : Forest child P owned m) (hp : P.mem r p) (ht : reach child m r p = some t)
    {r' : A} (hq : P.Through r' q) (hne : ¬ (r = r' ∧ p ++ [i] <+: q)) :
    SameAlong child m (put m t i e) r' q := by
  intro p₁ j a hpre ha
  apply put_other
  rintro ⟨rfl, rfl⟩
  obtain ⟨rfl, rfl⟩ := F.apart hp (hq p₁ j hpre) ht ha
  exact hne ⟨rfl, hpre⟩

theorem view_put_other (F : Forest child P owned m) (hp : P.mem r p) (ht : reach child m r p = some t)
    {r' : A} (hq : P.Through r' q) (hne : ¬ (r = r' ∧ p ++ [i] <+: q)) :
    view child present (put m t i e) r' q = view child present m r' q :=
  view_congr (F.sameAlong_put hp ht hq hne)

theorem reach_put_other (F : Forest child P owned m) (hp : P.mem r p) (ht : reach child m r p = some t)
    {r' : A} (hq : P.mem r' q) (hne : ¬ (r = r' ∧ p ++ [i] <+: q)) :
    reach child (put m t i e) r' q = reach child m r' q :=
  reach_congr (F.sameAlong_put hp ht (P.through_of_mem hq) hne)

/-- The walk to the table that is written does not change. -/
theorem reach_put_self (F : Forest child P owned m) (hp : P.mem r p) (ht : reach child m r p = some t) :
    reach child (put m t i e) r p = some t := by
  rw [reach_congr (F.sameAlong_put hp ht (P.through_of_mem hp) _), ht]
  rintro ⟨_, hpre⟩
  have hl := hpre.length_le
  rw [List.length_append] at hl
  exact absurd hl (Nat.not_succ_le_self _)

theorem view_put_same (F : Forest child P owned m) (hpres : ∀ e, child e ≠ none → present e = true)
    (hp : P.mem r p) (ht : reach child m r p = some t) (hc : child e = none ∨ q = []) :
    view child present (put m t i e) r (p ++ i :: q) =
      if present e then some (p.length, e) else none := by
  rw [view_append hpres (F.reach_put_self hp ht) (by simp)]
  cases he : present e with
  | false => rw [view_absent (by rw [put_same, he])]; rfl
  | true =>
    rw [view_last (by rw [put_same, he]) (by rwa [put_same]), put_same]
    simp

/-- After a write that leads nowhere, what is reached was reached before. -/
theorem reach_put_none (F : Forest child P owned m) (hp : P.mem r p) (ht : reach child m r p = some t)
    (hc : child e = none) {r' a : A} (hq : P.mem r' q) (h : reach child (put m t i e) r' q = some a) :
    reach child m r' q = some a := by
  by_cases hthrough : r = r' ∧ p ++ [i] <+: q
  · obtain ⟨rfl, s, rfl⟩ := hthrough
    rw [reach_append, reach_snoc, F.reach_put_self hp ht, Option.bind_some, put_same, hc] at h
    cases h
  · rwa [reach_congr (F.sameAlong_put hp ht (P.through_of_mem hq) hthrough)] at h

theorem put (F : Forest child P owned m) (hp : P.mem r p) (ht : reach child m r p = some t)
    (hc : child e = none) : Forest child P owned (Radix.put m t i e) where
  closed hq h := F.closed hq (F.reach_put_none hp ht hc hq h)
  apart hq hq' h h' := F.apart hq hq' (F.reach_put_none hp ht hc hq h) (F.reach_put_none hp ht hc hq' h')

/-! ### Linking a new table -/

section Link

variable (F : Forest child P owned m) (hp : P.mem r p) (ht : reach child m r p = some t) (hb : ¬ owned b)
  (he : child e = some b) (hleaf : ∀ j, child (c j) = none)

include F hp ht hb

omit [DecidableEq I] in
theorem reach_fill : reach child (Radix.fill m b c) r p = some t := by
  rw [F.reach_fill_mem hb hp, ht]

theorem link_table : link m t i e b c b = c := by
  funext j
  rw [link, put_other (fun h => F.ne_of_reach hp ht hb h.1), fill_same]

theorem view_link_other {r' : A} (hq : P.Through r' q) (hne : ¬ (r = r' ∧ p ++ [i] <+: q)) :
    view child present (link m t i e b c) r' q = view child present m r' q := by
  rw [link, (F.fill hb).view_put_other hp (F.reach_fill hp ht hb) hq hne, view_congr (F.sameAlong_fill hb hq)]

theorem reach_link_self : reach child (link m t i e b c) r p = some t :=
  (F.fill hb).reach_put_self hp (F.reach_fill hp ht hb)

theorem reach_link_other {r' : A} (hq : P.mem r' q) (hne : ¬ (r = r' ∧ p ++ [i] <+: q)) :
    reach child (link m t i e b c) r' q = reach child m r' q := by
  rw [link, (F.fill hb).reach_put_other hp (F.reach_fill hp ht hb) hq hne, F.reach_fill_mem hb hq]

/-- What was reached still is when the entry led nowhere. -/
theorem reach_link_old (hi : child (m t i) = none) {r' a : A} (hq : P.mem r' q) (h : reach child m r' q = some a) :
    reach child (link m t i e b c) r' q = some a := by
  rw [F.reach_link_other hp ht hb hq, h]
  rintro ⟨rfl, hpre⟩
  obtain ⟨x, hx⟩ := reach_initial h hpre
  rw [reach_snoc, ht, Option.bind_some, hi] at hx
  cases hx

include he

theorem reach_link : reach child (link m t i e b c) r (p ++ [i]) = some b := by
  rw [reach_snoc, F.reach_link_self hp ht hb, Option.bind_some, link, put_same, he]

include hleaf

theorem view_link_same (hpres : ∀ e, child e ≠ none → present e = true) (j : I) :
    view child present (link m t i e b c) r (p ++ i :: j :: q) =
      if present (c j) then some (p.length + 1, c j) else none := by
  have hr : reach child (link m t i e b c) r (p ++ [i]) = some b := F.reach_link hp ht hb he
  rw [show p ++ i :: j :: q = (p ++ [i]) ++ j :: q by simp, view_append hpres hr (by simp)]
  have hj : link m t i e b c b j = c j := congrFun (F.link_table hp ht hb) j
  cases hpj : present (c j) with
  | false => rw [view_absent (by rw [hj, hpj])]; rfl
  | true =>
    rw [view_last (by rw [hj, hpj]) (.inl (by rw [hj]; exact hleaf j)), hj]
    simp

/-- Only the new table itself is reached anew. -/
theorem reach_link_cases {r' a : A} (hq : P.mem r' q) (h : reach child (link m t i e b c) r' q = some a) :
    (a = b ∧ r = r' ∧ p ++ [i] = q) ∨ reach child m r' q = some a := by
  by_cases hthrough : r = r' ∧ p ++ [i] <+: q
  · obtain ⟨rfl, s, rfl⟩ := hthrough
    rw [reach_append, F.reach_link hp ht hb he, Option.bind_some] at h
    cases s with
    | nil =>
      left
      simpa [eq_comm] using h
    | cons j s =>
      rw [reach_cons, F.link_table hp ht hb, hleaf] at h
      cases h
  · right
    rwa [link, reach_congr ((F.fill hb).sameAlong_put hp (F.reach_fill hp ht hb) (P.through_of_mem hq) hthrough),
      F.reach_fill_mem hb hq] at h

theorem linked : Forest child P (fun a => owned a ∨ a = b) (link m t i e b c) where
  closed hq h := by
    rcases F.reach_link_cases hp ht hb he hleaf hq h with ⟨rfl, _⟩ | h
    · exact .inr rfl
    · exact .inl (F.closed hq h)
  apart hq hq' h h' := by
    rcases F.reach_link_cases hp ht hb he hleaf hq h with ⟨hx, hr, hpath⟩ | hold
    · rcases F.reach_link_cases hp ht hb he hleaf hq' h' with ⟨_, hr', hpath'⟩ | hold'
      · exact ⟨hr.symm.trans hr', hpath.symm.trans hpath'⟩
      · exact absurd (F.closed hq' hold') (hx ▸ hb)
    · rcases F.reach_link_cases hp ht hb he hleaf hq' h' with ⟨hx', _⟩ | hold'
      · exact absurd (F.closed hq hold) (hx' ▸ hb)
      · exact F.apart hq hq' hold hold'

end Link

/-! ### Invariants of single entries -/

/-- Every entry of every table in use satisfies `φ` at the depth of its table. -/
def Entries (child : E → Option A) (P : Paths A I) (φ : Nat → E → Prop) (m : Store A I E) : Prop :=
  ∀ r p t i, P.mem r p → reach child m r p = some t → φ p.length (m t i)

variable {φ : Nat → E → Prop}

theorem entries_put (F : Forest child P owned m) (h : Entries child P φ m) (hp : P.mem r p)
    (ht : reach child m r p = some t) (hc : child e = none) (he : φ p.length e) :
    Entries child P φ (Radix.put m t i e) := by
  intro r' q a j hq ha
  have hold := F.reach_put_none hp ht hc hq ha
  by_cases hat : a = t ∧ j = i
  · obtain ⟨rfl, rfl⟩ := hat
    obtain ⟨rfl, rfl⟩ := F.apart hp hq ht hold
    rwa [put_same]
  · rw [put_other hat]
    exact h r' q a j hq hold

theorem entries_link (F : Forest child P owned m) (h : Entries child P φ m) (hp : P.mem r p)
    (ht : reach child m r p = some t) (hb : ¬ owned b) (hc : child e = some b)
    (hleaf : ∀ j, child (c j) = none) (he : φ p.length e) (hce : ∀ j, φ (p.length + 1) (c j)) :
    Entries child P φ (link m t i e b c) := by
  intro r' q a j hq ha
  rcases F.reach_link_cases hp ht hb hc hleaf hq ha with ⟨rfl, _, rfl⟩ | hold
  · rw [F.link_table hp ht hb, List.length_append]
    exact hce j
  · have hne : a ≠ b := fun hab => hb (hab ▸ F.closed hq hold)
    by_cases hat : a = t ∧ j = i
    · obtain ⟨rfl, rfl⟩ := hat
      obtain ⟨rfl, rfl⟩ := F.apart hp hq ht hold
      rwa [link, put_same]
    · rw [link, put_other hat, fill_other hne]
      exact h r' q a j hq hold

omit [DecidableEq A] [DecidableEq I] in
/-- What a walk ends at satisfies the invariant. -/
theorem entries_view (h : Entries child P φ m) (hq : P.Through r q) {k : Nat}
    (hv : view child present m r q = some (k, e)) : φ k e := by
  obtain ⟨a, j, hpre, hk, hreach, rfl, _⟩ := view_some hv
  have hφ := h r (q.take k) a j (hq _ j hpre) hreach
  rwa [List.length_take_of_le (Nat.le_of_lt hk)] at hφ

end Forest

end Radix
