import Mathlib.Data.List.Basic

/-!
# Paths and their normal forms

A walk follows the parts of a path through directories: a name goes down, two
dots go up. The normal form strikes out each name with the part that goes up
again, without a look at the directories. A walk that ends finds the node at
the end of the normal form, so two walks with one normal form end together.
-/

namespace Lexical

variable {ν α : Type*}

inductive Part (α : Type*) where
  | empty
  | dot
  | up
  | name (a : α)
  deriving DecidableEq, Repr

/-- The names that are left, the last one first. -/
def push (stack : List α) : Part α → List α
  | .empty => stack
  | .dot => stack
  | .up => stack.tail
  | .name a => a :: stack

/-- The root is its own parent. -/
def normal (parts : List (Part α)) : List α := (parts.foldl push []).reverse

/-- Directories, the directory above a node and the children by their names. -/
structure Dirs (ν α : Type*) where
  isDir : ν → Prop
  parent : ν → ν
  child : ν → α → ν → Prop

namespace Dirs

variable (t : Dirs ν α) (root : ν)

/-- Every part but an empty one is looked up in a directory. -/
inductive Walk : ν → List (Part α) → ν → Prop
  | done {d : ν} : Walk d [] d
  | empty {d n : ν} {rest : List (Part α)} (h : Walk d rest n) : Walk d (.empty :: rest) n
  | dot {d n : ν} {rest : List (Part α)} (hd : t.isDir d) (h : Walk d rest n) : Walk d (.dot :: rest) n
  | up {d n : ν} {rest : List (Part α)} (hd : t.isDir d) (h : Walk (t.parent d) rest n) : Walk d (.up :: rest) n
  | down {d c n : ν} {a : α} {rest : List (Part α)} (hd : t.isDir d) (hc : t.child d a c) (h : Walk c rest n) :
      Walk d (.name a :: rest) n

/-- The node that the names lead to from the root, the last name first. -/
def Below : List α → ν → Prop
  | [], n => n = root
  | a :: stack, n => ∃ d, Below stack d ∧ t.child d a n

/-- Below the root names are unique and the directory above a child is its own. -/
structure Rooted : Prop where
  top : t.parent root = root
  up : ∀ stack d a c, t.Below root stack d → t.child d a c → t.parent c = d
  one : ∀ stack d a c c', t.Below root stack d → t.child d a c → t.child d a c' → c = c'

variable {t} {root} {d n m : ν} {stack : List α} {parts p q : List (Part α)}

theorem Rooted.unique (h : t.Rooted root) (hn : t.Below root stack n) (hm : t.Below root stack m) : n = m := by
  induction stack generalizing n m with
  | nil => exact hn.trans hm.symm
  | cons a stack ih =>
    obtain ⟨d, hd, hn⟩ := hn
    obtain ⟨d', hd', hm⟩ := hm
    obtain rfl := ih hd hd'
    exact h.one stack d a n m hd hn hm

/-- Going up strikes out the last name, at the root nothing. -/
theorem Rooted.parent (h : t.Rooted root) (hd : t.Below root stack d) : t.Below root stack.tail (t.parent d) := by
  cases stack with
  | nil =>
    obtain rfl : d = root := hd
    exact h.top
  | cons a stack =>
    obtain ⟨e, he, hc⟩ := hd
    rw [h.up stack e a d he hc]
    exact he

/-- A walk ends where the names that are left lead to. -/
theorem Rooted.walk (h : t.Rooted root) (hw : t.Walk d parts n) (hd : t.Below root stack d) :
    t.Below root (parts.foldl push stack) n := by
  induction hw generalizing stack with
  | done => exact hd
  | empty _ ih => exact ih hd
  | dot _ _ ih => exact ih hd
  | up _ _ ih => exact ih (h.parent hd)
  | down _ hc _ ih => exact ih ⟨_, hd, hc⟩

theorem Rooted.walk_unique (h : t.Rooted root) (hp : t.Walk root p n) (hq : t.Walk root q m)
    (heq : normal p = normal q) : n = m := by
  have hn : t.Below root (p.foldl push []) n := h.walk hp rfl
  have hm : t.Below root (q.foldl push []) m := h.walk hq rfl
  rw [List.reverse_inj.mp heq] at hn
  exact h.unique hn hm

theorem below_first {a : α} (h : t.Below root (stack ++ [a]) n) : ∃ c, t.child root a c := by
  induction stack generalizing n with
  | nil =>
    obtain ⟨d, rfl, hc⟩ := h
    exact ⟨n, hc⟩
  | cons b stack ih =>
    obtain ⟨d, hd, _⟩ := h
    exact ih hd

/-- The first name of a normal form is a child of the root. -/
theorem Rooted.walk_first (h : t.Rooted root) (hw : t.Walk root parts n) {a : α} {rest : List α}
    (hnormal : normal parts = a :: rest) : ∃ c, t.child root a c := by
  have hbelow : t.Below root (parts.foldl push []) n := h.walk hw rfl
  rw [normal, List.reverse_eq_iff, List.reverse_cons] at hnormal
  rw [hnormal] at hbelow
  exact below_first hbelow

end Dirs

/-! ## A directory further up -/

/-- A name at the bottom stays there, unless the parts go up past it. -/
theorem foldl_push_append (a : α) (parts : List (Part α)) (stack : List α) :
    parts.foldl push (stack ++ [a]) = parts.foldl push stack ++ [a] ∨
      parts.foldl push (stack ++ [a]) = parts.foldl push stack := by
  induction parts generalizing stack with
  | nil => exact .inl rfl
  | cons part parts ih =>
    cases part with
    | empty => exact ih stack
    | dot => exact ih stack
    | name b => exact ih (b :: stack)
    | up =>
      cases stack with
      | nil => exact .inr rfl
      | cons b stack => exact ih stack

/-- Below a directory the normal form begins with it, or is that of what is below. -/
theorem normal_below (a : α) (parts : List (Part α)) :
    normal (.name a :: parts) = a :: normal parts ∨ normal (.name a :: parts) = normal parts := by
  rcases foldl_push_append a parts [] with h | h
  · left
    rw [normal, normal, List.foldl_cons, push, ← List.nil_append [a], h, List.reverse_append]
    rfl
  · right
    rw [normal, normal, List.foldl_cons, push, ← List.nil_append [a], h]

end Lexical
