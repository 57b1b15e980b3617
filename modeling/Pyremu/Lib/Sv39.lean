import Pyremu.Lib.Bits

/-!
# Sv39

Page tables of three levels as the privileged architecture reads them: which
entries are pointers and leaves, what a leaf permits, and the address that the
tables give to a virtual one.
-/

namespace Sv39

inductive Privilege where
  | user | supervisor
  deriving DecidableEq, Repr

inductive Access where
  | load | store | fetch
  deriving DecidableEq, Repr

/-! ## Entries -/

def valid (e : BitVec 64) : Bool := e.getLsbD 0
def readable (e : BitVec 64) : Bool := e.getLsbD 1
def writable (e : BitVec 64) : Bool := e.getLsbD 2
def executable (e : BitVec 64) : Bool := e.getLsbD 3
def user (e : BitVec 64) : Bool := e.getLsbD 4
def ppn (e : BitVec 64) : BitVec 44 := e.extractLsb' 10 44

/-- The entry leads to the table of the next level. -/
structure Pointer (e : BitVec 64) : Prop where
  valid : valid e = true
  not_readable : readable e = false
  not_writable : writable e = false
  not_executable : executable e = false

/-- The entry maps a page; to be writable without being readable is reserved. -/
structure Leaf (e : BitVec 64) : Prop where
  valid : valid e = true
  page : readable e = true ∨ executable e = true
  readable_of_writable : writable e = true → readable e = true

/-- `sum` lets the supervisor at the data of user pages, `mxr` makes executable pages readable. -/
def permits (priv : Privilege) (sum mxr : Bool) (access : Access) (e : BitVec 64) : Bool :=
  (match priv with
    | .user => user e
    | .supervisor => !user e || (sum && access != .fetch)) &&
  match access with
    | .load => readable e || (mxr && executable e)
    | .store => writable e
    | .fetch => executable e

/-! ## The walk -/

/-- The table at the root, from `satp`. -/
def root (satp : BitVec 64) : BitVec 44 := satp.extractLsb' 0 44

/-- The index into a table of the given level. -/
def vpn (va : BitVec 64) (level : Nat) : BitVec 9 := va.extractLsb' (12 + 9 * level) 9

def entryAddr (table : BitVec 44) (index : BitVec 9) : BitVec 64 :=
  BitVec.ofNat 64 (table.toNat * 2 ^ 12 + index.toNat * 8)

/-- The bits above the address are copies of its last bit. -/
def Canonical (va : BitVec 64) : Prop := ∀ i < 64, 39 ≤ i → va.getLsbD i = va.getLsbD 38

instance (va : BitVec 64) : Decidable (Canonical va) :=
  inferInstanceAs (Decidable (∀ i < 64, 39 ≤ i → va.getLsbD i = va.getLsbD 38))

/-- From the table of one level the walk ends at a leaf of another. -/
inductive Walk (read : BitVec 64 → BitVec 64) (va : BitVec 64) : Nat → BitVec 44 → Nat → BitVec 64 → Prop where
  | leaf {level : Nat} {table : BitVec 44} (h : Leaf (read (entryAddr table (vpn va level)))) :
      Walk read va level table level (read (entryAddr table (vpn va level)))
  | next {level l : Nat} {table : BitVec 44} {e : BitVec 64}
      (h : Pointer (read (entryAddr table (vpn va (level + 1)))))
      (rest : Walk read va level (ppn (read (entryAddr table (vpn va (level + 1))))) l e) :
      Walk read va (level + 1) table l e

/-- The page of a leaf lies at a multiple of its size. -/
def PageAligned (level : Nat) (e : BitVec 64) : Prop := (ppn e).toNat % 2 ^ (9 * level) = 0

instance (level : Nat) (e : BitVec 64) : Decidable (PageAligned level e) :=
  inferInstanceAs (Decidable ((ppn e).toNat % 2 ^ (9 * level) = 0))

/-- The frame of the leaf and the offset in its page. -/
def physical (level : Nat) (e va : BitVec 64) : BitVec 64 :=
  BitVec.ofNat 64 ((ppn e).toNat * 2 ^ 12 + va.toNat % 2 ^ (12 + 9 * level))

/-- The tables give the access the address `pa`, with leaves up to the level `largest`. -/
structure Grants (largest : Nat) (read : BitVec 64 → BitVec 64) (table : BitVec 44) (priv : Privilege)
    (sum mxr : Bool) (access : Access) (va pa : BitVec 64) : Prop where
  canonical : Canonical va
  leaf : ∃ level ≤ largest, ∃ e, Walk read va 2 table level e ∧ PageAligned level e ∧
    permits priv sum mxr access e = true ∧ pa = physical level e va

/-! ## Rules -/

section Rules

variable {read : BitVec 64 → BitVec 64} {va e : BitVec 64} {table : BitVec 44} {level l : Nat}

theorem walk_zero_iff : Walk read va 0 table l e ↔
    l = 0 ∧ Leaf e ∧ e = read (entryAddr table (vpn va 0)) := by
  constructor
  · intro h
    cases h with
    | leaf h => exact ⟨rfl, h, rfl⟩
  · rintro ⟨rfl, h, rfl⟩
    exact .leaf h

/-- The first entry is the leaf, or points to the rest of the walk. -/
theorem walk_succ_iff : Walk read va (level + 1) table l e ↔
    (l = level + 1 ∧ Leaf e ∧ e = read (entryAddr table (vpn va (level + 1)))) ∨
      Pointer (read (entryAddr table (vpn va (level + 1)))) ∧
        Walk read va level (ppn (read (entryAddr table (vpn va (level + 1))))) l e := by
  constructor
  · intro h
    cases h with
    | leaf h => exact .inl ⟨rfl, h, rfl⟩
    | next h rest => exact .inr ⟨h, rest⟩
  · rintro (⟨rfl, h, rfl⟩ | ⟨h, rest⟩)
    · exact .leaf h
    · exact .next h rest

/-- Without pages of 1 GiB an access is granted through a page of 2 MiB or one of 4 KiB. -/
theorem grants_one_iff {priv : Privilege} {sum mxr : Bool} {access : Access} {pa : BitVec 64} :
    Grants 1 read table priv sum mxr access va pa ↔
      let e2 := read (entryAddr table (vpn va 2))
      let e1 := read (entryAddr (ppn e2) (vpn va 1))
      let e0 := read (entryAddr (ppn e1) (vpn va 0))
      Canonical va ∧ Pointer e2 ∧
        ((Leaf e1 ∧ PageAligned 1 e1 ∧ permits priv sum mxr access e1 = true ∧ pa = physical 1 e1 va) ∨
          Pointer e1 ∧ Leaf e0 ∧ permits priv sum mxr access e0 = true ∧ pa = physical 0 e0 va) := by
  constructor
  · rintro ⟨hc, l, hl, e, hw, ha, hp, rfl⟩
    refine ⟨hc, ?_⟩
    rcases walk_succ_iff.mp hw with ⟨rfl, _, _⟩ | ⟨hptr, hw1⟩
    · exact absurd hl (by decide)
    · rcases walk_succ_iff.mp hw1 with ⟨rfl, hleaf, rfl⟩ | ⟨hptr1, hw0⟩
      · exact ⟨hptr, .inl ⟨hleaf, ha, hp, rfl⟩⟩
      · obtain ⟨rfl, hleaf, rfl⟩ := walk_zero_iff.mp hw0
        exact ⟨hptr, .inr ⟨hptr1, hleaf, hp, rfl⟩⟩
  · rintro ⟨hc, hptr, ⟨hleaf, ha, hp, rfl⟩ | ⟨hptr1, hleaf, hp, rfl⟩⟩
    · exact ⟨hc, 1, Nat.le_refl 1, _, .next hptr (.leaf hleaf), ha, hp, rfl⟩
    · exact ⟨hc, 0, Nat.zero_le 1, _, .next hptr (.next hptr1 (.leaf hleaf)), Nat.mod_one _, hp, rfl⟩

end Rules

end Sv39
