import Mathlib.Tactic.IntervalCases
import Pyremu.MainMem

/-!
# The link window of a PIE image

The window names the first bytes of RAM once more. The alias is resolved below
the cache, so a RAM byte can be in two lines at once, and a line that sticks out
of a window is filled with zeros and never written back.
-/

namespace Pyremu

open L2Cache Splice

namespace DirectRam

/-- What a loader gives to `apply_pie_ofs`. -/
structure Linked (r : DirectRam) : Prop where
  fits : r.linkSize ≤ r.size
  apart : r.linkBase + r.linkSize ≤ r.base ∨ r.base + r.size ≤ r.linkBase

/-- Byte by byte, the addresses from `addr` on are the RAM bytes from `a` on. -/
def Spans (r : DirectRam) (addr n a : Nat) : Prop := ∀ k < n, r.resolve (addr + k) 1 = some (a + k)

/-- The windows stay, whatever the bytes are. -/
def SameWindows (r r' : DirectRam) : Prop := r' = { r with bytes := r'.bytes }

section Resolve

variable {r r' r'' : DirectRam} {addr n m a k : Nat} {data : List Byte}

theorem SameWindows.refl (r : DirectRam) : r.SameWindows r := rfl

theorem SameWindows.trans (h : r.SameWindows r') (h' : r'.SameWindows r'') : r.SameWindows r'' := by
  rw [SameWindows] at h h' ⊢
  rw [h] at h'
  exact h'

theorem SameWindows.resolve (h : r.SameWindows r') : r'.resolve = r.resolve := by
  rw [SameWindows] at h
  rw [h]
  rfl

theorem SameWindows.isRamAddr (h : r.SameWindows r') : r'.isRamAddr = r.isRamAddr := by
  rw [SameWindows] at h
  rw [h]
  rfl

theorem SameWindows.linked (h : r.SameWindows r') (hl : r.Linked) : r'.Linked := by
  rw [SameWindows] at h
  rw [h]
  exact ⟨hl.fits, hl.apart⟩

theorem Spans.sub (h : r.Spans addr n a) (hle : m + k ≤ n) : r.Spans (addr + m) k (a + m) := by
  intro i hi
  rw [Nat.add_assoc, Nat.add_assoc]
  exact h (m + i) (by omega)

/-- A range within a window is resolved like its bytes. -/
theorem Linked.spans (h : r.Linked) (ha : r.resolve addr n = some a) : r.Spans addr n a := by
  intro k hk
  have hapart := h.apart
  rw [resolve] at ha ⊢
  by_cases hin : r.inRange addr n
  · rw [if_pos hin] at ha
    cases ha
    rw [inRange] at hin
    rw [if_pos (by rw [inRange]; omega)]
  · rw [if_neg hin] at ha
    by_cases hlink : r.linkSize ≠ 0 ∧ r.linkBase ≤ addr ∧ addr + n ≤ r.linkBase + r.linkSize
    · rw [if_pos hlink] at ha
      cases ha
      rw [if_neg (by rw [inRange]; omega), if_pos (by omega)]
      congr 1
      omega
    · rw [if_neg hlink] at ha
      cases ha

theorem read_of_resolve (ha : r.resolve addr n = some a) : r.read addr n = slice r.bytes a n := by
  rw [read, ha]

theorem write_of_resolve (ha : r.resolve addr data.length = some a) :
    r.write addr data = { r with bytes := patch r.bytes a data } := by
  rw [write, ha]

theorem write_of_none (ha : r.resolve addr data.length = none) : r.write addr data = r := by
  rw [write, ha]

theorem write_window (r : DirectRam) (addr : Nat) (data : List Byte) : r.SameWindows (r.write addr data) := by
  rw [SameWindows, write]
  split <;> rfl

end Resolve

end DirectRam

namespace L2Cache

/-- Byte `j` of the valid entry `i` is the RAM byte `x`, under one of its addresses. -/
structure Holds (c : L2Cache) (i j x : Nat) : Prop where
  entry : i < c.shape.numEntries
  valid : (c.entries i).valid = true
  byte : j < c.shape.lineSize
  cell : c.ram.resolve (c.shape.lineAddr (c.entries i).tag + j) 1 = some x

/-- Every valid line has the recent bytes, and so has RAM where no modified line does. -/
structure Aliased (c : L2Cache) (flat : Nat → Byte) : Prop where
  linked : c.ram.Linked
  line : ∀ i j x, Holds c i j x → (c.entries i).data j = flat x
  settled : ∀ x, (∀ i j, Holds c i j x → (c.entries i).mesi ≠ .modified) → c.ram.bytes x = flat x

variable (c : L2Cache)

/-- The cache when the victim `idx` has gone. -/
def evicted (idx : Nat) : L2Cache :=
  { c with
    ram := if (c.entries idx).valid then c.onEvict idx else c.ram
    tagToIdx := if (c.entries idx).valid then c.tagToIdx.erase (c.entries idx).tag else c.tagToIdx
    entries := Function.update c.entries idx { c.entries idx with valid := false } }

/-- What the line of `addr` is filled with. -/
def fillByte (addr j : Nat) : Byte := (c.ram.read (c.shape.lineAddr (c.shape.tagOf addr)) c.shape.lineSize).getD j 0

/-- The entry that takes the line of `addr`. -/
def victimOf (addr : Nat) : Nat :=
  c.shape.setOf (c.shape.tagOf addr) * c.shape.ways + c.pickVictimInSet (c.shape.setOf (c.shape.tagOf addr))

/-- The entry of the line of `addr`, and the cache once it is there. -/
def lineOf (addr : Nat) : Nat × L2Cache :=
  match c.hit (c.shape.setOf (c.shape.tagOf addr)) (c.shape.tagOf addr) with
  | some i => (c.shape.setOf (c.shape.tagOf addr) * c.shape.ways + i, c)
  | none => c.allocate addr (c.shape.setOf (c.shape.tagOf addr)) (c.shape.tagOf addr)

/-! ## When the two addresses of a byte do not disturb each other -/

/-- Each byte of a modified victim reaches RAM, or another modified line has it too. -/
def Kept (idx : Nat) : Prop :=
  (c.entries idx).mesi = .modified → ∀ j x, Holds c idx j x →
    (c.evicted idx).ram.bytes x = (c.entries idx).data j ∨
      ∃ i k, Holds (c.evicted idx) i k x ∧ ((c.evicted idx).entries i).mesi = .modified

/-- A line is filled with what the modified lines have, and with what RAM has elsewhere. -/
def Fresh (addr : Nat) : Prop :=
  ∀ j x, j < c.shape.lineSize → c.ram.resolve (c.shape.lineAddr (c.shape.tagOf addr) + j) 1 = some x →
    (∀ i k, Holds c i k x → (c.entries i).mesi = .modified → (c.entries i).data k = c.fillByte addr j) ∧
      ((∀ i k, Holds c i k x → (c.entries i).mesi ≠ .modified) → c.ram.bytes x = c.fillByte addr j)

/-- A miss loses nothing and finds nothing old. -/
def Fills (addr : Nat) : Prop :=
  c.hit (c.shape.setOf (c.shape.tagOf addr)) (c.shape.tagOf addr) = none →
    Kept c (c.victimOf addr) ∧ Fresh (c.evicted (c.victimOf addr)) addr

/-- A RAM byte that is written has no other value in a valid line. -/
def Unopposed (addr : Nat) (data : List Byte) : Prop :=
  ∀ i j x, Holds c i j x → ∀ k, ∀ hk : k < data.length, c.ram.resolve (addr + k) 1 = some x →
    (c.entries i).data j = data[k]

/-- The same but for the bytes of entry `idx` that are written. -/
def UnopposedBut (idx addr : Nat) (data : List Byte) : Prop :=
  ∀ i j x, Holds c i j x → ∀ k, ∀ hk : k < data.length, c.ram.resolve (addr + k) 1 = some x →
    ¬ (i = idx ∧ c.shape.lineAddr (c.entries i).tag + j = addr + k) → (c.entries i).data j = data[k]

def ReadMeets (p : Nat × Nat) : Prop := Fills c p.1

def WriteMeets (p : Nat × List Byte) : Prop :=
  Fills c p.1 ∧ UnopposedBut (c.lineOf p.1).2 (c.lineOf p.1).1 p.1 p.2

/-! ## Lines that come and go -/

section Moves

variable {c : L2Cache} {flat : Nat → Byte} {idx i j x addr n a : Nat} {data : List Byte}

theorem Aliased.congr {c' : L2Cache} (h : Aliased c flat) (hs : c'.shape = c.shape) (hr : c'.ram = c.ram)
    (he : ∀ i, (c'.entries i).tag = (c.entries i).tag ∧ (c'.entries i).valid = (c.entries i).valid ∧
      (c'.entries i).mesi = (c.entries i).mesi ∧ (c'.entries i).data = (c.entries i).data) : Aliased c' flat := by
  have hholds : ∀ i j x, Holds c' i j x ↔ Holds c i j x := by
    intro i j x
    constructor
    · rintro ⟨h1, h2, h3, h4⟩
      rw [hs] at h1 h3 h4
      rw [(he i).2.1] at h2
      rw [hr, (he i).1] at h4
      exact ⟨h1, h2, h3, h4⟩
    · rintro ⟨h1, h2, h3, h4⟩
      refine ⟨by rwa [hs], by rwa [(he i).2.1], by rwa [hs], ?_⟩
      rw [hr, hs, (he i).1]
      exact h4
  constructor
  · rw [hr]
    exact h.linked
  · intro i j x hx
    rw [(he i).2.2.2]
    exact h.line i j x ((hholds i j x).mp hx)
  · intro x hx
    rw [hr]
    apply h.settled
    intro i j hij
    rw [← (he i).2.2.1]
    exact hx i j ((hholds i j x).mpr hij)

theorem onEvict_window (c : L2Cache) (idx : Nat) : c.ram.SameWindows (c.onEvict idx) := by
  rw [onEvict]
  split
  · exact DirectRam.write_window _ _ _
  · exact .refl _

/-- A write-back touches only RAM bytes that the modified line holds. -/
theorem onEvict_bytes (hl : c.ram.Linked) (hi : idx < c.shape.numEntries) (hv : (c.entries idx).valid = true)
    (hx : ∀ j, Holds c idx j x → (c.entries idx).mesi ≠ .modified) : (c.onEvict idx).bytes x = c.ram.bytes x := by
  rw [onEvict]
  by_cases hm : (c.entries idx).mesi = .modified
  · rw [if_pos hm]
    cases hres : c.ram.resolve (c.shape.lineAddr (c.entries idx).tag)
        (slice (c.entries idx).data 0 c.shape.lineSize).length with
    | none => rw [DirectRam.write_of_none hres]
    | some a =>
      rw [DirectRam.write_of_resolve hres]
      change patch c.ram.bytes a _ x = _
      rw [slice_length] at hres
      by_cases hlt : x < a
      · exact patch_of_lt hlt
      · apply patch_of_ge
        rw [slice_length]
        by_contra hge
        -- the byte is one of the line
        have hcell := hl.spans hres (x - a) (by omega)
        rw [show a + (x - a) = x by omega] at hcell
        exact hx (x - a) ⟨hi, hv, by omega, hcell⟩ hm
  · rw [if_neg hm]

theorem evicted_other (hne : i ≠ idx) : (c.evicted idx).entries i = c.entries i := Function.update_of_ne hne _ _

theorem evicted_self : ((c.evicted idx).entries idx).valid = false := by
  have hself : (c.evicted idx).entries idx = { c.entries idx with valid := false } := Function.update_self _ _ _
  rw [hself]

theorem evicted_window (c : L2Cache) (idx : Nat) : c.ram.SameWindows (c.evicted idx).ram := by
  rw [evicted]
  dsimp only
  split
  · exact onEvict_window c idx
  · exact .refl _

/-- The other entries hold what they held. -/
theorem holds_evicted : Holds (c.evicted idx) i j x ↔ i ≠ idx ∧ Holds c i j x := by
  constructor
  · intro h
    have hne : i ≠ idx := by
      rintro rfl
      have hv := h.valid
      rw [evicted_self] at hv
      cases hv
    refine ⟨hne, h.entry, ?_, h.byte, ?_⟩
    · rw [← evicted_other hne]
      exact h.valid
    · have hcell := h.cell
      rw [evicted_other hne, (evicted_window c idx).resolve] at hcell
      exact hcell
  · rintro ⟨hne, h⟩
    refine ⟨h.entry, ?_, h.byte, ?_⟩
    · rw [evicted_other hne]
      exact h.valid
    · rw [evicted_other hne, (evicted_window c idx).resolve]
      exact h.cell

theorem Aliased.evicted (h : Aliased c flat) (hi : idx < c.shape.numEntries) (hkept : Kept c idx) :
    Aliased (c.evicted idx) flat := by
  constructor
  · exact (evicted_window c idx).linked h.linked
  · intro i j x hx
    obtain ⟨hne, hold⟩ := holds_evicted.mp hx
    rw [evicted_other hne]
    exact h.line i j x hold
  · intro x hx
    by_cases hmod : ∃ i j, Holds c i j x ∧ (c.entries i).mesi = .modified
    · -- only the victim can have had the byte
      obtain ⟨i, j, hij, hm⟩ := hmod
      obtain rfl : i = idx := by
        by_contra hne
        apply hx i j (holds_evicted.mpr ⟨hne, hij⟩)
        rw [evicted_other hne]
        exact hm
      rcases hkept hm j x hij with hram | ⟨k, l, hkl, hmk⟩
      · rw [hram]
        exact h.line i j x hij
      · exact absurd hmk (hx k l hkl)
    · push Not at hmod
      rw [← h.settled x hmod, L2Cache.evicted]
      dsimp only
      split
      · rename_i hv
        exact onEvict_bytes h.linked hi hv (hmod idx)
      · rfl

theorem allocate_eq (c : L2Cache) (addr : Nat) :
    c.allocate addr (c.shape.setOf (c.shape.tagOf addr)) (c.shape.tagOf addr) =
      (c.victimOf addr,
        { c.evicted (c.victimOf addr) with
          tagToIdx := (c.evicted (c.victimOf addr)).tagToIdx.insert (c.shape.tagOf addr) (c.victimOf addr)
          entries := Function.update (c.evicted (c.victimOf addr)).entries (c.victimOf addr)
            { tag := c.shape.tagOf addr
              valid := true
              dirty := false
              lastAccess := c.clock
              mdid := c.currentMdid
              mesi := .exclusive
              data := (c.evicted (c.victimOf addr)).fillByte addr } }) := by
  have hentries : ∀ e : L2CacheLine, Function.update (c.evicted (c.victimOf addr)).entries (c.victimOf addr) e =
      Function.update c.entries (c.victimOf addr) e := fun e => Function.update_idem _ _ _
  rw [hentries]
  rfl

theorem victimOf_lt (c : L2Cache) (addr : Nat) : c.victimOf addr < c.shape.numEntries :=
  entry_lt c.shape (c.shape.setOf_lt _) (pickVictimInSet_lt c _)

/-- A fresh line enters the entry that the victim has left. -/
theorem Aliased.install {c' : L2Cache} (h : Aliased c flat) (hgone : (c.entries idx).valid = false)
    (hfresh : Fresh c addr) (hs : c'.shape = c.shape) (hr : c'.ram = c.ram)
    (he : ∀ i, i ≠ idx → c'.entries i = c.entries i) (htag : (c'.entries idx).tag = c.shape.tagOf addr)
    (hdata : (c'.entries idx).data = c.fillByte addr) (hclean : (c'.entries idx).mesi = .exclusive) :
    Aliased c' flat := by
  have hother : ∀ i j x, i ≠ idx → (Holds c' i j x ↔ Holds c i j x) := by
    intro i j x hne
    constructor
    · rintro ⟨h1, h2, h3, h4⟩
      rw [hs] at h1 h3 h4
      rw [he i hne] at h2 h4
      rw [hr] at h4
      exact ⟨h1, h2, h3, h4⟩
    · rintro ⟨h1, h2, h3, h4⟩
      refine ⟨by rwa [hs], by rwa [he i hne], by rwa [hs], ?_⟩
      rw [hr, hs, he i hne]
      exact h4
  have hnone : ∀ j x, ¬ Holds c idx j x := by
    intro j x hx
    have hv := hx.valid
    rw [hgone] at hv
    cases hv
  constructor
  · rw [hr]
    exact h.linked
  · intro i j x hx
    by_cases hne : i = idx
    · subst hne
      have hcell := hx.cell
      have hbyte := hx.byte
      rw [hs] at hcell hbyte
      rw [hr, htag] at hcell
      obtain ⟨hmod, hram⟩ := hfresh j x hbyte hcell
      rw [hdata]
      by_cases hex : ∃ k l, Holds c k l x ∧ (c.entries k).mesi = .modified
      · obtain ⟨k, l, hkl, hm⟩ := hex
        rw [← hmod k l hkl hm]
        exact h.line k l x hkl
      · push Not at hex
        rw [← hram hex]
        exact h.settled x hex
    · rw [he i hne]
      exact h.line i j x ((hother i j x hne).mp hx)
  · intro x hx
    rw [hr]
    apply h.settled
    intro i j hij
    by_cases hne : i = idx
    · rw [hne] at hij
      exact absurd hij (hnone j x)
    · rw [← he i hne]
      exact hx i j ((hother i j x hne).mpr hij)

theorem put_other (hne : i ≠ idx) (off : Nat) : (c.put idx off data).entries i = c.entries i :=
  Function.update_of_ne hne _ _

theorem put_self (off : Nat) : (c.put idx off data).entries idx =
    { c.entries idx with
      data := patch (c.entries idx).data off data
      dirty := true
      mesi := .modified
      mdid := c.currentMdid
      lastAccess := c.clock } := Function.update_self _ _ _

theorem holds_put (off : Nat) : Holds (c.put idx off data) i j x ↔ Holds c i j x := by
  have hsame : ((c.put idx off data).entries i).valid = (c.entries i).valid ∧
      ((c.put idx off data).entries i).tag = (c.entries i).tag := by
    by_cases hne : i = idx
    · subst hne
      rw [put_self]
      exact ⟨rfl, rfl⟩
    · rw [put_other hne]
      exact ⟨rfl, rfl⟩
  constructor
  · rintro ⟨h1, h2, h3, h4⟩
    rw [hsame.1] at h2
    rw [hsame.2] at h4
    exact ⟨h1, h2, h3, h4⟩
  · rintro ⟨h1, h2, h3, h4⟩
    exact ⟨h1, hsame.1.trans h2, h3, by rw [hsame.2]; exact h4⟩

/-- A write within a valid line that no other value opposes. -/
theorem Aliased.put (h : Aliased c flat) (hi : idx < c.shape.numEntries) (hv : (c.entries idx).valid = true)
    (htag : (c.entries idx).tag = c.shape.tagOf addr) (hlen : c.shape.offsetOf addr + data.length ≤ c.shape.lineSize)
    (hspans : c.ram.Spans addr data.length a) (halone : UnopposedBut c idx addr data) :
    Aliased (c.put idx (c.shape.offsetOf addr) data) (patch flat a data) := by
  have haddr := c.shape.lineAddr_add_offset addr
  rw [← htag] at haddr
  constructor
  · exact h.linked
  · intro i j x hx
    have hold := (holds_put _).mp hx
    -- a byte of a line that is not one of the written ones
    have hkeeps : ¬ (i = idx ∧ ∃ k < data.length, j = c.shape.offsetOf addr + k) →
        (c.entries i).data j = patch flat a data x := by
      intro hown
      by_cases hwritten : ∃ k < data.length, x = a + k
      · obtain ⟨k, hk, rfl⟩ := hwritten
        rw [patch_of_mem hk]
        apply halone i j (a + k) hold k hk (hspans k hk)
        rintro ⟨rfl, heq⟩
        exact hown ⟨rfl, k, hk, by omega⟩
      · push Not at hwritten
        rw [patch_of_ne hwritten]
        exact h.line i j x hold
    by_cases hne : i = idx
    · subst hne
      rw [put_self]
      change patch (c.entries i).data (c.shape.offsetOf addr) data j = _
      by_cases hown : ∃ k < data.length, j = c.shape.offsetOf addr + k
      · obtain ⟨k, hk, rfl⟩ := hown
        have hcell := hold.cell
        rw [← Nat.add_assoc, haddr, hspans k hk] at hcell
        rw [← Option.some.inj hcell, patch_of_mem hk, patch_of_mem hk]
      · rw [← hkeeps fun h => hown h.2]
        push Not at hown
        exact patch_of_ne hown
    · rw [put_other hne]
      exact hkeeps fun h => hne h.1
  · intro x hx
    have hout : ∀ k < data.length, x ≠ a + k := by
      rintro k hk rfl
      apply hx idx (c.shape.offsetOf addr + k) ((holds_put _).mpr ⟨hi, hv, by omega, ?_⟩)
      · rw [put_self]
      · rw [← Nat.add_assoc, haddr]
        exact hspans k hk
    rw [patch_of_ne hout]
    apply h.settled
    intro i j hij hm
    apply hx i j ((holds_put _).mpr hij)
    by_cases hne : i = idx
    · rw [hne, put_self]
    · rw [put_other hne]
      exact hm

/-- A write past the cache that no valid line opposes. -/
theorem Aliased.writeDirect (h : Aliased c flat) (hres : c.ram.resolve addr data.length = some a)
    (halone : Unopposed c addr data) : Aliased { c with ram := c.ram.write addr data } (patch flat a data) := by
  have hspans := h.linked.spans hres
  have hram : c.ram.write addr data = { c.ram with bytes := patch c.ram.bytes a data } :=
    DirectRam.write_of_resolve hres
  have hholds : ∀ i j x, Holds { c with ram := c.ram.write addr data } i j x ↔ Holds c i j x := by
    intro i j x
    have hwin := (DirectRam.write_window c.ram addr data).resolve
    constructor
    · rintro ⟨h1, h2, h3, h4⟩
      exact ⟨h1, h2, h3, (congrFun (congrFun hwin _) _).symm.trans h4⟩
    · rintro ⟨h1, h2, h3, h4⟩
      exact ⟨h1, h2, h3, (congrFun (congrFun hwin _) _).trans h4⟩
  constructor
  · exact (DirectRam.write_window c.ram addr data).linked h.linked
  · intro i j x hx
    have hold := (hholds i j x).mp hx
    by_cases hwritten : ∃ k < data.length, x = a + k
    · obtain ⟨k, hk, rfl⟩ := hwritten
      rw [patch_of_mem hk]
      exact halone i j (a + k) hold k hk (hspans k hk)
    · push Not at hwritten
      rw [patch_of_ne hwritten]
      exact h.line i j x hold
  · intro x hx
    change (c.ram.write addr data).bytes x = _
    rw [hram]
    change patch c.ram.bytes a data x = _
    by_cases hwritten : ∃ k < data.length, x = a + k
    · obtain ⟨k, hk, rfl⟩ := hwritten
      rw [patch_of_mem hk, patch_of_mem hk]
    · push Not at hwritten
      rw [patch_of_ne hwritten, patch_of_ne hwritten]
      exact h.settled x fun i j hij => hx i j ((hholds i j x).mpr hij)

/-! ## Accesses within a line -/

/-- Shape and windows stay. -/
structure SameFrame (c c' : L2Cache) : Prop where
  shape : c'.shape = c.shape
  windows : c.ram.SameWindows c'.ram

theorem SameFrame.refl (c : L2Cache) : SameFrame c c := ⟨rfl, .refl _⟩

theorem SameFrame.trans {c c' c'' : L2Cache} (h : SameFrame c c') (h' : SameFrame c' c'') : SameFrame c c'' :=
  ⟨h'.shape.trans h.shape, h.windows.trans h'.windows⟩

theorem SameFrame.spans {c' : L2Cache} (h : SameFrame c c') (hs : c.ram.Spans addr n a) : c'.ram.Spans addr n a := by
  intro k hk
  rw [h.windows.resolve]
  exact hs k hk

/-- The line of an address is in its entry. -/
theorem Aliased.lineOf (h : Aliased c flat) (hfills : Fills c addr) :
    Aliased (c.lineOf addr).2 flat ∧ SameFrame c (c.lineOf addr).2 ∧ (c.lineOf addr).1 < c.shape.numEntries ∧
      ((c.lineOf addr).2.entries (c.lineOf addr).1).valid = true ∧
      ((c.lineOf addr).2.entries (c.lineOf addr).1).tag = c.shape.tagOf addr := by
  rw [L2Cache.lineOf]
  cases hhit : c.hit (c.shape.setOf (c.shape.tagOf addr)) (c.shape.tagOf addr) with
  | some i =>
    obtain ⟨hway, hv, ht⟩ := hit_some hhit
    exact ⟨h, .refl c, entry_lt c.shape (c.shape.setOf_lt _) hway, hv, ht⟩
  | none =>
    obtain ⟨hkept, hfresh⟩ := hfills hhit
    dsimp only
    rw [allocate_eq]
    have hvictim := victimOf_lt c addr
    have hself : ∀ e : L2CacheLine, Function.update (c.evicted (c.victimOf addr)).entries (c.victimOf addr) e
        (c.victimOf addr) = e := fun e => Function.update_self _ _ _
    refine ⟨?_, ⟨rfl, evicted_window c _⟩, hvictim, ?_, ?_⟩
    · apply (h.evicted hvictim hkept).install evicted_self hfresh
      · rfl
      · rfl
      · exact fun i hne => Function.update_of_ne hne _ _
      all_goals
        dsimp only
        rw [hself]
      rfl
    all_goals
      dsimp only
      rw [hself]

theorem readChunk_eq (c : L2Cache) (addr n : Nat) : (c.readChunk addr n).1 =
      slice ((c.lineOf addr).2.entries (c.lineOf addr).1).data (c.shape.offsetOf addr) n ∧
    ((c.readChunk addr n).2 = (c.lineOf addr).2 ∨ ∃ idx, (c.readChunk addr n).2 = (c.lineOf addr).2.touch idx) := by
  rw [readChunk, lineOf]
  cases c.hit (c.shape.setOf (c.shape.tagOf addr)) (c.shape.tagOf addr) with
  | some i => exact ⟨rfl, .inr ⟨_, rfl⟩⟩
  | none => exact ⟨rfl, .inl rfl⟩

theorem writeChunk_eq (c : L2Cache) (addr : Nat) (data : List Byte) : c.writeChunk addr data =
    (c.lineOf addr).2.put (c.lineOf addr).1 (c.shape.offsetOf addr) data := by
  rw [writeChunk, lineOf]
  cases c.hit (c.shape.setOf (c.shape.tagOf addr)) (c.shape.tagOf addr) with
  | some i => rfl
  | none => rfl

theorem Aliased.touch (h : Aliased c flat) (idx : Nat) : Aliased (c.touch idx) flat := by
  have hself : (c.touch idx).entries idx =
      { c.entries idx with lastAccess := c.clock, mdid := c.currentMdid } := Function.update_self _ _ _
  apply h.congr
  · rfl
  · rfl
  · intro i
    by_cases hi : i = idx
    · rw [hi, hself]
      exact ⟨rfl, rfl, rfl, rfl⟩
    · rw [show (c.touch idx).entries i = c.entries i from Function.update_of_ne hi _ _]
      exact ⟨rfl, rfl, rfl, rfl⟩

theorem Aliased.readChunk (h : Aliased c flat) (hlen : c.shape.offsetOf addr + n ≤ c.shape.lineSize)
    (hspans : c.ram.Spans addr n a) (hfills : Fills c addr) :
    (c.readChunk addr n).1 = slice flat a n ∧ Aliased (c.readChunk addr n).2 flat ∧
      SameFrame c (c.readChunk addr n).2 := by
  obtain ⟨hval, hnext⟩ := readChunk_eq c addr n
  obtain ⟨hline, hframe, hidx, hv, ht⟩ := h.lineOf hfills
  constructor
  · rw [hval]
    apply slice_congr
    intro j hj
    have haddr := c.shape.lineAddr_add_offset addr
    apply hline.line (c.lineOf addr).1
    refine ⟨by rwa [hframe.shape], hv, by rw [hframe.shape]; omega, ?_⟩
    rw [hframe.shape, ht, ← Nat.add_assoc, haddr]
    exact hframe.spans hspans j hj
  · rcases hnext with he | ⟨idx, he⟩
    · rw [he]
      exact ⟨hline, hframe⟩
    · rw [he]
      exact ⟨hline.touch idx, hframe.trans ⟨rfl, .refl _⟩⟩

theorem Aliased.writeChunk (h : Aliased c flat) (hlen : c.shape.offsetOf addr + data.length ≤ c.shape.lineSize)
    (hspans : c.ram.Spans addr data.length a) (hmeets : WriteMeets c (addr, data)) :
    Aliased (c.writeChunk addr data) (patch flat a data) ∧ SameFrame c (c.writeChunk addr data) := by
  obtain ⟨hfills, halone⟩ := hmeets
  obtain ⟨hline, hframe, hidx, hv, ht⟩ := h.lineOf hfills
  rw [writeChunk_eq, ← hframe.shape]
  constructor
  · apply hline.put (by rwa [hframe.shape]) hv (by rw [hframe.shape]; exact ht) (by rw [hframe.shape]; exact hlen)
      (hframe.spans hspans) halone
  · exact hframe.trans ⟨rfl, .refl _⟩

end Moves

end L2Cache

/-! ## Accesses of any length -/

namespace L2Shape

variable (s : L2Shape)

/-- The parts of an access as the loop of `read` takes them. -/
def lines (addr remaining : Nat) : List (Nat × Nat) :=
  if remaining = 0 then []
  else
    let chunkSz := min remaining (s.lineSize - s.offsetOf addr)
    (addr, chunkSz) :: lines (addr + chunkSz) (remaining - chunkSz)
  termination_by remaining
  decreasing_by
    have := s.offsetOf_lt addr
    omega

def readParts (addr size : Nat) : List (Nat × Nat) :=
  if s.offsetOf addr + size ≤ s.lineSize then [(addr, size)] else s.lines addr size

/-- The parts of a write. -/
def pieces (addr : Nat) (remaining : List Byte) : List (Nat × List Byte) :=
  if remaining = [] then []
  else
    let chunkSz := min remaining.length (s.lineSize - s.offsetOf addr)
    (addr, remaining.take chunkSz) :: pieces (addr + chunkSz) (remaining.drop chunkSz)
  termination_by remaining.length
  decreasing_by
    have := s.offsetOf_lt addr
    have : 0 < remaining.length := List.length_pos_of_ne_nil (by assumption)
    rw [List.length_drop]
    omega

def writeParts (addr : Nat) (data : List Byte) : List (Nat × List Byte) :=
  if s.offsetOf addr + data.length ≤ s.lineSize then [(addr, data)] else s.pieces addr data

end L2Shape

namespace L2Cache

/-- The cache after a part of a read. -/
def readStep (c : L2Cache) (p : Nat × Nat) : L2Cache := (c.readChunk p.1 p.2).2

def writeStep (c : L2Cache) (p : Nat × List Byte) : L2Cache := c.writeChunk p.1 p.2

/-- The clock of an access. -/
def tick (c : L2Cache) : L2Cache := { c with clock := c.clock + 1 }

section Accesses

variable {c : L2Cache} {flat : Nat → Byte} {addr n a : Nat} {data : List Byte}

theorem Aliased.tick (h : Aliased c flat) : Aliased c.tick flat :=
  h.congr rfl rfl fun _ => ⟨rfl, rfl, rfl, rfl⟩

theorem Aliased.readLines (h : Aliased c flat) (hspans : c.ram.Spans addr n a)
    (hmeets : Run.Along readStep ReadMeets c (c.shape.lines addr n)) :
    (c.readLines addr n).1 = slice flat a n ∧ Aliased (c.readLines addr n).2 flat ∧
      SameFrame c (c.readLines addr n).2 := by
  induction n using Nat.strong_induction_on generalizing c addr a with
  | _ n ih =>
    unfold L2Shape.lines at hmeets
    unfold L2Cache.readLines
    by_cases h0 : n = 0
    · rw [if_pos h0, h0]
      exact ⟨rfl, h, .refl c⟩
    · rw [if_neg h0] at hmeets ⊢
      have hoff := c.shape.offsetOf_lt addr
      generalize hchunk : min n (c.shape.lineSize - c.shape.offsetOf addr) = chunk at hmeets
      obtain ⟨hfirst, hrest⟩ := hmeets
      have hspan : c.ram.Spans addr chunk a := hspans.sub (m := 0) (by omega)
      obtain ⟨hval, hcoh, hframe⟩ := h.readChunk (by omega) hspan hfirst
      have hspan' : (c.readChunk addr chunk).2.ram.Spans (addr + chunk) (n - chunk) (a + chunk) :=
        hframe.spans (hspans.sub (by omega))
      have hrest' : Run.Along readStep ReadMeets (c.readChunk addr chunk).2
          ((c.readChunk addr chunk).2.shape.lines (addr + chunk) (n - chunk)) := by
        rw [hframe.shape]
        exact hrest
      obtain ⟨hval', hcoh', hframe'⟩ := ih (n - chunk) (by omega) hcoh hspan' hrest'
      refine ⟨?_, hcoh', hframe.trans hframe'⟩
      change (c.readChunk addr chunk).1 ++ ((c.readChunk addr chunk).2.readLines (addr + chunk) (n - chunk)).1 = _
      rw [hval, hval', ← slice_add, Nat.add_sub_cancel' (by omega)]

theorem Aliased.read (h : Aliased c flat) (hspans : c.ram.Spans addr n a)
    (hmeets : Run.Along readStep ReadMeets c.tick (c.shape.readParts addr n)) :
    (c.read addr n).1 = slice flat a n ∧ Aliased (c.read addr n).2 flat ∧ SameFrame c (c.read addr n).2 := by
  have htick : SameFrame c c.tick := ⟨rfl, .refl _⟩
  rw [L2Cache.read]
  rw [L2Shape.readParts] at hmeets
  by_cases hone : c.shape.offsetOf addr + n ≤ c.shape.lineSize
  · rw [if_pos hone] at hmeets ⊢
    obtain ⟨hval, hcoh, hframe⟩ := h.tick.readChunk hone (htick.spans hspans) hmeets.1
    exact ⟨hval, hcoh, htick.trans hframe⟩
  · rw [if_neg hone] at hmeets ⊢
    obtain ⟨hval, hcoh, hframe⟩ := h.tick.readLines (htick.spans hspans) hmeets
    exact ⟨hval, hcoh, htick.trans hframe⟩

theorem Aliased.writeLines (h : Aliased c flat) (hspans : c.ram.Spans addr data.length a)
    (hmeets : Run.Along writeStep WriteMeets c (c.shape.pieces addr data)) :
    Aliased (c.writeLines addr data) (patch flat a data) ∧ SameFrame c (c.writeLines addr data) := by
  induction hn : data.length using Nat.strong_induction_on generalizing c flat addr data a with
  | _ n ih =>
    unfold L2Shape.pieces at hmeets
    unfold L2Cache.writeLines
    by_cases h0 : data = []
    · rw [if_pos h0, h0, patch_nil]
      exact ⟨h, .refl c⟩
    · rw [if_neg h0] at hmeets ⊢
      have hoff := c.shape.offsetOf_lt addr
      have hpos : 0 < data.length := List.length_pos_of_ne_nil h0
      generalize hchunk : min data.length (c.shape.lineSize - c.shape.offsetOf addr) = chunk at hmeets
      obtain ⟨hfirst, hrest⟩ := hmeets
      have hlen : (data.take chunk).length = chunk := by
        rw [List.length_take]
        omega
      have hspan : c.ram.Spans addr (data.take chunk).length a := by
        rw [hlen]
        exact hspans.sub (m := 0) (by omega)
      obtain ⟨hcoh, hframe⟩ := h.writeChunk (by rw [hlen]; omega) hspan hfirst
      have hspan' : (c.writeChunk addr (data.take chunk)).ram.Spans (addr + chunk) (data.drop chunk).length
          (a + chunk) := by
        rw [List.length_drop]
        exact hframe.spans (hspans.sub (by omega))
      have hrest' : Run.Along writeStep WriteMeets (c.writeChunk addr (data.take chunk))
          ((c.writeChunk addr (data.take chunk)).shape.pieces (addr + chunk) (data.drop chunk)) := by
        rw [hframe.shape]
        exact hrest
      obtain ⟨hcoh', hframe'⟩ := ih (data.drop chunk).length (by rw [List.length_drop]; omega) hcoh hspan' hrest' rfl
      refine ⟨?_, hframe.trans hframe'⟩
      have hpatch := patch_append flat a (data.take chunk) (data.drop chunk)
      rw [hlen, List.take_append_drop] at hpatch
      rw [← hpatch]
      exact hcoh'

theorem Aliased.write (h : Aliased c flat) (hspans : c.ram.Spans addr data.length a)
    (hmeets : Run.Along writeStep WriteMeets c.tick (c.shape.writeParts addr data)) :
    Aliased (c.write addr data) (patch flat a data) ∧ SameFrame c (c.write addr data) := by
  have htick : SameFrame c c.tick := ⟨rfl, .refl _⟩
  rw [L2Cache.write]
  rw [L2Shape.writeParts] at hmeets
  by_cases hone : c.shape.offsetOf addr + data.length ≤ c.shape.lineSize
  · rw [if_pos hone] at hmeets ⊢
    obtain ⟨hcoh, hframe⟩ := h.tick.writeChunk hone (htick.spans hspans) hmeets.1
    exact ⟨hcoh, htick.trans hframe⟩
  · rw [if_neg hone] at hmeets ⊢
    obtain ⟨hcoh, hframe⟩ := h.tick.writeLines (htick.spans hspans) hmeets
    exact ⟨hcoh, htick.trans hframe⟩

theorem aliased_init (shape : L2Shape) {ram : DirectRam} (hl : ram.Linked) : Aliased (init shape ram) ram.bytes := by
  refine ⟨hl, fun i j x hx => ?_, fun _ _ => rfl⟩
  cases hx.valid

end Accesses

end L2Cache

/-! ## Main memory -/

/-- A read or a write of main memory. -/
inductive PieAccess where
  | read (addr size : Nat)
  | write (addr : Nat) (data : List Byte)

def PieAccess.op : PieAccess → MainMemOp
  | .read addr size => .read addr size
  | .write addr data => .write addr data

namespace MainMem

/-- The most recent value of every RAM byte, whichever address it was written at. -/
def recentPie (ram : DirectRam) (flat : Nat → Byte) : PieAccess → Nat → Byte
  | .read _ _ => flat
  | .write addr data =>
    match ram.resolve addr data.length with
    | some a => patch flat a data
    | none => flat

namespace Tracked

variable (ram : DirectRam)

def pieStep (t : Tracked) (p : PieAccess) : Tracked := (t.1.step p.op, recentPie ram t.2 p)

/-- The access lies in RAM or in the link window. -/
def InWindows : PieAccess → Prop
  | .read addr size => (ram.resolve addr size).isSome = true
  | .write addr data => (ram.resolve addr data.length).isSome = true

/-- A read returns the recent bytes. -/
def ServesPie (t : Tracked) : PieAccess → Prop
  | .read addr size => ∀ a, ram.resolve addr size = some a → (t.1.read addr size).1 = slice t.2 a size
  | .write _ _ => True

/-- With the cache in use no line disturbs the other address of its bytes; without it an access starts at
a RAM address. -/
def MeetsPie (t : Tracked) : PieAccess → Prop
  | .read addr size =>
    if t.1.noL2 then ram.isRamAddr addr = true
    else Run.Along readStep ReadMeets t.1.l2.tick (t.1.l2.shape.readParts addr size)
  | .write addr data =>
    if t.1.noL2 then ram.isRamAddr addr = true
    else if maxCpuStore < data.length then Unopposed t.1.l2 addr data
    else Run.Along writeStep WriteMeets t.1.l2.tick (t.1.l2.shape.writeParts addr data)

structure InvPie (t : Tracked) : Prop where
  windows : ram.SameWindows t.1.l2.ram
  aliased : Aliased t.1.l2 t.2
  unused : t.1.noL2 = true → ∀ i, (t.1.l2.entries i).valid = false

end Tracked

section Runs

variable {ram : DirectRam} {t : Tracked} {addr n a : Nat} {data : List Byte}

/-- The two addresses of a byte of the window. -/
theorem resolve_window {r : DirectRam} (hl : r.Linked) {o n : Nat} (hn : 0 < n) (ho : o + n ≤ r.linkSize) :
    r.resolve (r.linkBase + o) n = some (r.base + o) ∧ r.resolve (r.base + o) n = some (r.base + o) := by
  have hfits := hl.fits
  have hapart := hl.apart
  rw [DirectRam.resolve, DirectRam.resolve]
  constructor
  · rw [if_neg (by rw [DirectRam.inRange]; omega), if_pos (by omega), Nat.add_sub_cancel_left]
  · rw [if_pos (by rw [DirectRam.inRange]; omega)]

theorem isRamAddr_of_pos {r : DirectRam} (hl : r.Linked) (ha : r.resolve addr n = some a) (hn : 0 < n) :
    r.isRamAddr addr = true := by
  have h0 := hl.spans ha 0 hn
  rw [Nat.add_zero] at h0
  rw [DirectRam.isRamAddr, h0, Option.isSome_some, Bool.or_true]

theorem unopposed_of_empty {c : L2Cache} (h : ∀ i, (c.entries i).valid = false) : Unopposed c addr data := by
  intro i j x hx
  have hv := hx.valid
  rw [h i] at hv
  cases hv

theorem Tracked.InvPie.step (h : t.InvPie ram) {p : PieAccess} (hin : InWindows ram p) (hmeets : t.MeetsPie ram p) :
    (t.pieStep ram p).InvPie ram ∧ t.ServesPie ram p := by
  have hres := h.windows.resolve
  have hisRam := h.windows.isRamAddr
  cases p with
  | read addr size =>
    obtain ⟨a, ha⟩ := Option.isSome_iff_exists.mp hin
    have ha' : t.1.l2.ram.resolve addr size = some a := by rw [hres, ha]
    rw [Tracked.MeetsPie] at hmeets
    by_cases hno : t.1.noL2 = true
    · rw [if_pos hno, ← hisRam] at hmeets
      have hread := read_direct hno hmeets size
      have hstep : t.pieStep ram (.read addr size) = t := by
        rw [Tracked.pieStep, PieAccess.op, MainMem.step, hread]
        rfl
      rw [hstep]
      refine ⟨h, ?_⟩
      intro b hb
      rw [ha] at hb
      obtain rfl := Option.some.inj hb
      rw [hread, DirectRam.read_of_resolve ha']
      apply slice_congr
      intro j _
      apply h.aliased.settled
      intro i k hik
      have hv := hik.valid
      rw [h.unused hno i] at hv
      cases hv
    · rw [if_neg hno] at hmeets
      obtain ⟨hval, hcoh, hframe⟩ := h.aliased.read (h.aliased.linked.spans ha') hmeets
      have hread := read_cached (Bool.eq_false_of_not_eq_true hno) addr size
      have hstep : t.pieStep ram (.read addr size) = ({ t.1 with l2 := (t.1.l2.read addr size).2 }, t.2) := by
        rw [Tracked.pieStep, PieAccess.op, MainMem.step, hread]
        rfl
      constructor
      · rw [hstep]
        exact ⟨h.windows.trans hframe.windows, hcoh, fun hyes => absurd hyes hno⟩
      · intro b hb
        rw [ha] at hb
        obtain rfl := Option.some.inj hb
        rw [hread]
        exact hval
  | write addr data =>
    obtain ⟨a, ha⟩ := Option.isSome_iff_exists.mp hin
    have ha' : t.1.l2.ram.resolve addr data.length = some a := by rw [hres, ha]
    have hrecent : recentPie ram t.2 (.write addr data) = patch t.2 a data := by
      rw [recentPie, ha]
    have hdirect : Unopposed t.1.l2 addr data →
        Tracked.InvPie ram (t.1.writeDirect addr data, patch t.2 a data) := fun halone =>
      ⟨h.windows.trans (DirectRam.write_window _ _ _), h.aliased.writeDirect ha' halone, h.unused⟩
    refine ⟨?_, trivial⟩
    rw [Tracked.MeetsPie] at hmeets
    rw [Tracked.pieStep, hrecent, PieAccess.op, MainMem.step]
    by_cases hno : t.1.noL2 = true
    · rw [if_pos hno, ← hisRam] at hmeets
      rw [write_direct (.inl hno) hmeets]
      exact hdirect (unopposed_of_empty (h.unused hno))
    · rw [if_neg hno] at hmeets
      by_cases hlong : maxCpuStore < data.length
      · rw [if_pos hlong] at hmeets
        rw [write_direct (.inr hlong) (isRamAddr_of_pos h.aliased.linked ha' (by omega))]
        exact hdirect hmeets
      · rw [if_neg hlong] at hmeets
        obtain ⟨hcoh, hframe⟩ := h.aliased.write (h.aliased.linked.spans ha') hmeets
        rw [write_cached (Bool.eq_false_of_not_eq_true hno) hlong]
        exact ⟨h.windows.trans hframe.windows, hcoh, fun hyes => absurd hyes hno⟩

/-- One line of four bytes in front of RAM at 16, whose first eight bytes are linked at 0. -/
def tinyLink : DirectRam := ⟨16, 16, 0, 8, fun _ => 0⟩

theorem not_holds_tiny {c : L2Cache} {i j x : Nat} (hs : c.shape = tinyShape) (hv : (c.entries 0).valid = false) :
    ¬ Holds c i j x := by
  intro h
  have hi := h.entry
  have hvalid := h.valid
  rw [hs] at hi
  obtain rfl : i = 0 := Nat.lt_one_iff.mp hi
  rw [hv] at hvalid
  cases hvalid

/-- The default geometry with a page linked at 0. -/
def defaultLink : DirectRam := ⟨0x80000000, 0x8000000, 0, 100, fun _ => 0⟩

end Runs

end MainMem

end Pyremu
