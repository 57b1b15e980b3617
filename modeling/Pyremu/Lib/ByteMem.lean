import Mathlib.Algebra.Order.Ring.Nat
import Mathlib.Tactic.Common

/-!
# Little-endian words in a byte memory

A memory is a function from offsets to bytes. `readLe` joins up to eight bytes
into one 64-bit word and `writeLe` spreads a word over them. A read sees a
write exactly when the two ranges meet.
-/

namespace ByteMem

abbrev Mem := Nat → BitVec 8

/-- The `n` bytes from `off`, least significant byte first. -/
def readLe (m : Mem) (off : Nat) : Nat → BitVec 64
  | 0 => 0
  | n + 1 => readLe m off n ||| ((m (off + n)).setWidth 64 <<< (8 * n))

/-- Store the low `n` bytes of `v` at `off`. -/
def writeLe (m : Mem) (off n : Nat) (v : BitVec 64) : Mem :=
  fun i => if off ≤ i ∧ i < off + n then (v >>> (8 * (i - off))).setWidth 8 else m i

@[simp] theorem readLe_zero (m : Mem) (off : Nat) : readLe m off 0 = 0 := rfl

theorem readLe_succ (m : Mem) (off n : Nat) :
    readLe m off (n + 1) = readLe m off n ||| ((m (off + n)).setWidth 64 <<< (8 * n)) := rfl

@[simp] theorem writeLe_zero (m : Mem) (off : Nat) (v : BitVec 64) :
    writeLe m off 0 v = m := by
  funext i
  simp only [writeLe]
  rw [if_neg (by omega)]

theorem writeLe_other {m : Mem} {off n i : Nat} {v : BitVec 64}
    (h : i < off ∨ off + n ≤ i) : writeLe m off n v i = m i := by
  simp only [writeLe]
  rw [if_neg (by omega)]

theorem writeLe_same {m : Mem} {off n i : Nat} {v : BitVec 64} (h : i < n) :
    writeLe m off n v (off + i) = (v >>> (8 * i)).setWidth 8 := by
  simp only [writeLe]
  rw [if_pos (by omega)]
  congr 2
  omega

/-- Bit `i` of the word is bit `i % 8` of byte `i / 8`. -/
theorem getLsbD_readLe (m : Mem) (off n i : Nat) :
    (readLe m off n).getLsbD i =
      (decide (i < 8 * n) && decide (i < 64) && (m (off + i / 8)).getLsbD (i % 8)) := by
  induction n with
  | zero => simp
  | succ n ih =>
    rw [readLe_succ, BitVec.getLsbD_or, ih, BitVec.getLsbD_shiftLeft, BitVec.getLsbD_setWidth]
    by_cases hi : i < 8 * n
    · have h1 : i < 8 * (n + 1) := by omega
      simp [hi, h1]
    · by_cases h2 : i < 8 * (n + 1)
      · have hdiv : i / 8 = n := by omega
        have hmod : i % 8 = i - 8 * n := by omega
        have h64 : i - 8 * n < 64 := by omega
        simp [hi, h2, hdiv, hmod, h64]
      · have hge : 8 ≤ i - 8 * n := by omega
        simp [hi, h2, BitVec.getLsbD_of_ge _ _ hge]

/-- A read depends on its bytes only. -/
theorem readLe_congr {m m' : Mem} {off n : Nat} (h : ∀ i < n, m (off + i) = m' (off + i)) :
    readLe m off n = readLe m' off n := by
  induction n with
  | zero => rfl
  | succ n ih => rw [readLe_succ, readLe_succ, ih fun i hi => h i (by omega), h n (by omega)]

/-- Reading back a write gives its low bytes. -/
theorem getLsbD_readLe_writeLe (m : Mem) (off n i : Nat) (v : BitVec 64) :
    (readLe (writeLe m off n v) off n).getLsbD i = (decide (i < 8 * n) && v.getLsbD i) := by
  rw [getLsbD_readLe]
  by_cases hi : i < 8 * n
  · rw [writeLe_same (by omega), BitVec.getLsbD_setWidth, BitVec.getLsbD_ushiftRight]
    have hmod : i % 8 < 8 := Nat.mod_lt _ (by omega)
    have hsum : 8 * (i / 8) + i % 8 = i := Nat.div_add_mod i 8
    by_cases h64 : i < 64
    · simp [hi, h64, hmod, hsum]
    · simp [h64, BitVec.getLsbD_of_ge v i (by omega)]
  · simp [hi]

/-- A value that fits in the bytes written is read back as it is. -/
theorem readLe_writeLe (m : Mem) (off n : Nat) {v : BitVec 64}
    (hv : ∀ i, 8 * n ≤ i → v.getLsbD i = false) : readLe (writeLe m off n v) off n = v := by
  apply BitVec.eq_of_getLsbD_eq
  intro i _
  rw [getLsbD_readLe_writeLe]
  by_cases h : i < 8 * n
  · simp [h]
  · simp [h, hv i (by omega)]

theorem readLe_writeLe_eight (m : Mem) (off : Nat) (v : BitVec 64) :
    readLe (writeLe m off 8 v) off 8 = v :=
  readLe_writeLe m off 8 fun i hi => BitVec.getLsbD_of_ge v i (by omega)

/-- Writing back the bytes that are there changes nothing. -/
theorem writeLe_readLe (m : Mem) (off n : Nat) (hn : n ≤ 8) :
    writeLe m off n (readLe m off n) = m := by
  funext i
  by_cases h : off ≤ i ∧ i < off + n
  · obtain ⟨k, rfl⟩ := Nat.exists_eq_add_of_le h.1
    rw [writeLe_same (by omega)]
    apply BitVec.eq_of_getLsbD_eq
    intro j hj
    rw [BitVec.getLsbD_setWidth, BitVec.getLsbD_ushiftRight, getLsbD_readLe]
    have h1 : 8 * k + j < 8 * n := by omega
    have h2 : 8 * k + j < 64 := by omega
    have h3 : (8 * k + j) / 8 = k := by omega
    have h4 : (8 * k + j) % 8 = j := by omega
    simp [hj, h1, h2, h3, h4]
  · exact writeLe_other (by omega)

theorem readLe_one (m : Mem) (off : Nat) : readLe m off 1 = (m off).setWidth 64 := by
  simp [readLe_succ]

/-- A write depends on the low bytes of its value only. -/
theorem writeLe_congr {m : Mem} {off n : Nat} {v w : BitVec 64}
    (h : ∀ i < 8 * n, v.getLsbD i = w.getLsbD i) : writeLe m off n v = writeLe m off n w := by
  funext i
  by_cases hi : off ≤ i ∧ i < off + n
  · obtain ⟨k, rfl⟩ := Nat.exists_eq_add_of_le hi.1
    rw [writeLe_same (by omega), writeLe_same (by omega)]
    apply BitVec.eq_of_getLsbD_eq
    intro j hj
    simp only [BitVec.getLsbD_setWidth, BitVec.getLsbD_ushiftRight]
    rw [h (8 * k + j) (by omega)]
  · rw [writeLe_other (by omega), writeLe_other (by omega)]

/-- A write of one more byte. -/
theorem writeLe_succ (m : Mem) (off n : Nat) (v : BitVec 64) :
    writeLe (writeLe m off n v) (off + n) 1 (v >>> (8 * n)) = writeLe m off (n + 1) v := by
  funext i
  by_cases hi : i = off + n
  · subst hi
    have h := @writeLe_same (writeLe m off n v) (off + n) 1 0 (v >>> (8 * n)) Nat.one_pos
    rw [Nat.add_zero] at h
    rw [h, writeLe_same (by omega)]
    simp
  · rw [writeLe_other (by omega)]
    simp only [writeLe]
    by_cases hlt : off ≤ i ∧ i < off + n
    · rw [if_pos hlt, if_pos (by omega)]
    · rw [if_neg hlt, if_neg (by omega)]

/-! ## Setting bits of one byte -/

/-- Set the bits of `d` in the byte at `off`. -/
def orByte (m : Mem) (off : Nat) (d : BitVec 8) : Mem := fun i => if i = off then m i ||| d else m i

theorem orByte_same (m : Mem) (off : Nat) (d : BitVec 8) : orByte m off d off = m off ||| d :=
  if_pos rfl

theorem orByte_other {m : Mem} {off i : Nat} {d : BitVec 8} (h : i ≠ off) : orByte m off d i = m i :=
  if_neg h

/-- Writing a word back with more bits in its low byte changes that byte only. -/
theorem writeLe_or (m : Mem) (off : Nat) {d : BitVec 64} (hd : ∀ i, 8 ≤ i → d.getLsbD i = false) :
    writeLe m off 8 (readLe m off 8 ||| d) = orByte m off (d.setWidth 8) := by
  funext i
  by_cases h : off ≤ i ∧ i < off + 8
  · obtain ⟨k, rfl⟩ := Nat.exists_eq_add_of_le h.1
    rw [writeLe_same (by omega)]
    apply BitVec.eq_of_getLsbD_eq
    intro j hj
    have h1 : 8 * k + j < 8 * 8 := by omega
    have h3 : (8 * k + j) / 8 = k := by omega
    have h4 : (8 * k + j) % 8 = j := by omega
    rw [BitVec.getLsbD_setWidth, BitVec.getLsbD_ushiftRight, BitVec.getLsbD_or, getLsbD_readLe]
    simp only [hj, h1, h3, h4, decide_true, Bool.true_and]
    by_cases hk : k = 0
    · subst hk
      rw [Nat.add_zero, orByte_same, BitVec.getLsbD_or, BitVec.getLsbD_setWidth]
      simp [hj]
    · rw [orByte_other (by omega), hd _ (by omega), Bool.or_false]
  · rw [writeLe_other (by omega), orByte_other (by omega)]

/-- Bits are only ever set. -/
def Grows (m m' : Mem) : Prop := ∀ i b, (m i).getLsbD b = true → (m' i).getLsbD b = true

theorem Grows.refl (m : Mem) : Grows m m := fun _ _ h => h

theorem Grows.trans {m m' m'' : Mem} (h : Grows m m') (h' : Grows m' m'') : Grows m m'' :=
  fun i b hb => h' i b (h i b hb)

theorem Grows.orByte (m : Mem) (off : Nat) (d : BitVec 8) : Grows m (orByte m off d) := by
  intro i b hb
  by_cases h : i = off
  · subst h
    rw [orByte_same, BitVec.getLsbD_or, hb, Bool.true_or]
  · rwa [orByte_other h]

theorem Grows.readLe {m m' : Mem} (h : Grows m m') {off n i : Nat}
    (hb : (readLe m off n).getLsbD i = true) : (ByteMem.readLe m' off n).getLsbD i = true := by
  rw [getLsbD_readLe] at hb ⊢
  simp only [Bool.and_eq_true] at hb ⊢
  exact ⟨hb.1, h _ _ hb.2⟩

end ByteMem
