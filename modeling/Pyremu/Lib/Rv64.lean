import Pyremu.Lib.Unbounded

/-!
# RV64IM with Zba, Zbb and Zbs

The integer computations of the ISA on the values of `rs1` and `rs2`, and how
the instructions of the four opcodes are encoded. Values are stated over
integers and single bits, for registers and for words of 32 bits alike.
-/

namespace Rv64

/-! ## Values -/

/-- The vector of the given bits. -/
def ofBits : (n : Nat) → (Nat → Bool) → BitVec n
  | 0, _ => BitVec.nil
  | n + 1, f => BitVec.cons (f n) (ofBits n f)

section Values

variable {n : Nat} (x y : BitVec n) (s : Nat)

def add : BitVec n := BitVec.ofInt n (x.toInt + y.toInt)
def sub : BitVec n := BitVec.ofInt n (x.toInt - y.toInt)
def mul : BitVec n := BitVec.ofInt n (x.toInt * y.toInt)

def mulh : BitVec n := BitVec.ofInt n (x.toInt * y.toInt / 2 ^ n)
def mulhsu : BitVec n := BitVec.ofInt n (x.toInt * y.toNat / 2 ^ n)
def mulhu : BitVec n := BitVec.ofNat n (x.toNat * y.toNat / 2 ^ n)

/-- All ones for a zero divisor, the dividend where the quotient overflows. -/
def div : BitVec n :=
  if y.toInt = 0 then BitVec.ofInt n (-1)
  else if x.toInt = -2 ^ (n - 1) ∧ y.toInt = -1 then x
  else BitVec.ofInt n (x.toInt.tdiv y.toInt)

def divu : BitVec n := if y.toNat = 0 then BitVec.ofNat n (2 ^ n - 1) else BitVec.ofNat n (x.toNat / y.toNat)

def rem : BitVec n :=
  if y.toInt = 0 then x
  else if x.toInt = -2 ^ (n - 1) ∧ y.toInt = -1 then 0
  else BitVec.ofInt n (x.toInt.tmod y.toInt)

def remu : BitVec n := if y.toNat = 0 then x else BitVec.ofNat n (x.toNat % y.toNat)

def sll : BitVec n := BitVec.ofNat n (x.toNat * 2 ^ s)
def srl : BitVec n := BitVec.ofNat n (x.toNat / 2 ^ s)
def sra : BitVec n := BitVec.ofInt n (x.toInt / 2 ^ s)
def rol : BitVec n := ofBits n fun i => x.getLsbD ((i + (n - s)) % n)
def ror : BitVec n := ofBits n fun i => x.getLsbD ((i + s) % n)

def slt : BitVec n := if x.toInt < y.toInt then 1 else 0
def sltu : BitVec n := if x.toNat < y.toNat then 1 else 0

def and : BitVec n := ofBits n fun i => x.getLsbD i && y.getLsbD i
def or : BitVec n := ofBits n fun i => x.getLsbD i || y.getLsbD i
def xor : BitVec n := ofBits n fun i => x.getLsbD i ^^ y.getLsbD i
def andn : BitVec n := ofBits n fun i => x.getLsbD i && !y.getLsbD i
def orn : BitVec n := ofBits n fun i => x.getLsbD i || !y.getLsbD i
def xnor : BitVec n := ofBits n fun i => x.getLsbD i == y.getLsbD i

def max : BitVec n := BitVec.ofInt n (Max.max x.toInt y.toInt)
def maxu : BitVec n := BitVec.ofNat n (Max.max x.toNat y.toNat)
def min : BitVec n := BitVec.ofInt n (Min.min x.toInt y.toInt)
def minu : BitVec n := BitVec.ofNat n (Min.min x.toNat y.toNat)

/-- `y` plus `x` shifted by a constant. -/
def shadd (k : Nat) : BitVec n := BitVec.ofNat n (x.toNat * 2 ^ k + y.toNat)

def bclr : BitVec n := ofBits n fun i => if i = s then false else x.getLsbD i
def bset : BitVec n := ofBits n fun i => if i = s then true else x.getLsbD i
def binv : BitVec n := ofBits n fun i => if i = s then !x.getLsbD i else x.getLsbD i
def bext : BitVec n := if x.getLsbD s then 1 else 0

/-- Zeros before the first one from the top. -/
def clz : BitVec n := BitVec.ofNat n ((List.range n).takeWhile fun i => !x.getMsbD i).length

/-- Zeros before the first one from the bottom. -/
def ctz : BitVec n := BitVec.ofNat n ((List.range n).takeWhile fun i => !x.getLsbD i).length

def cpop : BitVec n := BitVec.ofNat n ((List.range n).countP x.getLsbD)

/-- Every byte with a one becomes all ones. -/
def orcb : BitVec n := ofBits n fun i => (List.range 8).any fun k => x.getLsbD (i / 8 * 8 + k)

/-- The bytes in reverse order. -/
def rev8 : BitVec n := ofBits n fun i => x.getLsbD ((n / 8 - 1 - i / 8) * 8 + i % 8)

end Values

/-! ## The values as operations on vectors -/

@[simp] theorem getLsbD_ofBits (n : Nat) (f : Nat → Bool) (i : Nat) :
    (ofBits n f).getLsbD i = (decide (i < n) && f i) := by
  induction n with
  | zero => simp [ofBits]
  | succ n ih =>
    rw [ofBits, BitVec.getLsbD_cons, ih]
    by_cases hi : i = n
    · simp [hi]
    · have hlt : i < n ↔ i < n + 1 := by omega
      simp [hi, hlt]

theorem ofBits_eq {n : Nat} {f : Nat → Bool} {x : BitVec n} (h : ∀ i < n, f i = x.getLsbD i) :
    ofBits n f = x := by
  apply BitVec.eq_of_getLsbD_eq
  intro i hi
  rw [getLsbD_ofBits, decide_eq_true hi, Bool.true_and, h i hi]

section Vectors

variable {n : Nat} (x y : BitVec n) (s : Nat)

open Unbounded

theorem add_eq : add x y = x + y := by
  rw [add, BitVec.ofInt_add, BitVec.ofInt_toInt, BitVec.ofInt_toInt]

theorem sub_eq : sub x y = x - y := by
  rw [sub, ofInt_sub, BitVec.ofInt_toInt, BitVec.ofInt_toInt]

theorem mul_eq : mul x y = x * y := by
  rw [mul, BitVec.ofInt_mul, BitVec.ofInt_toInt, BitVec.ofInt_toInt]

theorem sll_eq : sll x s = x <<< s := by
  apply BitVec.eq_of_toNat_eq
  rw [sll, BitVec.toNat_ofNat, BitVec.toNat_shiftLeft, Nat.shiftLeft_eq]

theorem srl_eq : srl x s = x >>> s := by
  rw [srl, ← Nat.shiftRight_eq_div_pow, ← BitVec.toNat_ushiftRight, BitVec.ofNat_toNat, BitVec.setWidth_eq]

theorem sra_eq : sra x s = x.sshiftRight s := ofInt_shr_toInt x s

theorem rol_eq {s : Nat} (hs : s < n) : rol x s = x.rotateLeft s := by
  apply ofBits_eq
  intro i hi
  rw [BitVec.getLsbD_rotateLeft, Nat.mod_eq_of_lt hs]
  by_cases hlow : i < s
  · rw [Nat.mod_eq_of_lt (by omega), Nat.add_comm]
    simp [hlow]
  · have hsplit : i + (n - s) = i - s + n := by omega
    rw [hsplit, Nat.add_mod_right, Nat.mod_eq_of_lt (by omega)]
    simp [hlow, hi]

theorem ror_eq {s : Nat} (hs : s < n) : ror x s = x.rotateRight s := by
  apply ofBits_eq
  intro i hi
  rw [BitVec.getLsbD_rotateRight, Nat.mod_eq_of_lt hs]
  by_cases hlow : i < n - s
  · rw [Nat.mod_eq_of_lt (by omega), Nat.add_comm]
    simp [hlow]
  · have hsplit : i + s = i - (n - s) + n := by omega
    rw [hsplit, Nat.add_mod_right, Nat.mod_eq_of_lt (by omega)]
    simp [hlow, hi]

theorem slt_eq : slt x y = if x.slt y then 1 else 0 := by
  simp only [slt, BitVec.slt, decide_eq_true_eq]

theorem sltu_eq : sltu x y = if x.ult y then 1 else 0 := by
  simp only [sltu, BitVec.ult, decide_eq_true_eq]

theorem and_eq : and x y = x &&& y := ofBits_eq fun i _ => by rw [BitVec.getLsbD_and]

theorem or_eq : or x y = x ||| y := ofBits_eq fun i _ => by rw [BitVec.getLsbD_or]

theorem xor_eq : xor x y = x ^^^ y := ofBits_eq fun i _ => by rw [BitVec.getLsbD_xor]

theorem andn_eq : andn x y = x &&& ~~~y := ofBits_eq fun i hi => by simp [hi]

theorem orn_eq : orn x y = x ||| ~~~y := ofBits_eq fun i hi => by simp [hi]

theorem xnor_eq : xnor x y = ~~~(x ^^^ y) := ofBits_eq fun i hi => by
  rw [BitVec.getLsbD_not, BitVec.getLsbD_xor]
  cases x.getLsbD i <;> cases y.getLsbD i <;> simp [hi]

theorem min_eq : min x y = if x.slt y then x else y := by
  rw [min, BitVec.slt]
  by_cases h : x.toInt < y.toInt
  · rw [Int.min_eq_left (by omega), BitVec.ofInt_toInt, if_pos (by simpa using h)]
  · rw [Int.min_eq_right (by omega), BitVec.ofInt_toInt, if_neg (by simpa using h)]

theorem max_eq : max x y = if y.slt x then x else y := by
  rw [max, BitVec.slt]
  by_cases h : y.toInt < x.toInt
  · rw [Int.max_eq_left (by omega), BitVec.ofInt_toInt, if_pos (by simpa using h)]
  · rw [Int.max_eq_right (by omega), BitVec.ofInt_toInt, if_neg (by simpa using h)]

theorem ofNat_toNat_self : BitVec.ofNat n x.toNat = x := by
  rw [BitVec.ofNat_toNat, BitVec.setWidth_eq]

theorem minu_eq : minu x y = if x.ult y then x else y := by
  rw [minu, BitVec.ult]
  by_cases h : x.toNat < y.toNat
  · rw [Nat.min_eq_left (by omega), ofNat_toNat_self, if_pos (by simpa using h)]
  · rw [Nat.min_eq_right (by omega), ofNat_toNat_self, if_neg (by simpa using h)]

theorem maxu_eq : maxu x y = if y.ult x then x else y := by
  rw [maxu, BitVec.ult]
  by_cases h : y.toNat < x.toNat
  · rw [Nat.max_eq_left (by omega), ofNat_toNat_self, if_pos (by simpa using h)]
  · rw [Nat.max_eq_right (by omega), ofNat_toNat_self, if_neg (by simpa using h)]

theorem shadd_eq (k : Nat) : shadd x y k = (x <<< k) + y := by
  rw [shadd, BitVec.ofNat_add, ofNat_toNat_self, ← sll_eq, sll]

/-! Single bits. -/

theorem getLsbD_one_shl {s : Nat} (hs : s < n) (i : Nat) : (1#n <<< s).getLsbD i = decide (i = s) := by
  rw [BitVec.getLsbD_shiftLeft, BitVec.getLsbD_one]
  by_cases hi : i = s
  · subst hi
    simp [hs]
    omega
  · by_cases hlt : i < s
    · simp [hlt, hi]
    · have hne : i - s ≠ 0 := by omega
      simp [hne, hi]

theorem bset_eq {s : Nat} (hs : s < n) : bset x s = x ||| (1#n <<< s) := ofBits_eq fun i hi => by
  rw [BitVec.getLsbD_or, getLsbD_one_shl hs]
  by_cases h : i = s <;> simp [h]

theorem bclr_eq {s : Nat} (hs : s < n) : bclr x s = x &&& ~~~(1#n <<< s) := ofBits_eq fun i hi => by
  rw [BitVec.getLsbD_and, BitVec.getLsbD_not, getLsbD_one_shl hs]
  by_cases h : i = s <;> simp [h, hi]

theorem binv_eq {s : Nat} (hs : s < n) : binv x s = x ^^^ (1#n <<< s) := ofBits_eq fun i hi => by
  rw [BitVec.getLsbD_xor, getLsbD_one_shl hs]
  by_cases h : i = s <;> simp [h]

theorem bext_eq : bext x s = (x >>> s) &&& 1#n := by
  apply BitVec.eq_of_getLsbD_eq
  intro i hi
  rw [BitVec.getLsbD_and, BitVec.getLsbD_ushiftRight, BitVec.getLsbD_one, bext]
  by_cases h : i = 0
  · subst h
    cases x.getLsbD s <;> simp [hi]
  · cases x.getLsbD s <;> simp [h]

/-! Counts. -/

theorem length_takeWhile_range {p : Nat → Bool} {k : Nat} (hk : k ≤ n) (hlow : ∀ i < k, p i = true)
    (hstop : k < n → p k = false) : ((List.range n).takeWhile p).length = k := by
  induction n generalizing k with
  | zero => simp [Nat.le_zero.mp hk]
  | succ n ih =>
    rw [List.range_succ]
    by_cases hn : k = n + 1
    · subst hn
      rw [List.takeWhile_append_of_pos, List.takeWhile_cons]
      · simp [hlow n (by omega)]
      · intro i hi
        exact hlow i (by have := List.mem_range.mp hi; omega)
    · by_cases hlast : k = n
      · subst hlast
        rw [List.takeWhile_append_of_pos, List.takeWhile_cons]
        · simp [hstop (by omega)]
        · intro i hi
          exact hlow i (List.mem_range.mp hi)
      · have hlt : k < n := by omega
        rw [List.takeWhile_append, ih (by omega) hlow fun _ => hstop (by omega), List.length_range,
          if_neg (by omega), ih (by omega) hlow fun _ => hstop (by omega)]

theorem ctz_eq : ctz x = x.ctz := by
  have hwidth : (BitVec.ofNat n n).toNat = n := Nat.mod_eq_of_lt Nat.lt_two_pow_self
  have hle : x.ctz.toNat ≤ n := by
    have h : x.ctz ≤ BitVec.ofNat n n := by
      rw [BitVec.ctz_eq_reverse_clz]
      exact BitVec.clz_le
    rwa [BitVec.le_def, hwidth] at h
  have hstop : x.ctz.toNat < n → x.getLsbD x.ctz.toNat = true := by
    intro hlt
    apply BitVec.getLsbD_true_ctz_of_ne_zero
    rw [← BitVec.ctz_lt_iff_ne_zero, BitVec.natCast_eq_ofNat, BitVec.lt_def, hwidth]
    exact hlt
  rw [ctz, length_takeWhile_range hle (fun i hi => by simp [BitVec.getLsbD_false_of_lt_ctz hi])
    (fun hlt => by simp [hstop hlt]), ofNat_toNat_self]

theorem clz_eq : clz x = x.clz := by
  rw [BitVec.clz_eq_reverse_ctz, ← ctz_eq, clz, ctz]
  simp only [BitVec.getLsbD_reverse]

end Vectors

/-! ## Words -/

abbrev Reg := BitVec 64

def word (x : Reg) : BitVec 32 := x.setWidth 32

/-- A word as a register holds it. -/
def sext (x : BitVec 32) : Reg := BitVec.ofInt 64 x.toInt

/-- The low `k` bits, extended by zeros. -/
def zextLow (k : Nat) (x : Reg) : Reg := BitVec.ofNat 64 (x.toNat % 2 ^ k)

/-- The low `k` bits, extended by their sign. -/
def sextLow (k : Nat) (x : Reg) : Reg := BitVec.ofInt 64 (x.setWidth k).toInt

/-! ## Encodings -/

/-- What an instruction fixes of the bits 31 to 20 below the opcode and `funct3`. -/
inductive Format
  | reg (funct7 : BitVec 7)
  | imm
  | shift6 (funct6 : BitVec 6)
  | shift5 (funct7 : BitVec 7)
  | unary (funct12 : BitVec 12)
  deriving DecidableEq

def Format.Matches : Format → BitVec 12 → Prop
  | .reg funct7, top => top.extractLsb' 5 7 = funct7
  | .imm, _ => True
  | .shift6 funct6, top => top.extractLsb' 6 6 = funct6
  | .shift5 funct7, top => top.extractLsb' 5 7 = funct7
  | .unary funct12, top => top = funct12

/-- Opcode OP. -/
inductive Op
  | add | sub | sll | slt | sltu | xor | srl | sra | or | and
  | mul | mulh | mulhsu | mulhu | div | divu | rem | remu
  | sh1add | sh2add | sh3add
  | andn | orn | xnor | max | maxu | min | minu | rol | ror
  | bclr | bext | binv | bset

def Op.all : List Op :=
  [.add, .sub, .sll, .slt, .sltu, .xor, .srl, .sra, .or, .and,
    .mul, .mulh, .mulhsu, .mulhu, .div, .divu, .rem, .remu,
    .sh1add, .sh2add, .sh3add,
    .andn, .orn, .xnor, .max, .maxu, .min, .minu, .rol, .ror,
    .bclr, .bext, .binv, .bset]

/-- Opcode OP-IMM. -/
inductive OpImm
  | addi | slti | sltiu | xori | ori | andi | slli | srli | srai
  | clz | ctz | cpop | sextb | sexth | rori | orcb | rev8
  | bclri | bexti | binvi | bseti

/-- Opcode OP-32. -/
inductive Op32
  | addw | subw | sllw | srlw | sraw | mulw | divw | divuw | remw | remuw
  | adduw | sh1adduw | sh2adduw | sh3adduw
  | rolw | rorw | zexth

/-- Opcode OP-IMM-32. -/
inductive OpImm32
  | addiw | slliw | srliw | sraiw | slliuw | clzw | ctzw | cpopw | roriw

def Op.encoding : Op → BitVec 3 × Format
  | .add => (0b000, .reg 0x00)
  | .sub => (0b000, .reg 0x20)
  | .sll => (0b001, .reg 0x00)
  | .slt => (0b010, .reg 0x00)
  | .sltu => (0b011, .reg 0x00)
  | .xor => (0b100, .reg 0x00)
  | .srl => (0b101, .reg 0x00)
  | .sra => (0b101, .reg 0x20)
  | .or => (0b110, .reg 0x00)
  | .and => (0b111, .reg 0x00)
  | .mul => (0b000, .reg 0x01)
  | .mulh => (0b001, .reg 0x01)
  | .mulhsu => (0b010, .reg 0x01)
  | .mulhu => (0b011, .reg 0x01)
  | .div => (0b100, .reg 0x01)
  | .divu => (0b101, .reg 0x01)
  | .rem => (0b110, .reg 0x01)
  | .remu => (0b111, .reg 0x01)
  | .sh1add => (0b010, .reg 0x10)
  | .sh2add => (0b100, .reg 0x10)
  | .sh3add => (0b110, .reg 0x10)
  | .andn => (0b111, .reg 0x20)
  | .orn => (0b110, .reg 0x20)
  | .xnor => (0b100, .reg 0x20)
  | .max => (0b110, .reg 0x05)
  | .maxu => (0b111, .reg 0x05)
  | .min => (0b100, .reg 0x05)
  | .minu => (0b101, .reg 0x05)
  | .rol => (0b001, .reg 0x30)
  | .ror => (0b101, .reg 0x30)
  | .bclr => (0b001, .reg 0x24)
  | .bext => (0b101, .reg 0x24)
  | .binv => (0b001, .reg 0x34)
  | .bset => (0b001, .reg 0x14)

def OpImm.encoding : OpImm → BitVec 3 × Format
  | .addi => (0b000, .imm)
  | .slti => (0b010, .imm)
  | .sltiu => (0b011, .imm)
  | .xori => (0b100, .imm)
  | .ori => (0b110, .imm)
  | .andi => (0b111, .imm)
  | .slli => (0b001, .shift6 0b000000)
  | .srli => (0b101, .shift6 0b000000)
  | .srai => (0b101, .shift6 0b010000)
  | .clz => (0b001, .unary 0x600)
  | .ctz => (0b001, .unary 0x601)
  | .cpop => (0b001, .unary 0x602)
  | .sextb => (0b001, .unary 0x604)
  | .sexth => (0b001, .unary 0x605)
  | .rori => (0b101, .shift6 0b011000)
  | .orcb => (0b101, .unary 0x287)
  | .rev8 => (0b101, .unary 0x6B8)
  | .bclri => (0b001, .shift6 0b010010)
  | .bexti => (0b101, .shift6 0b010010)
  | .binvi => (0b001, .shift6 0b011010)
  | .bseti => (0b001, .shift6 0b001010)

def Op32.encoding : Op32 → BitVec 3 × Format
  | .addw => (0b000, .reg 0x00)
  | .subw => (0b000, .reg 0x20)
  | .sllw => (0b001, .reg 0x00)
  | .srlw => (0b101, .reg 0x00)
  | .sraw => (0b101, .reg 0x20)
  | .mulw => (0b000, .reg 0x01)
  | .divw => (0b100, .reg 0x01)
  | .divuw => (0b101, .reg 0x01)
  | .remw => (0b110, .reg 0x01)
  | .remuw => (0b111, .reg 0x01)
  | .adduw => (0b000, .reg 0x04)
  | .sh1adduw => (0b010, .reg 0x10)
  | .sh2adduw => (0b100, .reg 0x10)
  | .sh3adduw => (0b110, .reg 0x10)
  | .rolw => (0b001, .reg 0x30)
  | .rorw => (0b101, .reg 0x30)
  | .zexth => (0b100, .unary 0x080)

def OpImm32.encoding : OpImm32 → BitVec 3 × Format
  | .addiw => (0b000, .imm)
  | .slliw => (0b001, .shift5 0x00)
  | .srliw => (0b101, .shift5 0x00)
  | .sraiw => (0b101, .shift5 0x20)
  | .slliuw => (0b001, .shift6 0b000010)
  | .clzw => (0b001, .unary 0x600)
  | .ctzw => (0b001, .unary 0x601)
  | .cpopw => (0b001, .unary 0x602)
  | .roriw => (0b101, .shift5 0x30)

/-! ## Results -/

/-- The result for the values of `rs1` and `rs2`. -/
def Op.value (x y : Reg) : Op → Reg
  | .add => Rv64.add x y
  | .sub => Rv64.sub x y
  | .sll => Rv64.sll x (y.toNat % 64)
  | .slt => Rv64.slt x y
  | .sltu => Rv64.sltu x y
  | .xor => Rv64.xor x y
  | .srl => Rv64.srl x (y.toNat % 64)
  | .sra => Rv64.sra x (y.toNat % 64)
  | .or => Rv64.or x y
  | .and => Rv64.and x y
  | .mul => Rv64.mul x y
  | .mulh => Rv64.mulh x y
  | .mulhsu => Rv64.mulhsu x y
  | .mulhu => Rv64.mulhu x y
  | .div => Rv64.div x y
  | .divu => Rv64.divu x y
  | .rem => Rv64.rem x y
  | .remu => Rv64.remu x y
  | .sh1add => Rv64.shadd x y 1
  | .sh2add => Rv64.shadd x y 2
  | .sh3add => Rv64.shadd x y 3
  | .andn => Rv64.andn x y
  | .orn => Rv64.orn x y
  | .xnor => Rv64.xnor x y
  | .max => Rv64.max x y
  | .maxu => Rv64.maxu x y
  | .min => Rv64.min x y
  | .minu => Rv64.minu x y
  | .rol => Rv64.rol x (y.toNat % 64)
  | .ror => Rv64.ror x (y.toNat % 64)
  | .bclr => Rv64.bclr x (y.toNat % 64)
  | .bext => Rv64.bext x (y.toNat % 64)
  | .binv => Rv64.binv x (y.toNat % 64)
  | .bset => Rv64.bset x (y.toNat % 64)

/-- The result for the value of `rs1` and the bits 31 to 20. -/
def OpImm.value (x : Reg) (top : BitVec 12) : OpImm → Reg
  | .addi => Rv64.add x (BitVec.ofInt 64 top.toInt)
  | .slti => Rv64.slt x (BitVec.ofInt 64 top.toInt)
  | .sltiu => Rv64.sltu x (BitVec.ofInt 64 top.toInt)
  | .xori => Rv64.xor x (BitVec.ofInt 64 top.toInt)
  | .ori => Rv64.or x (BitVec.ofInt 64 top.toInt)
  | .andi => Rv64.and x (BitVec.ofInt 64 top.toInt)
  | .slli => Rv64.sll x (top.toNat % 64)
  | .srli => Rv64.srl x (top.toNat % 64)
  | .srai => Rv64.sra x (top.toNat % 64)
  | .clz => Rv64.clz x
  | .ctz => Rv64.ctz x
  | .cpop => Rv64.cpop x
  | .sextb => sextLow 8 x
  | .sexth => sextLow 16 x
  | .rori => Rv64.ror x (top.toNat % 64)
  | .orcb => Rv64.orcb x
  | .rev8 => Rv64.rev8 x
  | .bclri => Rv64.bclr x (top.toNat % 64)
  | .bexti => Rv64.bext x (top.toNat % 64)
  | .binvi => Rv64.binv x (top.toNat % 64)
  | .bseti => Rv64.bset x (top.toNat % 64)

def Op32.value (x y : Reg) : Op32 → Reg
  | .addw => sext (Rv64.add (word x) (word y))
  | .subw => sext (Rv64.sub (word x) (word y))
  | .sllw => sext (Rv64.sll (word x) (y.toNat % 32))
  | .srlw => sext (Rv64.srl (word x) (y.toNat % 32))
  | .sraw => sext (Rv64.sra (word x) (y.toNat % 32))
  | .mulw => sext (Rv64.mul (word x) (word y))
  | .divw => sext (Rv64.div (word x) (word y))
  | .divuw => sext (Rv64.divu (word x) (word y))
  | .remw => sext (Rv64.rem (word x) (word y))
  | .remuw => sext (Rv64.remu (word x) (word y))
  | .adduw => Rv64.shadd (zextLow 32 x) y 0
  | .sh1adduw => Rv64.shadd (zextLow 32 x) y 1
  | .sh2adduw => Rv64.shadd (zextLow 32 x) y 2
  | .sh3adduw => Rv64.shadd (zextLow 32 x) y 3
  | .rolw => sext (Rv64.rol (word x) (y.toNat % 32))
  | .rorw => sext (Rv64.ror (word x) (y.toNat % 32))
  | .zexth => zextLow 16 x

def OpImm32.value (x : Reg) (top : BitVec 12) : OpImm32 → Reg
  | .addiw => sext (Rv64.add (word x) (BitVec.ofInt 32 top.toInt))
  | .slliw => sext (Rv64.sll (word x) (top.toNat % 32))
  | .srliw => sext (Rv64.srl (word x) (top.toNat % 32))
  | .sraiw => sext (Rv64.sra (word x) (top.toNat % 32))
  | .slliuw => Rv64.sll (zextLow 32 x) (top.toNat % 64)
  | .clzw => sext (Rv64.clz (word x))
  | .ctzw => sext (Rv64.ctz (word x))
  | .cpopw => sext (Rv64.cpop (word x))
  | .roriw => sext (Rv64.ror (word x) (top.toNat % 32))

/-! ## Instructions -/

inductive Instr
  | op (o : Op)
  | opImm (o : OpImm)
  | op32 (o : Op32)
  | opImm32 (o : OpImm32)

def Instr.opcode : Instr → BitVec 7
  | .op _ => 0b0110011
  | .opImm _ => 0b0010011
  | .op32 _ => 0b0111011
  | .opImm32 _ => 0b0011011

def Instr.encoding : Instr → BitVec 3 × Format
  | .op o => o.encoding
  | .opImm o => o.encoding
  | .op32 o => o.encoding
  | .opImm32 o => o.encoding

/-- The instruction word `w` is one of this instruction. -/
def Instr.Encodes (i : Instr) (w : BitVec 32) : Prop :=
  w.extractLsb' 0 7 = i.opcode ∧ w.extractLsb' 12 3 = i.encoding.1 ∧ i.encoding.2.Matches (w.extractLsb' 20 12)

/-- What the word `w` of this instruction writes to `rd`. -/
def Instr.value (w : BitVec 32) (x y : Reg) : Instr → Reg
  | .op o => o.value x y
  | .opImm o => o.value x (w.extractLsb' 20 12)
  | .op32 o => o.value x y
  | .opImm32 o => o.value x (w.extractLsb' 20 12)

end Rv64
