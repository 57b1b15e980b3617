import Pyremu.Sittim.Kernel
import Pyremu.Lib.Bits
import Pyremu.Lib.Run

/-!
# Signal masks in the encoding of Linux

The runtime numbers the bits of its masks by signal, user sets number them from
signal 1 at bit 0. Beside the state of the process runs the mask that Linux
would have: what the calls have blocked, in the user's encoding.
-/

namespace Pyremu.Sittim

open ByteMem (Mem readLe writeLe writeLe_other)

/-! ## The mask of Linux -/

/-- SIGKILL and SIGSTOP in a user set. -/
def linuxUnblockable : Word := BitVec.twoPow 64 8 ||| BitVec.twoPow 64 18

/-- The mask after `rt_sigprocmask` with the set `w`. -/
def linuxProcmask (how mask w : Word) : Word :=
  let w := w &&& ~~~linuxUnblockable
  if how = 0 then mask ||| w else if how = 1 then mask &&& ~~~w else w

/-- The mask while the handler of `sig` runs. -/
def linuxDeliver (mask : Word) (sig : Fin 32) : Word :=
  if sig = 9 ∨ sig = 19 then mask else mask ||| BitVec.twoPow 64 (sig.val - 1)

/-- Signal `sig` of a user set. -/
def linuxHas (mask : Word) (sig : Fin 32) : Bool := mask.getLsbD (sig.val - 1)

/-! ## Runs of calls and deliveries -/

/-- A frame on the user's stack, with the memory as `build_frame` left it and the mask in force
before. -/
structure BuiltFrame where
  addr : Word
  mem : Mem
  mask : Word

structure SigRun where
  rt : Runtime
  mask : Word
  frames : List BuiltFrame

inductive SigStep where
  | user (mem : Mem) (gprs : TrapGprs)
  | sigaction (sig newAction oldAction : Word)
  | sigprocmask (how set oldset sigsetsize : Word)
  | post (sig : Fin 32)
  | deliver (sepc : Word)
  | sigreturn

/-- The signal goes to a handler of the user. -/
def Disposition.isHandle : Disposition → Bool
  | .handle _ => true
  | _ => false

namespace SigRun

def sig (s : SigRun) : SigState := s.rt.currentSig

/-- Where `build_frame` puts the frame. -/
def frameAddr (s : SigRun) : Word := (s.rt.gprs.spBeforeTrap - 704) &&& ~~~(15 : Word)

/-- The set that a call names, as many bytes as it says. -/
def userSet (s : SigRun) (set sigsetsize : Word) : Word := readLe s.rt.mem set.toNat (min sigsetsize.toNat 8)

/-- The frame that `rt_sigreturn` would restore, its mask unchanged since it was built. -/
def restored (s : SigRun) : Option BuiltFrame :=
  let addr := s.rt.gprs.spBeforeTrap
  s.frames.find? fun f => f.addr == addr && readU64 s.rt.mem (addr + 24) == readU64 f.mem (addr + 24)

/-- A pending signal is taken, and its handler put in the way of the return to U mode. -/
def deliver (s : SigRun) (sepc : Word) : SigRun :=
  match s.sig.takePending with
  | none => s
  | some (st, sig) =>
    let rt := s.rt.setCurrentSig st
    match st.disposition sig with
    | .handle handler =>
      let built := (rt.buildFrame sig handler sepc).1
      ⟨built, linuxDeliver s.mask sig, ⟨s.frameAddr, built.mem, s.mask⟩ :: s.frames⟩
    | _ => { s with rt := rt }

/-- Nothing posts signal 0. -/
def step (s : SigRun) : SigStep → SigRun
  | .user mem gprs => { s with rt := { s.rt with mem := mem }.setGprs gprs }
  | .sigaction sig newAction oldAction => { s with rt := (s.rt.sigaction sig newAction oldAction).1 }
  | .sigprocmask how set oldset sigsetsize =>
    { s with
      rt := (s.rt.sigprocmask how set oldset sigsetsize).1
      mask :=
        if how.toNat ≤ 2 ∧ set ≠ 0 ∧ sigsetsize ≠ 0 then linuxProcmask how s.mask (s.userSet set sigsetsize)
        else s.mask }
  | .post sig => if sig = 0 then s else { s with rt := s.rt.setCurrentSig (s.sig.post sig) }
  | .deliver sepc => s.deliver sepc
  | .sigreturn =>
    { s with rt := s.rt.restoreFrame.1, mask := s.restored.elim s.mask BuiltFrame.mask }

/-- The signal taken next is the lowest one that is pending and not blocked, and neither SIGKILL nor
SIGSTOP is ever blocked. -/
structure MaskOk (s : SigRun) : Prop where
  taken : ∀ st n, s.sig.takePending = some (st, n) →
    s.sig.pending.getLsbD n = true ∧ linuxHas s.mask n = false
  lowest : ∀ n : Fin 32, s.sig.pending.getLsbD n = true → linuxHas s.mask n = false →
    ∃ st m, s.sig.takePending = some (st, m) ∧ m ≤ n
  unblockable : s.sig.blocked.getLsbD 9 = false ∧ s.sig.blocked.getLsbD 19 = false

/-- `rt_sigprocmask` writes back the mask that was in force. -/
def OldSetRight (s : SigRun) : SigStep → Prop
  | .sigprocmask how set oldset sigsetsize =>
    how.toNat ≤ 2 → oldset ≠ 0 → sigsetsize ≠ 0 →
      readU64 (s.step (.sigprocmask how set oldset sigsetsize)).rt.mem oldset = s.mask
  | _ => True

/-- `rt_sigreturn` finds a frame as it was built. -/
def AsBuilt (s : SigRun) : SigStep → Prop
  | .sigreturn => s.restored ≠ none
  | _ => True

/-- Every standard signal that the call changes comes with its neighbour below. -/
def NeighboursAgree (how blocked w : Word) : Prop :=
  ∀ n : Fin 32, n ≠ 0 → n ≠ 9 → n ≠ 19 →
    (how = 0 → blocked.getLsbD n = false) → (how = 1 → blocked.getLsbD n = true) →
      w.getLsbD n = w.getLsbD (n.val - 1)

instance (how blocked w : Word) : Decidable (NeighboursAgree how blocked w) :=
  inferInstanceAs (Decidable (∀ _ : Fin 32, _))

/-- Old sets are asked for only while no standard signal is blocked, sets that change a standard
signal change its neighbour in the same way and lie apart from the old set, and no handler of SIGKILL
or SIGSTOP runs. -/
def Safe (s : SigRun) : SigStep → Prop
  | .sigprocmask how set oldset sigsetsize =>
    how.toNat ≤ 2 → sigsetsize ≠ 0 →
      (oldset ≠ 0 → s.sig.blocked.toNat % 2 ^ 32 = 0) ∧
      (set ≠ 0 →
        (oldset = 0 ∨ oldset.toNat + 8 ≤ set.toNat ∨ set.toNat + min sigsetsize.toNat 8 ≤ oldset.toNat) ∧
        NeighboursAgree how s.sig.blocked (s.userSet set sigsetsize))
  | .deliver _ =>
    ∀ x ∈ s.sig.takePending, x.2 = 9 ∨ x.2 = 19 → (x.1.disposition x.2).isHandle = false
  | _ => True

instance (s : SigRun) (a : SigStep) : Decidable (s.Safe a) := by
  cases a with
  | sigprocmask how set oldset sigsetsize =>
    unfold Safe
    infer_instance
  | deliver sepc =>
    unfold Safe
    infer_instance
  | _ => exact .isTrue trivial

instance (s : SigRun) (a : SigStep) : Decidable (s.AsBuilt a) := by
  cases a with
  | sigreturn => exact decidable_of_iff (s.restored.isSome = true) Option.isSome_iff_ne_none
  | _ => exact .isTrue trivial

end SigRun

/-! ## Where the two masks agree -/

/-- The mask of the runtime stands for the mask of Linux. -/
structure Agree (blocked mask : Word) : Prop where
  standard : ∀ n, 0 < n → n < 32 → blocked.getLsbD n = mask.getLsbD (n - 1)
  high : ∀ n, 32 ≤ n → blocked.getLsbD n = mask.getLsbD n
  top : mask.getLsbD 31 = true → blocked.getLsbD 31 = true
  zero : blocked.getLsbD 0 = false
  unblockable : blocked.getLsbD 9 = false ∧ blocked.getLsbD 19 = false

namespace Agree

variable {blocked mask w how : Word}

theorem getLsbD_unblockable (n : Nat) : linuxUnblockable.getLsbD n = decide (n = 8 ∨ n = 18) := by
  rw [linuxUnblockable, BitVec.getLsbD_or, BitVec.getLsbD_twoPow, BitVec.getLsbD_twoPow]
  by_cases h8 : n = 8
  · simp [h8]
  · by_cases h18 : n = 18
    · simp [h18]
    · simp [h8, h18, Ne.symm h8, Ne.symm h18]

/-- The signals that `rt_sigprocmask` takes out of a set. -/
def dropped : Word := BitVec.twoPow 64 0 ||| BitVec.twoPow 64 9 ||| BitVec.twoPow 64 19

theorem getLsbD_dropped (n : Nat) : dropped.getLsbD n = decide (n = 0 ∨ n = 9 ∨ n = 19) := by
  rw [dropped, BitVec.getLsbD_or, BitVec.getLsbD_or, BitVec.getLsbD_twoPow, BitVec.getLsbD_twoPow,
    BitVec.getLsbD_twoPow]
  by_cases h0 : n = 0
  · simp [h0]
  · by_cases h9 : n = 9
    · simp [h9]
    · by_cases h19 : n = 19
      · simp [h19]
      · simp [h0, h9, h19, Ne.symm h0, Ne.symm h9, Ne.symm h19]

theorem getLsbD_and_not (x y : Word) (n : Nat) :
    (x &&& ~~~y).getLsbD n = (x.getLsbD n && !y.getLsbD n) := by
  by_cases hn : n < 64
  · rw [BitVec.getLsbD_and, BitVec.getLsbD_not, decide_eq_true hn, Bool.true_and]
  · rw [BitVec.getLsbD_of_ge _ _ (by omega), BitVec.getLsbD_of_ge x _ (by omega), Bool.false_and]

/-- What `rt_sigprocmask` makes of the mask. -/
def procmask (how blocked w : Word) : Word :=
  let w := w &&& ~~~dropped
  if how = 0 then blocked ||| w else if how = 1 then blocked &&& ~~~w else w

theorem getLsbD_procmask (how blocked w : Word) (n : Nat) : (procmask how blocked w).getLsbD n =
    if how = 0 then blocked.getLsbD n || (w.getLsbD n && !decide (n = 0 ∨ n = 9 ∨ n = 19))
    else if how = 1 then blocked.getLsbD n && !(w.getLsbD n && !decide (n = 0 ∨ n = 9 ∨ n = 19))
    else w.getLsbD n && !decide (n = 0 ∨ n = 9 ∨ n = 19) := by
  rw [procmask]
  split
  · rw [BitVec.getLsbD_or, getLsbD_and_not, getLsbD_dropped]
  · split
    · rw [getLsbD_and_not, getLsbD_and_not, getLsbD_dropped]
    · rw [getLsbD_and_not, getLsbD_dropped]

theorem getLsbD_linuxProcmask (how mask w : Word) (n : Nat) : (linuxProcmask how mask w).getLsbD n =
    if how = 0 then mask.getLsbD n || (w.getLsbD n && !decide (n = 8 ∨ n = 18))
    else if how = 1 then mask.getLsbD n && !(w.getLsbD n && !decide (n = 8 ∨ n = 18))
    else w.getLsbD n && !decide (n = 8 ∨ n = 18) := by
  rw [linuxProcmask]
  split
  · rw [BitVec.getLsbD_or, getLsbD_and_not, getLsbD_unblockable]
  · split
    · rw [getLsbD_and_not, getLsbD_and_not, getLsbD_unblockable]
    · rw [getLsbD_and_not, getLsbD_unblockable]

theorem set (h : Agree blocked mask) (hw : SigRun.NeighboursAgree how blocked w) :
    Agree (procmask how blocked w) (linuxProcmask how mask w) := by
  obtain ⟨hstd, hhigh, htop, hzero, h9, h19⟩ := h
  refine ⟨?_, ?_, ?_, ?_, ?_, ?_⟩
  · intro n hpos hlt
    have hn := hw ⟨n, hlt⟩ (Fin.ne_of_val_ne (by simp; omega))
    have hb := hstd n hpos hlt
    rw [getLsbD_procmask, getLsbD_linuxProcmask, ← hb]
    by_cases hkill : n = 9 ∨ n = 19
    · rcases hkill with rfl | rfl <;> simp
    · rw [not_or] at hkill
      have hne : ¬ (n = 0 ∨ n = 9 ∨ n = 19) := by omega
      have hne' : ¬ (n - 1 = 8 ∨ n - 1 = 18) := by omega
      have hn := hn (Fin.ne_of_val_ne hkill.1) (Fin.ne_of_val_ne hkill.2)
      rw [decide_eq_false hne, decide_eq_false hne', Bool.not_false, Bool.and_true, Bool.and_true]
      split
      · cases hbl : blocked.getLsbD n with
        | true => rfl
        | false => rw [hn (fun _ => hbl) (by rintro rfl; contradiction)]
      · split
        · cases hbl : blocked.getLsbD n with
          | true => rw [hn (fun h0 => by contradiction) (fun _ => hbl)]
          | false => rfl
        · exact hn (fun h0 => by contradiction) fun h1 => by contradiction
  · intro n hn
    have hne : ¬ (n = 0 ∨ n = 9 ∨ n = 19) := by omega
    have hne' : ¬ (n = 8 ∨ n = 18) := by omega
    rw [getLsbD_procmask, getLsbD_linuxProcmask, hhigh n hn, decide_eq_false hne, decide_eq_false hne']
  · rw [getLsbD_procmask, getLsbD_linuxProcmask, decide_eq_false (by decide), decide_eq_false (by decide)]
    split
    · cases hm : mask.getLsbD 31 with
      | true => simp [htop hm]
      | false => simp; exact Or.inr
    · split
      · cases hm : mask.getLsbD 31 with
        | true => simp [htop hm]
        | false => simp
      · exact id
  · rw [getLsbD_procmask, hzero]
    simp
  · rw [getLsbD_procmask, h9]
    simp
  · rw [getLsbD_procmask, h19]
    simp

theorem deliver (h : Agree blocked mask) {sig : Fin 32} (hpos : sig ≠ 0) (h9 : sig ≠ 9) (h19 : sig ≠ 19) :
    Agree (blocked ||| BitVec.twoPow 64 sig) (linuxDeliver mask sig) := by
  obtain ⟨hstd, hhigh, htop, hzero, hb9, hb19⟩ := h
  have hpos : 0 < sig.val := Nat.pos_of_ne_zero fun hz => hpos (Fin.ext hz)
  have h9 : sig.val ≠ 9 := fun hz => h9 (Fin.ext hz)
  have h19 : sig.val ≠ 19 := fun hz => h19 (Fin.ext hz)
  have hlt := sig.isLt
  have hmask : ∀ n, (linuxDeliver mask sig).getLsbD n = (mask.getLsbD n || decide (sig.val - 1 = n)) := by
    intro n
    have hsig : ¬ (sig = 9 ∨ sig = 19) := by
      rintro (rfl | rfl)
      · exact h9 rfl
      · exact h19 rfl
    rw [linuxDeliver, if_neg hsig, BitVec.getLsbD_or, BitVec.getLsbD_twoPow,
      decide_eq_true (show sig.val - 1 < 64 by omega), Bool.true_and]
  have hblocked : ∀ n, (blocked ||| BitVec.twoPow 64 sig).getLsbD n = (blocked.getLsbD n || decide (sig.val = n)) := by
    intro n
    rw [BitVec.getLsbD_or, BitVec.getLsbD_twoPow, decide_eq_true (show sig.val < 64 by omega), Bool.true_and]
  refine ⟨?_, ?_, ?_, ?_, ?_, ?_⟩
  · intro n hn hn'
    rw [hmask, hblocked, hstd n hn hn']
    congr 1
    rw [decide_eq_decide]
    omega
  · intro n hn
    rw [hmask, hblocked, hhigh n hn, decide_eq_false (by omega), decide_eq_false (by omega)]
  · rw [hmask, hblocked, decide_eq_false (by omega : ¬ sig.val - 1 = 31), Bool.or_false]
    intro hm
    rw [htop hm, Bool.true_or]
  · rw [hblocked, hzero, decide_eq_false (by omega)]
    rfl
  · rw [hblocked, hb9, decide_eq_false h9]
    rfl
  · rw [hblocked, hb19, decide_eq_false h19]
    rfl

/-- Without a blocked standard signal the two masks are the same word. -/
theorem eq_of_low_zero (h : Agree blocked mask) (hlow : blocked.toNat % 2 ^ 32 = 0) : blocked = mask := by
  obtain ⟨hstd, hhigh, htop, hzero, _⟩ := h
  have hb : ∀ n < 32, blocked.getLsbD n = false := by
    intro n hn
    have hmod : (blocked.toNat % 2 ^ 32).testBit n = false := by rw [hlow]; exact Nat.zero_testBit n
    rwa [Nat.testBit_mod_two_pow, decide_eq_true hn, Bool.true_and] at hmod
  apply BitVec.eq_of_getLsbD_eq
  intro n _
  by_cases hn : n < 32
  · rw [hb n hn]
    by_cases htop' : n = 31
    · subst htop'
      cases hm : mask.getLsbD 31 with
      | false => rfl
      | true =>
        rw [hb 31 (by decide)] at htop
        exact htop hm
    · have hnext := hstd (n + 1) (by omega) (by omega)
      rw [hb (n + 1) (by omega)] at hnext
      exact hnext
  · exact hhigh n (by omega)

/-- The lowest deliverable signal is the one that Linux would take. -/
theorem takePending {st : SigState} (h : Agree st.blocked mask) (hzero : st.pending.getLsbD 0 = false) :
    (∀ st' n, st.takePending = some (st', n) → st.pending.getLsbD n = true ∧ linuxHas mask n = false) ∧
      ∀ n : Fin 32, st.pending.getLsbD n = true → linuxHas mask n = false →
        ∃ st' m, st.takePending = some (st', m) ∧ m ≤ n := by
  have hbit : ∀ n : Fin 32, (st.pending &&& ~~~st.blocked).getLsbD n = true ↔
      st.pending.getLsbD n = true ∧ linuxHas mask n = false := by
    intro n
    rw [getLsbD_and_not, Bool.and_eq_true, Bool.not_eq_true']
    by_cases hn : n = 0
    · subst hn
      rw [show (0 : Fin 32).val = 0 from rfl, hzero]
      simp
    · rw [linuxHas, h.standard n.val (Nat.pos_of_ne_zero fun hz => hn (Fin.ext hz)) n.isLt]
  rw [SigState.takePending]
  constructor
  · intro st' n heq
    rw [Option.map_eq_some_iff] at heq
    obtain ⟨m, hm, heq⟩ := heq
    obtain ⟨_, rfl⟩ := Prod.mk.inj heq
    have hdeliverable := List.find?_some hm
    exact (hbit m).mp hdeliverable
  · intro n hp hm
    cases hfind : (List.finRange 32).find? fun sig : Fin 32 => (st.pending &&& ~~~st.blocked).getLsbD sig with
    | none =>
      have hno := List.find?_eq_none.mp hfind n (List.mem_finRange n)
      exact absurd ((hbit n).mpr ⟨hp, hm⟩) hno
    | some m =>
      refine ⟨_, m, rfl, ?_⟩
      by_contra hlt
      obtain ⟨_, as, bs, hsplit, hbefore⟩ := List.find?_eq_some_iff_append.mp hfind
      have hmem : n ∈ as := by
        have hpair : (List.finRange 32).Pairwise (· < ·) := List.pairwise_lt_finRange 32
        have hin : n ∈ as ++ m :: bs := hsplit ▸ List.mem_finRange n
        rw [hsplit, List.pairwise_append] at hpair
        rcases List.mem_append.mp hin with hin | hin
        · exact hin
        · rcases List.mem_cons.mp hin with rfl | hin
          · exact absurd le_rfl hlt
          · exact absurd (List.rel_of_pairwise_cons hpair.2.1 hin).le hlt
      have hno := hbefore n hmem
      rw [(hbit n).mpr ⟨hp, hm⟩] at hno
      cases hno

end Agree

/-! ## The mask word of a frame -/

section Frame

variable {m : Mem} {addr : Word} {i : Nat}

theorem zeroBytes_other {a n : Nat} (h : i < a ∨ a + n ≤ i) : zeroBytes m a n i = m i := by
  rw [zeroBytes, if_neg (by omega)]

theorem writeWords_other (ws : List Word) {m : Mem} {addr : Word}
    (h : ∀ k < ws.length, i < (addr + BitVec.ofNat 64 (8 * k)).toNat ∨ (addr + BitVec.ofNat 64 (8 * k)).toNat + 8 ≤ i) :
    writeWords m addr ws i = m i := by
  induction ws generalizing m addr with
  | nil => rfl
  | cons w ws ih =>
    have hfirst := h 0 (by simp)
    rw [Nat.mul_zero, BitVec.add_zero] at hfirst
    rw [writeWords, ih ?_, writeU64, writeLe_other hfirst]
    intro k hk
    have hnext := h (k + 1) (by simpa using hk)
    rwa [Nat.mul_succ, Nat.add_comm, BitVec.ofNat_add, ← BitVec.add_assoc] at hnext

/-- The word at offset 24 holds the mask, whatever is written behind it. -/
theorem buildFrame_mask (s : Runtime) (sig : Fin 32) (handler sepc : Word) :
    readU64 (s.buildFrame sig handler sepc).1.mem (((s.gprs.spBeforeTrap - 704) &&& ~~~(15 : Word)) + 24) =
      s.currentSig.blocked := by
  have hal : ((s.gprs.spBeforeTrap - 704) &&& ~~~(15 : Word)).toNat % 16 = 0 := by
    rw [BitFields.toNat_and_not_mask (n := 4) rfl]
    omega
  rw [Runtime.buildFrame]
  dsimp only [Runtime.setGprs, Runtime.setCurrentSig, Runtime.setProc]
  generalize (s.gprs.spBeforeTrap - 704) &&& ~~~(15 : Word) = frame at hal
  have hlt := frame.isLt
  have hofs : ∀ k < 704, (frame + BitVec.ofNat 64 k).toNat = (frame.toNat + k) % 2 ^ 64 := by
    intro k hk
    rw [BitVec.toNat_add, BitVec.toNat_ofNat, Nat.mod_eq_of_lt (by omega : k < 2 ^ 64)]
  have h24 : (frame + 24).toNat = (frame.toNat + 24) % 2 ^ 64 := hofs 24 (by decide)
  have h32 : (frame + 32).toNat = (frame.toNat + 32) % 2 ^ 64 := hofs 32 (by decide)
  have h296 : (frame + 296).toNat = (frame.toNat + 296) % 2 ^ 64 := hofs 296 (by decide)
  have h304 : (frame + 304).toNat = (frame.toNat + 304) % 2 ^ 64 := hofs 304 (by decide)
  have h312 : (frame + 312).toNat = (frame.toNat + 312) % 2 ^ 64 := hofs 312 (by decide)
  have h432 : (frame + 432).toNat = (frame.toNat + 432) % 2 ^ 64 := hofs 432 (by decide)
  have hread := ByteMem.readLe_writeLe_eight (writeU64 (writeU64 (writeU64 s.mem frame Runtime.SIGNAL_RESTORE_CODE)
    (frame + 8) sepc) (frame + 16) s.sstatus) (frame + 24).toNat s.currentSig.blocked
  refine Eq.trans (ByteMem.readLe_congr ?_) hread
  intro j hj
  rw [zeroBytes_other (by omega), writeLe_other (by omega), writeLe_other (by omega), zeroBytes_other (by omega),
    writeU64, writeLe_other (by omega), writeGprs, writeWords_other]
  · rfl
  · intro k hk
    rw [List.length_append, List.length_ofFn, List.length_singleton] at hk
    have hk8 : (frame + 32 + BitVec.ofNat 64 (8 * k)).toNat = (frame.toNat + 32 + 8 * k) % 2 ^ 64 := by
      rw [BitVec.toNat_add, h32, BitVec.toNat_ofNat]
      omega
    rw [hk8, h24]
    omega

end Frame

/-! ## What the calls do to the mask -/

section Calls

variable (s : Runtime)

theorem getLsbD_ite_and_not {c : Prop} [Decidable c] {x y : Word} {n : Nat} (h : x.getLsbD n = false) :
    (if c then x &&& ~~~y else x).getLsbD n = false := by
  split
  · rw [Agree.getLsbD_and_not, h, Bool.false_and]
  · exact h

theorem sigaction_sig (sig newAction oldAction : Word) :
    (s.sigaction sig newAction oldAction).1.currentSig.blocked = s.currentSig.blocked ∧
      (s.currentSig.pending.getLsbD 0 = false →
        (s.sigaction sig newAction oldAction).1.currentSig.pending.getLsbD 0 = false) := by
  rw [Runtime.sigaction]
  split
  · exact ⟨rfl, id⟩
  · dsimp only
    split
    · split <;> exact ⟨rfl, id⟩
    · rw [Runtime.setCurrentSig_currentSig]
      refine ⟨rfl, fun hzero => ?_⟩
      exact getLsbD_ite_and_not hzero

/-- The set that `rt_sigprocmask` works with, read after the old set was written. -/
theorem sigprocmask_blocked {how set oldset sigsetsize : Word} (hhow : how.toNat ≤ 2) (hset : set ≠ 0)
    (hsize : sigsetsize ≠ 0)
    (hapart : oldset = 0 ∨ oldset.toNat + 8 ≤ set.toNat ∨ set.toNat + min sigsetsize.toNat 8 ≤ oldset.toNat) :
    (s.sigprocmask how set oldset sigsetsize).1.currentSig =
      { s.currentSig with
        blocked := Agree.procmask how s.currentSig.blocked (readLe s.mem set.toNat (min sigsetsize.toNat 8)) } := by
  have hn : 0 < min sigsetsize.toNat 8 := by
    have hpos : sigsetsize.toNat ≠ 0 := fun hz => hsize (BitVec.eq_of_toNat_eq hz)
    omega
  rw [Runtime.sigprocmask, if_neg (by omega)]
  dsimp only
  rw [if_pos ⟨hset, hn⟩, Runtime.setCurrentSig_currentSig]
  congr 1
  have hread : readLe (if oldset ≠ 0 ∧ 0 < min sigsetsize.toNat 8 then
        { s with mem := writeU64 (zeroBytes s.mem oldset.toNat (min sigsetsize.toNat 8)) oldset s.currentSig.blocked }
      else s).mem set.toNat (min sigsetsize.toNat 8) = readLe s.mem set.toNat (min sigsetsize.toNat 8) := by
    split
    · rename_i hold
      apply ByteMem.readLe_congr
      intro i hi
      have hapart := hapart.resolve_left hold.1
      show writeLe _ oldset.toNat 8 _ _ = _
      rw [writeLe_other (by omega), zeroBytes_other (by omega)]
    · rfl
  rw [hread, Agree.procmask, Agree.dropped]

/-- Without a set the state of the signals stays as it is. -/
theorem sigprocmask_same {how set oldset sigsetsize : Word}
    (h : ¬ (how.toNat ≤ 2 ∧ set ≠ 0 ∧ sigsetsize ≠ 0)) :
    (s.sigprocmask how set oldset sigsetsize).1.currentSig = s.currentSig := by
  rw [Runtime.sigprocmask]
  split
  · rfl
  · rename_i hhow
    dsimp only
    rw [if_neg]
    · split <;> rfl
    · rintro ⟨hset, hn⟩
      apply h ⟨by omega, hset, _⟩
      rintro rfl
      simp at hn

theorem sigprocmask_oldset {how set oldset sigsetsize : Word} (hhow : how.toNat ≤ 2) (hold : oldset ≠ 0)
    (hsize : sigsetsize ≠ 0) :
    readU64 (s.sigprocmask how set oldset sigsetsize).1.mem oldset = s.currentSig.blocked := by
  have hn : 0 < min sigsetsize.toNat 8 := by
    have hpos : sigsetsize.toNat ≠ 0 := fun hz => hsize (BitVec.eq_of_toNat_eq hz)
    omega
  have hmem : (s.sigprocmask how set oldset sigsetsize).1.mem =
      writeU64 (zeroBytes s.mem oldset.toNat (min sigsetsize.toNat 8)) oldset s.currentSig.blocked := by
    rw [Runtime.sigprocmask, if_neg (by omega)]
    dsimp only
    by_cases hset : set ≠ 0 ∧ 0 < min sigsetsize.toNat 8
    · rw [if_pos hset, if_pos ⟨hold, hn⟩]
      rfl
    · rw [if_neg hset, if_pos ⟨hold, hn⟩]
  rw [hmem]
  exact ByteMem.readLe_writeLe_eight _ _ _

theorem buildFrame_sig (sig : Fin 32) (handler sepc : Word) :
    (s.buildFrame sig handler sepc).1.currentSig =
      { s.currentSig with blocked := s.currentSig.blocked ||| BitVec.twoPow 64 sig } := by
  rw [Runtime.buildFrame]
  exact Runtime.setCurrentSig_currentSig { s with mem := _ } _

theorem restoreFrame_sig : s.restoreFrame.1.currentSig =
    { s.currentSig with blocked := readU64 s.mem (s.gprs.spBeforeTrap + 24) } :=
  Runtime.setCurrentSig_currentSig _ _

end Calls

/-! ## Runs -/

namespace SigRun

/-- The masks agree, in the process and in the frames that wait for their `rt_sigreturn`. -/
structure Inv (s : SigRun) : Prop where
  agree : Agree s.sig.blocked s.mask
  zero : s.sig.pending.getLsbD 0 = false
  frames : ∀ f ∈ s.frames, Agree (readU64 f.mem (f.addr + 24)) f.mask

variable {s : SigRun}

theorem Inv.maskOk (h : s.Inv) : s.MaskOk :=
  ⟨(h.agree.takePending h.zero).1, (h.agree.takePending h.zero).2, h.agree.unblockable⟩

theorem Inv.oldSetRight (h : s.Inv) (a : SigStep) (hsafe : s.Safe a) : s.OldSetRight a := by
  cases a with
  | sigprocmask how set oldset sigsetsize =>
    intro hhow hold hsize
    show readU64 (s.rt.sigprocmask how set oldset sigsetsize).1.mem oldset = s.mask
    rw [sigprocmask_oldset s.rt hhow hold hsize]
    exact h.agree.eq_of_low_zero ((hsafe hhow hsize).1 hold)
  | _ => trivial

theorem Inv.sigprocmask (h : s.Inv) (how set oldset sigsetsize : Word)
    (hsafe : s.Safe (.sigprocmask how set oldset sigsetsize)) :
    (s.step (.sigprocmask how set oldset sigsetsize)).Inv := by
  by_cases hc : how.toNat ≤ 2 ∧ set ≠ 0 ∧ sigsetsize ≠ 0
  · obtain ⟨hhow, hset, hsize⟩ := hc
    obtain ⟨hapart, hw⟩ := (hsafe hhow hsize).2 hset
    have hsig := sigprocmask_blocked s.rt hhow hset hsize hapart
    rw [step, if_pos ⟨hhow, hset, hsize⟩]
    refine ⟨?_, ?_, h.frames⟩
    · rw [sig, hsig]
      exact h.agree.set hw
    · rw [sig, hsig]
      exact h.zero
  · have hsig := @sigprocmask_same s.rt _ _ oldset _ hc
    rw [step, if_neg hc]
    refine ⟨?_, ?_, h.frames⟩
    · rw [sig, hsig]
      exact h.agree
    · rw [sig, hsig]
      exact h.zero

theorem takePending_some {st st' : SigState} {n : Fin 32} (h : st.takePending = some (st', n)) :
    st'.blocked = st.blocked ∧ st'.pending = st.pending &&& ~~~BitVec.twoPow 64 n ∧ st'.handler = st.handler := by
  rw [SigState.takePending, Option.map_eq_some_iff] at h
  obtain ⟨m, _, heq⟩ := h
  obtain ⟨rfl, rfl⟩ := Prod.mk.inj heq
  exact ⟨rfl, rfl, rfl⟩

theorem Inv.deliver (h : s.Inv) (sepc : Word) (hsafe : s.Safe (.deliver sepc)) : (s.deliver sepc).Inv := by
  rw [SigRun.deliver]
  cases htake : s.sig.takePending with
  | none => exact h
  | some x =>
    obtain ⟨st, n⟩ := x
    obtain ⟨hblocked, hpending, _⟩ := takePending_some htake
    have hzero : st.pending.getLsbD 0 = false := by
      rw [hpending, Agree.getLsbD_and_not, h.zero, Bool.false_and]
    have hagree : Agree st.blocked s.mask := by
      rw [hblocked]
      exact h.agree
    have htaken : (s.rt.setCurrentSig st).currentSig = st := Runtime.setCurrentSig_currentSig _ _
    dsimp only
    cases hd : st.disposition n with
    | handle handler =>
      have hkill : n ≠ 9 ∧ n ≠ 19 := by
        have hno := hsafe (st, n) htake
        dsimp only at hno
        rw [hd] at hno
        exact ⟨fun hn => by simp [Disposition.isHandle, hn] at hno, fun hn => by simp [Disposition.isHandle, hn] at hno⟩
      have hne : n ≠ 0 := by
        rintro rfl
        have hp := (h.maskOk.taken st 0 htake).1
        rw [show ((0 : Fin 32) : Nat) = 0 from rfl, h.zero] at hp
        cases hp
      have hsig := buildFrame_sig (s.rt.setCurrentSig st) n handler sepc
      rw [htaken] at hsig
      refine ⟨?_, ?_, ?_⟩
      · rw [sig, hsig]
        exact hagree.deliver hne hkill.1 hkill.2
      · rw [sig, hsig]
        exact hzero
      · intro f hf
        rcases List.mem_cons.mp hf with rfl | hf
        · have hmask := buildFrame_mask (s.rt.setCurrentSig st) n handler sepc
          rw [htaken] at hmask
          show Agree (readU64 _ (s.frameAddr + 24)) s.mask
          rw [frameAddr]
          rw [show s.rt.gprs.spBeforeTrap = (s.rt.setCurrentSig st).gprs.spBeforeTrap from rfl, hmask]
          exact hagree
        · exact h.frames f hf
    | ignore | terminate =>
      refine ⟨?_, ?_, h.frames⟩
      · rw [sig, htaken]
        exact hagree
      · rw [sig, htaken]
        exact hzero

theorem Inv.step (h : s.Inv) (a : SigStep) (hbuilt : s.AsBuilt a) (hsafe : s.Safe a) : (s.step a).Inv := by
  cases a with
  | user mem gprs => exact ⟨h.agree, h.zero, h.frames⟩
  | sigaction n newAction oldAction =>
    obtain ⟨hblocked, hzero⟩ := sigaction_sig s.rt n newAction oldAction
    refine ⟨?_, hzero h.zero, h.frames⟩
    show Agree (s.rt.sigaction n newAction oldAction).1.currentSig.blocked s.mask
    rw [hblocked]
    exact h.agree
  | sigprocmask how set oldset sigsetsize => exact h.sigprocmask how set oldset sigsetsize hsafe
  | post n =>
    rw [SigRun.step]
    split
    · exact h
    · rename_i hn
      have hsig : (s.rt.setCurrentSig (s.sig.post n)).currentSig = s.sig.post n :=
        Runtime.setCurrentSig_currentSig _ _
      refine ⟨?_, ?_, h.frames⟩
      · rw [sig, hsig]
        exact h.agree
      · have hpos : n.val ≠ 0 := fun hz => hn (Fin.ext hz)
        rw [sig, hsig, SigState.post, BitVec.getLsbD_or, h.zero, BitVec.getLsbD_twoPow, decide_eq_false hpos]
        simp
  | deliver sepc => exact h.deliver sepc hsafe
  | sigreturn =>
    cases hf : s.restored with
    | none => exact absurd hf hbuilt
    | some f =>
      have hmatch := List.find?_some hf
      rw [Bool.and_eq_true, beq_iff_eq, beq_iff_eq] at hmatch
      obtain ⟨haddr, hword⟩ := hmatch
      have hsig := restoreFrame_sig s.rt
      rw [SigRun.step, hf]
      refine ⟨?_, ?_, h.frames⟩
      · rw [sig, hsig, hword, ← haddr]
        exact h.frames f (List.mem_of_find?_eq_some hf)
      · rw [sig, hsig]
        exact h.zero

end SigRun

/-- For every run of calls, posts, deliveries and returns from a process that blocks nothing, with
the frames as they were built and all steps safe: the signal taken is the lowest one pending that
Linux would not block, SIGKILL and SIGSTOP are never blocked, and old sets are what Linux would
report. -/
theorem sigmask_follows_linux (s : SigRun) (l : List SigStep) (hsig : s.sig.blocked = 0 ∧ s.sig.pending = 0)
    (hmask : s.mask = 0) (hframes : s.frames = []) (hbuilt : Run.Along SigRun.step SigRun.AsBuilt s l)
    (hsafe : Run.Along SigRun.step SigRun.Safe s l) :
    Run.Always SigRun.step SigRun.MaskOk s l ∧ Run.Along SigRun.step SigRun.OldSetRight s l := by
  have hzero : ∀ n, (0 : Word).getLsbD n = false := fun n => BitVec.getLsbD_zero
  have hstart : s.Inv := by
    refine ⟨?_, ?_, ?_⟩
    · rw [hsig.1, hmask]
      exact ⟨fun n _ _ => by rw [hzero, hzero], fun n _ => rfl, id, hzero 0, hzero 9, hzero 19⟩
    · rw [hsig.2]
      exact hzero 0
    · rw [hframes]
      intro f hf
      cases hf
  have hpromise : Run.Along SigRun.step (fun s a => s.AsBuilt a ∧ s.Safe a) s l := hbuilt.and hsafe
  constructor
  · exact Run.always_of_invariant (fun s a hs h => SigRun.Inv.step hs a h.1 h.2) (fun _ hs => hs.maskOk) hstart
      hpromise
  · exact Run.along_of_promised (fun s a hs h => SigRun.Inv.step hs a h.1 h.2)
      (fun s a hs h => hs.oldSetRight a h.2) hstart hpromise

/-- A process that has just been started. -/
def quietSig : SigRun := ⟨quietBoot.rt, 0, []⟩

/-- A set at `0x1000` and a handler at `0x2000`. -/
def sigMemory (set handler : Word) : Mem := writeLe (writeLe (fun _ => 0) 0x1000 8 set) 0x2000 8 handler

/-- All signals are blocked while signal 14 arrives, and unblocked for its handler. -/
theorem sigmask_follows_linux_blockAll :
    let l : List SigStep :=
      [.user (sigMemory (BitVec.allOnes 64) 0x4000) ⟨fun _ => 0, 0x9000⟩, .sigaction 14 0x2000 0,
        .sigprocmask 0 0x1000 0x1100 8, .post 14, .deliver 0x10000, .sigprocmask 1 0x1000 0 8, .deliver 0x10000,
        .sigreturn]
    Run.Always SigRun.step SigRun.MaskOk quietSig l ∧ Run.Along SigRun.step SigRun.OldSetRight quietSig l :=
  sigmask_follows_linux quietSig _ (by decide) rfl rfl (by decide +kernel) (by decide +kernel)

/-- Signal 2 is blocked by a set in the encoding of Linux, posted, and taken all the same. -/
theorem blocked_signal_taken :
    ¬ Run.Always SigRun.step SigRun.MaskOk quietSig
      [.user (sigMemory 2 0) ⟨fun _ => 0, 0x9000⟩, .sigprocmask 0 0x1000 0 8, .post 2] := by
  intro h
  have htaken := h.last.taken
  generalize hs : List.foldl _ _ _ = s at htaken
  have hnext : s.sig.takePending.map Prod.snd = some 2 := by
    rw [← hs]
    decide +kernel
  have hmask : linuxHas s.mask 2 = true := by
    rw [← hs]
    decide +kernel
  obtain ⟨⟨st, n⟩, htake, rfl⟩ := Option.map_eq_some_iff.mp hnext
  rw [(htaken st 2 htake).2] at hmask
  cases hmask

end Pyremu.Sittim
