import Pyremu.Sittim.SigMask
import Pyremu.Lib.Run

/-!
# Frames of nested signals

A frame is put below the user's stack pointer. While handlers only move further
down and leave the frames alone, each return finds what was saved last. The
place of a frame is computed modulo the address space, so it is below the stack
pointer only where there is room.
-/

namespace Pyremu.Sittim

open ByteMem (Mem readLe writeLe writeLe_other readLe_congr readLe_writeLe_eight)

/-- Where `build_frame` puts the frame. -/
def frameOf (usp : Word) : Word := (usp - 704) &&& ~~~(15 : Word)

/-- The byte is one of the frame. -/
def InFrame (frame va : Word) : Prop := (va - frame).toNat < 704

/-- What one delivery saves. -/
structure Saved where
  sepc : Word
  gprs : TrapGprs
  blocked : Word

namespace Saved

def frame (sv : Saved) : Word := frameOf sv.gprs.spBeforeTrap

/-- The frame holds what was saved. -/
structure Held (sv : Saved) (m : Mem) : Prop where
  sepc : readU64 m (sv.frame + 8) = sv.sepc
  blocked : readU64 m (sv.frame + 24) = sv.blocked
  regs : (readGprs m (sv.frame + 32)).regs = sv.gprs.regs
  usp : readU64 m (sv.frame + 296) = sv.gprs.spBeforeTrap

end Saved

/-- The runtime, and what the deliveries saved that have not returned, the last one first. -/
structure Nest where
  rt : Runtime
  saved : List Saved

inductive NestOp where
  /-- Whatever happens between, in the handlers and elsewhere. -/
  | run (rt : Runtime)
  | deliver (sig : Fin 32) (handler sepc : Word)
  | ret

namespace Nest

def step (n : Nest) : NestOp → Nest
  | .run rt => { n with rt := rt }
  | .deliver sig handler sepc =>
    ⟨(n.rt.buildFrame sig handler sepc).1, ⟨sepc, n.rt.gprs, n.rt.currentSig.blocked⟩ :: n.saved⟩
  | .ret => ⟨n.rt.restoreFrame.1, n.saved.tail⟩

/-- Handlers do not write the frames and move the stack pointer only down; at a return it is back at the frame. -/
def Downward (n : Nest) : NestOp → Prop
  | .run rt => ∀ sv ∈ n.saved, ∀ va, InFrame sv.frame va → rt.mem va.toNat = n.rt.mem va.toNat
  | .deliver _ _ _ => ∀ sv ∈ n.saved.head?, n.rt.gprs.spBeforeTrap ≤ sv.frame
  | .ret => ∃ sv ∈ n.saved.head?, n.rt.gprs.spBeforeTrap = sv.frame

/-- A new frame shares no byte with the interrupted stack and the other frames, and a return gives back what the
matching delivery saved. -/
def Restores (n : Nest) : NestOp → Prop
  | .run _ => True
  | .deliver _ _ _ => ∀ va, InFrame (frameOf n.rt.gprs.spBeforeTrap) va →
      ¬ n.rt.gprs.spBeforeTrap ≤ va ∧ ∀ sv ∈ n.saved, ¬ InFrame sv.frame va
  | .ret => ∀ sv ∈ n.saved.head?, n.rt.restoreFrame.2 = sv.sepc ∧ n.rt.restoreFrame.1.gprs = sv.gprs ∧
      n.rt.restoreFrame.1.currentSig.blocked = sv.blocked

/-- There is room for a frame below the stack pointer. -/
def HasRoom (n : Nest) : NestOp → Prop
  | .deliver _ _ _ => 704 ≤ n.rt.gprs.spBeforeTrap.toNat
  | _ => True

end Nest

/-! ## The place of a frame -/

variable {usp frame va : Word} {m m' : Mem}

theorem frameOf_toNat (h : 704 ≤ usp.toNat) : (frameOf usp).toNat = (usp.toNat - 704) / 16 * 16 := by
  have hsub : (usp - 704).toNat = usp.toNat - 704 := by
    rw [BitVec.toNat_sub, show (704 : Word).toNat = 704 from rfl]
    omega
  rw [frameOf, BitFields.toNat_and_not_mask (n := 4) rfl, hsub]
  rfl

/-- Without room the frame is at the other end of the address space. -/
theorem frameOf_wraps (h : usp.toNat < 704) : usp ≤ frameOf usp := by
  have hsub : (usp - 704).toNat = 2 ^ 64 - 704 + usp.toNat := by
    rw [BitVec.toNat_sub, show (704 : Word).toNat = 704 from rfl]
    omega
  rw [BitVec.le_def, frameOf, BitFields.toNat_and_not_mask (n := 4) rfl, hsub]
  omega

theorem inFrame_iff (h : frame.toNat + 704 ≤ 2 ^ 64) :
    InFrame frame va ↔ frame.toNat ≤ va.toNat ∧ va.toNat < frame.toNat + 704 := by
  rw [InFrame, BitVec.toNat_sub]
  have hva := va.isLt
  omega

theorem inFrame_self (frame : Word) : InFrame frame frame := by
  rw [InFrame, BitVec.sub_self]
  decide

/-- An offset into a frame that does not wrap. -/
theorem frame_add (h : frame.toNat + 704 ≤ 2 ^ 64) {k : Nat} (hk : k < 704) :
    (frame + BitVec.ofNat 64 k).toNat = frame.toNat + k := by
  rw [BitVec.toNat_add, BitVec.toNat_ofNat]
  omega

/-! ## The bytes of a frame -/

theorem readU64_congr {addr : Word} (h : ∀ i < 8, m (addr.toNat + i) = m' (addr.toNat + i)) :
    readU64 m addr = readU64 m' addr := readLe_congr h

theorem writeWords_read {ws : List Word} {addr : Word} (h : addr.toNat + 8 * ws.length ≤ 2 ^ 64) {k : Nat}
    (hk : k < ws.length) : readU64 (writeWords m addr ws) (addr + BitVec.ofNat 64 (8 * k)) = ws[k] := by
  induction ws generalizing m addr k with
  | nil => cases hk
  | cons w ws ih =>
    rw [List.length_cons] at h hk
    cases k with
    | zero =>
      rw [writeWords, Nat.mul_zero, BitVec.add_zero]
      refine Eq.trans (readU64_congr fun i hi => ?_) (readLe_writeLe_eight m addr.toNat w)
      rw [writeWords_other]
      · rfl
      · intro j hj
        left
        have hnext : (addr + 8 + BitVec.ofNat 64 (8 * j)).toNat = addr.toNat + 8 + 8 * j := by
          rw [BitVec.toNat_add, BitVec.toNat_add, BitVec.toNat_ofNat, show (8 : Word).toNat = 8 from rfl]
          omega
        rw [hnext]
        omega
    | succ k =>
      have haddr : addr + BitVec.ofNat 64 (8 * (k + 1)) = addr + 8 + BitVec.ofNat 64 (8 * k) := by
        rw [Nat.mul_succ, Nat.add_comm, BitVec.ofNat_add, BitVec.add_assoc]
        rfl
      have h8 : (addr + 8).toNat = addr.toNat + 8 := by
        rw [BitVec.toNat_add, show (8 : Word).toNat = 8 from rfl]
        omega
      rw [writeWords, haddr, ih (by omega) (Nat.lt_of_succ_lt_succ hk), List.getElem_cons_succ]

/-- A register of the snapshot by its offset in the frame. -/
theorem readGprs_regs (r : Fin 32) :
    (readGprs m (frame + 32)).regs r = readU64 m (frame + BitVec.ofNat 64 (32 + 8 * r)) := by
  have haddr : frame + 32 + 8 * BitVec.ofNat 64 r = frame + BitVec.ofNat 64 (32 + 8 * r) := by
    have hmul : (8 : Word) * BitVec.ofNat 64 r = BitVec.ofNat 64 (8 * r) := by
      rw [BitVec.ofNat_mul]
      rfl
    rw [hmul, BitVec.ofNat_add, BitVec.add_assoc]
    rfl
  rw [← haddr]
  rfl

/-- The words that `build_frame` writes before offset 296. -/
def savedMem (m : Mem) (frame sepc sstatus blocked : Word) (g : TrapGprs) : Mem :=
  writeGprs
    (writeU64 (writeU64 (writeU64 (writeU64 m frame Runtime.SIGNAL_RESTORE_CODE) (frame + 8) sepc) (frame + 16) sstatus)
      (frame + 24) blocked)
    (frame + 32) g

/-- What `build_frame` writes. -/
def frameMem (m : Mem) (frame : Word) (sig : Fin 32) (sepc sstatus blocked : Word) (g : TrapGprs) : Mem :=
  zeroBytes
    (writeLe
      (writeLe
        (zeroBytes (writeU64 (savedMem m frame sepc sstatus blocked g) (frame + 296) g.spBeforeTrap)
          (frame + 304).toNat 128)
        (frame + 304).toNat 4 (BitVec.ofNat 64 sig))
      (frame + 312).toNat 4 0)
    (frame + 432).toNat 256

theorem buildFrame_mem (s : Runtime) (sig : Fin 32) (handler sepc : Word) :
    (s.buildFrame sig handler sepc).1.mem =
      frameMem s.mem (frameOf s.gprs.spBeforeTrap) sig sepc s.sstatus s.currentSig.blocked s.gprs := rfl

section FrameMem

variable (h : frame.toNat + 704 ≤ 2 ^ 64) (sig : Fin 32) (sepc sstatus blocked : Word) (g : TrapGprs)
include h

/-- The registers are 33 words. -/
theorem writeGprs_other {i : Nat} (hi : i < frame.toNat + 32 ∨ frame.toNat + 296 ≤ i) :
    writeGprs m (frame + 32) g i = m i := by
  rw [writeGprs, writeWords_other]
  intro k hk
  rw [List.length_append, List.length_ofFn, List.length_singleton] at hk
  have haddr : (frame + 32 + BitVec.ofNat 64 (8 * k)).toNat = frame.toNat + 32 + 8 * k := by
    rw [BitVec.toNat_add, show (frame + 32).toNat = frame.toNat + 32 from frame_add h (by decide), BitVec.toNat_ofNat]
    omega
  rw [haddr]
  omega

theorem savedMem_other {i : Nat} (hi : i < frame.toNat ∨ frame.toNat + 296 ≤ i) :
    savedMem m frame sepc sstatus blocked g i = m i := by
  have h8 : (frame + 8).toNat = frame.toNat + 8 := frame_add h (by decide)
  have h16 : (frame + 16).toNat = frame.toNat + 16 := frame_add h (by decide)
  have h24 : (frame + 24).toNat = frame.toNat + 24 := frame_add h (by decide)
  rw [savedMem, writeGprs_other h g (by omega), writeU64, writeLe_other (by omega), writeU64, writeLe_other (by omega),
    writeU64, writeLe_other (by omega), writeU64, writeLe_other (by omega)]

/-- Behind the stack pointer there are only the `siginfo` and the `ucontext`. -/
theorem frameMem_eq {i : Nat} (hi : i < frame.toNat + 304 ∨ frame.toNat + 704 ≤ i) :
    frameMem m frame sig sepc sstatus blocked g i =
      writeU64 (savedMem m frame sepc sstatus blocked g) (frame + 296) g.spBeforeTrap i := by
  have h304 : (frame + 304).toNat = frame.toNat + 304 := frame_add h (by decide)
  have h312 : (frame + 312).toNat = frame.toNat + 312 := frame_add h (by decide)
  have h432 : (frame + 432).toNat = frame.toNat + 432 := frame_add h (by decide)
  rw [frameMem, zeroBytes_other (by omega), writeLe_other (by omega), writeLe_other (by omega),
    zeroBytes_other (by omega)]

theorem frameMem_low {i : Nat} (hi : i < frame.toNat + 296) :
    frameMem m frame sig sepc sstatus blocked g i = savedMem m frame sepc sstatus blocked g i := by
  have h296 : (frame + 296).toNat = frame.toNat + 296 := frame_add h (by decide)
  rw [frameMem_eq h sig sepc sstatus blocked g (by omega), writeU64, writeLe_other (by omega)]

/-- Nothing outside the frame is written. -/
theorem frameMem_other {i : Nat} (hi : i < frame.toNat ∨ frame.toNat + 704 ≤ i) :
    frameMem m frame sig sepc sstatus blocked g i = m i := by
  have h296 : (frame + 296).toNat = frame.toNat + 296 := frame_add h (by decide)
  rw [frameMem_eq h sig sepc sstatus blocked g (by omega), writeU64, writeLe_other (by omega),
    savedMem_other h sepc sstatus blocked g (by omega)]

theorem frameMem_sepc : readU64 (frameMem m frame sig sepc sstatus blocked g) (frame + 8) = sepc := by
  have h8 : (frame + 8).toNat = frame.toNat + 8 := frame_add h (by decide)
  have h16 : (frame + 16).toNat = frame.toNat + 16 := frame_add h (by decide)
  have h24 : (frame + 24).toNat = frame.toNat + 24 := frame_add h (by decide)
  refine Eq.trans (readU64_congr fun i hi => ?_)
    (readLe_writeLe_eight (writeU64 m frame Runtime.SIGNAL_RESTORE_CODE) (frame + 8).toNat sepc)
  rw [frameMem_low h sig sepc sstatus blocked g (by omega), savedMem, writeGprs_other h g (by omega), writeU64,
    writeLe_other (by omega), writeU64, writeLe_other (by omega)]
  rfl

theorem frameMem_usp : readU64 (frameMem m frame sig sepc sstatus blocked g) (frame + 296) = g.spBeforeTrap := by
  have h296 : (frame + 296).toNat = frame.toNat + 296 := frame_add h (by decide)
  have hread := readLe_writeLe_eight (savedMem m frame sepc sstatus blocked g) (frame + 296).toNat g.spBeforeTrap
  refine Eq.trans (readU64_congr fun i hi => ?_) hread
  rw [frameMem_eq h sig sepc sstatus blocked g (by omega)]
  rfl

theorem frameMem_regs : (readGprs (frameMem m frame sig sepc sstatus blocked g) (frame + 32)).regs = g.regs := by
  funext r
  have h32 : (frame + 32).toNat = frame.toNat + 32 := frame_add h (by decide)
  have hr := r.isLt
  have hlen : (List.ofFn g.regs ++ [g.spBeforeTrap]).length = 33 := by
    rw [List.length_append, List.length_ofFn, List.length_singleton]
  have haddr : frame + BitVec.ofNat 64 (32 + 8 * r) = frame + 32 + BitVec.ofNat 64 (8 * r) := by
    rw [BitVec.ofNat_add, BitVec.add_assoc]
    rfl
  have hat : (frame + BitVec.ofNat 64 (32 + 8 * r)).toNat = frame.toNat + (32 + 8 * r) := frame_add h (by omega)
  have hcongr : readU64 (frameMem m frame sig sepc sstatus blocked g) (frame + BitVec.ofNat 64 (32 + 8 * r)) =
      readU64 (savedMem m frame sepc sstatus blocked g) (frame + BitVec.ofNat 64 (32 + 8 * r)) :=
    readU64_congr fun i hi => frameMem_low h sig sepc sstatus blocked g (by omega)
  have hlt : r.val < (List.ofFn g.regs ++ [g.spBeforeTrap]).length := by omega
  rw [readGprs_regs, hcongr, haddr, savedMem, writeGprs, writeWords_read (by omega) hlt,
    List.getElem_append_left (by rw [List.length_ofFn]; exact hr), List.getElem_ofFn]

end FrameMem

/-! ## One step -/

namespace Saved

variable {sv : Saved}

theorem frame_bound (h : 704 ≤ sv.gprs.spBeforeTrap.toNat) : sv.frame.toNat + 704 ≤ sv.gprs.spBeforeTrap.toNat := by
  rw [frame, frameOf_toNat h]
  omega

theorem frame_end (h : 704 ≤ sv.gprs.spBeforeTrap.toNat) : sv.frame.toNat + 704 ≤ 2 ^ 64 :=
  (frame_bound h).trans sv.gprs.spBeforeTrap.isLt.le

/-- The frame is all that matters. -/
theorem Held.congr (h : sv.Held m) (hroom : 704 ≤ sv.gprs.spBeforeTrap.toNat)
    (hm : ∀ i < 704, m' (sv.frame.toNat + i) = m (sv.frame.toNat + i)) : sv.Held m' := by
  have hend := frame_end hroom
  have hread : ∀ k, k + 8 ≤ 704 → readU64 m' (sv.frame + BitVec.ofNat 64 k) = readU64 m (sv.frame + BitVec.ofNat 64 k) := by
    intro k hk
    apply readU64_congr
    intro i hi
    rw [frame_add hend (by omega), Nat.add_assoc]
    exact hm (k + i) (by omega)
  refine ⟨(hread 8 (by decide)).trans h.sepc, (hread 24 (by decide)).trans h.blocked, ?_, (hread 296 (by decide)).trans h.usp⟩
  rw [← h.regs]
  funext r
  have hr := r.isLt
  rw [readGprs_regs, readGprs_regs, hread _ (by omega)]

end Saved

namespace Nest

variable {n : Nest} {a : NestOp} {sv : Saved}

/-- The frames hold what was saved and lie one below the other. -/
structure Inv (n : Nest) : Prop where
  room : ∀ sv ∈ n.saved, 704 ≤ sv.gprs.spBeforeTrap.toNat
  held : ∀ sv ∈ n.saved, sv.Held n.rt.mem
  below : n.saved.Pairwise fun sv old => sv.frame.toNat + 704 ≤ old.frame.toNat

theorem buildFrame_held (s : Runtime) (sig : Fin 32) (handler sepc : Word) (hroom : 704 ≤ s.gprs.spBeforeTrap.toNat) :
    (⟨sepc, s.gprs, s.currentSig.blocked⟩ : Saved).Held (s.buildFrame sig handler sepc).1.mem := by
  have hend : (frameOf s.gprs.spBeforeTrap).toNat + 704 ≤ 2 ^ 64 :=
    @Saved.frame_end ⟨sepc, s.gprs, s.currentSig.blocked⟩ hroom
  constructor
  · rw [buildFrame_mem]
    exact frameMem_sepc hend sig sepc _ _ _
  · exact buildFrame_mask s sig handler sepc
  · rw [buildFrame_mem]
    exact frameMem_regs hend sig sepc _ _ _
  · rw [buildFrame_mem]
    exact frameMem_usp hend sig sepc _ _ _

/-- The frame of a delivery lies below all that are there. -/
theorem Inv.delivered_below (h : n.Inv) (hroom : 704 ≤ n.rt.gprs.spBeforeTrap.toNat)
    (hdown : ∀ sv ∈ n.saved.head?, n.rt.gprs.spBeforeTrap ≤ sv.frame) (hsv : sv ∈ n.saved) :
    (frameOf n.rt.gprs.spBeforeTrap).toNat + 704 ≤ sv.frame.toNat := by
  have hframe : (frameOf n.rt.gprs.spBeforeTrap).toNat + 704 ≤ n.rt.gprs.spBeforeTrap.toNat :=
    @Saved.frame_bound ⟨0, n.rt.gprs, 0⟩ hroom
  have hbelow := h.below
  cases hsaved : n.saved with
  | nil =>
    rw [hsaved] at hsv
    cases hsv
  | cons top rest =>
    rw [hsaved] at hsv hdown hbelow
    have htop : n.rt.gprs.spBeforeTrap.toNat ≤ top.frame.toNat := BitVec.le_def.mp (hdown top rfl)
    rcases List.mem_cons.mp hsv with rfl | hsv
    · omega
    · have hrest := List.rel_of_pairwise_cons hbelow hsv
      omega

theorem Inv.step (h : n.Inv) (hdown : n.Downward a) (hroom : n.HasRoom a) : (n.step a).Inv := by
  cases a with
  | run rt =>
    refine ⟨h.room, fun sv hsv => ?_, h.below⟩
    apply (h.held sv hsv).congr (h.room sv hsv)
    intro i hi
    have hend := Saved.frame_end (h.room sv hsv)
    have haddr := frame_add hend hi
    rw [← haddr]
    apply hdown sv hsv
    rw [inFrame_iff hend, haddr]
    omega
  | deliver sig handler sepc =>
    have hbelow : ∀ sv ∈ n.saved, (frameOf n.rt.gprs.spBeforeTrap).toNat + 704 ≤ sv.frame.toNat :=
      fun _ hsv => h.delivered_below hroom hdown hsv
    have hend : (frameOf n.rt.gprs.spBeforeTrap).toNat + 704 ≤ 2 ^ 64 :=
      @Saved.frame_end ⟨sepc, n.rt.gprs, n.rt.currentSig.blocked⟩ hroom
    refine ⟨List.forall_mem_cons.mpr ⟨hroom, h.room⟩, List.forall_mem_cons.mpr ⟨?_, fun sv hsv => ?_⟩,
      List.pairwise_cons.mpr ⟨hbelow, h.below⟩⟩
    · exact buildFrame_held n.rt sig handler sepc hroom
    · apply (h.held sv hsv).congr (h.room sv hsv)
      intro i _
      have hb := hbelow sv hsv
      rw [Nest.step, buildFrame_mem, frameMem_other hend sig sepc _ _ _ (by omega)]
  | ret =>
    refine ⟨fun sv hsv => h.room sv (List.mem_of_mem_tail hsv), fun sv hsv => ?_, h.below.tail⟩
    exact h.held sv (List.mem_of_mem_tail hsv)

/-- A return reads what the frame at the stack pointer holds. -/
theorem restoreFrame_held {s : Runtime} (h : sv.Held s.mem) (hsp : s.gprs.spBeforeTrap = sv.frame) :
    s.restoreFrame.2 = sv.sepc ∧ s.restoreFrame.1.gprs = sv.gprs ∧ s.restoreFrame.1.currentSig.blocked = sv.blocked := by
  refine ⟨?_, ?_, ?_⟩
  · rw [Runtime.restoreFrame, hsp]
    exact h.sepc
  · have hgprs : s.restoreFrame.1.gprs =
        ⟨(readGprs s.mem (s.gprs.spBeforeTrap + 32)).regs, readU64 s.mem (s.gprs.spBeforeTrap + 296)⟩ :=
      Function.update_self ..
    rw [hgprs, hsp, h.regs, h.usp]
  · rw [restoreFrame_sig, hsp]
    exact h.blocked

theorem Inv.restores_iff (h : n.Inv) (hdown : n.Downward a) : n.HasRoom a ↔ n.Restores a := by
  cases a with
  | run rt => exact iff_of_true trivial trivial
  | deliver sig handler sepc =>
    constructor
    · intro hroom va hva
      have hend : (frameOf n.rt.gprs.spBeforeTrap).toNat + 704 ≤ 2 ^ 64 :=
        @Saved.frame_end ⟨sepc, n.rt.gprs, n.rt.currentSig.blocked⟩ hroom
      have hframe : (frameOf n.rt.gprs.spBeforeTrap).toNat + 704 ≤ n.rt.gprs.spBeforeTrap.toNat :=
        @Saved.frame_bound ⟨sepc, n.rt.gprs, n.rt.currentSig.blocked⟩ hroom
      rw [inFrame_iff hend] at hva
      refine ⟨fun hle => ?_, fun sv hsv hin => ?_⟩
      · have hle := BitVec.le_def.mp hle
        omega
      · have hbelow := h.delivered_below hroom hdown hsv
        rw [inFrame_iff (Saved.frame_end (h.room sv hsv))] at hin
        omega
    · intro hrestores
      by_contra hroom
      exact (hrestores _ (inFrame_self _)).1 (frameOf_wraps (Nat.lt_of_not_le hroom))
  | ret =>
    refine iff_of_true trivial fun sv hsv => ?_
    obtain ⟨top, htop, hsp⟩ := hdown
    obtain rfl : sv = top := Option.some.inj (hsv.symm.trans htop)
    exact restoreFrame_held (h.held sv (List.mem_of_mem_head? hsv)) hsp

end Nest

/-- In every run of nested deliveries and returns each frame is apart from the interrupted stack and the other frames,
and each return gives back what the matching delivery saved, exactly when every delivery finds room below the stack
pointer. -/
theorem signal_frames_lifo_iff (s : Runtime) (l : List NestOp) (hl : Run.Along Nest.step Nest.Downward ⟨s, []⟩ l) :
    Run.Along Nest.step Nest.Restores ⟨s, []⟩ l ↔ Run.Along Nest.step Nest.HasRoom ⟨s, []⟩ l :=
  (Run.along_iff_of_kept (I := Nest.Inv) (fun _ _ h hdown => h.restores_iff hdown)
    (fun _ _ h hdown hroom => h.step hdown hroom) ⟨fun _ h => (by cases h), fun _ h => (by cases h), .nil⟩ hl).symm

/-- A process that runs with the stack pointer at `sp`. -/
def stackAt (sp : Word) : Runtime := quietBoot.rt.setGprs ⟨fun _ => sp, sp⟩

/-- Signal 2 arrives in the handler of signal 14. -/
def twoSignals : List NestOp := [.deliver 14 0x4000 0x10000, .deliver 2 0x5000 0x4000, .ret, .ret]

theorem twoSignals_lifo : Run.Along Nest.step Nest.Restores ⟨stackAt 0x9000, []⟩ twoSignals :=
  (signal_frames_lifo_iff (stackAt 0x9000) twoSignals
    ⟨fun _ h => (by cases h), fun sv h => (by cases h; decide +kernel), ⟨_, rfl, by decide +kernel⟩,
      ⟨_, rfl, by decide +kernel⟩, trivial⟩).mpr
    ⟨show 704 ≤ _ by decide +kernel, show 704 ≤ _ by decide +kernel, trivial, trivial, trivial⟩

/-- With the stack pointer at 512 the frame wraps around to the top of the address space. -/
theorem frame_wraps :
    Run.Along Nest.step Nest.Downward ⟨stackAt 512, []⟩ [.deliver 14 0x4000 0x10000] ∧
      ¬ Run.Along Nest.step Nest.Restores ⟨stackAt 512, []⟩ [.deliver 14 0x4000 0x10000] := by
  refine ⟨⟨fun _ h => (by cases h), trivial⟩, fun h => ?_⟩
  exact (h.1 _ (inFrame_self _)).1 (by decide +kernel)

end Pyremu.Sittim
