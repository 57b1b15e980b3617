import Pyremu.UartPython

/-!
# From the keyboard to the guest

The input thread delivers to the ring, `drain_rx` moves bytes from the ring to
the queue of the serial device, and the guest reads them from RXDATA. Rounds of
the thread, drains and guest accesses take turns in any order; only an accepted
`clear_rx` discards bytes.
-/

namespace Pyremu

open Termio (Session)

/-- `gone` are the bytes that left the queue, `true` for those the guest has read. -/
structure Serial where
  session : Session
  uart : PyUart
  gone : List (Bool × BitVec 8)

inductive SerialOp where
  /-- A round of the input thread; its reader is `drain_rx`. -/
  | round (chunk : List (BitVec 8)) (frees : List Nat)
  | drain
  | read (offset size : Nat)
  | write (offset : Nat) (val : Word)
  | clear
  /-- An access of the PLIC, or a level of another device. -/
  | plic (a : PlicAct)

namespace Serial

/-- The reader goes on to where the ring stands. -/
def advance (s : Session) (rx : RingBuf (BitVec 8) 32) : Session :=
  { s with
    io := { s.io with rx := rx }
    taken := s.taken ++ s.io.rx.contents.take (rx.rd - s.io.rx.rd).toNat }

def step (s : Serial) : SerialOp → Serial
  | .round chunk frees =>
    let taken := (s.session.io.round chunk frees).2.taken
    { s with
      session := s.session.step (.round chunk frees)
      uart := taken.foldl (fun u b => (u.preload [b]).1) s.uart }
  | .drain =>
    let r := PyUart.drainRx s.session.io.rx s.uart
    { s with session := advance s.session r.1, uart := r.2 }
  | .read offset size =>
    let r := PyUart.read s.session.io.rx s.uart offset size
    { session := advance s.session r.1
      uart := r.2.1
      gone := s.gone ++ if offset = 4 then s.uart.rxFifo.head?.toList.map fun b => (true, b) else [] }
  | .write offset val => { s with uart := s.uart.writeReg offset val }
  | .clear => { s with uart := s.uart.clearRx, gone := s.gone ++ s.uart.rxFifo.map fun b => (false, b) }
  | .plic a => { s with uart := { s.uart with plic := (PlicPy.access s.uart.plic .native a).1 } }

/-- During a round the reader takes what the queue has room for; nobody else drives the source. -/
def Promised (s : Serial) : SerialOp → Prop
  | .round chunk frees => s.uart.rxFifo.length + (s.session.io.round chunk frees).2.taken.length ≤ RX_FIFO_SIZE
  | .plic a => ∀ high, a ≠ .setIrq s.uart.irq high
  | _ => True

/-- All the thread has delivered has left the queue, or stands in the queue or in the ring, in this
order; what it has not delivered is held back or was a stop byte. The PLIC has the line at its level. -/
structure Faithful (s : Serial) : Prop where
  path : s.session.delivered = s.gone.map Prod.snd ++ s.uart.rxFifo ++ s.session.io.rx.contents
  typed : Termio.Strips s.session.input (s.session.delivered ++ s.session.io.recv)
  room : s.uart.rxFifo.length ≤ RX_FIFO_SIZE
  line : 0 < s.uart.irq → s.uart.irq ≤ s.uart.plic.numSources →
    s.uart.plic.level s.uart.irq = s.uart.irqAsserted

/-- Four bytes of RXDATA are the next byte, or say that there is none; what the engine answers in
place is what the device answers. -/
def Answers (s : Serial) : SerialOp → Prop
  | .read offset size => size = 4 →
    (offset = 4 → (PyUart.read s.session.io.rx s.uart offset size).2.2 =
      match s.uart.rxFifo.head? with
      | none => UART_RXFIFO_EMPTY
      | some b => b.setWidth 64) ∧
    ∀ v, handleUartRead offset s.uart.ffi = some v →
      PyUart.read s.session.io.rx s.uart offset size = (s.session.io.rx, s.uart, v)
  | _ => True

structure Inv (s : Serial) : Prop where
  session : s.session.Inv
  synced : s.uart.Synced
  taken : s.session.taken = s.gone.map Prod.snd ++ s.uart.rxFifo

section Steps

variable {s : Serial}

theorem Inv.faithful (h : s.Inv) : s.Faithful := by
  refine ⟨?_, h.session.strips, h.synced.room, h.synced.line⟩
  rw [h.session.ring, h.taken]

theorem byte_mask (b : BitVec 8) : b.setWidth 64 &&& BitVec.ofNat 64 (2 ^ (4 * 8) - 1) = b.setWidth 64 := by
  apply BitVec.eq_of_toNat_eq
  have hlt := b.isLt
  rw [BitVec.toNat_and, BitVec.toNat_setWidth_of_le (by decide), BitVec.toNat_ofNat,
    Nat.mod_eq_of_lt (show 2 ^ (4 * 8) - 1 < 2 ^ 64 by decide), Nat.and_two_pow_sub_one_eq_mod,
    Nat.mod_eq_of_lt (by omega)]

theorem Inv.answers (h : s.Inv) (op : SerialOp) : s.Answers op := by
  cases op with
  | read offset size =>
    rintro rfl
    refine ⟨?_, fun v => PyUart.engine_answers h.synced _⟩
    rintro rfl
    rcases h.synced.readRxdata s.session.io.rx with ⟨hf, hr⟩ | ⟨b, rest, hf, hr, _⟩
    · change (PyUart.readRxdata s.session.io.rx s.uart).2.2 &&& _ = _
      rw [hr, hf]
      exact (by decide : UART_RXFIFO_EMPTY &&& BitVec.ofNat 64 (2 ^ (4 * 8) - 1) = UART_RXFIFO_EMPTY)
    · change (PyUart.readRxdata s.session.io.rx s.uart).2.2 &&& _ = _
      rw [hr, hf]
      exact byte_mask b
  | round chunk frees => trivial
  | drain => trivial
  | write offset val => trivial
  | clear => trivial
  | plic a => trivial

/-- Freeing `n` bytes of the ring, as the thread's own reader does. -/
theorem advance_pop {t : Session} {n : Nat} (hn : n ≤ t.io.rx.used) :
    advance t (t.io.rx.pop n) = t.step (.free n) := by
  have hlt : n < 2 ^ 32 := hn.trans_lt (t.io.rx.wr - t.io.rx.rd).isLt
  have hgap : ((t.io.rx.pop n).rd - t.io.rx.rd).toNat = n := by
    change (t.io.rx.rd + BitVec.ofNat 32 n - t.io.rx.rd).toNat = n
    rw [BitVec.add_comm, BitVec.add_sub_cancel, BitVec.toNat_ofNat, Nat.mod_eq_of_lt hlt]
  rw [advance, hgap, Session.step, Nat.min_eq_left hn]

theorem advance_self (t : Session) : advance t t.io.rx = t := by
  rw [advance, BitVec.sub_self]
  change { t with taken := t.taken ++ t.io.rx.contents.take 0 } = t
  rw [List.take_zero, List.append_nil]

theorem taken_free {t : Session} {n : Nat} (hn : n ≤ t.io.rx.used) :
    (t.step (.free n)).taken = t.taken ++ t.io.rx.contents.take n := by
  rw [Session.step, Nat.min_eq_left hn]

theorem takes_le (rx : RingBuf (BitVec 8) 32) (u : PyUart) : PyUart.takes rx u ≤ rx.used := Nat.min_le_left ..

theorem Inv.drain (h : s.Inv) : (s.step .drain).Inv := by
  obtain ⟨hring, hfifo, _, hsync, _⟩ := PyUart.drainRx_spec s.session.io.rx h.synced.toWithin
  have hn := takes_le s.session.io.rx s.uart
  refine ⟨?_, hsync h.synced, ?_⟩
  · simp only [step, hring, advance_pop hn]
    exact h.session.free _
  · simp only [step, hring, advance_pop hn, taken_free hn, hfifo, h.taken, List.append_assoc]

theorem Inv.read (h : s.Inv) (offset size : Nat) : (s.step (.read offset size)).Inv := by
  by_cases h4 : offset = 4
  · subst h4
    rcases h.synced.readRxdata s.session.io.rx with ⟨hf, hr⟩ | ⟨b, rest, hf, _, hring, hfifo, hsync, _⟩
    · have hstep : s.step (.read 4 size) = s := by
        simp only [step, PyUart.read, PyUart.readReg, if_pos, hr, hf, advance_self]
        simp
      rw [hstep]
      exact h
    · have hn := takes_le s.session.io.rx { s.uart with rxFifo := rest }
      refine ⟨?_, hsync, ?_⟩
      · simp only [step, PyUart.read, PyUart.readReg, if_pos, hring, advance_pop hn]
        exact h.session.free _
      · simp only [step, PyUart.read, PyUart.readReg, if_pos, hring, advance_pop hn, taken_free hn, hfifo,
          h.taken, hf]
        simp
  · obtain ⟨hring, hsame⟩ := PyUart.readReg_other h4 s.session.io.rx s.uart
    have hstep : s.step (.read offset size) = s := by
      simp only [step, PyUart.read, if_neg h4, hring, hsame, advance_self, List.append_nil]
    rw [hstep]
    exact h

theorem foldl_preload {u : PyUart} (h : u.Synced) {l : List (BitVec 8)}
    (hl : u.rxFifo.length + l.length ≤ RX_FIFO_SIZE) :
    (l.foldl (fun u b => (u.preload [b]).1) u).Synced ∧
      (l.foldl (fun u b => (u.preload [b]).1) u).rxFifo = u.rxFifo ++ l := by
  induction l generalizing u with
  | nil => exact ⟨h, (List.append_nil _).symm⟩
  | cons b l ih =>
    rw [List.length_cons] at hl
    obtain ⟨hsync, _, hfifo⟩ := h.toWithin.preload_one (by omega) b
    obtain ⟨hend, hbytes⟩ := ih hsync (by rw [hfifo, List.length_append, List.length_singleton]; omega)
    refine ⟨hend, hbytes.trans ?_⟩
    rw [hfifo, List.append_assoc, List.singleton_append]

/-- Neither accesses of the PLIC nor other devices change the line. -/
theorem level_access {p : Plic} {k : Nat} {a : PlicAct} (ha : ∀ high, a ≠ .setIrq k high) :
    (PlicPy.access p .native a).1.level k = p.level k ∧
      (PlicPy.access p .native a).1.numSources = p.numSources := by
  cases a with
  | setIrq source high =>
    have hne : k ≠ source := fun he => ha high (by rw [he])
    exact ⟨PyUart.level_setIrq_of_ne p high hne, PyUart.numSources_setIrq ..⟩
  | read offset =>
    rw [PlicPy.access]
    cases hc : p.claimContext offset with
    | none =>
      rw [Plic.mmioRead_none hc]
      exact ⟨rfl, rfl⟩
    | some context =>
      rw [Plic.mmioRead_some hc, Plic.doClaim]
      split_ifs <;> exact ⟨rfl, rfl⟩
  | write offset val =>
    rw [PlicPy.access]
    cases hc : p.claimContext offset with
    | none =>
      have hsame := Plic.mmioWrite_none hc val
      exact ⟨congrFun hsame.level k, hsame.numSources⟩
    | some context =>
      rw [Plic.mmioWrite_some hc, Plic.doComplete]
      split_ifs <;> exact ⟨rfl, rfl⟩

theorem deliverLoop_rest (wr : BitVec 32) (rx : RingBuf (BitVec 8) 32) (bs : List (BitVec 8)) :
    (Termio.deliverLoop wr rx bs []).taken = [] := by
  induction bs generalizing rx with
  | nil => rfl
  | cons b bs ih =>
    rw [Termio.deliverLoop]
    simp only [List.headD_nil, Nat.zero_min, List.take_zero, List.tail_nil, List.nil_append]
    split_ifs
    · rfl
    · exact ih _

/-- A round during which the reader rests. -/
theorem promised_rest (h : s.uart.rxFifo.length ≤ RX_FIFO_SIZE) (chunk : List (BitVec 8)) :
    s.Promised (.round chunk []) := by
  have hrest : (s.session.io.round chunk []).2.taken = [] := deliverLoop_rest ..
  change s.uart.rxFifo.length + (s.session.io.round chunk []).2.taken.length ≤ RX_FIFO_SIZE
  rw [hrest]
  exact h

theorem Inv.step (h : s.Inv) {op : SerialOp} (hp : s.Promised op) : (s.step op).Inv := by
  cases op with
  | round chunk frees =>
    obtain ⟨hsync, hfifo⟩ := foldl_preload h.synced hp
    refine ⟨(h.session.round chunk frees).1, hsync, ?_⟩
    simp only [Serial.step, hfifo]
    change s.session.taken ++ (s.session.io.round chunk frees).2.taken = _
    rw [h.taken, List.append_assoc]
  | drain => exact h.drain
  | read offset size => exact h.read offset size
  | write offset val =>
    obtain ⟨hsync, hfifo, _⟩ := h.synced.writeReg offset val
    refine ⟨h.session, hsync, ?_⟩
    simp only [Serial.step, hfifo]
    exact h.taken
  | clear =>
    obtain ⟨hsync, hfifo, _⟩ := h.synced.clearRx
    refine ⟨h.session, hsync, ?_⟩
    simp only [Serial.step, hfifo, List.map_append, List.map_map, Function.comp_def, List.map_id', List.append_nil]
    exact h.taken
  | plic a =>
    obtain ⟨⟨hlt, hroom⟩, ⟨hie, htx, hrx, hlen⟩, hline⟩ := h.synced
    obtain ⟨hlevel, hnum⟩ := level_access (p := s.uart.plic) hp
    refine ⟨h.session, ⟨⟨hlt, hroom⟩, ⟨hie, htx, hrx, hlen⟩, fun hpos hle => ?_⟩, h.taken⟩
    simp only [Serial.step] at hle ⊢
    rw [hnum] at hle
    rw [hlevel]
    exact hline hpos hle

end Steps

/-- A device that has just been built, on a ring of `cap` bytes whose indices stand at `idx`. -/
def start (cap : Nat) (idx : BitVec 32) (irq : Nat) (base : Word) (numSources numContexts : Nat) (ffi : Uart) :
    Serial :=
  ⟨.start cap idx, .init irq (Plic.reset base numSources numContexts) ffi, []⟩

theorem synced_init (irq : Nat) (base : Word) (numSources numContexts : Nat) (ffi : Uart) :
    (PyUart.init irq (Plic.reset base numSources numContexts) ffi).Synced := by
  have hlow : (PyUart.init irq (Plic.reset base numSources numContexts) ffi).irqAsserted = false := by
    apply decide_eq_false
    exact not_not_intro BitVec.and_zero
  exact ⟨⟨show 0 < 4 by decide, Nat.zero_le _⟩, ⟨rfl, rfl, rfl, rfl⟩, fun _ _ => hlow.symm⟩

theorem inv_start {k : Nat} (hk : k < 32) (idx : BitVec 32) (irq : Nat) (base : Word) (numSources numContexts : Nat)
    (ffi : Uart) : (start (2 ^ k) idx irq base numSources numContexts ffi).Inv :=
  ⟨Termio.Session.inv_start hk idx, synced_init irq base numSources numContexts ffi, rfl⟩

end Serial

/-- Whatever the order of the thread's rounds, drains, guest accesses, accesses of the PLIC and
`clear_rx`: what the thread has delivered has left the queue, is in the queue or in the ring, each
byte once and in the order of delivery, RXDATA answers the next byte, the registers that the engine
answers in place are those of the device, and the level of the source is that of the line. -/
theorem serial_input_kept {k : Nat} (hk : k < 32) (idx : BitVec 32) (irq : Nat) (base : Word)
    (numSources numContexts : Nat) (ffi : Uart) (run : List SerialOp)
    (hp : Run.Along Serial.step Serial.Promised (.start (2 ^ k) idx irq base numSources numContexts ffi) run) :
    Run.Always Serial.step Serial.Faithful (.start (2 ^ k) idx irq base numSources numContexts ffi) run ∧
      Run.Along Serial.step Serial.Answers (.start (2 ^ k) idx irq base numSources numContexts ffi) run := by
  have hinit := Serial.inv_start hk idx irq base numSources numContexts ffi
  constructor
  · exact Run.always_of_invariant (fun _ _ h hop => h.step hop) (fun _ h => h.faithful) hinit hp
  · exact Run.along_of_promised (fun _ _ h hop => h.step hop) (fun _ op h _ => h.answers op) hinit hp

/-- Two bytes are typed, the device is allowed to interrupt, and one of them is read. -/
def typedRun : List SerialOp :=
  [.round [0x61, 0x62] [], .write 0x10 2, .drain, .plic (.read 0x200004), .read 4 4]

theorem typedRun_kept :
    Run.Always Serial.step Serial.Faithful
      (.start (2 ^ 16) 0xFFFFFFFF 10 0xC000000 32 2 ⟨0x10000000, none, 0, none, 0, 0, 0, 0⟩) typedRun :=
  (serial_input_kept (by decide) 0xFFFFFFFF 10 0xC000000 32 2 ⟨0x10000000, none, 0, none, 0, 0, 0, 0⟩ typedRun
    ⟨Serial.promised_rest (Nat.zero_le _) [0x61, 0x62], trivial, trivial, fun _ => nofun, trivial, trivial⟩).1

end Pyremu
