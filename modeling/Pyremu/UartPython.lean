import Pyremu.PlicAgree
import Pyremu.Termio

/-!
# The serial device

`UART` of `peripheral/uart.py` with the receive ring of the terminal, from which
`drain_rx` fills its queue, and the source of the PLIC that it drives. It keeps
the registers that the engine answers in place, in the record `ffi`.
-/

namespace Pyremu

/-- Source number 0 drives no interrupt. A register holds what a write of up to eight bytes brings. -/
structure PyUart where
  txctrl : Word
  rxctrl : Word
  ie : Word
  div : Word
  txBuf : List (BitVec 8)
  rxFifo : List (BitVec 8)
  irq : Nat
  plic : Plic
  ffi : Uart

def RX_FIFO_SIZE : Nat := 32

/-- Bit 31 of RXDATA. -/
def UART_RXFIFO_EMPTY : Word := bit 31

namespace PyUart

section Defs

variable (u : PyUart)

def canRx : Bool := decide (u.rxFifo.length < RX_FIFO_SIZE)

def ipValue : Word :=
  let txwm : Word := if 0 < (u.txctrl >>> 16) &&& 7 then 1 else 0
  let rxwm : Word := if ((u.rxctrl >>> 16) &&& 7).toNat < u.rxFifo.length then 2 else 0
  txwm ||| rxwm

def irqAsserted : Bool := decide (u.ipValue &&& u.ie ≠ 0)

/-- `_publish_native_regs`; the fields are 32 bits wide and take the low ones. -/
def publishNativeRegs : PyUart :=
  { u with ffi := { u.ffi with
      ie := u.ie.setWidth 32
      txctrl := u.txctrl.setWidth 32
      rxctrl := u.rxctrl.setWidth 32
      rxFifoLen := BitVec.ofNat 32 u.rxFifo.length } }

/-- `_publish_state`. -/
def publishState : PyUart :=
  let u := u.publishNativeRegs
  if u.irq = 0 then u else { u with plic := u.plic.setIrq u.irq u.irqAsserted }

/-- The loop of `preload`, with the bytes that it accepts. -/
def acceptBytes : PyUart → List (BitVec 8) → PyUart × Nat
  | u, [] => (u, 0)
  | u, b :: data =>
    if RX_FIFO_SIZE ≤ u.rxFifo.length then (u, 0)
    else
      let r := acceptBytes { u with rxFifo := u.rxFifo ++ [b] } data
      (r.1, r.2 + 1)

def preload (data : List (BitVec 8)) : PyUart × Nat :=
  let r := u.acceptBytes data
  (if 0 < r.2 then r.1.publishState else r.1, r.2)

def clearRx : PyUart := publishState { u with rxFifo := [] }

/-- `_write_reg`. -/
def writeReg (offset : Nat) (val : Word) : PyUart :=
  if offset = 0x00 then { u with txBuf := u.txBuf ++ [val.setWidth 8] }
  else if offset = 0x08 then publishState { u with txctrl := val }
  else if offset = 0x0C then publishState { u with rxctrl := val }
  else if offset = 0x10 then publishState { u with ie := val &&& 3 }
  else if offset = 0x14 then u
  else if offset = 0x18 then { u with div := val &&& 0xFFFF }
  else u

end Defs

/-! ## The receive ring -/

/-- The loop of `drain_rx`: the ring behind the bytes it took, and how many. -/
def drainLoop : Nat → RingBuf (BitVec 8) 32 → PyUart → RingBuf (BitVec 8) 32 × PyUart × Nat
  | 0, rx, u => (rx, u, 0)
  | n + 1, rx, u =>
    if u.canRx then
      let r := drainLoop n (rx.pop 1) (u.preload [rx.cells (rx.rd.toNat % rx.cap)]).1
      (r.1, r.2.1, r.2.2 + 1)
    else (rx, u, 0)

/-- `drain_rx`. -/
def drainRx (rx : RingBuf (BitVec 8) 32) (u : PyUart) : RingBuf (BitVec 8) 32 × PyUart :=
  if !u.canRx then (rx, u)
  else if rx.wr = rx.rd then (rx, u)
  else
    let r := drainLoop rx.used rx u
    let u := r.2.1
    (r.1, if 0 < r.2.2 ∧ 0 < u.irq then { u with plic := u.plic.setIrq u.irq u.irqAsserted } else u)

/-- `_read_rxdata` where `drain_rx` is told of the room. -/
def readRxdata (rx : RingBuf (BitVec 8) 32) (u : PyUart) : RingBuf (BitVec 8) 32 × PyUart × Word :=
  match u.rxFifo with
  | [] => (rx, u, UART_RXFIFO_EMPTY)
  | b :: rest =>
    let r := drainRx rx { u with rxFifo := rest }
    (r.1, r.2.publishState, b.setWidth 64)

/-- `_read_reg`. -/
def readReg (rx : RingBuf (BitVec 8) 32) (u : PyUart) (offset : Nat) : RingBuf (BitVec 8) 32 × PyUart × Word :=
  if offset = 0x04 then readRxdata rx u
  else if offset = 0x00 then (rx, u, 0)
  else if offset = 0x08 then (rx, u, u.txctrl)
  else if offset = 0x0C then (rx, u, u.rxctrl)
  else if offset = 0x10 then (rx, u, u.ie)
  else if offset = 0x14 then (rx, u, u.ipValue)
  else if offset = 0x18 then (rx, u, u.div)
  else (rx, u, 0)

/-- `read`, with the bytes as a number. -/
def read (rx : RingBuf (BitVec 8) 32) (u : PyUart) (offset size : Nat) : RingBuf (BitVec 8) 32 × PyUart × Word :=
  let r := readReg rx u offset
  (r.1, r.2.1, r.2.2 &&& BitVec.ofNat 64 (2 ^ (size * 8) - 1))

/-- A device after its construction on a PLIC after reset. -/
def init (irq : Nat) (plic : Plic) (ffi : Uart) : PyUart :=
  publishNativeRegs ⟨0, 0, 0, 0, [], [], irq, plic, ffi⟩

/-! ## Line and mirror -/

section Synced

/-- The engine's copy is that of the registers. -/
structure Mirrored (u : PyUart) : Prop where
  ie : u.ffi.ie = u.ie.setWidth 32
  txctrl : u.ffi.txctrl = u.txctrl.setWidth 32
  rxctrl : u.ffi.rxctrl = u.rxctrl.setWidth 32
  rxFifoLen : u.ffi.rxFifoLen = BitVec.ofNat 32 u.rxFifo.length

/-- Two interrupts can be enabled, and the queue does not overflow. -/
structure Within (u : PyUart) : Prop where
  ie_lt : u.ie.toNat < 4
  room : u.rxFifo.length ≤ RX_FIFO_SIZE

/-- The engine and the PLIC see the registers and the queue as they are. -/
structure Synced (u : PyUart) : Prop extends Within u where
  mirrored : u.Mirrored
  line : 0 < u.irq → u.irq ≤ u.plic.numSources → u.plic.level u.irq = u.irqAsserted

variable {u : PyUart}

theorem level_setIrq (p : Plic) {source : Nat} (high : Bool) (h : 0 < source ∧ source ≤ p.numSources) :
    (p.setIrq source high).level source = high := by
  rw [Plic.setIrq, if_pos h]
  exact Function.update_self ..

theorem level_setIrq_of_ne (p : Plic) {source k : Nat} (high : Bool) (h : k ≠ source) :
    (p.setIrq source high).level k = p.level k := by
  rw [Plic.setIrq]
  split_ifs
  · exact Function.update_of_ne h ..
  · rfl

theorem numSources_setIrq (p : Plic) (source : Nat) (high : Bool) :
    (p.setIrq source high).numSources = p.numSources := by
  rw [Plic.setIrq]
  split_ifs <;> rfl

/-- What `_publish_state` leaves alone. -/
structure SameRegs (u u' : PyUart) : Prop where
  txctrl : u'.txctrl = u.txctrl
  rxctrl : u'.rxctrl = u.rxctrl
  ie : u'.ie = u.ie
  irq : u'.irq = u.irq
  numSources : u'.plic.numSources = u.plic.numSources

theorem SameRegs.refl (u : PyUart) : SameRegs u u := ⟨rfl, rfl, rfl, rfl, rfl⟩

theorem SameRegs.trans {u v w : PyUart} (h : SameRegs u v) (h' : SameRegs v w) : SameRegs u w :=
  ⟨h'.txctrl.trans h.txctrl, h'.rxctrl.trans h.rxctrl, h'.ie.trans h.ie, h'.irq.trans h.irq,
    h'.numSources.trans h.numSources⟩

theorem publishState_frame (u : PyUart) :
    SameRegs u u.publishState ∧ u.publishState.rxFifo = u.rxFifo ∧
      u.publishState.ffi = u.publishNativeRegs.ffi := by
  rw [publishState]
  split_ifs
  · exact ⟨⟨rfl, rfl, rfl, rfl, rfl⟩, rfl, rfl⟩
  · exact ⟨⟨rfl, rfl, rfl, rfl, numSources_setIrq ..⟩, rfl, rfl⟩

/-- Publishing brings everything up to date. -/
theorem Within.publishState (h : u.Within) : u.publishState.Synced := by
  rw [PyUart.publishState]
  by_cases h0 : u.publishNativeRegs.irq = 0
  · rw [if_pos h0]
    exact ⟨⟨h.ie_lt, h.room⟩, ⟨rfl, rfl, rfl, rfl⟩, fun hpos => absurd h0 (Nat.ne_of_gt hpos)⟩
  · rw [if_neg h0]
    refine ⟨⟨h.ie_lt, h.room⟩, ⟨rfl, rfl, rfl, rfl⟩, fun hpos hle => ?_⟩
    change u.irq ≤ (u.plic.setIrq u.irq u.irqAsserted).numSources at hle
    rw [numSources_setIrq] at hle
    exact level_setIrq u.plic u.irqAsserted ⟨hpos, hle⟩

/-- Signalling the level again changes nothing of it. -/
theorem Synced.signal (h : u.Synced) : Synced { u with plic := u.plic.setIrq u.irq u.irqAsserted } := by
  obtain ⟨⟨hlt, hroom⟩, ⟨hie, htx, hrx, hlen⟩, _⟩ := h
  refine ⟨⟨hlt, hroom⟩, ⟨hie, htx, hrx, hlen⟩, fun hpos hle => ?_⟩
  change u.irq ≤ (u.plic.setIrq u.irq u.irqAsserted).numSources at hle
  rw [numSources_setIrq] at hle
  exact level_setIrq u.plic u.irqAsserted ⟨hpos, hle⟩

theorem Within.preload_one (h : u.Within) (hroom : u.rxFifo.length < RX_FIFO_SIZE) (b : BitVec 8) :
    (u.preload [b]).1.Synced ∧ SameRegs u (u.preload [b]).1 ∧ (u.preload [b]).1.rxFifo = u.rxFifo ++ [b] := by
  have hone : u.preload [b] = (PyUart.publishState { u with rxFifo := u.rxFifo ++ [b] }, 1) := by
    simp only [preload, acceptBytes, if_neg (Nat.not_le.mpr hroom)]
    rfl
  have hlen : (u.rxFifo ++ [b]).length ≤ RX_FIFO_SIZE := by
    rw [List.length_append, List.length_singleton]
    exact hroom
  have hwithin : Within { u with rxFifo := u.rxFifo ++ [b] } := ⟨h.ie_lt, hlen⟩
  obtain ⟨hsame, hfifo, _⟩ := publishState_frame { u with rxFifo := u.rxFifo ++ [b] }
  rw [hone]
  exact ⟨hwithin.publishState, ⟨hsame.1, hsame.2, hsame.3, hsame.4, hsame.5⟩, hfifo⟩

end Synced

section Drain

variable {u : PyUart} {rx : RingBuf (BitVec 8) 32}

/-- The byte at the reading index is the first of the ring. -/
theorem contents_cons (rx : RingBuf (BitVec 8) 32) (h : 0 < rx.used) :
    rx.contents = rx.cells (rx.rd.toNat % rx.cap) :: (rx.pop 1).contents := by
  have hhead : rx.contents.take 1 = [rx.cells (rx.rd.toNat % rx.cap)] := by
    obtain ⟨k, hk⟩ := Nat.exists_eq_succ_of_ne_zero (Nat.ne_of_gt h)
    rw [RingBuf.contents, hk, List.range_succ_eq_map, List.map_cons, List.take_succ_cons, List.take_zero]
    rw [show (BitVec.ofNat 32 0) = 0#32 from rfl, BitVec.add_zero]
  rw [← RingBuf.take_append_contents_pop (r := rx) (n := 1) h, hhead]
  rfl

theorem pop_pop (rx : RingBuf (BitVec 8) 32) (m n : Nat) : (rx.pop m).pop n = rx.pop (m + n) := by
  rw [RingBuf.pop, RingBuf.pop, RingBuf.pop, BitVec.add_assoc, BitVec.ofNat_add]

/-- What a call of `drain_rx` may take. -/
def takes (rx : RingBuf (BitVec 8) 32) (u : PyUart) : Nat := min rx.used (RX_FIFO_SIZE - u.rxFifo.length)

/-- `k` bytes went from the ring to the queue. -/
structure Drained (rx : RingBuf (BitVec 8) 32) (u : PyUart) (k : Nat) (rx' : RingBuf (BitVec 8) 32) (u' : PyUart) :
    Prop where
  ring : rx' = rx.pop k
  fifo : u'.rxFifo = u.rxFifo ++ rx.contents.take k
  within : u'.Within
  synced : u.Synced → u'.Synced
  regs : SameRegs u u'

theorem Drained.refl (rx : RingBuf (BitVec 8) 32) (h : u.Within) : Drained rx u 0 rx u := by
  refine ⟨?_, ?_, h, id, .refl u⟩
  · exact (congrArg (fun rd => { rx with rd := rd }) (BitVec.add_zero rx.rd)).symm
  · rw [List.take_zero, List.append_nil]

theorem canRx_iff : u.canRx = true ↔ u.rxFifo.length < RX_FIFO_SIZE := decide_eq_true_iff

/-- Where bytes were taken all is published. -/
theorem drainLoop_spec (n : Nat) (hn : n ≤ rx.used) (h : u.Within) :
    Drained rx u (min n (RX_FIFO_SIZE - u.rxFifo.length)) (drainLoop n rx u).1 (drainLoop n rx u).2.1 := by
  induction n generalizing rx u with
  | zero =>
    rw [Nat.zero_min]
    exact .refl rx h
  | succ n ih =>
    rw [drainLoop]
    by_cases hroom : u.rxFifo.length < RX_FIFO_SIZE
    · rw [if_pos (canRx_iff.mpr hroom)]
      obtain ⟨hsync, hregs, hfifo⟩ := h.preload_one hroom (rx.cells (rx.rd.toNat % rx.cap))
      have hpos : 1 ≤ rx.used := Nat.le_trans (Nat.succ_le_succ (Nat.zero_le n)) hn
      have hused : (rx.pop 1).used = rx.used - 1 := RingBuf.used_pop hpos
      have hlen : (u.preload [rx.cells (rx.rd.toNat % rx.cap)]).1.rxFifo.length = u.rxFifo.length + 1 := by
        rw [hfifo, List.length_append, List.length_singleton]
      have hrest : n ≤ (rx.pop 1).used := by omega
      obtain ⟨hring, hfifo', hwithin, hsync', hregs'⟩ := ih hrest hsync.toWithin
      have hk : min (n + 1) (RX_FIFO_SIZE - u.rxFifo.length) =
          1 + min n (RX_FIFO_SIZE - (u.preload [rx.cells (rx.rd.toNat % rx.cap)]).1.rxFifo.length) := by
        rw [hlen]
        omega
      rw [hk]
      refine ⟨?_, ?_, hwithin, fun _ => hsync' hsync, hregs.trans hregs'⟩
      · rw [← pop_pop]
        exact hring
      · refine hfifo'.trans ?_
        rw [contents_cons rx hpos, Nat.add_comm 1, List.take_succ_cons, List.append_cons, ← hfifo]
    · rw [if_neg fun hc => hroom (canRx_iff.mp hc), show RX_FIFO_SIZE - u.rxFifo.length = 0 by omega, Nat.min_zero]
      exact .refl rx h

theorem used_eq_zero_iff (rx : RingBuf (BitVec 8) 32) : rx.used = 0 ↔ rx.wr = rx.rd := by
  rw [RingBuf.used, show (0 : Nat) = (0#32).toNat from rfl, BitVec.toNat_inj, BitVec.sub_eq_iff_eq_add,
    BitVec.zero_add]

/-- A call of `drain_rx` fills the queue as far as the bytes of the ring go. -/
theorem drainRx_spec (rx : RingBuf (BitVec 8) 32) (h : u.Within) :
    Drained rx u (takes rx u) (drainRx rx u).1 (drainRx rx u).2 := by
  rw [drainRx]
  by_cases hroom : u.rxFifo.length < RX_FIFO_SIZE
  · rw [if_neg (by rw [canRx_iff.mpr hroom]; decide)]
    by_cases hempty : rx.wr = rx.rd
    · rw [if_pos hempty, takes, (used_eq_zero_iff rx).mpr hempty, Nat.zero_min]
      exact .refl rx h
    · rw [if_neg hempty]
      obtain ⟨hring, hfifo, hwithin, hsync, hregs⟩ := drainLoop_spec rx.used (Nat.le_refl _) h
      generalize drainLoop rx.used rx u = r at hring hfifo hwithin hsync hregs
      simp only
      split_ifs
      · exact ⟨hring, hfifo, ⟨hwithin.ie_lt, hwithin.room⟩, fun hu => (hsync hu).signal,
          hregs.1, hregs.2, hregs.3, hregs.4, (numSources_setIrq ..).trans hregs.5⟩
      · exact ⟨hring, hfifo, hwithin, hsync, hregs⟩
  · rw [if_pos (by rw [Bool.eq_false_iff.mpr fun hc => hroom (canRx_iff.mp hc)]; rfl), takes,
      show RX_FIFO_SIZE - u.rxFifo.length = 0 by omega, Nat.min_zero]
    exact .refl rx h

end Drain

section Registers

variable {u : PyUart} {rx : RingBuf (BitVec 8) 32}

theorem and_three_lt (val : Word) : (val &&& 3).toNat < 4 := by
  rw [BitVec.toNat_and]
  exact Nat.and_lt_two_pow _ (n := 2) (by decide)

theorem Synced.writeReg (h : u.Synced) (offset : Nat) (val : Word) :
    (u.writeReg offset val).Synced ∧ (u.writeReg offset val).rxFifo = u.rxFifo ∧
      (u.writeReg offset val).irq = u.irq ∧ (u.writeReg offset val).plic.numSources = u.plic.numSources := by
  -- a write that publishes, whatever register it changed before
  have hpublish : ∀ v : PyUart, v.Within → v.rxFifo = u.rxFifo → v.irq = u.irq → v.plic = u.plic →
      v.publishState.Synced ∧ v.publishState.rxFifo = u.rxFifo ∧ v.publishState.irq = u.irq ∧
        v.publishState.plic.numSources = u.plic.numSources := by
    intro v hv hfifo hirq hplic
    obtain ⟨hsame, hkeep, _⟩ := publishState_frame v
    exact ⟨hv.publishState, hkeep.trans hfifo, hsame.irq.trans hirq, hsame.numSources.trans (congrArg _ hplic)⟩
  have hquiet : ∀ v : PyUart, v.Synced → v.rxFifo = u.rxFifo → v.irq = u.irq → v.plic = u.plic →
      v.Synced ∧ v.rxFifo = u.rxFifo ∧ v.irq = u.irq ∧ v.plic.numSources = u.plic.numSources :=
    fun v hv hfifo hirq hplic => ⟨hv, hfifo, hirq, congrArg _ hplic⟩
  obtain ⟨⟨hlt, hroom⟩, ⟨hie, htx, hrx, hlen⟩, hline⟩ := h
  rw [PyUart.writeReg]
  split_ifs
  · exact hquiet _ ⟨⟨hlt, hroom⟩, ⟨hie, htx, hrx, hlen⟩, hline⟩ rfl rfl rfl
  · exact hpublish _ ⟨hlt, hroom⟩ rfl rfl rfl
  · exact hpublish _ ⟨hlt, hroom⟩ rfl rfl rfl
  · exact hpublish _ ⟨and_three_lt val, hroom⟩ rfl rfl rfl
  · exact hquiet _ ⟨⟨hlt, hroom⟩, ⟨hie, htx, hrx, hlen⟩, hline⟩ rfl rfl rfl
  · exact hquiet _ ⟨⟨hlt, hroom⟩, ⟨hie, htx, hrx, hlen⟩, hline⟩ rfl rfl rfl
  · exact hquiet _ ⟨⟨hlt, hroom⟩, ⟨hie, htx, hrx, hlen⟩, hline⟩ rfl rfl rfl

theorem Synced.clearRx (h : u.Synced) :
    u.clearRx.Synced ∧ u.clearRx.rxFifo = [] ∧ u.clearRx.irq = u.irq ∧
      u.clearRx.plic.numSources = u.plic.numSources := by
  have hwithin : Within { u with rxFifo := [] } := ⟨h.ie_lt, Nat.zero_le _⟩
  obtain ⟨hsame, hfifo, _⟩ := publishState_frame { u with rxFifo := [] }
  exact ⟨hwithin.publishState, hfifo, hsame.irq, hsame.numSources⟩

/-- A read of RXDATA answers the first byte and makes room for one of the ring, or says that there is none. -/
theorem Synced.readRxdata (h : u.Synced) (rx : RingBuf (BitVec 8) 32) :
    (u.rxFifo = [] ∧ PyUart.readRxdata rx u = (rx, u, UART_RXFIFO_EMPTY)) ∨
      ∃ b rest, u.rxFifo = b :: rest ∧ (PyUart.readRxdata rx u).2.2 = b.setWidth 64 ∧
        (PyUart.readRxdata rx u).1 = rx.pop (takes rx { u with rxFifo := rest }) ∧
        (PyUart.readRxdata rx u).2.1.rxFifo = rest ++ rx.contents.take (takes rx { u with rxFifo := rest }) ∧
        (PyUart.readRxdata rx u).2.1.Synced ∧ SameRegs u (PyUart.readRxdata rx u).2.1 := by
  rw [PyUart.readRxdata.eq_def]
  cases hf : u.rxFifo with
  | nil => exact .inl ⟨rfl, rfl⟩
  | cons b rest =>
    have hwithin : Within { u with rxFifo := rest } := by
      refine ⟨h.ie_lt, ?_⟩
      have hroom := h.room
      rw [hf, List.length_cons] at hroom
      exact Nat.le_of_succ_le hroom
    have hd := drainRx_spec rx hwithin
    obtain ⟨hsame, hkeep, _⟩ := publishState_frame (drainRx rx { u with rxFifo := rest }).2
    refine .inr ⟨b, rest, rfl, rfl, hd.ring, hkeep.trans hd.fifo, hd.within.publishState, ?_⟩
    have hregs := hd.regs.trans hsame
    exact ⟨hregs.1, hregs.2, hregs.3, hregs.4, hregs.5⟩

/-- The other registers are only read. -/
theorem readReg_other {offset : Nat} (h : offset ≠ 4) (rx : RingBuf (BitVec 8) 32) (u : PyUart) :
    (readReg rx u offset).1 = rx ∧ (readReg rx u offset).2.1 = u := by
  rw [readReg, if_neg h]
  split_ifs <;> exact ⟨rfl, rfl⟩

theorem low32_eq (v : Word) : (v.setWidth 32 : BitVec 32).setWidth 64 = v &&& BitVec.ofNat 64 (2 ^ (4 * 8) - 1) := by
  apply BitVec.eq_of_toNat_eq
  rw [BitVec.toNat_setWidth_of_le (by decide), BitVec.toNat_setWidth, BitVec.toNat_and, BitVec.toNat_ofNat,
    Nat.mod_eq_of_lt (show 2 ^ (4 * 8) - 1 < 2 ^ 64 by decide), Nat.and_two_pow_sub_one_eq_mod]

theorem count_eq (v : Word) : (((v.setWidth 32 : BitVec 32) >>> 16) &&& 7).toNat = ((v >>> 16) &&& 7).toNat := by
  have h7 : ∀ n, n &&& 7 = n % 8 := fun n => Nat.and_two_pow_sub_one_eq_mod n 3
  rw [BitVec.toNat_and, BitVec.toNat_and, BitVec.toNat_ushiftRight, BitVec.toNat_ushiftRight, BitVec.toNat_setWidth]
  change (v.toNat % 2 ^ 32) >>> 16 &&& 7 = v.toNat >>> 16 &&& 7
  rw [h7, h7, Nat.shiftRight_eq_div_pow, Nat.shiftRight_eq_div_pow]
  omega

theorem ipValue_lt (u : PyUart) : u.ipValue &&& BitVec.ofNat 64 (2 ^ (4 * 8) - 1) = u.ipValue := by
  rw [ipValue]
  split_ifs <;> decide

theorem engine_ip (h : u.Synced) : handleUartRead 0x14 u.ffi = some u.ipValue := by
  have hlen : (BitVec.ofNat 32 u.rxFifo.length).toNat = u.rxFifo.length := by
    rw [BitVec.toNat_ofNat]
    exact Nat.mod_eq_of_lt (h.room.trans_lt (by decide))
  have htx : 0 < ((u.txctrl.setWidth 32 : BitVec 32) >>> 16) &&& 7 ↔ 0 < (u.txctrl >>> 16) &&& 7 := by
    rw [BitVec.lt_def, BitVec.lt_def, count_eq]
    exact Iff.rfl
  have hrx : ((u.rxctrl.setWidth 32 : BitVec 32) >>> 16) &&& 7 < BitVec.ofNat 32 u.rxFifo.length ↔
      ((u.rxctrl >>> 16) &&& 7).toNat < u.rxFifo.length := by
    rw [BitVec.lt_def, count_eq, hlen]
  rw [handleUartRead, if_neg (by decide), if_neg (by decide), if_neg (by decide), if_pos rfl]
  simp only [h.mirrored.txctrl, h.mirrored.rxctrl, h.mirrored.rxFifoLen, htx, hrx]
  rfl

/-- What the engine answers in place is what the device would answer to a read of four bytes, which
would change nothing. -/
theorem engine_answers (h : u.Synced) (rx : RingBuf (BitVec 8) 32) {offset : Nat} {v : Word}
    (hv : handleUartRead offset u.ffi = some v) : read rx u offset 4 = (rx, u, v) := by
  by_cases hip : offset = 0x14
  · subst hip
    rw [engine_ip h] at hv
    cases hv
    exact congrArg (fun w => (rx, u, w)) (ipValue_lt u)
  · rw [handleUartRead] at hv
    split_ifs at hv with h0 h8 h10
    · subst h0
      cases hv
      exact congrArg (fun w => (rx, u, w)) BitVec.zero_and
    · subst h8
      cases hv
      rw [h.mirrored.txctrl, low32_eq]
      rfl
    · subst h10
      cases hv
      rw [h.mirrored.ie, low32_eq]
      rfl

end Registers

end PyUart

end Pyremu
