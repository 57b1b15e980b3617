import Pyremu.State
import Pyremu.Lib.Run

/-!
# The virtio-net driver

A receive queue and a transmit queue with eight descriptors each. A step is one
access of a shared index by the driver, together with its accesses to what the
device does not write, or one return of a descriptor by the device. A call
returns before the next one starts, and its tokens are gone by then.
-/

namespace Pyremu.Sittim.Net

def QNUM : Nat := 8

/-- The length of the virtio-net header in front of a frame. -/
def VNET_HDR : Nat := 10
def ETHERNET_FRAME_MAX : Nat := 1514
def BUF_SIZE : Nat := VNET_HDR + ETHERNET_FRAME_MAX

def DESC_SIZE : Nat := 16
def DESC_F_WRITE : BitVec 16 := 2
def AVAIL_BYTES : Nat := 4 + QNUM * 2
def USED_BYTES : Nat := 4 + QNUM * 8

inductive Side where
  | rx | tx
  deriving DecidableEq, Repr

/-! ## Memory accesses -/

/-- An access of the driver: `len` bytes from offset `off` of one of the three structures of a
queue, or the bytes from `lo` to `hi` of a buffer. -/
inductive Touch where
  | desc (side : Side) (off len : Nat)
  | avail (side : Side) (off len : Nat)
  | used (side : Side) (off len : Nat)
  | buffer (side : Side) (slot lo hi : Nat)
  deriving DecidableEq, Repr

def Touch.InRange : Touch → Prop
  | .desc _ off len => off + len ≤ QNUM * DESC_SIZE
  | .avail _ off len => off + len ≤ AVAIL_BYTES
  | .used _ off len => off + len ≤ USED_BYTES
  | .buffer _ slot lo hi => slot < QNUM ∧ lo ≤ hi ∧ hi ≤ BUF_SIZE

/-! ## A queue -/

structure Desc where
  addr : Word
  len : BitVec 32
  flags : BitVec 16
  next : BitVec 16

structure UsedEntry where
  id : BitVec 32
  len : BitVec 32
  deriving DecidableEq, Repr

/-- One publication: its number among those of the queue, and the descriptor it names. -/
structure Pub where
  serial : Nat
  idx : Nat
  deriving DecidableEq, Repr

/-- A queue with its storage; `bufPa` gives the physical addresses of its buffers. Ghosts: `sent`
counts the publications, `flying` lists those that the device has not returned, and `back` the
returned entries that the driver has not committed. -/
structure Queue where
  bufPa : Nat → Word
  desc : Nat → Desc
  avail : Nat → Nat
  availIdx : BitVec 16
  used : Nat → UsedEntry
  usedIdx : BitVec 16
  nextAvail : BitVec 16
  lastUsed : BitVec 16
  sent : Nat
  flying : List Pub
  back : List UsedEntry

namespace Queue

def nextSlot (q : Queue) : Nat := q.nextAvail.toNat % QNUM

def spaceLeft (q : Queue) : Nat := QNUM - min (q.nextAvail - q.lastUsed).toNat QNUM

def writeDesc (q : Queue) (idx : Nat) (addr : Word) (len : BitVec 32) (flags : BitVec 16) : Queue :=
  { q with desc := Function.update q.desc idx ⟨addr, len, flags, 0⟩ }

def writeDescTouches (side : Side) (idx : Nat) : List Touch :=
  let base := idx * DESC_SIZE
  [.desc side base 8, .desc side (base + 8) 4, .desc side (base + 12) 2, .desc side (base + 14) 2]

def pushAvail (q : Queue) (idx : Nat) : Queue :=
  { q with
    avail := Function.update q.avail q.nextSlot idx
    nextAvail := q.nextAvail + 1
    availIdx := q.nextAvail + 1
    sent := q.sent + 1
    flying := q.flying ++ [⟨q.sent, idx⟩] }

def pushAvailTouches (side : Side) (q : Queue) : List Touch :=
  [.avail side (4 + q.nextSlot * 2) 2, .avail side 2 2]

/-- The position in the used ring of the entry that `peek_used` reads. -/
def usedSlot (q : Queue) : Nat := q.lastUsed.toNat % QNUM

def peekUsed (q : Queue) : Option UsedEntry :=
  if q.usedIdx = q.lastUsed then none else some (q.used q.usedSlot)

def usedTouches (side : Side) (q : Queue) : List Touch :=
  [.used side (4 + q.usedSlot * 8) 4, .used side (4 + q.usedSlot * 8 + 4) 4]

def commitUsed (q : Queue) : Queue :=
  { q with lastUsed := q.lastUsed + 1, back := q.back.tail }

def postRxBuffer (q : Queue) (slot : Nat) : Queue :=
  (q.writeDesc slot (q.bufPa slot) (BitVec.ofNat 32 BUF_SIZE) DESC_F_WRITE).pushAvail slot

def pushTx (q : Queue) (slot len : Nat) : Queue :=
  (q.writeDesc slot (q.bufPa slot) (BitVec.ofNat 32 (VNET_HDR + len)) 0).pushAvail slot

def publishTouches (side : Side) (q : Queue) (slot : Nat) : List Touch :=
  writeDescTouches side slot ++ pushAvailTouches side q

/-- The device returns the publication at place `i` of those it has, having written `len` bytes. -/
def giveBack (q : Queue) (i : Nat) (len : BitVec 32) : Queue :=
  match q.flying[i]? with
  | none => q
  | some p =>
    let e : UsedEntry := ⟨BitVec.ofNat 32 p.idx, len⟩
    { q with
      used := Function.update q.used (q.usedIdx.toNat % QNUM) e
      usedIdx := q.usedIdx + 1
      flying := q.flying.eraseIdx i
      back := q.back ++ [e] }

/-- The descriptors that the device has. -/
def published (q : Queue) : List Nat := q.flying.map (·.idx)

/-- The descriptors whose used entry the driver has not consumed. -/
def returned (q : Queue) : List Nat := q.back.map (·.id.toNat)

/-- A descriptor that has been published and whose used entry has not been consumed. -/
def InFlight (q : Queue) (slot : Nat) : Prop := slot ∈ q.published ++ q.returned

instance (q : Queue) (slot : Nat) : Decidable (q.InFlight slot) :=
  inferInstanceAs (Decidable (slot ∈ q.published ++ q.returned))

/-- `QueueStorage::new` after `attach`. -/
def new (bufPa : Nat → Word) : Queue :=
  ⟨bufPa, fun _ => ⟨0, 0, 0, 0⟩, fun _ => 0, 0, fun _ => ⟨0, 0⟩, 0, 0, 0, 0, [], []⟩

end Queue

/-! ## The driver -/

structure RxSlot where
  slot : Nat
  len : Nat
  deriving DecidableEq, Repr

/-- Where the driver stands: posting the receive buffers in `init`, before either access of
`peek_used` in the loop of `peek_rx`, before a `commit_used` (of a short frame that has been posted
again, or at the end of `Rx::consume`), or in the loop of `reserve_tx`. -/
inductive Pc where
  | posting (slot : Nat)
  | idle
  | peeking
  | entry
  | dropShort
  | finishing
  | reserving (item : Option RxSlot)
  deriving DecidableEq, Repr

structure State where
  rx : Queue
  tx : Queue
  pc : Pc
  rxToken : Option RxSlot
  txToken : Option Nat

/-- `drive` is the next step of the call in progress. `scribbleIdx` and `scribbleEntry` are what only
a faulty device does. -/
inductive Op where
  | drive
  | receive
  | transmit
  | consumeRx
  | dropRx
  | consumeTx (len : Nat)
  | dropTx
  | giveBack (side : Side) (i : Nat) (len : BitVec 32)
  | scribbleIdx (side : Side) (v : BitVec 16)
  | scribbleEntry (side : Side) (i : Nat) (e : UsedEntry)

namespace State

def queue (s : State) : Side → Queue
  | .rx => s.rx
  | .tx => s.tx

def setQueue (s : State) (q : Queue) : Side → State
  | .rx => { s with rx := q }
  | .tx => { s with tx := q }

/-- The call in progress goes on to its next access of a shared index. -/
def drive (s : State) : State × List Touch :=
  match s.pc with
  | .posting slot =>
    if slot < QNUM then
      ({ s with rx := s.rx.postRxBuffer slot, pc := .posting (slot + 1) },
        s.rx.publishTouches .rx slot)
    else ({ s with pc := .idle }, [])
  | .idle => (s, [])
  | .peeking =>
    ({ s with pc := if s.rx.usedIdx = s.rx.lastUsed then .idle else .entry }, [.used .rx 2 2])
  | .entry =>
    let e := s.rx.used s.rx.usedSlot
    let slot := e.id.toNat
    let len := min e.len.toNat BUF_SIZE
    if QNUM ≤ slot then
      ({ s with rx := s.rx.commitUsed, pc := .peeking }, s.rx.usedTouches .rx)
    else if len ≤ VNET_HDR then
      ({ s with rx := s.rx.postRxBuffer slot, pc := .dropShort },
        s.rx.usedTouches .rx ++ s.rx.publishTouches .rx slot)
    else ({ s with pc := .reserving (some ⟨slot, len⟩) }, s.rx.usedTouches .rx)
  | .dropShort => ({ s with rx := s.rx.commitUsed, pc := .peeking }, [])
  | .finishing => ({ s with rx := s.rx.commitUsed, pc := .idle }, [])
  | .reserving item =>
    if s.tx.usedIdx = s.tx.lastUsed then
      if s.tx.spaceLeft = 0 then ({ s with pc := .idle }, [.used .tx 2 2])
      else
        ({ s with pc := .idle, rxToken := item, txToken := some s.tx.nextSlot }, [.used .tx 2 2])
    else ({ s with tx := s.tx.commitUsed }, .used .tx 2 2 :: s.tx.usedTouches .tx)

/-- No call is in progress and no token is out. -/
def Free (s : State) : Prop := s.pc = .idle ∧ s.rxToken = none ∧ s.txToken = none

instance (s : State) : Decidable s.Free :=
  inferInstanceAs (Decidable (s.pc = .idle ∧ s.rxToken = none ∧ s.txToken = none))

/-- `Rx::consume`, up to its `commit_used`: the callback has read the frame, and the buffer is posted
again. -/
def consumeRx (s : State) : State × List Touch :=
  match s.pc, s.rxToken with
  | .idle, some item =>
    ({ s with rx := s.rx.postRxBuffer item.slot, pc := .finishing, rxToken := none },
      .buffer .rx item.slot VNET_HDR item.len :: s.rx.publishTouches .rx item.slot)
  | _, _ => (s, [])

/-- `Tx::consume`: the frame is written and the descriptor is published. -/
def consumeTx (s : State) (len : Nat) : State × List Touch :=
  match s.pc, s.txToken with
  | .idle, some slot =>
    let n := min len ETHERNET_FRAME_MAX
    ({ s with tx := s.tx.pushTx slot n, txToken := none },
      .buffer .tx slot 0 VNET_HDR :: .buffer .tx slot VNET_HDR (VNET_HDR + n) ::
        s.tx.publishTouches .tx slot)
  | _, _ => (s, [])

def act (s : State) : Op → State × List Touch
  | .drive => s.drive
  | .receive => (if s.Free then { s with pc := .peeking } else s, [])
  | .transmit => (if s.Free then { s with pc := .reserving none } else s, [])
  | .consumeRx => s.consumeRx
  | .dropRx => (if s.pc = .idle then { s with rxToken := none } else s, [])
  | .consumeTx len => s.consumeTx len
  | .dropTx => (if s.pc = .idle then { s with txToken := none } else s, [])
  | .giveBack side i len => (s.setQueue ((s.queue side).giveBack i len) side, [])
  | .scribbleIdx side v => (s.setQueue { s.queue side with usedIdx := v } side, [])
  | .scribbleEntry side i e =>
    (s.setQueue { s.queue side with used := Function.update (s.queue side).used i e } side, [])

def step (s : State) (a : Op) : State := (s.act a).1

def touches (s : State) (a : Op) : List Touch := (s.act a).2

/-- `init` has set both queues up and written `DRIVER_OK`. -/
def start (rxPa txPa : Nat → Word) : State :=
  ⟨.new rxPa, .new txPa, .posting 0, none, none⟩

end State

/-! ## What the two parties owe each other -/

/-- The device returns what it has and nothing else, each publication once and in any order. -/
def Correct (s : State) : Op → Prop
  | .giveBack side i _ => i < (s.queue side).flying.length
  | .scribbleIdx _ _ | .scribbleEntry _ _ _ => False
  | _ => True

instance (s : State) : (a : Op) → Decidable (Correct s a)
  | .giveBack side i _ => inferInstanceAs (Decidable (i < (s.queue side).flying.length))
  | .scribbleIdx _ _ | .scribbleEntry _ _ _ => .isFalse id
  | .drive | .receive | .transmit | .consumeRx | .dropRx | .consumeTx _ | .dropTx => .isTrue trivial

/-- The slot that `reserve_tx` returned and that is still held is not in flight. -/
def ReservedFree (s : State) : Prop := ∀ slot ∈ s.txToken, ¬ s.tx.InFlight slot

/-- The receive slots that `init` has yet to post. -/
def Pc.unposted : Pc → List Nat
  | .posting slot => List.range' slot (QNUM - slot)
  | _ => []

/-- How many of the uncommitted entries stand for a buffer that has been posted again. -/
def Pc.stale : Pc → Nat
  | .dropShort | .finishing => 1
  | _ => 0

/-- The receive slots that the driver has. -/
def State.heldRx (s : State) : List Nat := s.pc.unposted ++ s.rx.returned.drop s.pc.stale

/-- The item in the driver's hand heads the entries that are not committed. -/
def Queue.Heads (q : Queue) (item : RxSlot) : Prop := q.returned.head? = some item.slot

/-- Every receive slot is published once or held, and not both. -/
def RxOwned (s : State) : Prop := (s.rx.published ++ s.heldRx).Perm (List.range QNUM)

/-- The slots that are not the driver's: a transmit slot is given back with its used entry. -/
def State.Lent (s : State) : Side → Nat → Prop
  | .rx, slot => slot ∈ s.rx.published
  | .tx, slot => s.tx.InFlight slot

/-- The access is to a descriptor or a buffer that is not the driver's. -/
def DeviceOwns (s : State) : Touch → Prop
  | .desc side off _ => s.Lent side (off / DESC_SIZE)
  | .buffer side slot _ _ => s.Lent side slot
  | .avail _ _ _ | .used _ _ _ => False

/-- A reservation that ends with fewer than eight publications out does not find the eighth last
among them: the device has not passed it over. -/
def NotPassedOver (s : State) : Op → Prop
  | .drive => ∀ item, s.pc = .reserving item → s.tx.usedIdx = s.tx.lastUsed →
      s.tx.flying.length < QNUM → ∀ p ∈ s.tx.flying, p.serial + QNUM ≠ s.tx.sent
  | _ => True

/-- The device returns the transmit descriptors in the order of their publication. -/
def InOrder (_ : State) : Op → Prop
  | .giveBack .tx i _ => i = 0
  | _ => True

instance (s : State) : (a : Op) → Decidable (InOrder s a)
  | .giveBack .tx i _ => inferInstanceAs (Decidable (i = 0))
  | .giveBack .rx _ _ | .scribbleIdx _ _ | .scribbleEntry _ _ _ => .isTrue trivial
  | .drive | .receive | .transmit | .consumeRx | .dropRx | .consumeTx _ | .dropTx => .isTrue trivial

end Pyremu.Sittim.Net
