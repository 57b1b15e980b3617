import Mathlib.Data.List.TakeDrop
import Pyremu.Virtqueue

/-!
# Runs of a virtqueue

The driver numbers the buffers it publishes from 0 and sees 16 bits of that
number: buffer `k` goes to slot `k % 65536 % num`. The device numbers the
buffers it serves with an unbounded counter. The two numberings agree until
the 65536th buffer.
-/

namespace Virtio

open ByteMem

namespace VirtQueue

def usedIdx (q : VirtQueue) (m : Mem) : Nat := readU16 m (q.device + 2)

/-- The head in a slot of the used ring. -/
def usedId (q : VirtQueue) (m : Mem) (slot : Nat) : Nat := (readLe m (q.device + 4 + slot * 8) 4).toNat

/-- The index and the slots of the available ring. -/
def AvailByte (q : VirtQueue) (a : Nat) : Prop := q.driver + 2 ≤ a ∧ a < q.driver + 4 + q.num * 2

/-- The index and the slots of the used ring. -/
def UsedByte (q : VirtQueue) (a : Nat) : Prop := q.device + 2 ≤ a ∧ a < q.device + 4 + q.num * 8

def DescByte (q : VirtQueue) (a : Nat) : Prop := q.desc ≤ a ∧ a < q.desc + q.num * VRING_DESC_SIZE

/-- The parts that the driver writes. -/
def DriverByte (q : VirtQueue) (a : Nat) : Prop := q.AvailByte a ∨ q.DescByte a

/-- What a driver sets up: three addresses, a length, and a used ring of its own. -/
structure Laid (q : VirtQueue) : Prop where
  configured : q.configured = true
  apart : ∀ a, q.DriverByte a → ¬ q.UsedByte a

theorem Laid.num_pos {q : VirtQueue} (h : q.Laid) : 0 < q.num := by
  have hc := h.configured
  simp only [VirtQueue.configured, Bool.and_eq_true, bne_iff_ne] at hc
  omega

variable {q : VirtQueue} {m m' : Mem}

theorem availIdx_congr (h : ∀ a, q.AvailByte a → m a = m' a) : q.availIdx m = q.availIdx m' := by
  apply readU16_congr
  intro a h1 h2
  apply h
  constructor <;> omega

theorem availHead_congr (hq : q.Laid) (h : ∀ a, q.AvailByte a → m a = m' a) (k : Nat) :
    q.availHead m k = q.availHead m' k := by
  have := Nat.mod_lt k hq.num_pos
  apply readU16_congr
  intro a h1 h2
  apply h
  constructor <;> omega

theorem usedIdx_congr (h : ∀ a, q.UsedByte a → m a = m' a) : q.usedIdx m = q.usedIdx m' := by
  apply readU16_congr
  intro a h1 h2
  apply h
  constructor <;> omega

theorem usedId_congr {slot : Nat} (hs : slot < q.num) (h : ∀ a, q.UsedByte a → m a = m' a) :
    q.usedId m slot = q.usedId m' slot := by
  rw [usedId, usedId]
  congr 1
  apply readLe_congr
  intro b hb
  apply h
  constructor <;> omega

end VirtQueue

/-- A device, and the heads its driver published in queue `i` since it was made ready. -/
structure Ring (σ : Type*) where
  host : Host σ
  published : List (BitVec 16)

/-- Buffer numbers lead to slots the way the driver's 16-bit index does. -/
def Wraps (num published : Nat) : Prop := published ≤ 65536 ∨ num ∣ 65536

theorem Wraps.mod {num p k : Nat} (h : Wraps num p) (hk : k < p) : k % 65536 % num = k % num := by
  rcases h with h | h
  · have hk : k % 65536 = k := Nat.mod_eq_of_lt (by omega)
    rw [hk]
  · exact Nat.mod_mod_of_dvd k h

theorem Wraps.mono {num p p' : Nat} (h : Wraps num p) (hp : p' ≤ p) : Wraps num p' :=
  h.imp_left fun h => by omega

/-- Slots of one window differ. -/
theorem slot_ne {n i j : Nat} (hij : i < j) (hj : j < i + n) : i % n ≠ j % n := by
  intro h
  have hdvd : n ∣ j - i := Nat.dvd_of_mod_eq_zero (Nat.sub_mod_eq_zero_of_mod_eq h.symm)
  have := Nat.le_of_dvd (by omega) hdvd
  omega

variable {σ : Type*} (i : Nat)

namespace Ring

/-- Queue `i` of the device. -/
def queue (r : Ring σ) : VirtQueue := r.host.mmio.queues i

/-- How many heads the device has taken. -/
def served (r : Ring σ) : Nat := (r.queue i).handed.length

/-- The heads that wait in the available ring. -/
def pending (r : Ring σ) : List (BitVec 16) := r.published.drop (r.served i)

/-- The driver writes the next slot, then its index. -/
def publish (r : Ring σ) (head : BitVec 16) : Ring σ :=
  let q := r.queue i
  let idx := q.availIdx r.host.mem
  let m := writeU16 r.host.mem (q.driver + (4 + idx % q.num * 2)) head.toNat
  { host := { r.host with mem := writeU16 m (q.driver + 2) (idx + 1) }
    published := r.published ++ [head] }

/-- A device after `QueueReady`: nothing is published. -/
def ready (h : Host σ) (val : Nat) : Ring σ where
  host := { h with mmio := h.mmio.setQueueReady val }
  published := []

/-- The requests in line are handled outside the rings and the descriptor table. -/
def HandlerCalm (handleRequest : Handler σ) (r : Ring σ) : Prop :=
  ∀ h : Host σ, (∀ a, (r.queue i).DriverByte a → h.mem a = r.host.mem a) →
    ∀ head ∈ r.pending i, ∀ c,
      (r.queue i).descriptorChain h.mem head.toNat h.mmio.chainMaxDesc = some c → ∀ a,
        (r.queue i).DriverByte a ∨ (r.queue i).UsedByte a →
          (handleRequest (h.mmio.queues i) c h).2.mem a = h.mem a

/-- The buffers in line lie outside the rings and the descriptor table. -/
def BufferCalm (r : Ring σ) : Prop :=
  ∀ m : Mem, (∀ a, (r.queue i).DriverByte a → m a = r.host.mem a) →
    ∀ head ∈ r.pending i, ∀ d,
      ((r.queue i).descriptorChain m head.toNat 1).bind List.head? = some d →
        d.flags &&& VRING_DESC_F_WRITE ≠ 0 → ∀ a,
        (r.queue i).DriverByte a ∨ (r.queue i).UsedByte a → a < d.addr ∨ d.addr + d.length ≤ a

/-- Receive buffers do not run out past the end of the 16-bit index. -/
def FillBound (r : Ring σ) : Prop :=
  r.published.length < 65536 ∨
    (Wraps (r.queue i).num r.published.length ∧ r.published.length - r.served i < 65536 ∧
      r.host.rxFrames.length ≤ r.published.length - r.served i)

end Ring

/-- A handler works on the device's side of a queue through its return value only. -/
def Keeps (handleRequest : Handler σ) : Prop :=
  ∀ q c h, (handleRequest q c h).2.mmio.queues i = h.mmio.queues i ∧
    (handleRequest q c h).2.mmio.queueNum = h.mmio.queueNum

/-- What a driver and a device do to a queue. A call is a step when the driver's buffers
are clear of the rings and the numbers of the buffers fit. -/
inductive Step (handleRequest : Handler σ) : Ring σ → Ring σ → Prop
  | publish {r} (head : BitVec 16) (room : r.published.length < r.served i + (r.queue i).num) :
      Step handleRequest r (r.publish i head)
  | other {r} (h : Host σ) (queue : h.mmio.queues i = r.queue i)
      (queueNum : h.mmio.queueNum = r.host.mmio.queueNum)
      (mem : ∀ a, (r.queue i).AvailByte a ∨ (r.queue i).UsedByte a → h.mem a = r.host.mem a) :
      Step handleRequest r { r with host := h }
  | process {r} (maxDescriptors fuel : Nat) (h : Host σ) (more : Bool)
      (calm : r.HandlerCalm i handleRequest) (bound : r.published.length < 65536)
      (run : r.host.processQueue i handleRequest maxDescriptors fuel = some (h, more)) :
      Step handleRequest r { r with host := h }
  | fill {r} (rx : i = VIRTIO_NET_RX_QUEUE) (calm : r.BufferCalm i) (bound : r.FillBound i) :
      Step handleRequest r { r with host := r.host.fillRxBuffers }

/-- The states of a queue since the driver made it ready, with both indices at 0. -/
inductive Reach (handleRequest : Handler σ) : Ring σ → Prop
  | ready (h : Host σ) (val : Nat) (nonzero : val ≠ 0) (sel : h.mmio.currentQueue = i)
      (present : i < h.mmio.queueNum) (laid : (h.mmio.queues i).Laid)
      (avail : (h.mmio.queues i).availIdx h.mem = 0) (used : (h.mmio.queues i).usedIdx h.mem = 0) :
      Reach handleRequest (Ring.ready h val)
  | step {r r'} (h : Reach handleRequest r) (s : Step i handleRequest r r') : Reach handleRequest r'

/-! ## What a run keeps -/

/-- The device's state matches what the driver published, with `c` buffers announced. -/
structure Synced (c : Nat) (r : Ring σ) : Prop where
  present : i < r.host.mmio.queueNum
  laid : (r.queue i).Laid
  counter : (r.queue i).lastAvailIdx = r.served i
  taken : (r.queue i).handed.map Prod.fst = (r.published.take (r.served i)).map BitVec.toNat
  served_le : r.served i ≤ r.published.length
  ahead : r.published.length ≤ r.served i + (r.queue i).num
  avail : (r.queue i).availIdx r.host.mem = r.published.length % 65536
  slots : Wraps (r.queue i).num r.published.length → ∀ k head, r.published[k]? = some head →
    r.served i ≤ k → (r.queue i).availHead r.host.mem (k % 65536) = head.toNat
  used : (r.queue i).usedIdx r.host.mem = c % 65536
  delivered : Wraps (r.queue i).num r.published.length → ∀ k head, r.published[k]? = some head →
    k < r.served i → r.served i ≤ k + (r.queue i).num →
      (r.queue i).usedId r.host.mem (k % 65536 % (r.queue i).num) = head.toNat

variable {i} {handleRequest : Handler σ} {r r' : Ring σ} {c : Nat}

theorem Synced.ready {h : Host σ} {val : Nat} (nonzero : val ≠ 0) (sel : h.mmio.currentQueue = i)
    (present : i < h.mmio.queueNum) (laid : (h.mmio.queues i).Laid)
    (avail : (h.mmio.queues i).availIdx h.mem = 0) (used : (h.mmio.queues i).usedIdx h.mem = 0) :
    Synced i 0 (Ring.ready h val) := by
  have hq : (Ring.ready h val).queue i =
      { h.mmio.queues i with ready := true, lastAvailIdx := 0, handed := [] } := by
    simp [Ring.queue, Ring.ready, VirtioMMIO.setQueueReady, sel, nonzero]
  have hserved : (Ring.ready h val).served i = 0 := by simp [Ring.served, hq]
  constructor
  · exact present
  · rw [hq]
    exact ⟨laid.configured, laid.apart⟩
  · rw [hq, hserved]
  · rw [hq, hserved]
    rfl
  · rw [hserved]
    exact Nat.zero_le _
  · exact Nat.zero_le _
  · rw [hq]
    exact avail
  · intro _ k head hk
    simp [Ring.ready] at hk
  · rw [hq]
    exact used
  · intro _ k head hk
    simp [Ring.ready] at hk

/-- Bytes outside both rings, and the rest of the device, do not matter. -/
theorem Synced.other (hs : Synced i c r) {h : Host σ} (queue : h.mmio.queues i = r.queue i)
    (queueNum : h.mmio.queueNum = r.host.mmio.queueNum)
    (mem : ∀ a, (r.queue i).AvailByte a ∨ (r.queue i).UsedByte a → h.mem a = r.host.mem a) :
    Synced i c { r with host := h } := by
  have hq : ({ r with host := h } : Ring σ).queue i = r.queue i := queue
  have hserved : ({ r with host := h } : Ring σ).served i = r.served i := by
    rw [Ring.served, hq, Ring.served]
  have hpos := hs.laid.num_pos
  constructor
  · rw [queueNum]
    exact hs.present
  · rw [hq]
    exact hs.laid
  · rw [hq, hserved]
    exact hs.counter
  · rw [hq, hserved]
    exact hs.taken
  · rw [hserved]
    exact hs.served_le
  · rw [hq, hserved]
    exact hs.ahead
  · rw [hq, ← hs.avail]
    exact VirtQueue.availIdx_congr fun a ha => mem a (.inl ha)
  · rw [hq, hserved]
    intro hw k head hk hle
    rw [← hs.slots hw k head hk hle]
    exact VirtQueue.availHead_congr hs.laid (fun a ha => mem a (.inl ha)) _
  · rw [hq, ← hs.used]
    exact VirtQueue.usedIdx_congr fun a ha => mem a (.inr ha)
  · rw [hq, hserved]
    intro hw k head hk hlt hle
    rw [← hs.delivered hw k head hk hlt hle]
    exact VirtQueue.usedId_congr (Nat.mod_lt _ hpos) fun a ha => mem a (.inr ha)

/-- The driver writes its own ring only. -/
theorem Ring.publish_mem (hs : (r.queue i).Laid) (head : BitVec 16) {a : Nat}
    (ha : (r.queue i).UsedByte a) : (r.publish i head).host.mem a = r.host.mem a := by
  have hapart : ¬ (r.queue i).AvailByte a := fun h => hs.apart a (.inl h) ha
  have hslot := Nat.mod_lt ((r.queue i).availIdx r.host.mem) hs.num_pos
  simp only [VirtQueue.AvailByte, not_and_or, not_le, not_lt] at hapart
  simp only [Ring.publish]
  rw [writeU16_other (by omega), writeU16_other (by omega)]

@[simp] theorem Ring.publish_queue (r : Ring σ) (head : BitVec 16) :
    (r.publish i head).queue i = r.queue i := rfl

@[simp] theorem Ring.publish_served (r : Ring σ) (head : BitVec 16) :
    (r.publish i head).served i = r.served i := rfl

theorem Synced.publish (hs : Synced i c r) (head : BitVec 16)
    (room : r.published.length < r.served i + (r.queue i).num) : Synced i c (r.publish i head) := by
  have hpos := hs.laid.num_pos
  have hlen : (r.publish i head).published.length = r.published.length + 1 := by
    simp [Ring.publish]
  have hold : ∀ k x, (r.publish i head).published[k]? = some x →
      (k < r.published.length ∧ r.published[k]? = some x) ∨ (k = r.published.length ∧ x = head) := by
    intro k x hk
    simp only [Ring.publish, List.getElem?_append] at hk
    split_ifs at hk with h
    · exact .inl ⟨h, hk⟩
    · obtain ⟨hlt, hx⟩ := List.getElem?_eq_some_iff.mp hk
      simp only [List.length_singleton] at hlt
      have hz : k - r.published.length = 0 := by omega
      simp only [hz, List.getElem_cons_zero] at hx
      exact .inr ⟨by omega, hx.symm⟩
  constructor
  · exact hs.present
  · exact hs.laid
  · exact hs.counter
  · rw [Ring.publish_queue, Ring.publish_served, hs.taken, Ring.publish,
      List.take_append_of_le_length hs.served_le]
  · rw [hlen]
    exact Nat.le_succ_of_le hs.served_le
  · rw [hlen]
    exact room
  · rw [hlen]
    have hread : (r.queue i).availIdx (r.publish i head).host.mem =
        ((r.queue i).availIdx r.host.mem + 1) % 65536 := readU16_writeU16 _ _ _
    exact hread.trans (by rw [hs.avail]; omega)
  · rw [Ring.publish_queue, Ring.publish_served]
    intro hw k x hk hle
    have hidx : (r.queue i).availIdx r.host.mem % (r.queue i).num =
        r.published.length % (r.queue i).num := by
      rw [hs.avail, hw.mod (by omega)]
    have hPslot := Nat.mod_lt r.published.length hpos
    rcases hold k x hk with ⟨hlt, hx⟩ | ⟨rfl, rfl⟩
    · have hslot : k % 65536 % (r.queue i).num = k % (r.queue i).num := hw.mod (by omega)
      have hne : k % (r.queue i).num ≠ r.published.length % (r.queue i).num := slot_ne hlt (by omega)
      rw [← hs.slots (hw.mono (by omega)) k x hx hle]
      apply readU16_congr
      intro a h1 h2
      simp only [Ring.publish]
      rw [hidx, writeU16_other (by omega), writeU16_other (by omega)]
    · have hread : readU16 (r.publish i x).host.mem ((r.queue i).driver +
          (4 + r.published.length % (r.queue i).num * 2)) = x.toNat := by
        have hx : x.toNat % 65536 = x.toNat := Nat.mod_eq_of_lt x.isLt
        rw [← hx, ← readU16_writeU16 r.host.mem]
        apply readU16_congr
        intro a h1 h2
        simp only [Ring.publish]
        rw [writeU16_other (by omega), hidx]
      rw [VirtQueue.availHead, hw.mod (by omega), hread]
  · rw [← hs.used]
    exact VirtQueue.usedIdx_congr fun a ha => Ring.publish_mem hs.laid head ha
  · rw [Ring.publish_queue, Ring.publish_served]
    intro hw k x hk hlt hle
    rcases hold k x hk with ⟨_, hx⟩ | ⟨rfl, _⟩
    · rw [← hs.delivered (hw.mono (by omega)) k x hx hlt hle]
      exact VirtQueue.usedId_congr (Nat.mod_lt _ hpos) fun a ha => Ring.publish_mem hs.laid head ha
    · exact absurd hs.served_le (by omega)

/-- The device finds the next published head at its own counter. -/
theorem Synced.next (hs : Synced i c r) (hw : Wraps (r.queue i).num r.published.length)
    {x : BitVec 16} (hx : r.published[r.served i]? = some x) :
    (r.queue i).availHead r.host.mem (r.queue i).lastAvailIdx = x.toNat := by
  have hlt := (List.getElem?_eq_some_iff.mp hx).1
  have h := hs.slots hw (r.served i) x hx (Nat.le_refl _)
  rw [VirtQueue.availHead, hw.mod hlt] at h
  rw [VirtQueue.availHead, hs.counter, h]

/-- A used entry lands in its own slot of the used ring. -/
theorem VirtQueue.pushUsed_other {q : VirtQueue} {m : Mem} {head len a : Nat}
    (h : a < q.device + 4 + q.lastAvailIdx % q.num * 8 ∨ q.device + 4 + q.lastAvailIdx % q.num * 8 + 8 ≤ a) :
    q.pushUsed m head len a = m a := writeLe_other h

theorem VirtQueue.Laid.pushUsed_driver {q : VirtQueue} (hq : q.Laid) {m : Mem} {head len a : Nat}
    (ha : q.DriverByte a) : q.pushUsed m head len a = m a := by
  have hnot := hq.apart a ha
  have := Nat.mod_lt q.lastAvailIdx hq.num_pos
  simp only [VirtQueue.UsedByte, not_and_or, not_le, not_lt] at hnot
  exact VirtQueue.pushUsed_other (by omega)

theorem VirtQueue.Laid.commitUsed_driver {q : VirtQueue} (hq : q.Laid) {m : Mem} {a : Nat}
    (ha : q.DriverByte a) : q.commitUsed m a = m a := by
  have hnot := hq.apart a ha
  have := hq.num_pos
  simp only [VirtQueue.UsedByte, not_and_or, not_le, not_lt] at hnot
  exact writeU16_other (by omega)

theorem VirtQueue.usedId_pushUsed (q : VirtQueue) (m : Mem) {head : Nat} (len : Nat) (h : head < 65536) :
    q.usedId (q.pushUsed m head len) (q.lastAvailIdx % q.num) = head := by
  have hr := readLe_writeLe_toNat m (q.device + 4 + q.lastAvailIdx % q.num * 8)
    (v := head + mask32 len * 2 ^ 32) (by decide : 4 ≤ 8) (Nat.le_refl 8)
  exact hr.trans (by omega)

theorem Host.retire_queue {h : Host σ} {q : VirtQueue} (hq : h.mmio.queues i = q) (head written : Nat) :
    (h.retire i head written).mmio.queues i = { q with lastAvailIdx := q.lastAvailIdx + 1 } := by
  have h1 : (h.retire i head written).mmio.queues i = { h.mmio.queues i with
      lastAvailIdx := (h.mmio.queues i).lastAvailIdx + 1 } := VirtioMMIO.setQueue_same _ _ _
  rw [h1, hq]

theorem Host.retire_mem {h : Host σ} {q : VirtQueue} (hq : h.mmio.queues i = q) (head written : Nat) :
    (h.retire i head written).mem = q.pushUsed h.mem head written := by
  have h1 : (h.retire i head written).mem = (h.mmio.queues i).pushUsed h.mem head written := rfl
  rw [h1, hq]

theorem served_retire {h : Host σ} {head : Nat} {chain : Option (List VirtqDesc)}
    (queue : h.mmio.queues i =
      { r.queue i with handed := (r.queue i).handed ++ [(head, chain)] }) (written : Nat) :
    Ring.served i { r with host := h.retire i head written } = r.served i + 1 := by
  have hlen := congrArg (fun q => q.handed.length) (Host.retire_queue queue head written)
  simp only [List.length_append, List.length_singleton] at hlen
  exact hlen

theorem retire_driver (laid : (r.queue i).Laid) {h : Host σ} {head : Nat}
    {chain : Option (List VirtqDesc)} (queue : h.mmio.queues i =
      { r.queue i with handed := (r.queue i).handed ++ [(head, chain)] })
    (mem : ∀ a, (r.queue i).DriverByte a ∨ (r.queue i).UsedByte a → h.mem a = r.host.mem a)
    (written : Nat) {a : Nat} (ha : (r.queue i).DriverByte a) :
    (h.retire i head written).mem a = r.host.mem a := by
  rw [Host.retire_mem queue, ← mem a (.inl ha)]
  exact VirtQueue.Laid.pushUsed_driver ⟨laid.configured, laid.apart⟩ ha

theorem Synced.retire (hs : Synced i c r) (hw : Wraps (r.queue i).num r.published.length)
    (hlt : r.served i < r.published.length) {h : Host σ} {head written : Nat}
    {chain : Option (List VirtqDesc)} (queueNum : h.mmio.queueNum = r.host.mmio.queueNum)
    (queue : h.mmio.queues i =
      { r.queue i with handed := (r.queue i).handed ++ [(head, chain)] })
    (mem : ∀ a, (r.queue i).DriverByte a ∨ (r.queue i).UsedByte a → h.mem a = r.host.mem a)
    (hhead : head = (r.queue i).availHead r.host.mem (r.queue i).lastAvailIdx) :
    Synced i c { r with host := h.retire i head written } := by
  obtain ⟨x, hx⟩ : ∃ x, r.published[r.served i]? = some x := ⟨_, List.getElem?_eq_getElem hlt⟩
  have hxhead : head = x.toNat := hhead.trans (hs.next hw hx)
  have hpos := hs.laid.num_pos
  have hslot := Nat.mod_lt (r.served i) hpos
  set r' : Ring σ := { r with host := h.retire i head written } with hr'
  have hq : r'.queue i = { r.queue i with
      handed := (r.queue i).handed ++ [(head, chain)], lastAvailIdx := r.served i + 1 } :=
    (Host.retire_queue queue head written).trans (by simp only [hs.counter])
  have hserved : r'.served i = r.served i + 1 := served_retire queue written
  have hpush : r'.host.mem = (r.queue i).pushUsed h.mem head written :=
    Host.retire_mem queue head written
  have hmem : ∀ a, (a < (r.queue i).device + 4 + r.served i % (r.queue i).num * 8 ∨
      (r.queue i).device + 4 + r.served i % (r.queue i).num * 8 + 8 ≤ a) →
      r'.host.mem a = h.mem a := by
    intro a ha
    rw [hpush]
    apply VirtQueue.pushUsed_other
    rwa [hs.counter]
  have hdriver : ∀ a, (r.queue i).DriverByte a → r'.host.mem a = r.host.mem a :=
    fun a ha => retire_driver hs.laid queue mem written ha
  constructor
  · exact queueNum ▸ hs.present
  · rw [hq]
    exact ⟨hs.laid.configured, hs.laid.apart⟩
  · rw [hserved, hq]
  · rw [hserved, hq, List.map_append, hs.taken, List.take_add_one, hx, List.map_append, hxhead]
    rfl
  · rw [hserved]
    exact hlt
  · rw [hserved, hq]
    have := hs.ahead
    simp only [hr']
    omega
  · rw [hq]
    exact (VirtQueue.availIdx_congr fun a ha => hdriver a (.inl ha)).trans hs.avail
  · rw [hq, hserved]
    intro hw' k y hy hle
    refine Eq.trans ?_ (hs.slots hw k y hy (by omega))
    exact VirtQueue.availHead_congr hs.laid (fun a ha => hdriver a (.inl ha)) _
  · have hu : (r'.queue i).usedIdx r'.host.mem = (r.queue i).usedIdx r'.host.mem := by
      rw [hq]
      rfl
    rw [hu, ← hs.used]
    apply readU16_congr
    intro a h1 h2
    have hbyte : (r.queue i).UsedByte a := by constructor <;> omega
    rw [hmem a (by omega), mem a (.inr hbyte)]
  · have hnum : (r'.queue i).num = (r.queue i).num := by rw [hq]
    rw [hserved, hnum]
    intro hw' k y hy hk hle
    have hkslot : k % 65536 % (r.queue i).num = k % (r.queue i).num := hw.mod (by omega)
    have hu : ∀ m slot, (r'.queue i).usedId m slot = (r.queue i).usedId m slot := by
      intro m slot
      rw [hq]
      rfl
    rw [hu, hkslot]
    rcases Nat.lt_or_eq_of_le (Nat.le_of_lt_succ hk) with hk | rfl
    · have hne : k % (r.queue i).num ≠ r.served i % (r.queue i).num := slot_ne hk (by omega)
      have hkn := Nat.mod_lt k hpos
      rw [← hs.delivered hw k y hy hk (by omega), hkslot]
      simp only [VirtQueue.usedId]
      congr 1
      apply readLe_congr
      intro b hb
      have hbyte : (r.queue i).UsedByte ((r.queue i).device + 4 + k % (r.queue i).num * 8 + b) := by
        constructor <;> omega
      rw [hmem _ (by omega), mem _ (.inr hbyte)]
    · have hy' : y = x := Option.some.inj (hy.symm.trans hx)
      have hid := (r.queue i).usedId_pushUsed h.mem written (hxhead ▸ x.isLt)
      rw [hs.counter] at hid
      rw [hy', ← hxhead, hpush]
      exact hid

end Virtio
