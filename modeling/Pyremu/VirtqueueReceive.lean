import Pyremu.VirtqueueServe

/-!
# The receive queue, and what holds on every run

Receive buffers are filled while frames wait. On a run whose calls all come
with fewer than 65536 buffers published, every buffer is served once, in
order, at the slot that the driver looks at.
-/

namespace Virtio

open ByteMem

variable {σ : Type*} {i : Nat} {handleRequest : Handler σ} {r r' : Ring σ} {c : Nat}

/-! ## Receive buffers -/

theorem Ring.BufferCalm.mono (hc : r.BufferCalm i) {x y}
    (queue : r'.queue i = { r.queue i with handed := x, lastAvailIdx := y })
    (published : r'.published = r.published) (served : r.served i ≤ r'.served i)
    (mem : ∀ a, (r.queue i).DriverByte a → r'.host.mem a = r.host.mem a) : r'.BufferCalm i := by
  intro m hm head hhead d hd hw a ha
  rw [queue] at hm hd ha
  have hin : head ∈ r.pending i := by
    rw [Ring.pending, published] at hhead
    exact (List.drop_subset_drop_left _ served) hhead
  exact hc m (fun b hb => (hm b hb).trans (mem b hb)) head hin d hd hw a ha

/-- The next buffer in line, when there is one in the table, is not one that the device may
write. -/
def Ring.Unfit (i : Nat) (r : Ring σ) : Prop :=
  ∀ x, r.published[r.served i]? = some x → x.toNat < (r.queue i).num → ∀ d,
    ((r.queue i).descriptorChain r.host.mem x.toNat 1).bind List.head? = some d →
      d.flags &&& VRING_DESC_F_WRITE = 0

/-- A chain cut after one descriptor depends on that one only. -/
theorem VirtQueue.descriptorChain_one (q : VirtQueue) (m : Mem) (head : Nat) :
    q.descriptorChain m head 1 =
      if q.numMax ≤ head then none else some [q.readDescriptor m head] := by
  rw [VirtQueue.descriptorChain]
  cases q.numMax with
  | zero => rfl
  | succ n =>
    rw [VirtQueue.chainFrom]
    simp

theorem VirtQueue.readDescriptor_congr {q : VirtQueue} {m m' : Mem} {idx : Nat} (hidx : idx < q.num)
    (h : ∀ a, q.DescByte a → m a = m' a) : q.readDescriptor m idx = q.readDescriptor m' idx := by
  have hle : (idx + 1) * VRING_DESC_SIZE ≤ q.num * VRING_DESC_SIZE := Nat.mul_le_mul_right _ hidx
  rw [Nat.succ_mul] at hle
  have hword : ∀ off n, off + n ≤ VRING_DESC_SIZE →
      readLe m (q.desc + idx * VRING_DESC_SIZE + off) n =
        readLe m' (q.desc + idx * VRING_DESC_SIZE + off) n := by
    intro off n hn
    apply readLe_congr
    intro b hb
    apply h
    constructor <;> omega
  simp only [VirtQueue.readDescriptor]
  rw [← Nat.add_zero (q.desc + idx * VRING_DESC_SIZE), hword 0 8 (by decide), Nat.add_zero,
    hword 8 4 (by decide), hword 12 2 (by decide), hword 14 2 (by decide)]

/-- The device may fill receive buffers, with `c` of them announced. -/
structure Filling (c : Nat) (r : Ring σ) : Prop where
  synced : Synced VIRTIO_NET_RX_QUEUE c r
  calm : r.BufferCalm VIRTIO_NET_RX_QUEUE
  bound : r.FillBound VIRTIO_NET_RX_QUEUE

theorem Filling.wraps (hf : Filling c r) :
    Wraps (r.queue VIRTIO_NET_RX_QUEUE).num r.published.length := by
  rcases hf.bound with h | h
  · exact .inl (Nat.le_of_lt h)
  · exact h.1

/-- The 16-bit index meets the device's counter only when nothing waits. -/
theorem Filling.met (hf : Filling c r) (hframes : r.host.rxFrames ≠ [])
    (hmet : (r.queue VIRTIO_NET_RX_QUEUE).lastAvailIdx = r.published.length % 65536) :
    r.served VIRTIO_NET_RX_QUEUE = r.published.length := by
  have hle := hf.synced.served_le
  have hpos := List.length_pos_iff.mpr hframes
  rw [hf.synced.counter] at hmet
  rcases hf.bound with h | ⟨-, h1, h2⟩ <;> omega

theorem Filling.unmet (hf : Filling c r) (hframes : r.host.rxFrames ≠ [])
    (hmet : (r.queue VIRTIO_NET_RX_QUEUE).lastAvailIdx ≠ r.published.length % 65536) :
    r.served VIRTIO_NET_RX_QUEUE < r.published.length := by
  have hle := hf.synced.served_le
  have hpos := List.length_pos_iff.mpr hframes
  rw [hf.synced.counter] at hmet
  rcases hf.bound with h | ⟨-, h1, h2⟩ <;> omega

/-- A frame goes into a published buffer and its head into the used ring. -/
theorem Filling.putFrame (hf : Filling c r) {frame : List (BitVec 8)} {rest : List (List (BitVec 8))}
    (hframes : r.host.rxFrames = frame :: rest) {x : BitVec 16}
    (hx : r.published[r.served VIRTIO_NET_RX_QUEUE]? = some x) {d : VirtqDesc}
    (hd : ((r.queue VIRTIO_NET_RX_QUEUE).descriptorChain r.host.mem x.toNat 1).bind List.head? = some d)
    (hw : d.flags &&& VRING_DESC_F_WRITE ≠ 0)
    (hlen : VIRTIO_NET_HDR_SIZE + frame.length ≤ d.length) :
    Filling c { r with host := r.host.putFrame x.toNat d frame rest } ∧
      Ring.served VIRTIO_NET_RX_QUEUE { r with host := r.host.putFrame x.toNat d frame rest } =
        r.served VIRTIO_NET_RX_QUEUE + 1 := by
  have hlt := (List.getElem?_eq_some_iff.mp hx).1
  have hin : x ∈ r.pending VIRTIO_NET_RX_QUEUE := by
    apply List.mem_of_getElem? (i := 0)
    rw [Ring.pending, List.getElem?_drop]
    exact hx
  obtain ⟨h0, hh0⟩ : ∃ h0, Host.setQueue { r.host with
      mem := Splice.patch r.host.mem d.addr (List.replicate VIRTIO_NET_HDR_SIZE 0#8 ++ frame)
      rxFrames := rest } VIRTIO_NET_RX_QUEUE { r.queue VIRTIO_NET_RX_QUEUE with
        handed := (r.queue VIRTIO_NET_RX_QUEUE).handed ++ [(x.toNat, some [d])] } = h0 := ⟨_, rfl⟩
  have hput : r.host.putFrame x.toNat d frame rest =
      h0.retire VIRTIO_NET_RX_QUEUE x.toNat (VIRTIO_NET_HDR_SIZE + frame.length) := by
    rw [← hh0]
    rfl
  have queue : h0.mmio.queues VIRTIO_NET_RX_QUEUE = { r.queue VIRTIO_NET_RX_QUEUE with
      handed := (r.queue VIRTIO_NET_RX_QUEUE).handed ++ [(x.toNat, some [d])] } := by
    rw [← hh0]
    exact VirtioMMIO.setQueue_same _ _ _
  have queueNum : h0.mmio.queueNum = r.host.mmio.queueNum := by
    rw [← hh0]
    rfl
  have mem : ∀ a, (r.queue VIRTIO_NET_RX_QUEUE).DriverByte a ∨
      (r.queue VIRTIO_NET_RX_QUEUE).UsedByte a → h0.mem a = r.host.mem a := by
    intro a ha
    have hclear := hf.calm r.host.mem (fun _ _ => rfl) x hin d hd hw a ha
    rw [← hh0]
    rcases hclear with h | h
    · exact Splice.patch_of_lt h
    · apply Splice.patch_of_ge
      rw [List.length_append, List.length_replicate]
      omega
  rw [hput]
  have hserved := served_retire queue (VIRTIO_NET_HDR_SIZE + frame.length)
  refine ⟨⟨?_, ?_, ?_⟩, hserved⟩
  · exact hf.synced.retire hf.wraps hlt queueNum queue mem (hf.synced.next hf.wraps hx).symm
  · apply hf.calm.mono
    · exact Host.retire_queue queue _ _
    · rfl
    · exact hserved ▸ Nat.le_succ _
    · exact fun a ha => retire_driver hf.synced.laid queue mem _ ha
  · rcases hf.bound with hb | ⟨hb, h1, h2⟩
    · exact .inl hb
    · right
      have hqueue := congrArg (fun q => q.num)
        (Host.retire_queue queue x.toNat (VIRTIO_NET_HDR_SIZE + frame.length))
      have hrest : (h0.retire VIRTIO_NET_RX_QUEUE x.toNat
          (VIRTIO_NET_HDR_SIZE + frame.length)).rxFrames = rest := by
        rw [← hh0]
        rfl
      rw [hframes, List.length_cons] at h2
      rw [hserved, hrest]
      refine ⟨?_, ?_, ?_⟩
      · simp only [Ring.queue] at hb hqueue ⊢
        rw [hqueue]
        exact hb
      · simp only
        omega
      · simp only
        omega

/-- A frame too long for the next buffer is dropped. -/
theorem Filling.drop (hf : Filling c r) {frame : List (BitVec 8)} {rest : List (List (BitVec 8))}
    (hframes : r.host.rxFrames = frame :: rest) (dropped : Nat) :
    Filling c { r with host := { r.host with rxFrames := rest, rxDropped := dropped } } := by
  refine ⟨hf.synced.other rfl rfl fun _ _ => rfl, hf.calm, ?_⟩
  rcases hf.bound with hb | ⟨hb, h1, h2⟩
  · exact .inl hb
  · rw [hframes, List.length_cons] at h2
    exact .inr ⟨hb, h1, Nat.le_of_succ_le h2⟩

/-- The loop stops with no frame left, no buffer left, or a buffer in the way. -/
theorem fillLoop_spec {frames : List (List (BitVec 8))} {n0 : Nat} (hf : Filling c r)
    (hframes : r.host.rxFrames = frames) {h : Host σ} {n : Nat}
    (run : r.host.fillLoop (r.published.length % 65536) frames n0 = (h, n)) :
    Filling c { r with host := h } ∧
      n + r.served VIRTIO_NET_RX_QUEUE = n0 + Ring.served VIRTIO_NET_RX_QUEUE { r with host := h } ∧
      (h.rxFrames = [] ∨ Ring.served VIRTIO_NET_RX_QUEUE { r with host := h } = r.published.length ∨
        Ring.Unfit VIRTIO_NET_RX_QUEUE { r with host := h }) := by
  induction frames generalizing r n0 with
  | nil =>
    obtain ⟨rfl, rfl⟩ := Prod.mk.inj run
    exact ⟨hf, rfl, .inl hframes⟩
  | cons frame rest ih =>
    have hne : r.host.rxFrames ≠ [] := by
      rw [hframes]
      exact List.cons_ne_nil _ _
    rw [Host.fillLoop] at run
    by_cases hmet : (r.host.mmio.queues VIRTIO_NET_RX_QUEUE).lastAvailIdx = r.published.length % 65536
    · rw [if_pos hmet] at run
      obtain ⟨rfl, rfl⟩ := Prod.mk.inj run
      exact ⟨hf, rfl, .inr (.inl (hf.met hne hmet))⟩
    rw [if_neg hmet] at run
    have hlt := hf.unmet hne hmet
    obtain ⟨x, hx⟩ : ∃ x, r.published[r.served VIRTIO_NET_RX_QUEUE]? = some x :=
      ⟨_, List.getElem?_eq_getElem hlt⟩
    have hnext : (r.host.mmio.queues VIRTIO_NET_RX_QUEUE).availHead r.host.mem
        (r.host.mmio.queues VIRTIO_NET_RX_QUEUE).lastAvailIdx = x.toNat := hf.synced.next hf.wraps hx
    rw [hnext] at run
    cases hd : ((r.host.mmio.queues VIRTIO_NET_RX_QUEUE).descriptorChain r.host.mem x.toNat 1).bind
        List.head? with
    | none =>
      simp only [hd] at run
      obtain ⟨rfl, rfl⟩ := Prod.mk.inj run
      refine ⟨hf, rfl, .inr (.inr ?_)⟩
      intro y hy _ d hyd
      obtain rfl : x = y := Option.some.inj (hx.symm.trans hy)
      exact absurd (hd.symm.trans hyd) (by simp)
    | some d =>
      simp only [hd] at run
      by_cases hw : d.flags &&& VRING_DESC_F_WRITE = 0
      · rw [if_pos hw] at run
        obtain ⟨rfl, rfl⟩ := Prod.mk.inj run
        refine ⟨hf, rfl, .inr (.inr ?_)⟩
        intro y hy _ d' hyd
        obtain rfl : x = y := Option.some.inj (hx.symm.trans hy)
        obtain rfl : d = d' := Option.some.inj (hd.symm.trans hyd)
        exact hw
      rw [if_neg hw] at run
      by_cases hlen : d.length < VIRTIO_NET_HDR_SIZE + frame.length
      · rw [if_pos hlen] at run
        have hdrop := hf.drop hframes (r.host.rxDropped + 1)
        have hrest := ih hdrop rfl run
        exact hrest
      · rw [if_neg hlen] at run
        obtain ⟨hf', hserved⟩ := hf.putFrame hframes hx hd hw (Nat.le_of_not_lt hlen)
        obtain ⟨h1, h2, h3⟩ := ih hf' rfl run
        refine ⟨h1, ?_, h3⟩
        rw [hserved] at h2
        simp only at h2
        omega

/-! ## What a call leaves -/

/-- The heads handed out are the first ones published, each one in its turn. The used ring
announces them, and the last ones lie where the driver looks for them. -/
structure Served (i : Nat) (r : Ring σ) : Prop where
  order : (r.queue i).handed.map Prod.fst = (r.published.take (r.served i)).map BitVec.toNat
  used : (r.queue i).usedIdx r.host.mem = r.served i % 65536
  delivered : ∀ k head, r.published[k]? = some head → k < r.served i →
    r.served i ≤ k + (r.queue i).num →
      (r.queue i).usedId r.host.mem (k % 65536 % (r.queue i).num) = head.toNat

/-- Calls until nothing is left come to an end, and every published buffer is served. -/
def Serves (i : Nat) (handleRequest : Handler σ) (maxDescriptors : Nat) (r : Ring σ) : Prop :=
  ∃ fuel calls h, r.host.drainQueue i handleRequest maxDescriptors fuel calls = some h ∧
    Served i { r with host := h } ∧ Ring.served i { r with host := h } = r.published.length

/-- Buffers are served until no frame waits, no buffer is left, or the next one is unfit. -/
def Fills (r : Ring σ) : Prop :=
  Served VIRTIO_NET_RX_QUEUE { r with host := r.host.fillRxBuffers } ∧
    (r.host.fillRxBuffers.rxFrames = [] ∨
      Ring.served VIRTIO_NET_RX_QUEUE { r with host := r.host.fillRxBuffers } = r.published.length ∨
      Ring.Unfit VIRTIO_NET_RX_QUEUE { r with host := r.host.fillRxBuffers })

theorem Synced.toServed (hs : Synced i (r.served i) r)
    (hw : Wraps (r.queue i).num r.published.length) : Served i r :=
  ⟨hs.taken, hs.used, hs.delivered hw⟩

theorem fillRxBuffers_eq (hs : Synced VIRTIO_NET_RX_QUEUE c r) :
    r.host.fillRxBuffers =
      let p := r.host.fillLoop (r.published.length % 65536) r.host.rxFrames 0
      if 0 < p.2 then p.1.complete VIRTIO_NET_RX_QUEUE else p.1 := by
  have hat : r.host.mmio.queueAt VIRTIO_NET_RX_QUEUE = some (r.queue VIRTIO_NET_RX_QUEUE) :=
    if_pos hs.present
  rw [Host.fillRxBuffers, hat]
  simp only [hs.laid.configured, if_true, hs.avail]

theorem fillRxBuffers_spec (hf : Filling (r.served VIRTIO_NET_RX_QUEUE) r) :
    Synced VIRTIO_NET_RX_QUEUE
        (Ring.served VIRTIO_NET_RX_QUEUE { r with host := r.host.fillRxBuffers })
        { r with host := r.host.fillRxBuffers } ∧ Fills r := by
  rw [Fills, fillRxBuffers_eq hf.synced]
  obtain ⟨⟨h, n⟩, hrun⟩ : ∃ p, r.host.fillLoop (r.published.length % 65536) r.host.rxFrames 0 = p :=
    ⟨_, rfl⟩
  obtain ⟨hf', hn, hstop⟩ := fillLoop_spec hf rfl hrun
  simp only [hrun]
  by_cases hpos : 0 < n
  · simp only [if_pos hpos]
    have hqueue : Ring.queue VIRTIO_NET_RX_QUEUE { r with host := h.complete VIRTIO_NET_RX_QUEUE } =
        Ring.queue VIRTIO_NET_RX_QUEUE { r with host := h } := congrFun h.complete_queues _
    have hserved : Ring.served VIRTIO_NET_RX_QUEUE
        { r with host := h.complete VIRTIO_NET_RX_QUEUE } =
          Ring.served VIRTIO_NET_RX_QUEUE { r with host := h } := by
      rw [Ring.served, hqueue, Ring.served]
    have hsync := hf'.synced.complete
    rw [← hserved] at hsync
    refine ⟨hsync, hsync.toServed (hqueue ▸ hf'.wraps), ?_⟩
    rw [hserved, Host.complete_rxFrames]
    rcases hstop with hstop | hstop | hstop
    · exact .inl hstop
    · exact .inr (.inl hstop)
    · right
      right
      intro x hx hxn d hd
      rw [hserved] at hx
      rw [hqueue] at hd hxn
      have hread : VirtQueue.readDescriptor (Ring.queue VIRTIO_NET_RX_QUEUE { r with host := h })
          (h.complete VIRTIO_NET_RX_QUEUE).mem x.toNat =
            VirtQueue.readDescriptor (Ring.queue VIRTIO_NET_RX_QUEUE { r with host := h }) h.mem
              x.toNat := by
        apply VirtQueue.readDescriptor_congr hxn
        intro a ha
        exact (congrFun h.complete_mem a).trans (hf'.synced.laid.commitUsed_driver (.inr ha))
      rw [VirtQueue.descriptorChain_one, hread, ← VirtQueue.descriptorChain_one] at hd
      exact hstop x hx hxn d hd
  · simp only [if_neg hpos]
    have hserved : Ring.served VIRTIO_NET_RX_QUEUE { r with host := h } =
        r.served VIRTIO_NET_RX_QUEUE := by omega
    have hsync := hf'.synced
    rw [← hserved] at hsync
    exact ⟨hsync, hsync.toServed hf'.wraps, hstop⟩

/-- Between two steps all that was handed out is announced. -/
theorem Reach.synced (hk : Keeps i handleRequest) (hr : Reach i handleRequest r) :
    Synced i (r.served i) r := by
  induction hr with
  | ready h val nonzero sel present laid avail used =>
    have hsync := Synced.ready nonzero sel present laid avail used
    have hle := hsync.served_le
    have hzero : Ring.served i (Ring.ready h val) = 0 := Nat.le_zero.mp hle
    rw [hzero]
    exact hsync
  | @step r _ _ s ih =>
    cases s with
    | publish head room => exact ih.publish head room
    | other h queue queueNum mem =>
      have hserved : Ring.served i { r with host := h } = r.served i :=
        congrArg (fun q => q.handed.length) queue
      rw [hserved]
      exact ih.other queue queueNum mem
    | process maxDescriptors fuel h more calm bound run =>
      exact (processQueue_spec hk ⟨ih, calm, bound⟩ run).1.synced
    | fill rx calm bound =>
      subst rx
      exact (fillRxBuffers_spec ⟨ih, calm, bound⟩).1

/-- A published buffer past the 65535th is out of the device's sight. -/
theorem Serves.bound (hk : Keeps i handleRequest) (hs : Synced i c r) {maxDescriptors : Nat}
    (h : Serves i handleRequest maxDescriptors r) : r.published.length < 65536 := by
  obtain ⟨fuel, calls, h, hrun, -, hall⟩ := h
  have hc : Counted i r.host := ⟨hs.present, hs.laid.configured, hs.counter⟩
  exact hall ▸ hc.drainQueue hk hrun

def sampleQueue : VirtQueue where
  index := 0
  numMax := 256
  num := 256
  ready := false
  desc := 0x1000
  driver := 0x4000
  device := 0x5000
  lastAvailIdx := 0

def sampleHost : Host Unit where
  mmio := {
    chainMaxDesc := 3
    devId := 2
    devFeats := 0x100000000
    maxQueueNum := 256
    cfgSpaceData := []
    irq := 1
    queueNum := 1
    queues := fun _ => sampleQueue }
  mem := fun _ => 0
  line := false
  rxFrames := []
  rxDropped := 0
  dev := ()

/-- Accept every request. -/
def acceptAll : Handler Unit := fun _ _ h => ((true, 0), h)

theorem keeps_acceptAll : Keeps i acceptAll := fun _ _ _ => ⟨rfl, rfl⟩

theorem calm_acceptAll (r : Ring Unit) : r.HandlerCalm i acceptAll := fun _ _ _ _ _ _ _ _ => rfl

theorem sampleQueue_laid : sampleQueue.Laid := by
  refine ⟨rfl, ?_⟩
  intro a ha hu
  simp only [VirtQueue.DriverByte, VirtQueue.AvailByte, VirtQueue.DescByte, VirtQueue.UsedByte,
    sampleQueue, VRING_DESC_SIZE] at ha hu
  omega

theorem reach_sample : Reach 0 acceptAll (Ring.ready sampleHost 1) :=
  .ready sampleHost 1 (by decide) rfl (by decide) sampleQueue_laid rfl rfl

/-- A driver that waits for each buffer before the next one gets as far as 65535 of them. -/
theorem Reach.serve_each (hk : Keeps i handleRequest)
    (hcalm : ∀ r : Ring σ, r.HandlerCalm i handleRequest) (hr : Reach i handleRequest r)
    (hall : r.served i = r.published.length) (n : Nat) (hn : r.published.length + n < 65536) :
    ∃ r', Reach i handleRequest r' ∧ r'.published.length = r.published.length + n ∧
      r'.served i = r'.published.length := by
  induction n with
  | zero => exact ⟨r, hr, rfl, hall⟩
  | succ n ih =>
    obtain ⟨r1, hr1, hlen, hserved⟩ := ih (by omega)
    have hs1 := hr1.synced hk
    have hroom : r1.published.length < r1.served i + (r1.queue i).num := by
      have := hs1.laid.num_pos
      omega
    have hr2 := hr1.step (.publish 0 hroom)
    have hlen2 : (r1.publish i 0).published.length = r1.published.length + 1 := by
      simp [Ring.publish]
    have hserving : Serving i handleRequest ((r1.publish i 0).served i) (r1.publish i 0) :=
      ⟨hr2.synced hk, hcalm _, by omega⟩
    obtain ⟨⟨h, more⟩, hrun⟩ := processQueue_terminates hk 0 hserving
      (Nat.lt_add_left _ (Nat.lt_succ_self _))
    obtain ⟨hs3, hdone, hmore⟩ := processQueue_spec hk hserving hrun
    refine ⟨_, hr2.step (.process 0 _ h more (hcalm _) (by omega) hrun), ?_, ?_⟩
    · simp only
      omega
    · cases more with
      | false => exact hdone rfl
      | true =>
        have hlt := hmore rfl
        have hle := hs3.synced.served_le
        rw [Ring.publish_served] at hlt
        simp only at hle hlt ⊢
        omega

end Virtio
