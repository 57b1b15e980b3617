import Pyremu.VirtqueueRuns

/-!
# Serving a virtqueue

One turn of the loop hands out the next published head. A call serves them
all or a batch; calls are repeated until nothing is left. A counter that has
met the 16-bit index is below 65536, whatever was served.
-/

namespace Virtio

open ByteMem

variable {σ : Type*} {i : Nat} {handleRequest : Handler σ} {r r' : Ring σ} {c : Nat}

/-! ## One turn -/

/-- What is clear of the rings stays so while requests are served. -/
theorem Ring.HandlerCalm.mono (hc : r.HandlerCalm i handleRequest) {x y}
    (queue : r'.queue i = { r.queue i with handed := x, lastAvailIdx := y })
    (published : r'.published = r.published) (served : r.served i ≤ r'.served i)
    (mem : ∀ a, (r.queue i).DriverByte a → r'.host.mem a = r.host.mem a) :
    r'.HandlerCalm i handleRequest := by
  intro h hm head hhead c hchain a ha
  rw [queue] at hm hchain ha
  have hin : head ∈ r.pending i := by
    rw [Ring.pending, published] at hhead
    exact (List.drop_subset_drop_left _ served) hhead
  exact hc h (fun b hb => (hm b hb).trans (mem b hb)) head hin c hchain a ha

/-- `h` with `head` entered in the list of queue `i`. -/
def Host.hand (i head : Nat) (h : Host σ) : Host σ :=
  h.setQueue i { h.mmio.queues i with
    handed := (h.mmio.queues i).handed ++
      [(head, (h.mmio.queues i).descriptorChain h.mem head h.mmio.chainMaxDesc)] }

/-- A head is entered, and its chain, when it leads to one, goes to the handler. -/
theorem processChain_cases (head : Nat) (h : Host σ) :
    (h.processChain i handleRequest head).2 = h.hand i head ∨
      ∃ chain, (h.mmio.queues i).descriptorChain h.mem head h.mmio.chainMaxDesc = some chain ∧
        (h.processChain i handleRequest head).2 =
          (handleRequest ((h.hand i head).mmio.queues i) chain (h.hand i head)).2 := by
  cases hchain : (h.mmio.queues i).descriptorChain h.mem head h.mmio.chainMaxDesc with
  | none =>
    left
    simp only [Host.processChain, Host.hand, hchain]
  | some chain =>
    right
    refine ⟨chain, rfl, ?_⟩
    simp only [Host.processChain, Host.hand, hchain]

theorem processChain_queue (hk : Keeps i handleRequest) (head : Nat) (h : Host σ) :
    (h.processChain i handleRequest head).2.mmio.queueNum = h.mmio.queueNum ∧
      (h.processChain i handleRequest head).2.mmio.queues i = (h.hand i head).mmio.queues i := by
  rcases processChain_cases head h with hrun | ⟨chain, -, hrun⟩
  · rw [hrun]
    exact ⟨rfl, rfl⟩
  · obtain ⟨hkq, hkn⟩ := hk ((h.hand i head).mmio.queues i) chain (h.hand i head)
    rw [hrun, hkq, hkn]
    exact ⟨rfl, rfl⟩

/-- The rings stay as they are. -/
theorem processChain_mem (calm : r.HandlerCalm i handleRequest) {x : BitVec 16}
    (hx : x ∈ r.pending i) {a : Nat} (ha : (r.queue i).DriverByte a ∨ (r.queue i).UsedByte a) :
    (r.host.processChain i handleRequest x.toNat).2.mem a = r.host.mem a := by
  rcases @processChain_cases σ i handleRequest x.toNat r.host with hrun | ⟨c, hc, hrun⟩
  · rw [hrun]
    rfl
  · rw [hrun]
    exact calm (r.host.hand i x.toNat) (fun _ _ => rfl) x hx c hc a ha

theorem serveNext_spec (hk : Keeps i handleRequest) (hs : Synced i c r)
    (calm : r.HandlerCalm i handleRequest) (hw : Wraps (r.queue i).num r.published.length)
    (hlt : r.served i < r.published.length) :
    Synced i c { r with host := r.host.serveNext i handleRequest } ∧
      Ring.HandlerCalm i handleRequest { r with host := r.host.serveNext i handleRequest } ∧
      Ring.served i { r with host := r.host.serveNext i handleRequest } = r.served i + 1 := by
  obtain ⟨x, hx⟩ : ∃ x, r.published[r.served i]? = some x := ⟨_, List.getElem?_eq_getElem hlt⟩
  have hnext := hs.next hw hx
  have hin : x ∈ r.pending i := by
    apply List.mem_of_getElem? (i := 0)
    rw [Ring.pending, List.getElem?_drop]
    exact hx
  obtain ⟨queueNum, queue⟩ := processChain_queue hk x.toNat r.host
  rw [Host.hand, Host.setQueue, VirtioMMIO.setQueue_same] at queue
  have mem : ∀ a, (r.queue i).DriverByte a ∨ (r.queue i).UsedByte a →
      (r.host.processChain i handleRequest x.toNat).2.mem a = r.host.mem a :=
    fun a ha => processChain_mem calm hin ha
  have hserve : r.host.serveNext i handleRequest = Host.retire i x.toNat
      (r.host.processChain i handleRequest x.toNat).1
      (r.host.processChain i handleRequest x.toNat).2 := by
    simp only [Host.serveNext]
    have h := hnext
    simp only [Ring.queue] at h
    rw [h]
  rw [hserve]
  have hserved := served_retire queue (r.host.processChain i handleRequest x.toNat).1
  refine ⟨hs.retire hw hlt queueNum queue mem hnext.symm, ?_, hserved⟩
  apply calm.mono
  · exact Host.retire_queue queue _ _
  · rfl
  · exact hserved ▸ Nat.le_succ _
  · exact fun a ha => retire_driver hs.laid queue mem _ ha

/-- The device may serve queue `i`, with `c` buffers announced. -/
structure Serving (i : Nat) (handleRequest : Handler σ) (c : Nat) (r : Ring σ) : Prop where
  synced : Synced i c r
  calm : r.HandlerCalm i handleRequest
  bound : r.published.length < 65536

theorem Serving.wraps (hs : Serving i handleRequest c r) :
    Wraps (r.queue i).num r.published.length := .inl (Nat.le_of_lt hs.bound)

theorem Serving.serveNext (hk : Keeps i handleRequest) (hs : Serving i handleRequest c r)
    (hlt : r.served i < r.published.length) :
    Serving i handleRequest c { r with host := r.host.serveNext i handleRequest } := by
  obtain ⟨hsync, hcalm, _⟩ := serveNext_spec hk hs.synced hs.calm hs.wraps hlt
  exact ⟨hsync, hcalm, hs.bound⟩

theorem Serving.served_serveNext (hk : Keeps i handleRequest) (hs : Serving i handleRequest c r)
    (hlt : r.served i < r.published.length) :
    Ring.served i { r with host := r.host.serveNext i handleRequest } = r.served i + 1 :=
  (serveNext_spec hk hs.synced hs.calm hs.wraps hlt).2.2

/-- Where the loop stops, everything is served or the batch is full. -/
theorem processLoop_spec (hk : Keeps i handleRequest) {maxDescriptors fuel n0 n : Nat} {h : Host σ}
    (hs : Serving i handleRequest c r)
    (run : r.host.processLoop i handleRequest maxDescriptors r.published.length fuel n0 =
      some (h, n)) :
    Serving i handleRequest c { r with host := h } ∧
      n + r.served i = n0 + Ring.served i { r with host := h } ∧ n0 ≤ n ∧
      (Ring.served i { r with host := h } = r.published.length ∨
        (0 < maxDescriptors ∧ maxDescriptors ≤ n)) := by
  induction fuel generalizing r n0 with
  | zero => simp [Host.processLoop] at run
  | succ fuel ih =>
    rw [Host.processLoop] at run
    by_cases hend : (r.host.mmio.queues i).lastAvailIdx = r.published.length
    · rw [if_pos hend] at run
      obtain ⟨rfl, rfl⟩ := Prod.mk.inj (Option.some.inj run)
      exact ⟨hs, rfl, Nat.le_refl _, .inl (hs.synced.counter.symm.trans hend)⟩
    rw [if_neg hend] at run
    by_cases hcap : 0 < maxDescriptors ∧ maxDescriptors ≤ n0
    · rw [if_pos hcap] at run
      obtain ⟨rfl, rfl⟩ := Prod.mk.inj (Option.some.inj run)
      exact ⟨hs, rfl, Nat.le_refl _, .inr hcap⟩
    rw [if_neg hcap] at run
    have hcounter : (r.host.mmio.queues i).lastAvailIdx = r.served i := hs.synced.counter
    have hlt : r.served i < r.published.length :=
      Nat.lt_of_le_of_ne hs.synced.served_le (hcounter ▸ hend)
    have hsucc := hs.served_serveNext hk hlt
    obtain ⟨hs', hn, hle, hstop⟩ := ih (hs.serveNext hk hlt) run
    exact ⟨hs', by simp only at hn; omega, by omega, hstop⟩

theorem processLoop_terminates (hk : Keeps i handleRequest) {fuel : Nat} (maxDescriptors n0 : Nat)
    (hs : Serving i handleRequest c r) (hfuel : r.published.length < r.served i + fuel) :
    ∃ p, r.host.processLoop i handleRequest maxDescriptors r.published.length fuel n0 = some p := by
  induction fuel generalizing r n0 with
  | zero => exact absurd hs.synced.served_le (by omega)
  | succ fuel ih =>
    rw [Host.processLoop]
    by_cases hend : (r.host.mmio.queues i).lastAvailIdx = r.published.length
    · exact ⟨_, if_pos hend⟩
    rw [if_neg hend]
    by_cases hcap : 0 < maxDescriptors ∧ maxDescriptors ≤ n0
    · exact ⟨_, if_pos hcap⟩
    rw [if_neg hcap]
    have hcounter : (r.host.mmio.queues i).lastAvailIdx = r.served i := hs.synced.counter
    have hlt : r.served i < r.published.length :=
      Nat.lt_of_le_of_ne hs.synced.served_le (hcounter ▸ hend)
    have hsucc := hs.served_serveNext hk hlt
    exact ih (n0 + 1) (hs.serveNext hk hlt) (by simp only; omega)

/-! ## Announcing -/

@[simp] theorem Host.complete_queues (h : Host σ) : (h.complete i).mmio.queues = h.mmio.queues := by
  simp only [Host.complete, Host.raiseIrq, Host.setIrqLevel]
  split <;> rfl

@[simp] theorem Host.complete_queueNum (h : Host σ) :
    (h.complete i).mmio.queueNum = h.mmio.queueNum := by
  simp only [Host.complete, Host.raiseIrq, Host.setIrqLevel]
  split <;> rfl

theorem Host.complete_mem (h : Host σ) : (h.complete i).mem = (h.mmio.queues i).commitUsed h.mem := by
  simp only [Host.complete, Host.raiseIrq, Host.setIrqLevel]
  split <;> rfl

@[simp] theorem Host.complete_rxFrames (h : Host σ) : (h.complete i).rxFrames = h.rxFrames := by
  simp only [Host.complete, Host.raiseIrq, Host.setIrqLevel]
  split <;> rfl

/-- The used index names all that was served. -/
theorem Synced.complete (hs : Synced i c r) :
    Synced i (r.served i) { r with host := r.host.complete i } := by
  set r' : Ring σ := { r with host := r.host.complete i } with hr'
  have hq : r'.queue i = r.queue i := congrFun r.host.complete_queues i
  have hserved : r'.served i = r.served i := by rw [Ring.served, hq, Ring.served]
  have hpos := hs.laid.num_pos
  have hmem : ∀ a, (a < (r.queue i).device + 2 ∨ (r.queue i).device + 4 ≤ a) →
      r'.host.mem a = r.host.mem a := by
    intro a ha
    have h1 : r'.host.mem = (r.queue i).commitUsed r.host.mem := r.host.complete_mem
    rw [h1]
    exact writeU16_other ha
  have hdriver : ∀ a, (r.queue i).AvailByte a → r'.host.mem a = r.host.mem a := by
    intro a ha
    exact (congrFun r.host.complete_mem a).trans (hs.laid.commitUsed_driver (.inl ha))
  constructor
  · have := hs.present
    simpa [hr'] using this
  · rw [hq]
    exact hs.laid
  · rw [hq, hserved]
    exact hs.counter
  · rw [hq, hserved]
    exact hs.taken
  · rw [hserved]
    exact hs.served_le
  · rw [hq, hserved]
    exact hs.ahead
  · rw [hq, ← hs.avail]
    exact VirtQueue.availIdx_congr hdriver
  · rw [hq, hserved]
    intro hw k head hk hle
    rw [← hs.slots hw k head hk hle]
    exact VirtQueue.availHead_congr hs.laid hdriver _
  · rw [hq, ← hs.counter]
    have h1 : r'.host.mem = (r.queue i).commitUsed r.host.mem := r.host.complete_mem
    rw [h1]
    exact readU16_writeU16 _ _ _
  · rw [hq, hserved]
    intro hw k head hk hlt hle
    rw [← hs.delivered hw k head hk hlt hle, VirtQueue.usedId, VirtQueue.usedId]
    congr 1
    apply readLe_congr
    intro b hb
    exact hmem _ (by omega)

/-! ## Whole calls -/

theorem Synced.availIdx_eq (hs : Synced i c r) (bound : r.published.length < 65536) :
    (r.queue i).availIdx r.host.mem = r.published.length :=
  hs.avail.trans (Nat.mod_eq_of_lt bound)

/-- A call on a configured queue is its loop. -/
theorem Serving.processQueue_eq (hs : Serving i handleRequest c r) (maxDescriptors fuel : Nat) :
    r.host.processQueue i handleRequest maxDescriptors fuel =
      (r.host.processLoop i handleRequest maxDescriptors r.published.length fuel 0).map fun p =>
        let h := if 0 < p.2 then p.1.complete i else p.1
        (h, (h.mmio.queues i).lastAvailIdx != r.published.length) := by
  have hat : r.host.mmio.queueAt i = some (r.queue i) := if_pos hs.synced.present
  have havail := hs.synced.availIdx_eq hs.bound
  rw [Host.processQueue, hat]
  simp only [hs.synced.laid.configured, if_true, havail]
  cases r.host.processLoop i handleRequest maxDescriptors r.published.length fuel 0 <;> rfl

theorem processQueue_spec (hk : Keeps i handleRequest) {maxDescriptors fuel : Nat} {h : Host σ}
    {more : Bool} (hs : Serving i handleRequest (r.served i) r)
    (run : r.host.processQueue i handleRequest maxDescriptors fuel = some (h, more)) :
    Serving i handleRequest (Ring.served i { r with host := h }) { r with host := h } ∧
      (more = false → Ring.served i { r with host := h } = r.published.length) ∧
      (more = true → r.served i < Ring.served i { r with host := h }) := by
  rw [hs.processQueue_eq, Option.map_eq_some_iff] at run
  obtain ⟨⟨h1, n⟩, hrun, heq⟩ := run
  obtain ⟨hs1, hn, -, hstop⟩ := processLoop_spec hk hs hrun
  simp only at heq hn
  by_cases hpos : 0 < n
  · rw [if_pos hpos] at heq
    obtain ⟨rfl, rfl⟩ := Prod.mk.inj heq
    have hserved : Ring.served i { r with host := h1.complete i } =
        Ring.served i { r with host := h1 } := by
      simp [Ring.served, Ring.queue]
    have hcounter : ((h1.complete i).mmio.queues i).lastAvailIdx =
        Ring.served i { r with host := h1 } := by
      rw [Host.complete_queues]
      exact hs1.synced.counter
    rw [hserved, hcounter]
    refine ⟨⟨hs1.synced.complete, ?_, hs.bound⟩, ?_, ?_⟩
    · apply hs1.calm.mono
      · exact congrFun h1.complete_queues i
      · rfl
      · exact Nat.le_of_eq hserved.symm
      · intro a ha
        exact (congrFun h1.complete_mem a).trans (hs1.synced.laid.commitUsed_driver ha)
    · simp
    · omega
  · rw [if_neg hpos] at heq
    obtain ⟨rfl, rfl⟩ := Prod.mk.inj heq
    have hserved : Ring.served i { r with host := h1 } = r.served i := by omega
    have hcounter : (h1.mmio.queues i).lastAvailIdx = r.served i := hserved ▸ hs1.synced.counter
    rw [hcounter, hserved]
    refine ⟨hs1, ?_, ?_⟩
    · simp
    · simp only [bne_iff_ne]
      intro hne
      rw [hserved] at hstop
      omega

theorem processQueue_terminates (hk : Keeps i handleRequest) {fuel : Nat} (maxDescriptors : Nat)
    (hs : Serving i handleRequest c r) (hfuel : r.published.length < r.served i + fuel) :
    ∃ p, r.host.processQueue i handleRequest maxDescriptors fuel = some p := by
  obtain ⟨p, hp⟩ := processLoop_terminates hk maxDescriptors 0 hs hfuel
  rw [hs.processQueue_eq, hp]
  exact ⟨_, rfl⟩

theorem drainQueue_spec (hk : Keeps i handleRequest) (maxDescriptors : Nat) {fuel calls : Nat}
    (hs : Serving i handleRequest (r.served i) r) (hfuel : r.published.length < fuel)
    (hcalls : r.published.length < r.served i + calls) :
    ∃ h, r.host.drainQueue i handleRequest maxDescriptors fuel calls = some h ∧
      Synced i (Ring.served i { r with host := h }) { r with host := h } ∧
      Ring.served i { r with host := h } = r.published.length := by
  induction calls generalizing r with
  | zero => exact absurd hs.synced.served_le (by omega)
  | succ calls ih =>
    obtain ⟨⟨h, more⟩, hrun⟩ := processQueue_terminates hk maxDescriptors hs
      (Nat.lt_of_lt_of_le hfuel (Nat.le_add_left _ _))
    obtain ⟨hs', hdone, hmore⟩ := processQueue_spec hk hs hrun
    rw [Host.drainQueue, hrun]
    cases more with
    | false => exact ⟨h, rfl, hs'.synced, hdone rfl⟩
    | true =>
      have hlt := hmore rfl
      exact ih (r := { r with host := h }) hs' hfuel (by simp only; omega)

/-! ## Past the 16-bit index -/

/-- The counter of the device counts what it has taken, whatever it has taken. -/
structure Counted (i : Nat) (h : Host σ) : Prop where
  present : i < h.mmio.queueNum
  configured : (h.mmio.queues i).configured = true
  counter : (h.mmio.queues i).lastAvailIdx = (h.mmio.queues i).handed.length

/-- What a turn does to the device's side of the queue. -/
theorem serveNext_queue (hk : Keeps i handleRequest) (h : Host σ) :
    ∃ x, (h.serveNext i handleRequest).mmio.queues i = { h.mmio.queues i with
      handed := (h.mmio.queues i).handed ++ [x]
      lastAvailIdx := (h.mmio.queues i).lastAvailIdx + 1 } := by
  simp only [Host.serveNext]
  generalize (h.mmio.queues i).availHead h.mem (h.mmio.queues i).lastAvailIdx = head
  obtain ⟨_, hq⟩ := processChain_queue hk head h
  rw [Host.hand, Host.setQueue, VirtioMMIO.setQueue_same] at hq
  exact ⟨_, Host.retire_queue hq head _⟩

theorem serveNext_queueNum (hk : Keeps i handleRequest) (h : Host σ) :
    (h.serveNext i handleRequest).mmio.queueNum = h.mmio.queueNum := (processChain_queue hk _ h).1

theorem serveNext_handed (hk : Keeps i handleRequest) (h : Host σ) :
    ((h.serveNext i handleRequest).mmio.queues i).handed.length =
      (h.mmio.queues i).handed.length + 1 := by
  obtain ⟨x, hx⟩ := serveNext_queue hk h
  rw [hx, List.length_append, List.length_singleton]

theorem Counted.serveNext (hk : Keeps i handleRequest) {h : Host σ} (hc : Counted i h) :
    Counted i (h.serveNext i handleRequest) := by
  obtain ⟨x, hx⟩ := serveNext_queue hk h
  constructor
  · rw [serveNext_queueNum hk]
    exact hc.present
  · rw [hx]
    exact hc.configured
  · rw [serveNext_handed hk, hx]
    exact congrArg (· + 1) hc.counter

theorem Counted.complete {h : Host σ} (hc : Counted i h) : Counted i (h.complete i) := by
  constructor
  · rw [Host.complete_queueNum]
    exact hc.present
  · rw [Host.complete_queues]
    exact hc.configured
  · rw [Host.complete_queues]
    exact hc.counter

theorem Counted.processLoop (hk : Keeps i handleRequest) {maxDescriptors avail fuel n0 n : Nat}
    {h h' : Host σ} (hc : Counted i h)
    (run : h.processLoop i handleRequest maxDescriptors avail fuel n0 = some (h', n)) :
    Counted i h' := by
  induction fuel generalizing h n0 with
  | zero => simp [Host.processLoop] at run
  | succ fuel ih =>
    rw [Host.processLoop] at run
    split_ifs at run
    · exact (Prod.mk.inj (Option.some.inj run)).1 ▸ hc
    · exact (Prod.mk.inj (Option.some.inj run)).1 ▸ hc
    · exact ih (hc.serveNext hk) run

/-- A call that leaves nothing to do has met the 16-bit index. -/
theorem Counted.processQueue (hk : Keeps i handleRequest) {maxDescriptors fuel : Nat} {h h' : Host σ}
    {more : Bool} (hc : Counted i h)
    (run : h.processQueue i handleRequest maxDescriptors fuel = some (h', more)) :
    Counted i h' ∧ (more = false → (h'.mmio.queues i).handed.length < 65536) := by
  have hat : h.mmio.queueAt i = some (h.mmio.queues i) := if_pos hc.present
  rw [Host.processQueue, hat] at run
  simp only [hc.configured, if_true] at run
  cases hloop : h.processLoop i handleRequest maxDescriptors
      ((h.mmio.queues i).availIdx h.mem) fuel 0 with
  | none => simp [hloop] at run
  | some p =>
    obtain ⟨h1, n⟩ := p
    simp only [hloop, Option.some.injEq, Prod.mk.injEq] at run
    obtain ⟨rfl, rfl⟩ := run
    have hc1 : Counted i (if 0 < n then h1.complete i else h1) := by
      split
      · exact (hc.processLoop hk hloop).complete
      · exact hc.processLoop hk hloop
    refine ⟨hc1, ?_⟩
    intro hmore
    rw [bne_eq_false_iff_eq] at hmore
    rw [← hc1.counter, hmore]
    exact readU16_lt _ _

theorem Counted.drainQueue (hk : Keeps i handleRequest) {maxDescriptors fuel calls : Nat}
    {h h' : Host σ} (hc : Counted i h)
    (run : h.drainQueue i handleRequest maxDescriptors fuel calls = some h') :
    (h'.mmio.queues i).handed.length < 65536 := by
  induction calls generalizing h with
  | zero => simp [Host.drainQueue] at run
  | succ calls ih =>
    rw [Host.drainQueue] at run
    cases hrun : h.processQueue i handleRequest maxDescriptors fuel with
    | none => simp [hrun] at run
    | some p =>
      obtain ⟨h1, more⟩ := p
      obtain ⟨hc1, hlt⟩ := hc.processQueue hk hrun
      cases more with
      | false =>
        simp only [hrun, Option.some.injEq] at run
        exact run ▸ hlt rfl
      | true =>
        simp only [hrun] at run
        exact ih hc1 run

/-- A counter past the index never meets it: without a batch limit the loop does not end. -/
theorem Counted.diverges (hk : Keeps i handleRequest) {avail fuel n0 : Nat} {h : Host σ}
    (hc : Counted i h) (hpast : avail < (h.mmio.queues i).handed.length) :
    h.processLoop i handleRequest 0 avail fuel n0 = none := by
  induction fuel generalizing h n0 with
  | zero => rfl
  | succ fuel ih =>
    have hne : (h.mmio.queues i).lastAvailIdx ≠ avail := by
      rw [hc.counter]
      omega
    rw [Host.processLoop, if_neg hne, if_neg (by simp)]
    exact ih (hc.serveNext hk) (by rw [serveNext_handed hk]; omega)

end Virtio
