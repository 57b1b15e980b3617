import Pyremu.Sittim.NetRings

/-!
# Who owns a buffer of the network driver

Every access is in range whatever the device writes. A correct device leaves
every receive slot to one party, and a transmit slot too as long as no
publication is passed over.
-/

namespace Pyremu.Sittim.Net

open Run

variable {s : State}

/-! ## The receive side -/

theorem unposted_posting {slot : Nat} (h : slot < QNUM) :
    (Pc.posting slot).unposted = slot :: (Pc.posting (slot + 1)).unposted := by
  show List.range' slot (QNUM - slot) = slot :: List.range' (slot + 1) (QNUM - (slot + 1))
  have hn : QNUM - slot = (QNUM - (slot + 1)) + 1 := by omega
  rw [hn, List.range'_succ]

/-- The ring, and the item of a call in progress or of a token. -/
structure RxInv (s : State) : Prop where
  ring : s.rx.RxRing s.pc.unposted s.pc.stale
  entry : s.pc = .entry → s.rx.back ≠ []
  token : ∀ item, s.rxToken = some item → s.pc = .idle ∧ s.rx.Heads item
  hand : ∀ item, s.pc = .reserving (some item) → s.rx.Heads item

namespace RxInv

theorem start (rxPa txPa : Nat → Word) : RxInv (State.start rxPa txPa) := by
  refine ⟨⟨⟨rfl, Nat.zero_le _⟩, ?_, ?_, le_rfl, Nat.zero_le _⟩, ?_, ?_, ?_⟩
  · exact List.range_eq_range' ▸ List.Perm.refl _
  · intro i e _ he
    cases he
  · intro hpc
    cases hpc
  · intro item ht
    cases ht
  · intro item hpc
    cases hpc

theorem owned (h : RxInv s) : RxOwned s := h.ring.perm

theorem no_token (h : RxInv s) (hpc : s.pc ≠ .idle) : s.rxToken = none := by
  cases ht : s.rxToken with
  | none => rfl
  | some item => exact absurd (h.token item ht).1 hpc

/-- Without an item only the ring counts. -/
theorem of_ring (hr : s.rx.RxRing s.pc.unposted s.pc.stale) (hn : s.rxToken = none)
    (he : s.pc ≠ .entry) (hi : ∀ item, s.pc ≠ .reserving (some item)) : RxInv s := by
  refine ⟨hr, fun h => absurd h he, ?_, fun item h => absurd h (hi item)⟩
  intro item ht
  rw [hn] at ht
  cases ht

theorem drive_entry (h : RxInv s) (hpc : s.pc = .entry) : RxInv s.drive.1 := by
  have hr := h.ring
  rw [hpc] at hr
  have hn := h.no_token (by rw [hpc]; exact Pc.noConfusion)
  have hhead := hr.peek (h.entry hpc)
  have hlt : (s.rx.used s.rx.usedSlot).id.toNat < QNUM := by
    have hm := hr.perm.subset (List.mem_append_right s.rx.published
      (List.mem_of_mem_head? (Option.mem_def.mpr hhead)))
    exact List.mem_range.mp hm
  rw [State.drive, hpc]
  dsimp only
  rw [if_neg (Nat.not_le.mpr hlt)]
  by_cases hl : min (s.rx.used s.rx.usedSlot).len.toNat BUF_SIZE ≤ VNET_HDR
  · rw [if_pos hl]
    exact of_ring (hr.repost hhead) hn Pc.noConfusion fun _ => Pc.noConfusion
  · rw [if_neg hl]
    refine ⟨hr, fun h' => Pc.noConfusion h', ?_, ?_⟩
    · intro item ht
      rw [hn] at ht
      cases ht
    · intro item hi
      cases hi
      exact hhead

theorem drive (h : RxInv s) : RxInv s.drive.1 := by
  have hr := h.ring
  cases hpc : s.pc with
  | posting slot =>
    have hn := h.no_token (by rw [hpc]; exact Pc.noConfusion)
    rw [hpc] at hr
    rw [State.drive, hpc]
    dsimp only
    by_cases hs : slot < QNUM
    · rw [if_pos hs]
      rw [unposted_posting hs] at hr
      exact of_ring hr.postRxBuffer hn Pc.noConfusion fun _ => Pc.noConfusion
    · rw [if_neg hs]
      have hu : (Pc.posting slot).unposted = [] := by
        show List.range' slot (QNUM - slot) = []
        rw [Nat.sub_eq_zero_of_le (Nat.not_lt.mp hs)]
        rfl
      rw [hu] at hr
      exact of_ring hr hn Pc.noConfusion fun _ => Pc.noConfusion
  | idle =>
    rw [State.drive, hpc]
    exact h
  | peeking =>
    have hn := h.no_token (by rw [hpc]; exact Pc.noConfusion)
    rw [hpc] at hr
    rw [State.drive, hpc]
    dsimp only
    by_cases hu : s.rx.usedIdx = s.rx.lastUsed
    · rw [if_pos hu]
      exact of_ring hr hn Pc.noConfusion fun _ => Pc.noConfusion
    · rw [if_neg hu]
      refine ⟨hr, fun _ => hr.back_ne_nil hu, ?_, fun _ h' => Pc.noConfusion h'⟩
      intro item ht
      rw [hn] at ht
      cases ht
  | entry => exact h.drive_entry hpc
  | dropShort =>
    have hn := h.no_token (by rw [hpc]; exact Pc.noConfusion)
    rw [hpc] at hr
    rw [State.drive, hpc]
    exact of_ring hr.commitUsed hn Pc.noConfusion fun _ => Pc.noConfusion
  | finishing =>
    have hn := h.no_token (by rw [hpc]; exact Pc.noConfusion)
    rw [hpc] at hr
    rw [State.drive, hpc]
    exact of_ring hr.commitUsed hn Pc.noConfusion fun _ => Pc.noConfusion
  | reserving item =>
    have hn := h.no_token (by rw [hpc]; exact Pc.noConfusion)
    have hhand := h.hand
    rw [hpc] at hr
    rw [State.drive, hpc]
    dsimp only
    by_cases hu : s.tx.usedIdx = s.tx.lastUsed
    · rw [if_pos hu]
      by_cases hl : s.tx.spaceLeft = 0
      · rw [if_pos hl]
        exact of_ring hr hn Pc.noConfusion fun _ => Pc.noConfusion
      · rw [if_neg hl]
        refine ⟨hr, fun h' => Pc.noConfusion h', ?_, fun _ h' => Pc.noConfusion h'⟩
        intro it ht
        exact ⟨rfl, hhand it (hpc.trans (congrArg Pc.reserving ht))⟩
    · rw [if_neg hu]
      refine ⟨hr, fun h' => Pc.noConfusion h', ?_, fun it hi => hhand it (hpc.trans hi)⟩
      intro it ht
      rw [hn] at ht
      cases ht

theorem consumeRx (h : RxInv s) : RxInv s.consumeRx.1 := by
  have hr := h.ring
  rw [State.consumeRx]
  split
  · rename_i item hpc ht
    rw [hpc] at hr
    exact of_ring (hr.repost (h.token item ht).2) rfl Pc.noConfusion fun _ => Pc.noConfusion
  · exact h

theorem consumeTx (h : RxInv s) (len : Nat) : RxInv (s.consumeTx len).1 := by
  rw [State.consumeTx]
  split
  · exact ⟨h.ring, h.entry, h.token, h.hand⟩
  · exact h

theorem giveBack (h : RxInv s) {i : Nat} (hi : i < s.rx.flying.length) (len : BitVec 32) :
    RxInv { s with rx := s.rx.giveBack i len } := by
  refine ⟨h.ring.giveBack hi len, ?_, ?_, ?_⟩
  · intro hpc
    rw [Queue.giveBack_eq (List.getElem?_eq_getElem hi)]
    exact List.append_ne_nil_of_left_ne_nil (h.entry hpc) _
  · intro item ht
    obtain ⟨hpc, hh⟩ := h.token item ht
    exact ⟨hpc, Queue.head_giveBack hh i len⟩
  · intro item hpc
    exact Queue.head_giveBack (h.hand item hpc) i len

/-- A call starts without a token. -/
theorem call (h : RxInv s) (hf : s.Free) {pc : Pc} (hu : pc.unposted = []) (hs : pc.stale = 0)
    (he : pc ≠ .entry) (hi : ∀ item, pc ≠ .reserving (some item)) : RxInv { s with pc := pc } := by
  have hr := h.ring
  rw [hf.1] at hr
  exact of_ring (hu ▸ hs ▸ hr) hf.2.1 he hi

theorem step (h : RxInv s) {a : Op} (hc : Correct s a) : RxInv (s.step a) := by
  cases a with
  | drive => exact h.drive
  | receive =>
    show RxInv (if s.Free then { s with pc := .peeking } else s)
    by_cases hf : s.Free
    · rw [if_pos hf]
      exact h.call hf rfl rfl Pc.noConfusion fun _ => Pc.noConfusion
    · rw [if_neg hf]
      exact h
  | transmit =>
    show RxInv (if s.Free then { s with pc := .reserving none } else s)
    by_cases hf : s.Free
    · rw [if_pos hf]
      exact h.call hf rfl rfl Pc.noConfusion fun _ h' => by cases h'
    · rw [if_neg hf]
      exact h
  | consumeRx => exact h.consumeRx
  | dropRx =>
    show RxInv (if s.pc = .idle then { s with rxToken := none } else s)
    by_cases hpc : s.pc = .idle
    · rw [if_pos hpc]
      refine ⟨h.ring, h.entry, fun item ht => ?_, h.hand⟩
      cases ht
    · rw [if_neg hpc]
      exact h
  | consumeTx len => exact h.consumeTx len
  | dropTx =>
    show RxInv (if s.pc = .idle then { s with txToken := none } else s)
    by_cases hpc : s.pc = .idle
    · rw [if_pos hpc]
      exact ⟨h.ring, h.entry, h.token, h.hand⟩
    · rw [if_neg hpc]
      exact h
  | giveBack side i len =>
    cases side with
    | rx => exact h.giveBack hc len
    | tx => exact ⟨h.ring, h.entry, h.token, h.hand⟩
  | scribbleIdx side v => exact hc.elim
  | scribbleEntry side i e => exact hc.elim

end RxInv

/-! ## The transmit side -/

/-- What a step beside a correct device does to the transmit queue and its token. -/
inductive TxMove (s : State) : Op → State → Prop where
  | keep {a : Op} {s' : State} (hq : s'.tx = s.tx) (ht : s'.txToken = s.txToken ∨ s'.txToken = none)
      (ha : a = .drive → ∀ item, s.pc = .reserving item → s.tx.usedIdx = s.tx.lastUsed →
        s.tx.spaceLeft = 0) : TxMove s a s'
  | commit {s' : State} (hu : s.tx.usedIdx ≠ s.tx.lastUsed) (hq : s'.tx = s.tx.commitUsed)
      (ht : s'.txToken = s.txToken) : TxMove s .drive s'
  | reserve {s' : State} (item : Option RxSlot) (hpc : s.pc = .reserving item)
      (hu : s.tx.usedIdx = s.tx.lastUsed) (hl : s.tx.spaceLeft ≠ 0) (hq : s'.tx = s.tx)
      (ht : s'.txToken = some s.tx.nextSlot) : TxMove s .drive s'
  | push {s' : State} {slot : Nat} (len n : Nat) (hs : s.txToken = some slot)
      (hq : s'.tx = s.tx.pushTx slot n) (ht : s'.txToken = none) : TxMove s (.consumeTx len) s'
  | giveBack {s' : State} {i : Nat} (len : BitVec 32) (hi : i < s.tx.flying.length)
      (hq : s'.tx = s.tx.giveBack i len) (ht : s'.txToken = s.txToken) :
      TxMove s (.giveBack .tx i len) s'

theorem txMove_drive (s : State) : TxMove s .drive s.drive.1 := by
  have hkeep {s' : State} (hq : s'.tx = s.tx) (ht : s'.txToken = s.txToken)
      (hpc : ∀ item, s.pc ≠ .reserving item) : TxMove s .drive s' :=
    .keep hq (Or.inl ht) fun _ item hi => absurd hi (hpc item)
  cases hpc : s.pc with
  | posting slot =>
    rw [State.drive, hpc]
    dsimp only
    split_ifs <;> exact hkeep rfl rfl (by simp [hpc])
  | idle | peeking | dropShort | finishing =>
    rw [State.drive, hpc]
    exact hkeep rfl rfl (by simp [hpc])
  | entry =>
    rw [State.drive, hpc]
    dsimp only
    split_ifs <;> exact hkeep rfl rfl (by simp [hpc])
  | reserving item =>
    rw [State.drive, hpc]
    dsimp only
    by_cases hu : s.tx.usedIdx = s.tx.lastUsed
    · rw [if_pos hu]
      by_cases hl : s.tx.spaceLeft = 0
      · rw [if_pos hl]
        exact .keep rfl (Or.inl rfl) fun _ _ _ _ => hl
      · rw [if_neg hl]
        exact .reserve item hpc hu hl rfl rfl
    · rw [if_neg hu]
      exact .commit hu rfl rfl

theorem txMove {a : Op} (hc : Correct s a) : TxMove s a (s.step a) := by
  have hkeep {a : Op} (ha : a ≠ .drive) {s' : State} (hq : s'.tx = s.tx)
      (ht : s'.txToken = s.txToken ∨ s'.txToken = none) : TxMove s a s' :=
    .keep hq ht fun h => absurd h ha
  cases a with
  | drive => exact txMove_drive s
  | receive | transmit | dropRx =>
    apply hkeep Op.noConfusion
    · simp only [State.step, State.act]
      split_ifs <;> rfl
    · left
      simp only [State.step, State.act]
      split_ifs <;> rfl
  | consumeRx =>
    apply hkeep Op.noConfusion
    · show s.consumeRx.1.tx = s.tx
      rw [State.consumeRx]
      split <;> rfl
    · left
      show s.consumeRx.1.txToken = s.txToken
      rw [State.consumeRx]
      split <;> rfl
  | consumeTx len =>
    show TxMove s (.consumeTx len) (s.consumeTx len).1
    rw [State.consumeTx]
    split
    · rename_i slot hpc ht
      exact .push len (min len ETHERNET_FRAME_MAX) ht rfl rfl
    · exact hkeep Op.noConfusion rfl (Or.inl rfl)
  | dropTx =>
    apply hkeep Op.noConfusion
    · simp only [State.step, State.act]
      split_ifs <;> rfl
    · simp only [State.step, State.act]
      split_ifs
      · exact Or.inr rfl
      · exact Or.inl rfl
  | giveBack side i len =>
    cases side with
    | rx => exact hkeep Op.noConfusion rfl (Or.inl rfl)
    | tx => exact .giveBack len hc rfl rfl
  | scribbleIdx side v => exact hc.elim
  | scribbleEntry side i e => exact hc.elim

/-- The ring, and the token: it stands for the next publication, for which there is room. -/
structure TxInv (s : State) : Prop where
  ring : s.tx.TxRing
  token : ∀ slot, s.txToken = some slot →
    slot = s.tx.nextSlot ∧ s.tx.flying.length + s.tx.back.length < QNUM

namespace TxInv

theorem start (rxPa txPa : Nat → Word) : TxInv (State.start rxPa txPa) := by
  refine ⟨⟨⟨rfl, Nat.zero_le _⟩, Nat.zero_le _, rfl, rfl, ?_⟩, ?_⟩
  · intro p hp
    cases hp
  · intro slot ht
    cases ht

theorem step (h : TxInv s) {a : Op} (hc : Correct s a) : TxInv (s.step a) := by
  have hm := txMove hc
  generalize s.step a = s' at hm ⊢
  cases hm with
  | keep hq ht =>
    refine ⟨hq ▸ h.ring, fun slot hs => ?_⟩
    rw [hq]
    rcases ht with ht | ht
    · exact h.token slot (ht ▸ hs)
    · rw [ht] at hs
      cases hs
  | commit hu hq ht =>
    have hb := h.ring.back_ne_nil hu
    refine ⟨hq ▸ h.ring.commitUsed hb, fun slot hs => ?_⟩
    obtain ⟨hn, hl⟩ := h.token slot (ht ▸ hs)
    rw [hq]
    refine ⟨hn, ?_⟩
    show s.tx.flying.length + s.tx.back.tail.length < QNUM
    rw [List.length_tail]
    omega
  | reserve item hpc hu hl hq ht =>
    refine ⟨hq ▸ h.ring, fun slot hs => ?_⟩
    rw [ht] at hs
    rw [h.ring.spaceLeft_eq] at hl
    rw [hq]
    exact ⟨(Option.some.inj hs).symm, by omega⟩
  | push len n hs hq ht =>
    obtain ⟨hn, hl⟩ := h.token _ hs
    refine ⟨?_, fun slot hs' => ?_⟩
    · rw [hq, hn]
      exact h.ring.pushTx hl n
    · rw [ht] at hs'
      cases hs'
  | @giveBack _ i len hi hq ht =>
    refine ⟨hq ▸ h.ring.giveBack hi len, fun slot hs => ?_⟩
    obtain ⟨hn, hl⟩ := h.token slot (ht ▸ hs)
    rw [hq, Queue.giveBack_eq (List.getElem?_eq_getElem hi)]
    refine ⟨hn, ?_⟩
    show (s.tx.flying.eraseIdx i).length + (s.tx.back ++ [_]).length < QNUM
    rw [List.length_eraseIdx_of_lt hi, List.length_append, List.length_singleton]
    omega

end TxInv

/-- A run in which every reserved slot was free has only the last eight publications out. -/
structure TxSafe (s : State) : Prop extends TxInv s where
  recent : s.tx.Recent
  free : ReservedFree s

/-- A correct device's step keeps the reserved slot free exactly when it does not reserve past a
publication. -/
theorem reservedFree_step (h : TxSafe s) {a : Op} (hc : Correct s a) :
    ReservedFree (s.step a) ↔ NotPassedOver s a := by
  have hm := txMove hc
  generalize s.step a = s' at hm ⊢
  cases hm with
  | keep hq ht ha =>
    apply iff_of_true
    · intro slot hs
      rw [hq]
      rcases ht with ht | ht
      · exact h.free slot (ht ▸ hs)
      · rw [ht] at hs
        cases hs
    · cases a with
      | drive =>
        intro item hpc hu hl
        have hsp := ha rfl item hpc hu
        rw [h.ring.spaceLeft_eq, h.ring.back_eq_nil hu, List.length_nil] at hsp
        omega
      | _ => trivial
  | commit hu hq ht =>
    apply iff_of_true
    · intro slot hs hf
      apply h.free slot (ht ▸ hs)
      rw [hq] at hf
      rcases List.mem_append.mp hf with hf | hf
      · exact List.mem_append_left _ hf
      · rw [Queue.returned_commitUsed] at hf
        exact List.mem_append_right _ (List.mem_of_mem_tail hf)
    · exact fun item _ hu' => absurd hu' hu
  | reserve item hpc hu hl hq ht =>
    have hb := h.ring.back_eq_nil hu
    rw [h.ring.spaceLeft_eq, hb, List.length_nil] at hl
    have hfree : ReservedFree s' ↔ ¬ s.tx.InFlight s.tx.nextSlot := by
      rw [ReservedFree, ht, hq]
      simp
    rw [hfree, h.ring.nextSlot_inFlight h.recent hb]
    constructor
    · intro hn item' _ _ _
      exact hn
    · intro hn
      exact hn item hpc hu (by omega)
  | push len n hs hq ht =>
    apply iff_of_true
    · intro slot hs'
      rw [ht] at hs'
      cases hs'
    · trivial
  | giveBack len hi hq ht =>
    apply iff_of_true
    · intro slot hs hf
      rw [hq] at hf
      exact h.free slot (ht ▸ hs) (h.ring.inFlight_giveBack hi hf)
    · trivial

theorem TxSafe.step (h : TxSafe s) {a : Op} (hc : Correct s a) (hf : ReservedFree (s.step a)) :
    TxSafe (s.step a) := by
  refine ⟨h.toTxInv.step hc, ?_, hf⟩
  have hm := txMove hc
  generalize s.step a = s' at hm ⊢
  cases hm with
  | keep hq => exact hq ▸ h.recent
  | commit hu hq => exact hq ▸ h.recent
  | reserve item hpc hu hl hq => exact hq ▸ h.recent
  | push len n hs hq =>
    have hn := (h.token _ hs).1
    have hfree := h.free _ hs
    rw [hq]
    rw [hn] at hfree ⊢
    exact h.recent.pushTx h.ring hfree n
  | giveBack len hi hq => exact hq ▸ h.recent.giveBack hi len

/-! ## The accesses -/

def RxSlot.InRange (item : RxSlot) : Prop :=
  item.slot < QNUM ∧ VNET_HDR ≤ item.len ∧ item.len ≤ BUF_SIZE

/-- What the driver has in hand is in range; this needs nothing of the device. -/
structure Bounded (s : State) : Prop where
  rxToken : ∀ item, s.rxToken = some item → item.InRange
  hand : ∀ item, s.pc = .reserving (some item) → item.InRange
  txToken : ∀ slot, s.txToken = some slot → slot < QNUM

theorem publishTouches_inRange {q : Queue} {side : Side} {slot : Nat} (h : slot < QNUM) :
    ∀ t ∈ q.publishTouches side slot, t.InRange := by
  have hn : q.nextSlot < QNUM := Nat.mod_lt _ (by decide)
  rw [QNUM] at h hn
  intro t ht
  simp only [Queue.publishTouches, Queue.writeDescTouches, Queue.pushAvailTouches, List.cons_append,
    List.nil_append, List.mem_cons, List.not_mem_nil, or_false] at ht
  rcases ht with rfl | rfl | rfl | rfl | rfl | rfl <;>
    simp only [Touch.InRange, DESC_SIZE, AVAIL_BYTES, QNUM] <;> omega

theorem usedTouches_inRange {q : Queue} {side : Side} : ∀ t ∈ q.usedTouches side, t.InRange := by
  have hn : q.usedSlot < QNUM := Nat.mod_lt _ (by decide)
  rw [QNUM] at hn
  intro t ht
  simp only [Queue.usedTouches, List.mem_cons, List.not_mem_nil, or_false] at ht
  rcases ht with rfl | rfl <;> simp only [Touch.InRange, USED_BYTES, QNUM] <;> omega

theorem usedIdx_inRange {side : Side} : (Touch.used side 2 2).InRange := by
  show 2 + 2 ≤ USED_BYTES
  decide

namespace Bounded

theorem start (rxPa txPa : Nat → Word) : Bounded (State.start rxPa txPa) := by
  refine ⟨?_, ?_, ?_⟩ <;> intro _ h <;> cases h

theorem drive (h : Bounded s) : Bounded s.drive.1 ∧ ∀ t ∈ s.drive.2, t.InRange := by
  have hquiet {rx tx : Queue} {pc : Pc} (hpc : ∀ item, pc ≠ .reserving (some item)) :
      Bounded ⟨rx, tx, pc, s.rxToken, s.txToken⟩ :=
    ⟨h.rxToken, fun item hi => absurd hi (hpc item), h.txToken⟩
  have hone : ∀ t ∈ [Touch.used .rx 2 2], t.InRange := List.forall_mem_singleton.mpr usedIdx_inRange
  have htwo : ∀ t ∈ [Touch.used .tx 2 2], t.InRange := List.forall_mem_singleton.mpr usedIdx_inRange
  cases hpc : s.pc with
  | posting slot =>
    rw [State.drive, hpc]
    dsimp only
    by_cases hs : slot < QNUM
    · rw [if_pos hs]
      exact ⟨hquiet fun _ => Pc.noConfusion, publishTouches_inRange hs⟩
    · rw [if_neg hs]
      exact ⟨hquiet fun _ => Pc.noConfusion, List.forall_mem_nil _⟩
  | idle =>
    rw [State.drive, hpc]
    exact ⟨h, List.forall_mem_nil _⟩
  | peeking =>
    rw [State.drive, hpc]
    refine ⟨hquiet fun item => ?_, hone⟩
    split <;> exact Pc.noConfusion
  | entry =>
    rw [State.drive, hpc]
    dsimp only
    by_cases hs : QNUM ≤ (s.rx.used s.rx.usedSlot).id.toNat
    · rw [if_pos hs]
      exact ⟨hquiet fun _ => Pc.noConfusion, usedTouches_inRange⟩
    · rw [if_neg hs]
      have hlt := Nat.not_le.mp hs
      by_cases hl : min (s.rx.used s.rx.usedSlot).len.toNat BUF_SIZE ≤ VNET_HDR
      · rw [if_pos hl]
        refine ⟨hquiet fun _ => Pc.noConfusion, fun t ht => ?_⟩
        rcases List.mem_append.mp ht with ht | ht
        · exact usedTouches_inRange t ht
        · exact publishTouches_inRange hlt t ht
      · rw [if_neg hl]
        refine ⟨⟨h.rxToken, fun item hi => ?_, h.txToken⟩, usedTouches_inRange⟩
        cases hi
        exact ⟨hlt, Nat.le_of_not_le hl, Nat.min_le_right _ _⟩
  | dropShort | finishing =>
    rw [State.drive, hpc]
    exact ⟨hquiet fun _ => Pc.noConfusion, List.forall_mem_nil _⟩
  | reserving item =>
    have hhand := h.hand
    rw [State.drive, hpc]
    dsimp only
    by_cases hu : s.tx.usedIdx = s.tx.lastUsed
    · rw [if_pos hu]
      by_cases hl : s.tx.spaceLeft = 0
      · rw [if_pos hl]
        exact ⟨hquiet fun _ => Pc.noConfusion, htwo⟩
      · rw [if_neg hl]
        refine ⟨⟨fun it hi => ?_, fun _ hi => Pc.noConfusion hi, fun slot hi => ?_⟩, htwo⟩
        · exact hhand it (hpc.trans (congrArg Pc.reserving hi))
        · cases hi
          exact Nat.mod_lt _ (by decide)
    · rw [if_neg hu]
      refine ⟨⟨h.rxToken, fun it hi => hhand it (hpc.trans hi), h.txToken⟩, ?_⟩
      exact List.forall_mem_cons.mpr ⟨usedIdx_inRange, usedTouches_inRange⟩

theorem consumeRx (h : Bounded s) : Bounded s.consumeRx.1 ∧ ∀ t ∈ s.consumeRx.2, t.InRange := by
  rw [State.consumeRx]
  split
  · rename_i item hpc ht
    have hi := h.rxToken item ht
    refine ⟨⟨fun _ hi => ?_, fun _ hi => Pc.noConfusion hi, h.txToken⟩, ?_⟩
    · cases hi
    · exact List.forall_mem_cons.mpr ⟨hi, publishTouches_inRange hi.1⟩
  · exact ⟨h, List.forall_mem_nil _⟩

theorem consumeTx (h : Bounded s) (len : Nat) :
    Bounded (s.consumeTx len).1 ∧ ∀ t ∈ (s.consumeTx len).2, t.InRange := by
  rw [State.consumeTx]
  split
  · rename_i slot hpc ht
    have hs := h.txToken slot ht
    refine ⟨⟨h.rxToken, h.hand, fun _ hi => ?_⟩, ?_⟩
    · cases hi
    · refine List.forall_mem_cons.mpr ⟨⟨hs, Nat.zero_le _, by decide⟩, ?_⟩
      refine List.forall_mem_cons.mpr ⟨⟨hs, Nat.le_add_right _ _, ?_⟩, publishTouches_inRange hs⟩
      exact Nat.add_le_add_left (Nat.min_le_right _ _) _
  · exact ⟨h, List.forall_mem_nil _⟩

/-- Any step, of a correct device or a faulty one. -/
theorem act (h : Bounded s) (a : Op) : Bounded (s.step a) ∧ ∀ t ∈ s.touches a, t.InRange := by
  cases a with
  | drive => exact h.drive
  | receive | transmit =>
    refine ⟨?_, List.forall_mem_nil _⟩
    simp only [State.step, State.act]
    split_ifs
    · exact ⟨h.rxToken, fun _ hi => (by cases hi), h.txToken⟩
    · exact h
  | consumeRx => exact h.consumeRx
  | dropRx =>
    refine ⟨?_, List.forall_mem_nil _⟩
    simp only [State.step, State.act]
    split_ifs
    · exact ⟨fun _ hi => (by cases hi), h.hand, h.txToken⟩
    · exact h
  | consumeTx len => exact h.consumeTx len
  | dropTx =>
    refine ⟨?_, List.forall_mem_nil _⟩
    simp only [State.step, State.act]
    split_ifs
    · exact ⟨h.rxToken, h.hand, fun _ hi => by cases hi⟩
    · exact h
  | giveBack side i len | scribbleIdx side v | scribbleEntry side i e =>
    refine ⟨?_, List.forall_mem_nil _⟩
    cases side <;> exact ⟨h.rxToken, h.hand, h.txToken⟩

end Bounded

/-- Publishing a slot is an access to its descriptor. -/
theorem publishTouches_owned {q : Queue} {side : Side} {slot : Nat} (h : ¬ s.Lent side slot) :
    ∀ t ∈ q.publishTouches side slot, ¬ DeviceOwns s t := by
  have hdiv (k : Nat) (hk : k < DESC_SIZE) : (slot * DESC_SIZE + k) / DESC_SIZE = slot := by
    rw [DESC_SIZE] at hk ⊢
    omega
  intro t ht
  simp only [Queue.publishTouches, Queue.writeDescTouches, Queue.pushAvailTouches, List.cons_append,
    List.nil_append, List.mem_cons, List.not_mem_nil, or_false] at ht
  rcases ht with rfl | rfl | rfl | rfl | rfl | rfl
  · rw [DeviceOwns, ← Nat.add_zero (slot * DESC_SIZE), hdiv 0 (by decide)]
    exact h
  · rw [DeviceOwns, hdiv 8 (by decide)]
    exact h
  · rw [DeviceOwns, hdiv 12 (by decide)]
    exact h
  · rw [DeviceOwns, hdiv 14 (by decide)]
    exact h
  · exact id
  · exact id

theorem usedTouches_owned {q : Queue} {side : Side} : ∀ t ∈ q.usedTouches side, ¬ DeviceOwns s t := by
  intro t ht
  simp only [Queue.usedTouches, List.mem_cons, List.not_mem_nil, or_false] at ht
  rcases ht with rfl | rfl <;> exact id

theorem drive_owned (hr : RxInv s) : ∀ t ∈ s.drive.2, ¬ DeviceOwns s t := by
  have hring := hr.ring
  cases hpc : s.pc with
  | posting slot =>
    rw [State.drive, hpc]
    dsimp only
    by_cases hs : slot < QNUM
    · rw [if_pos hs]
      rw [hpc, unposted_posting hs] at hring
      have hn : ¬ s.Lent .rx slot :=
        hring.not_published (List.mem_append_left _ List.mem_cons_self)
      exact publishTouches_owned hn
    · rw [if_neg hs]
      exact List.forall_mem_nil _
  | idle | dropShort | finishing =>
    rw [State.drive, hpc]
    exact List.forall_mem_nil _
  | peeking =>
    rw [State.drive, hpc]
    exact List.forall_mem_singleton.mpr id
  | entry =>
    rw [hpc] at hring
    have hn : ¬ s.Lent .rx (s.rx.used s.rx.usedSlot).id.toNat :=
      hring.not_published (List.mem_of_mem_head? (hring.peek (hr.entry hpc)))
    rw [State.drive, hpc]
    dsimp only
    split_ifs
    · exact usedTouches_owned
    · intro t ht
      rcases List.mem_append.mp ht with ht | ht
      · exact usedTouches_owned t ht
      · exact publishTouches_owned hn t ht
    · exact usedTouches_owned
  | reserving item =>
    rw [State.drive, hpc]
    dsimp only
    split_ifs
    · exact List.forall_mem_singleton.mpr id
    · exact List.forall_mem_singleton.mpr id
    · exact List.forall_mem_cons.mpr ⟨id, usedTouches_owned⟩

/-- The driver touches only what is its own. -/
theorem touches_owned (hr : RxInv s) (hf : ReservedFree s) (a : Op) :
    ∀ t ∈ s.touches a, ¬ DeviceOwns s t := by
  cases a with
  | drive => exact drive_owned hr
  | consumeRx =>
    show ∀ t ∈ s.consumeRx.2, ¬ DeviceOwns s t
    rw [State.consumeRx]
    split
    · rename_i item hpc ht
      have hring := hr.ring
      rw [hpc] at hring
      have hn : ¬ s.Lent .rx item.slot :=
        hring.not_published (List.mem_of_mem_head? (hr.token item ht).2)
      exact List.forall_mem_cons.mpr ⟨hn, publishTouches_owned hn⟩
    · exact List.forall_mem_nil _
  | consumeTx len =>
    show ∀ t ∈ (s.consumeTx len).2, ¬ DeviceOwns s t
    rw [State.consumeTx]
    split
    · rename_i slot hpc ht
      have hn : ¬ s.Lent .tx slot := hf slot ht
      exact List.forall_mem_cons.mpr ⟨hn, List.forall_mem_cons.mpr ⟨hn, publishTouches_owned hn⟩⟩
    · exact List.forall_mem_nil _
  | receive | transmit | dropRx | dropTx | giveBack _ _ _ | scribbleIdx _ _ | scribbleEntry _ _ _ =>
    exact List.forall_mem_nil _

end Pyremu.Sittim.Net
