import Pyremu.Sittim.NetDriverRuns

/-!
# The network driver and the order of completion

`reserve_tx` counts the entries that have come back and does not look at the
descriptors they name. Its slot is free exactly when the device has not passed
over the publication that used it last.
-/

namespace Pyremu.Sittim.Net

open Run

variable {s : State}

/-! ## A device that completes in order -/

/-- The publications that are out are the last ones, in order. -/
structure Queue.Consecutive (q : Queue) : Prop where
  le : q.flying.length ≤ q.sent
  serials : q.flying.map (·.serial) = List.range' (q.sent - q.flying.length) q.flying.length

theorem Queue.Consecutive.pushTx {q : Queue} (h : q.Consecutive) (slot len : Nat) :
    (q.pushTx slot len).Consecutive := by
  have hle := h.le
  have hlen : (q.pushTx slot len).flying.length = q.flying.length + 1 := List.length_append
  have hsent : (q.pushTx slot len).sent = q.sent + 1 := rfl
  constructor
  · omega
  · have hfirst : q.sent + 1 - (q.flying.length + 1) = q.sent - q.flying.length := by omega
    have hlast : q.sent - q.flying.length + q.flying.length = q.sent := by omega
    rw [hlen, hsent, hfirst, List.range'_1_concat, ← h.serials, hlast]
    exact List.map_append

theorem Queue.Consecutive.giveBack {q : Queue} (h : q.Consecutive) (hi : 0 < q.flying.length)
    (len : BitVec 32) : (q.giveBack 0 len).Consecutive := by
  obtain ⟨p, l, hp⟩ := List.exists_cons_of_length_pos hi
  have hle := h.le
  have hs := h.serials
  rw [Queue.giveBack_eq (List.getElem?_eq_getElem hi)]
  rw [hp] at hle hs
  rw [List.length_cons] at hle hs
  rw [List.map_cons, List.range'_succ] at hs
  have hfirst : q.sent - (l.length + 1) + 1 = q.sent - l.length := by omega
  rw [hfirst] at hs
  constructor
  · show (q.flying.eraseIdx 0).length ≤ q.sent
    rw [hp, List.eraseIdx_cons_zero]
    omega
  · show (q.flying.eraseIdx 0).map (·.serial) = 
      List.range' (q.sent - (q.flying.eraseIdx 0).length) (q.flying.eraseIdx 0).length
    rw [hp, List.eraseIdx_cons_zero]
    exact (List.cons.inj hs).2

theorem Queue.Consecutive.notPassedOver (h : s.tx.Consecutive) (a : Op) : NotPassedOver s a := by
  cases a with
  | drive =>
    intro item _ _ hl p hp
    have hm : p.serial ∈ List.range' (s.tx.sent - s.tx.flying.length) s.tx.flying.length := by
      rw [← h.serials]
      exact List.mem_map_of_mem hp
    have hle := h.le
    rw [List.mem_range'_1] at hm
    rw [QNUM] at hl ⊢
    omega
  | _ => trivial

theorem consecutive_step (h : s.tx.Consecutive) {a : Op} (hc : Correct s a) (ho : InOrder s a) :
    (s.step a).tx.Consecutive := by
  have hm := txMove hc
  generalize s.step a = s' at hm ⊢
  cases hm with
  | keep hq => exact hq ▸ h
  | commit hu hq => exact hq ▸ ⟨h.le, h.serials⟩
  | reserve item hpc hu hl hq => exact hq ▸ h
  | push len n hs hq => exact hq ▸ h.pushTx _ n
  | giveBack len hi hq =>
    cases (show _ = 0 from ho)
    exact hq ▸ h.giveBack hi len

/-- A device that returns the transmit descriptors in order passes over none. -/
theorem inOrder_notPassedOver {rxPa txPa : Nat → Word} {l : List Op}
    (hc : Along State.step Correct (.start rxPa txPa) l)
    (ho : Along State.step InOrder (.start rxPa txPa) l) :
    Along State.step NotPassedOver (.start rxPa txPa) l :=
  along_of_promised (G := fun s a => Correct s a ∧ InOrder s a)
    (fun _ _ h hg => consecutive_step h hg.1 hg.2) (fun _ a h _ => h.notPassedOver a)
    ⟨Nat.zero_le _, rfl⟩ (hc.and ho)

/-! ## Runs -/

theorem TxSafe.start (rxPa txPa : Nat → Word) : TxSafe (State.start rxPa txPa) := by
  refine ⟨TxInv.start rxPa txPa, ?_, ?_⟩
  · intro p hp
    cases hp
  · intro slot hs
    cases hs

/-- Every reservation of a run is free exactly when no publication is passed over. -/
theorem reservedFree_iff {rxPa txPa : Nat → Word} {l : List Op}
    (hc : Along State.step Correct (.start rxPa txPa) l) :
    Always State.step ReservedFree (.start rxPa txPa) l ↔
      Along State.step NotPassedOver (.start rxPa txPa) l := by
  have hstep : Along State.step (fun s a => Correct s a ∧ ReservedFree (s.step a))
      (.start rxPa txPa) l ↔
      Along State.step (fun s a => Correct s a ∧ NotPassedOver s a) (.start rxPa txPa) l :=
    along_iff_of_step (fun _ _ h => and_congr_right fun hc => reservedFree_step h hc)
      (fun _ _ h hg => h.step hg.1 hg.2) (TxSafe.start rxPa txPa)
  rw [along_and_iff, along_and_iff] at hstep
  rw [always_iff]
  constructor
  · rintro ⟨_, hf⟩
    exact (hstep.mp ⟨hc, hf⟩).2
  · intro hn
    exact ⟨(TxSafe.start rxPa txPa).free, (hstep.mpr ⟨hc, hn⟩).2⟩

/-- With such a device every access is to what is the driver's own. -/
theorem along_owned {rxPa txPa : Nat → Word} {l : List Op}
    (hc : Along State.step Correct (.start rxPa txPa) l)
    (hn : Along State.step NotPassedOver (.start rxPa txPa) l) :
    Along State.step (fun s a => ∀ t ∈ s.touches a, ¬ DeviceOwns s t) (.start rxPa txPa) l := by
  apply along_of_promised (I := fun s => RxInv s ∧ TxSafe s)
    (G := fun s a => Correct s a ∧ NotPassedOver s a)
  · rintro s a ⟨hr, ht⟩ ⟨hca, hna⟩
    exact ⟨hr.step hca, ht.step hca ((reservedFree_step ht hca).mpr hna)⟩
  · rintro s a ⟨hr, ht⟩ _
    exact touches_owned hr ht.free a
  · exact ⟨RxInv.start rxPa txPa, TxSafe.start rxPa txPa⟩
  · exact hc.and hn

/-- Beside a device that returns each published descriptor once, `reserve_tx` returns free slots in
exactly the runs where no publication is passed over, and then no access is to what the device has;
the receive slots always have one owner. Beside any device every access is in range. -/
theorem buffers_owned (rxPa txPa : Nat → Word) (l : List Op) :
    (Along State.step Correct (.start rxPa txPa) l →
      Always State.step RxOwned (.start rxPa txPa) l ∧
      (Always State.step ReservedFree (.start rxPa txPa) l ↔
        Along State.step NotPassedOver (.start rxPa txPa) l) ∧
      (Along State.step NotPassedOver (.start rxPa txPa) l →
        Along State.step (fun s a => ∀ t ∈ s.touches a, ¬ DeviceOwns s t) (.start rxPa txPa) l)) ∧
    Along State.step (fun s a => ∀ t ∈ s.touches a, t.InRange) (.start rxPa txPa) l := by
  constructor
  · intro hc
    refine ⟨?_, reservedFree_iff hc, along_owned hc⟩
    exact always_of_invariant (fun _ _ h hca => h.step hca) (fun _ h => h.owned)
      (RxInv.start rxPa txPa) hc
  · exact along_of_invariant (fun _ a h => (h.act a).1) (fun _ a h => (h.act a).2)
      (Bounded.start rxPa txPa)

/-- A frame comes in and is answered, then one is sent: the device returns both in order. -/
theorem answered_frame_owned :
    let l : List Op := List.replicate 9 .drive ++ [.giveBack .rx 3 70, .receive, .drive, .drive,
      .drive, .consumeTx 60, .consumeRx, .drive, .giveBack .tx 0 0, .transmit, .drive, .drive,
      .consumeTx 60]
    Always State.step RxOwned (.start (fun _ => 0) fun _ => 0) l ∧
      Always State.step ReservedFree (.start (fun _ => 0) fun _ => 0) l := by
  intro l
  have hc : Along State.step Correct (.start (fun _ => 0) fun _ => 0) l := by decide +kernel
  have ho : Along State.step InOrder (.start (fun _ => 0) fun _ => 0) l := by decide +kernel
  obtain ⟨hr, hf, _⟩ := (buffers_owned (fun _ => 0) (fun _ => 0) l).1 hc
  exact ⟨hr, hf.mpr (inOrder_notPassedOver hc ho)⟩

/-- Of eight frames in flight the device returns the second: `reserve_tx` returns slot 0, which the
device still has, and its buffer is written. -/
theorem passed_over_slot_rewritten :
    let l : List Op := List.replicate 9 .drive ++
      (List.replicate 8 [.transmit, .drive, .consumeTx 60]).flatten ++
      [.giveBack .tx 1 0, .transmit, .drive, .drive]
    let s := l.foldl State.step (.start (fun _ => 0) fun _ => 0)
    Along State.step Correct (.start (fun _ => 0) fun _ => 0) l ∧
      ¬ Always State.step ReservedFree (.start (fun _ => 0) fun _ => 0) l ∧
      s.txToken = some 0 ∧ 0 ∈ s.tx.published ∧
      .buffer .tx 0 VNET_HDR (VNET_HDR + 60) ∈ s.touches (.consumeTx 60) := by
  intro l s
  have hs : s.txToken = some 0 ∧ 0 ∈ s.tx.published ∧
      .buffer .tx 0 VNET_HDR (VNET_HDR + 60) ∈ s.touches (.consumeTx 60) := by decide +kernel
  refine ⟨by decide +kernel, fun h => ?_, hs⟩
  exact h.last 0 hs.1 (List.mem_append_left _ hs.2.1)

end Pyremu.Sittim.Net
