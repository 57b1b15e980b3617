import Mathlib.Data.List.Perm.Basic
import Mathlib.Data.List.Range
import Pyremu.Sittim.NetDriver

/-!
# The rings of the network driver

The receive slots are a permutation of the eight at any time. A transmit
publication names the slot of its number, so that two of them in flight share
a slot exactly when the older one was passed over.
-/

namespace Pyremu.Sittim.Net

namespace Queue

variable {q : Queue}

/-! ## What the operations leave alone -/

@[simp] theorem published_pushAvail (slot : Nat) :
    (q.pushAvail slot).published = q.published ++ [slot] := by
  simp [pushAvail, published]

@[simp] theorem published_postRxBuffer (slot : Nat) :
    (q.postRxBuffer slot).published = q.published ++ [slot] := published_pushAvail slot

@[simp] theorem returned_postRxBuffer (slot : Nat) :
    (q.postRxBuffer slot).returned = q.returned := rfl

@[simp] theorem published_commitUsed : q.commitUsed.published = q.published := rfl

@[simp] theorem returned_commitUsed : q.commitUsed.returned = q.returned.tail := by
  simp [commitUsed, returned, List.map_tail]

theorem giveBack_eq {i : Nat} {p : Pub} (hp : q.flying[i]? = some p) (len : BitVec 32) :
    q.giveBack i len =
      { q with
        used := Function.update q.used (q.usedIdx.toNat % QNUM) ⟨BitVec.ofNat 32 p.idx, len⟩
        usedIdx := q.usedIdx + 1
        flying := q.flying.eraseIdx i
        back := q.back ++ [⟨BitVec.ofNat 32 p.idx, len⟩] } := by
  rw [giveBack, hp]

theorem published_giveBack {i : Nat} {p : Pub} (hp : q.flying[i]? = some p) (len : BitVec 32) :
    (q.giveBack i len).published = (q.flying.eraseIdx i).map (·.idx) := by
  rw [giveBack_eq hp, published]

theorem returned_giveBack {i : Nat} {p : Pub} (hp : q.flying[i]? = some p) (len : BitVec 32) :
    (q.giveBack i len).returned = q.returned ++ [(BitVec.ofNat 32 p.idx).toNat] := by
  rw [giveBack_eq hp, returned, List.map_append]
  rfl

/-- What comes back was published. -/
theorem published_perm {i : Nat} (hi : i < q.flying.length) :
    ((q.flying.eraseIdx i).map (·.idx) ++ [q.flying[i].idx]).Perm q.published := by
  rw [published, ← List.map_singleton, ← List.map_append]
  exact (List.perm_append_comm.trans (List.getElem_cons_eraseIdx_perm hi)).map _

/-! ## The indices of a queue -/

/-- The three indices differ by the entries between them. -/
structure Counted (q : Queue) : Prop where
  usedIdx : q.usedIdx = q.lastUsed + BitVec.ofNat 16 q.back.length
  back_le : q.back.length ≤ QNUM + 1

theorem Counted.back_eq_nil (h : q.Counted) (hu : q.usedIdx = q.lastUsed) : q.back = [] := by
  have hb := h.back_le
  have hi := h.usedIdx
  rw [hu] at hi
  have hn : (q.lastUsed + BitVec.ofNat 16 q.back.length).toNat = q.lastUsed.toNat := by rw [← hi]
  rw [BitVec.toNat_add, BitVec.toNat_ofNat] at hn
  rw [QNUM] at hb
  apply List.eq_nil_of_length_eq_zero
  omega

theorem Counted.back_ne_nil (h : q.Counted) (hu : q.usedIdx ≠ q.lastUsed) : q.back ≠ [] := by
  intro hb
  apply hu
  rw [h.usedIdx, hb]
  simp

theorem Counted.commitUsed (h : q.Counted) (hb : q.back ≠ []) : q.commitUsed.Counted := by
  obtain ⟨e, l, he⟩ := List.exists_cons_of_ne_nil hb
  have hu := h.usedIdx
  have hl := h.back_le
  rw [he] at hu hl
  constructor
  · show q.usedIdx = q.lastUsed + 1 + BitVec.ofNat 16 q.back.tail.length
    rw [hu, he, List.tail_cons, List.length_cons, Nat.add_comm, BitVec.ofNat_add, ← BitVec.add_assoc]
    rfl
  · show q.back.tail.length ≤ QNUM + 1
    rw [he, List.tail_cons]
    rw [List.length_cons] at hl
    omega

/-- A return steps past the entries before it. -/
theorem Counted.usedSlot (h : q.Counted) :
    q.usedIdx.toNat % QNUM = (q.lastUsed.toNat + q.back.length) % QNUM := by
  have hb := h.back_le
  rw [h.usedIdx, BitVec.toNat_add, BitVec.toNat_ofNat]
  rw [QNUM] at hb ⊢
  omega

/-! ## The receive queue -/

/-- `unposted` are the slots that `init` has yet to post; the first `stale` of the uncommitted
entries stand for a buffer that has been posted again. -/
structure RxRing (q : Queue) (unposted : List Nat) (stale : Nat) : Prop extends q.Counted where
  perm : (q.published ++ (unposted ++ q.returned.drop stale)).Perm (List.range QNUM)
  entries : ∀ i e, stale ≤ i → q.back[i]? = some e → q.used ((q.lastUsed.toNat + i) % QNUM) = e
  stale_le : stale ≤ q.back.length
  stale_le_one : stale ≤ 1

variable {u : List Nat} {n : Nat}

theorem RxRing.published_lt (h : q.RxRing u n) {slot : Nat} (hs : slot ∈ q.published) :
    slot < QNUM :=
  List.mem_range.mp (h.perm.subset (List.mem_append_left _ hs))

theorem RxRing.nodup (h : q.RxRing u n) :
    (q.published ++ (u ++ q.returned.drop n)).Nodup :=
  h.perm.nodup_iff.mpr List.nodup_range

/-- What the driver holds is not published. -/
theorem RxRing.not_published (h : q.RxRing u n) {slot : Nat} (hs : slot ∈ u ++ q.returned.drop n) :
    slot ∉ q.published := by
  intro hp
  exact (List.nodup_append.mp h.nodup).2.2 slot hp slot hs rfl

theorem RxRing.length_eq (h : q.RxRing u n) :
    q.flying.length + (u.length + (q.back.length - n)) = QNUM := by
  have hl := h.perm.length_eq
  simpa [published, returned] using hl

theorem RxRing.postRxBuffer {slot : Nat} (h : q.RxRing (slot :: u) n) :
    (q.postRxBuffer slot).RxRing u n := by
  refine ⟨⟨h.usedIdx, h.back_le⟩, ?_, h.entries, h.stale_le, h.stale_le_one⟩
  rw [published_postRxBuffer, returned_postRxBuffer, List.append_assoc]
  exact h.perm

/-- The buffer of the first entry is posted before the entry is committed. -/
theorem RxRing.repost (h : q.RxRing [] 0) {slot : Nat} (hs : q.returned.head? = some slot) :
    (q.postRxBuffer slot).RxRing [] 1 := by
  obtain ⟨l, hl⟩ := List.head?_eq_some_iff.mp hs
  refine ⟨⟨h.usedIdx, h.back_le⟩, ?_, fun i e' _ => h.entries i e' (Nat.zero_le i), ?_, le_rfl⟩
  · have hp := h.perm
    rw [published_postRxBuffer, returned_postRxBuffer, List.append_assoc]
    rw [hl] at hp ⊢
    exact hp
  · have hlen : q.returned.length = l.length + 1 := by rw [hl, List.length_cons]
    rw [returned, List.length_map] at hlen
    show 1 ≤ q.back.length
    omega

theorem RxRing.commitUsed (h : q.RxRing [] 1) : q.commitUsed.RxRing [] 0 := by
  have hb : q.back ≠ [] := by
    intro hb
    have hs := h.stale_le
    rw [hb] at hs
    exact absurd hs (by simp)
  refine ⟨h.toCounted.commitUsed hb, ?_, ?_, Nat.zero_le _, Nat.zero_le _⟩
  · rw [published_commitUsed, returned_commitUsed, List.drop_zero, ← List.drop_one]
    exact h.perm
  · intro i e _ he
    have hi : q.back[i + 1]? = some e := by
      rw [← he]
      exact (List.getElem?_tail).symm
    have hu := h.entries (i + 1) e (by omega) hi
    have hslot : ((q.lastUsed + 1).toNat + i) % QNUM = (q.lastUsed.toNat + (i + 1)) % QNUM := by
      have h1 : (1 : BitVec 16).toNat = 1 := rfl
      rw [BitVec.toNat_add, h1, QNUM]
      omega
    show q.used (((q.lastUsed + 1).toNat + i) % QNUM) = e
    rw [hslot, hu]

theorem RxRing.giveBack (h : q.RxRing u n) {i : Nat} (hi : i < q.flying.length) (len : BitVec 32) :
    (q.giveBack i len).RxRing u n := by
  have hp : q.flying[i]? = some q.flying[i] := List.getElem?_eq_getElem hi
  have hlen := h.length_eq
  have hn := h.stale_le
  have hn1 := h.stale_le_one
  have hlt : q.flying[i].idx < QNUM :=
    h.published_lt (List.mem_map.mpr ⟨q.flying[i], List.getElem_mem hi, rfl⟩)
  have hid : (BitVec.ofNat 32 q.flying[i].idx).toNat = q.flying[i].idx := by
    rw [QNUM] at hlt
    rw [BitVec.toNat_ofNat, Nat.mod_eq_of_lt (by omega)]
  refine ⟨?_, ?_, ?_, ?_, hn1⟩
  · rw [giveBack_eq hp]
    constructor
    · show q.usedIdx + 1 = q.lastUsed + BitVec.ofNat 16 (q.back ++ [_]).length
      rw [h.usedIdx, List.length_append, BitVec.ofNat_add, ← BitVec.add_assoc]
      rfl
    · show (q.back ++ [_]).length ≤ QNUM + 1
      rw [List.length_append, List.length_singleton]
      omega
  · rw [published_giveBack hp, returned_giveBack hp, hid,
      List.drop_append_of_le_length (by simpa [returned] using hn)]
    refine List.Perm.trans ?_ h.perm
    refine List.Perm.trans ?_ ((published_perm hi).append_right _)
    rw [List.append_assoc]
    refine List.Perm.append_left _ ?_
    rw [← List.append_assoc]
    exact List.perm_append_comm
  · rw [giveBack_eq hp]
    intro j e hj he
    show Function.update q.used (q.usedIdx.toNat % QNUM) _ ((q.lastUsed.toNat + j) % QNUM) = e
    rw [h.toCounted.usedSlot]
    change (q.back ++ [_])[j]? = some e at he
    rcases lt_trichotomy j q.back.length with hjl | hjl | hjl
    · rw [List.getElem?_append_left hjl] at he
      have hne : (q.lastUsed.toNat + j) % QNUM ≠ (q.lastUsed.toNat + q.back.length) % QNUM := by
        rw [QNUM] at hlen ⊢
        omega
      rw [Function.update_of_ne hne]
      exact h.entries j e hj he
    · subst hjl
      rw [List.getElem?_concat_length] at he
      rw [Function.update_self]
      exact Option.some.inj he
    · rw [List.getElem?_eq_none (by simp; omega)] at he
      cases he
  · rw [giveBack_eq hp]
    show n ≤ (q.back ++ [_]).length
    rw [List.length_append]
    omega

/-- `peek_used` finds the oldest entry that is not committed. -/
theorem RxRing.peek (h : q.RxRing u 0) (hb : q.back ≠ []) :
    q.returned.head? = some (q.used q.usedSlot).id.toNat := by
  obtain ⟨e, l, he⟩ := List.exists_cons_of_ne_nil hb
  have hu := h.entries 0 e le_rfl (by rw [he]; rfl)
  rw [Nat.add_zero] at hu
  rw [returned, he, Queue.usedSlot, hu]
  rfl

/-- A returned entry goes behind the others. -/
theorem head_giveBack {slot : Nat} (hs : q.returned.head? = some slot) (i : Nat) (len : BitVec 32) :
    (q.giveBack i len).returned.head? = some slot := by
  cases hp : q.flying[i]? with
  | none => rw [giveBack, hp]; exact hs
  | some p =>
    obtain ⟨l, hl⟩ := List.head?_eq_some_iff.mp hs
    rw [returned_giveBack hp, hl]
    rfl

/-! ## The transmit queue -/

/-- Publication `k` names descriptor `k % 8`, and the counter is the number of publications. -/
structure TxRing (q : Queue) : Prop extends q.Counted where
  out_le : q.flying.length + q.back.length ≤ QNUM
  next : q.nextAvail = BitVec.ofNat 16 q.sent
  gap : q.nextAvail = q.lastUsed + BitVec.ofNat 16 (q.flying.length + q.back.length)
  named : ∀ p ∈ q.flying, p.serial < q.sent ∧ p.idx = p.serial % QNUM

theorem TxRing.nextSlot_eq (h : q.TxRing) : q.nextSlot = q.sent % QNUM := by
  rw [nextSlot, h.next, BitVec.toNat_ofNat, QNUM]
  omega

theorem TxRing.spaceLeft_eq (h : q.TxRing) :
    q.spaceLeft = QNUM - (q.flying.length + q.back.length) := by
  have hl := h.out_le
  have hsub : q.nextAvail - q.lastUsed = BitVec.ofNat 16 (q.flying.length + q.back.length) := by
    rw [h.gap, BitVec.add_comm, BitVec.add_sub_cancel]
  rw [spaceLeft, hsub, BitVec.toNat_ofNat]
  rw [QNUM] at hl ⊢
  omega

theorem TxRing.pushTx (h : q.TxRing) (hl : q.flying.length + q.back.length < QNUM) (len : Nat) :
    (q.pushTx q.nextSlot len).TxRing := by
  have hlen : (q.pushTx q.nextSlot len).flying.length + (q.pushTx q.nextSlot len).back.length =
      q.flying.length + q.back.length + 1 := by
    show (q.flying ++ [_]).length + q.back.length = _
    rw [List.length_append, List.length_singleton]
    omega
  refine ⟨⟨h.usedIdx, h.back_le⟩, ?_, ?_, ?_, ?_⟩
  · rw [hlen]
    exact hl
  · show q.nextAvail + 1 = BitVec.ofNat 16 (q.sent + 1)
    rw [h.next, BitVec.ofNat_add]
    rfl
  · rw [hlen, BitVec.ofNat_add _ 1, ← BitVec.add_assoc]
    show q.nextAvail + 1 = q.lastUsed + _ + 1
    rw [h.gap]
  · intro p hp
    rcases List.mem_append.mp hp with hp | hp
    · obtain ⟨hs, hi⟩ := h.named p hp
      exact ⟨Nat.lt_succ_of_lt hs, hi⟩
    · rw [List.mem_singleton.mp hp]
      exact ⟨Nat.lt_succ_self _, h.nextSlot_eq⟩

theorem TxRing.commitUsed (h : q.TxRing) (hb : q.back ≠ []) : q.commitUsed.TxRing := by
  obtain ⟨e, l, he⟩ := List.exists_cons_of_ne_nil hb
  have hl := h.out_le
  have hg := h.gap
  rw [he, List.length_cons] at hl hg
  refine ⟨h.toCounted.commitUsed hb, ?_, h.next, ?_, h.named⟩
  · show q.flying.length + q.back.tail.length ≤ QNUM
    rw [he, List.tail_cons]
    omega
  · show q.nextAvail = q.lastUsed + 1 + BitVec.ofNat 16 (q.flying.length + q.back.tail.length)
    have hlen : q.flying.length + (l.length + 1) = 1 + (q.flying.length + l.length) := by omega
    rw [he, List.tail_cons, hg, hlen, BitVec.ofNat_add 1, ← BitVec.add_assoc]
    rfl

theorem TxRing.giveBack (h : q.TxRing) {i : Nat} (hi : i < q.flying.length) (len : BitVec 32) :
    (q.giveBack i len).TxRing := by
  have hp : q.flying[i]? = some q.flying[i] := List.getElem?_eq_getElem hi
  have hl := h.out_le
  have hsum (e : UsedEntry) : (q.flying.eraseIdx i).length + (q.back ++ [e]).length =
      q.flying.length + q.back.length := by
    rw [List.length_eraseIdx_of_lt hi, List.length_append, List.length_singleton]
    omega
  rw [giveBack_eq hp]
  refine ⟨⟨?_, ?_⟩, ?_, h.next, ?_, ?_⟩
  · show q.usedIdx + 1 = q.lastUsed + BitVec.ofNat 16 (q.back ++ [_]).length
    rw [h.usedIdx, List.length_append, BitVec.ofNat_add, ← BitVec.add_assoc]
    rfl
  · show (q.back ++ [_]).length ≤ QNUM + 1
    rw [List.length_append, List.length_singleton]
    omega
  · show (q.flying.eraseIdx i).length + (q.back ++ [_]).length ≤ QNUM
    rw [hsum]
    exact hl
  · show q.nextAvail = q.lastUsed + BitVec.ofNat 16 ((q.flying.eraseIdx i).length + (q.back ++ [_]).length)
    rw [hsum]
    exact h.gap
  · intro p hp
    exact h.named p (List.mem_of_mem_eraseIdx hp)

/-- A descriptor that was not in flight is not after a return. -/
theorem TxRing.inFlight_giveBack (h : q.TxRing) {i : Nat} (hi : i < q.flying.length)
    {len : BitVec 32} {slot : Nat} (hs : (q.giveBack i len).InFlight slot) : q.InFlight slot := by
  have hp : q.flying[i]? = some q.flying[i] := List.getElem?_eq_getElem hi
  have hmem := List.getElem_mem hi
  have hid : (BitVec.ofNat 32 q.flying[i].idx).toNat = q.flying[i].idx := by
    rw [(h.named _ hmem).2, BitVec.toNat_ofNat, QNUM]
    omega
  rw [InFlight, published_giveBack hp, returned_giveBack hp, hid, List.mem_append,
    List.mem_append, List.mem_singleton] at hs
  apply List.mem_append.mpr
  rcases hs with hs | hs | hs
  · obtain ⟨p, hpm, hpi⟩ := List.mem_map.mp hs
    exact Or.inl (List.mem_map.mpr ⟨p, List.mem_of_mem_eraseIdx hpm, hpi⟩)
  · exact Or.inr hs
  · exact Or.inl (List.mem_map.mpr ⟨q.flying[i], hmem, hs.symm⟩)

/-- Only the last eight publications are out. -/
def Recent (q : Queue) : Prop := ∀ p ∈ q.flying, q.sent ≤ p.serial + QNUM

/-- Publishing a slot that is not in flight leaves the last eight. -/
theorem Recent.pushTx (hr : q.Recent) (h : q.TxRing) (hf : ¬ q.InFlight q.nextSlot) (len : Nat) :
    (q.pushTx q.nextSlot len).Recent := by
  intro p hp
  change p ∈ q.flying ++ [_] at hp
  show q.sent + 1 ≤ p.serial + QNUM
  rcases List.mem_append.mp hp with hp | hp
  · have hrp := hr p hp
    obtain ⟨hs, hi⟩ := h.named p hp
    have hne : p.serial % QNUM ≠ q.sent % QNUM := by
      intro he
      apply hf
      rw [h.nextSlot_eq, ← he, ← hi]
      exact List.mem_append_left _ (List.mem_map.mpr ⟨p, hp, rfl⟩)
    rw [QNUM] at hne hrp ⊢
    omega
  · rw [List.mem_singleton.mp hp]
    exact Nat.add_le_add_left (by decide) q.sent

theorem Recent.giveBack (hr : q.Recent) {i : Nat} (hi : i < q.flying.length) (len : BitVec 32) :
    (q.giveBack i len).Recent := by
  rw [giveBack_eq (List.getElem?_eq_getElem hi)]
  exact fun p hp => hr p (List.mem_of_mem_eraseIdx hp)

/-- With nothing to commit, the next slot is in flight exactly when the eighth last publication
is out. -/
theorem TxRing.nextSlot_inFlight (h : q.TxRing) (hr : q.Recent) (hb : q.back = []) :
    ¬ q.InFlight q.nextSlot ↔ ∀ p ∈ q.flying, p.serial + QNUM ≠ q.sent := by
  have hmem : q.InFlight q.nextSlot ↔ ∃ p ∈ q.flying, p.idx = q.nextSlot := by
    rw [InFlight, returned, hb, List.map_nil, List.append_nil, published, List.mem_map]
  rw [hmem, h.nextSlot_eq]
  constructor
  · intro hn p hp he
    apply hn
    refine ⟨p, hp, ?_⟩
    rw [(h.named p hp).2, ← he, Nat.add_mod_right]
  · rintro hn ⟨p, hp, hi⟩
    obtain ⟨hs, hpi⟩ := h.named p hp
    have hrp := hr p hp
    have hne := hn p hp
    rw [hpi] at hi
    rw [QNUM] at hi hrp hne
    omega

end Queue

end Pyremu.Sittim.Net
