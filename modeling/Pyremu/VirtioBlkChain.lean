import Mathlib.Data.List.Perm.Subperm
import Pyremu.VirtioBlk
import Pyremu.VirtqueueServe

/-!
# Requests of the block device

The chain of a head is what the links of the descriptor table lead through. The
device takes its first three descriptors for header, data and status, and no
more of it.
-/

namespace Virtio

open ByteMem

namespace VirtQueue

section Walk

variable {q : VirtQueue} {m : Mem} {head : Nat}

/-- The descriptor number `k` of the chain is entry `idx` of the table. -/
inductive Linked (q : VirtQueue) (m : Mem) (head : Nat) : Nat → Nat → Prop
  | head : Linked q m head 0 head
  | next {k idx : Nat} (h : Linked q m head k idx)
      (hnext : (q.readDescriptor m idx).flags &&& VRING_DESC_F_NEXT ≠ 0) :
      Linked q m head (k + 1) (q.readDescriptor m idx).next

/-- Among the first `n` descriptors one lies outside the table or comes a second time. -/
def Broken (q : VirtQueue) (m : Mem) (head n : Nat) : Prop :=
  ∃ k < n, ∃ idx, q.Linked m head k idx ∧ (q.numMax ≤ idx ∨ ∃ j < k, q.Linked m head j idx)

theorem Linked.unique {k i j : Nat} (h : q.Linked m head k i) (h' : q.Linked m head k j) : i = j := by
  induction h generalizing j with
  | head =>
    cases h'
    rfl
  | next _ _ ih =>
    cases h' with
    | next h' _ => rw [ih h']

theorem Linked.earlier {k i j : Nat} (h : q.Linked m head k i) (hj : j ≤ k) : ∃ i', q.Linked m head j i' := by
  induction h with
  | head =>
    rw [Nat.le_zero.mp hj]
    exact ⟨head, .head⟩
  | next h hnext ih =>
    rcases Nat.le_succ_iff.mp hj with hj | rfl
    · exact ih hj
    · exact ⟨_, .next h hnext⟩

/-- What the walk has taken: the descriptors of the chain so far, and their places in the table. -/
structure Walked (q : VirtQueue) (m : Mem) (head : Nat) (descs : List VirtqDesc) (seen : List Nat) : Prop where
  desc : ∀ k < descs.length, ∃ i, q.Linked m head k i ∧ descs[k]? = some (q.readDescriptor m i)
  mem_seen : ∀ i, i ∈ seen ↔ ∃ k < descs.length, q.Linked m head k i
  bound : ∀ i ∈ seen, i < q.numMax
  nodup : seen.Nodup
  length : seen.length = descs.length
  intact : ¬ q.Broken m head descs.length

theorem walked_nil (q : VirtQueue) (m : Mem) (head : Nat) : q.Walked m head [] [] where
  desc := fun _ h => absurd h (Nat.not_lt_zero _)
  mem_seen := fun _ => iff_of_false List.not_mem_nil fun ⟨_, h, _⟩ => Nat.not_lt_zero _ h
  bound := fun _ h => absurd h List.not_mem_nil
  nodup := List.nodup_nil
  length := rfl
  intact := fun ⟨_, h, _⟩ => Nat.not_lt_zero _ h

theorem Walked.snoc {descs : List VirtqDesc} {seen : List Nat} {idx : Nat} (hw : q.Walked m head descs seen)
    (hlink : q.Linked m head descs.length idx) (hlt : idx < q.numMax) (hnew : idx ∉ seen) :
    q.Walked m head (descs ++ [q.readDescriptor m idx]) (idx :: seen) := by
  have hlen : (descs ++ [q.readDescriptor m idx]).length = descs.length + 1 := List.length_append
  constructor
  · intro k hk
    rw [hlen] at hk
    rcases Nat.lt_succ_iff_lt_or_eq.mp hk with hk | rfl
    · obtain ⟨i, hi, hget⟩ := hw.desc k hk
      exact ⟨i, hi, by rw [List.getElem?_append_left hk, hget]⟩
    · exact ⟨idx, hlink, List.getElem?_concat_length⟩
  · intro i
    rw [List.mem_cons, hw.mem_seen, hlen]
    constructor
    · rintro (rfl | ⟨k, hk, hi⟩)
      · exact ⟨descs.length, Nat.lt_succ_self _, hlink⟩
      · exact ⟨k, Nat.lt_succ_of_lt hk, hi⟩
    · rintro ⟨k, hk, hi⟩
      rcases Nat.lt_succ_iff_lt_or_eq.mp hk with hk | rfl
      · exact .inr ⟨k, hk, hi⟩
      · exact .inl (hi.unique hlink)
  · exact List.forall_mem_cons.mpr ⟨hlt, hw.bound⟩
  · exact List.nodup_cons.mpr ⟨hnew, hw.nodup⟩
  · rw [hlen, List.length_cons, hw.length]
  · rw [hlen]
    rintro ⟨k, hk, i, hi, hbad⟩
    rcases Nat.lt_succ_iff_lt_or_eq.mp hk with hk | rfl
    · exact hw.intact ⟨k, hk, i, hi, hbad⟩
    · rw [hi.unique hlink] at hbad
      rcases hbad with hge | hback
      · exact absurd hlt (Nat.not_lt.mpr hge)
      · exact hnew ((hw.mem_seen idx).mpr hback)

/-- A walk through the whole table has seen every entry. -/
theorem Walked.seen_all {descs : List VirtqDesc} {seen : List Nat} {idx : Nat} (hw : q.Walked m head descs seen)
    (hfull : descs.length = q.numMax) (hlt : idx < q.numMax) : idx ∈ seen := by
  by_contra hnew
  have hsub : idx :: seen ⊆ List.range q.numMax := by
    intro i hi
    rcases List.mem_cons.mp hi with rfl | hi
    · exact List.mem_range.mpr hlt
    · exact List.mem_range.mpr (hw.bound i hi)
  have hle := ((List.nodup_cons.mpr ⟨hnew, hw.nodup⟩).subperm hsub).length_le
  rw [List.length_cons, hw.length, hfull, List.length_range] at hle
  exact Nat.not_succ_le_self _ hle

/-- The walk ends without a chain at a broken link, or with the first descriptors of the chain, which are
as many as asked for or all. -/
def Ends (q : VirtQueue) (m : Mem) (head maxDesc : Nat) : Option (List VirtqDesc) → Prop
  | none => q.Broken m head maxDesc
  | some descs => (∃ seen, q.Walked m head descs seen) ∧ descs.length ≤ maxDesc ∧
      (descs.length = maxDesc ∨ ∀ i, ¬ q.Linked m head descs.length i)

theorem chainFrom_ends {maxDesc fuel : Nat} {descs : List VirtqDesc} {seen : List Nat} {idx : Nat}
    (hw : q.Walked m head descs seen) (hlink : q.Linked m head descs.length idx)
    (hfuel : descs.length + fuel = q.numMax) (hmax : descs.length < maxDesc) :
    q.Ends m head maxDesc (chainFrom (q.readDescriptor m) q.numMax maxDesc fuel descs seen idx) := by
  induction fuel generalizing descs seen idx with
  | zero =>
    refine ⟨descs.length, hmax, idx, hlink, ?_⟩
    by_cases hlt : idx < q.numMax
    · exact .inr ((hw.mem_seen idx).mp (hw.seen_all hfuel hlt))
    · exact .inl (Nat.not_lt.mp hlt)
  | succ fuel ih =>
    have hlen : (descs ++ [q.readDescriptor m idx]).length = descs.length + 1 := List.length_append
    rw [chainFrom]
    by_cases hbad : q.numMax ≤ idx ∨ idx ∈ seen
    · rw [if_pos hbad]
      exact ⟨descs.length, hmax, idx, hlink, hbad.imp_right (hw.mem_seen idx).mp⟩
    · rw [if_neg hbad]
      obtain ⟨hlt, hnew⟩ := not_or.mp hbad
      have hw' := hw.snoc hlink (Nat.not_le.mp hlt) hnew
      by_cases hlast : (q.readDescriptor m idx).flags &&& VRING_DESC_F_NEXT = 0
      · rw [if_pos hlast]
        refine ⟨⟨_, hw'⟩, by omega, .inr ?_⟩
        intro i hi
        rw [hlen] at hi
        cases hi with
        | next h hnext =>
          rw [h.unique hlink] at hnext
          exact hnext hlast
      · rw [if_neg hlast]
        by_cases hcut : maxDesc ≤ (descs ++ [q.readDescriptor m idx]).length
        · rw [if_pos hcut]
          exact ⟨⟨_, hw'⟩, by omega, .inl (by omega)⟩
        · rw [if_neg hcut]
          apply ih hw'
          · rw [hlen]
            exact .next hlink hlast
          · omega
          · omega

theorem descriptorChain_ends (q : VirtQueue) (m : Mem) (head : Nat) {maxDesc : Nat} (hmax : 0 < maxDesc) :
    q.Ends m head maxDesc (q.descriptorChain m head maxDesc) :=
  chainFrom_ends (walked_nil q m head) .head (Nat.zero_add _) hmax

/-- Cut after three descriptors. -/
theorem descriptorChain_three {i j : Nat} (hi : q.Linked m head 1 i) (hj : q.Linked m head 2 j)
    (hbroken : ¬ q.Broken m head 3) :
    q.descriptorChain m head 3 = some [q.readDescriptor m head, q.readDescriptor m i, q.readDescriptor m j] := by
  have hends := descriptorChain_ends q m head (show 0 < 3 by decide)
  cases hchain : q.descriptorChain m head 3 with
  | none =>
    rw [hchain] at hends
    exact absurd hends hbroken
  | some descs =>
    rw [hchain] at hends
    obtain ⟨⟨seen, hw⟩, hle, hlen⟩ := hends
    have hthree : descs.length = 3 := by
      rcases hlen with hlen | hend
      · exact hlen
      · by_contra hne
        obtain ⟨i', hi'⟩ := hj.earlier (show descs.length ≤ 2 by omega)
        exact hend i' hi'
    have hget : ∀ {k l}, k < 3 → q.Linked m head k l → descs[k]? = some (q.readDescriptor m l) := by
      intro k l hk hl
      obtain ⟨l', hl', hget⟩ := hw.desc k (by omega)
      rw [hget, hl'.unique hl]
    congr 1
    apply List.ext_getElem?
    intro k
    match k with
    | 0 => exact hget (by decide) .head
    | 1 => exact hget (by decide) hi
    | 2 => exact hget (by decide) hj
    | k + 3 => rw [List.getElem?_eq_none (by omega), List.getElem?_eq_none (by exact Nat.le_add_left 3 k)]

/-- A chain of three descriptors is not broken in them, and starts at its head. -/
theorem descriptorChain_full {hdr data status : VirtqDesc} {rest : List VirtqDesc}
    (hchain : q.descriptorChain m head 3 = some (hdr :: data :: status :: rest)) :
    ¬ q.Broken m head 3 ∧ (∃ j, q.Linked m head 2 j) ∧ hdr = q.readDescriptor m head := by
  have hends := descriptorChain_ends q m head (show 0 < 3 by decide)
  rw [hchain] at hends
  obtain ⟨⟨seen, hw⟩, hle, _⟩ := hends
  have hrest : rest = [] := by
    rw [List.length_cons, List.length_cons, List.length_cons] at hle
    exact List.length_eq_zero_iff.mp (by omega)
  subst hrest
  obtain ⟨i, hi, hget⟩ := hw.desc 0 (by exact Nat.succ_pos 2)
  obtain ⟨j, hj, _⟩ := hw.desc 2 (by exact Nat.lt_succ_self 2)
  refine ⟨hw.intact, ⟨j, hj⟩, ?_⟩
  rw [hi.unique .head] at hget
  exact Option.some.inj hget

end Walk

end VirtQueue

/-! ## Requests -/

def reqType (m : Mem) (hdr : VirtqDesc) : Nat := (readLe m hdr.addr 4).toNat

/-- Where the request starts on the disk. -/
def diskOffset (m : Mem) (hdr : VirtqDesc) : Nat := (readLe m (hdr.addr + 8) 8).toNat * SECTOR_SIZE

/-- The flags and lengths of three descriptors fit the request. -/
structure Fits (m : Mem) (hdr data status : VirtqDesc) : Prop where
  header : BLK_OUTHDR_SIZE ≤ hdr.length
  statusFlags : status.flags &&& VRING_DESC_F_WRITE ≠ 0
  statusLength : 0 < status.length
  dataFlags : reqType m hdr = 0 → data.flags &&& VRING_DESC_F_WRITE ≠ 0

def outcome (reqType : Nat) : BitVec 8 :=
  if reqType = 0 ∨ reqType = 1 ∨ reqType = 4 then 0 else if reqType = 11 ∨ reqType = 13 then 2 else 1

/-- The request has its outcome in the status byte, and a read or a write has moved its bytes. A read that
starts on the disk gets the bytes up to its end, one that starts past it gets zeros. -/
structure Answered (hdr data status : VirtqDesc) (m m' : Mem) (d d' : Disk) : Prop where
  answer : m' status.addr = outcome (reqType m hdr)
  read : reqType m hdr = 0 → ∀ k < data.length, data.addr + k ≠ status.addr →
    m' (data.addr + k) =
      if d.diskSize ≤ diskOffset m hdr then 0 else (d.image[diskOffset m hdr + k]?).getD (m (data.addr + k))
  write : reqType m hdr = 1 → d.readOnly = false → ∀ k < data.length,
    d'.image[diskOffset m hdr + k]? = some (m (data.addr + k))
  other : ∀ p < d.image.length, (∀ k < data.length, p ≠ diskOffset m hdr + k) → d'.image[p]? = d.image[p]?
  kept : reqType m hdr ≠ 1 ∨ d.readOnly = true → d' = d

/-- Memory is written inside buffers of the chain that the device may write. -/
def WritesInside (q : VirtQueue) (head : Nat) (m m' : Mem) : Prop :=
  ∀ a, m' a ≠ m a → ∃ k idx, q.Linked m head k idx ∧
    (q.readDescriptor m idx).flags &&& VRING_DESC_F_WRITE ≠ 0 ∧
    (q.readDescriptor m idx).addr ≤ a ∧ a < (q.readDescriptor m idx).addr + (q.readDescriptor m idx).length

section Request

variable {m : Mem} {d : Disk} {hdr data status : VirtqDesc} {rest : List VirtqDesc}

theorem blkRequest_eq (m : Mem) (d : Disk) (data status : VirtqDesc) (rest : List VirtqDesc)
    (hh : BLK_OUTHDR_SIZE ≤ hdr.length) :
    (blkRequest (hdr :: data :: status :: rest) m d).2.1 =
        Splice.patch
          (if reqType m hdr = 0 then doRead m d (readLe m (hdr.addr + 8) 8).toNat data.addr data.length else m)
          status.addr [outcome (reqType m hdr)] ∧
      (blkRequest (hdr :: data :: status :: rest) m d).2.2 =
        if reqType m hdr = 1 then doWrite m d (readLe m (hdr.addr + 8) 8).toNat data.addr data.length else d := by
  rw [blkRequest, if_neg (Nat.not_lt.mpr hh)]
  dsimp only
  rw [← reqType]
  generalize reqType m hdr = t
  by_cases h0 : t = 0
  · subst h0
    exact ⟨rfl, rfl⟩
  · by_cases h1 : t = 1
    · subst h1
      exact ⟨rfl, rfl⟩
    · by_cases h4 : t = 4
      · subst h4
        exact ⟨rfl, rfl⟩
      · rw [if_neg h0, if_neg h1, if_neg h4, if_neg h0, if_neg h1, outcome,
          if_neg (not_or.mpr ⟨h0, not_or.mpr ⟨h1, h4⟩⟩)]
        split_ifs <;> exact ⟨rfl, rfl⟩

/-- The bytes of a read. -/
def readBytes (m : Mem) (d : Disk) (hdr data : VirtqDesc) : List (BitVec 8) :=
  if d.diskSize ≤ diskOffset m hdr then List.replicate data.length 0 else d.pread data.length (diskOffset m hdr)

theorem readBytes_length (m : Mem) (d : Disk) (hdr data : VirtqDesc) :
    (readBytes m d hdr data).length ≤ data.length := by
  rw [readBytes]
  split_ifs
  · exact (List.length_replicate).le
  · exact List.length_take_le _ _

theorem readBytes_get (m : Mem) (d : Disk) (hdr : VirtqDesc) {k : Nat} (hk : k < data.length) (old : BitVec 8) :
    ((readBytes m d hdr data)[k]?).getD old =
      if d.diskSize ≤ diskOffset m hdr then 0 else (d.image[diskOffset m hdr + k]?).getD old := by
  rw [readBytes]
  split_ifs
  · rw [List.getElem?_replicate, if_pos hk]
    rfl
  · rw [Disk.pread, List.getElem?_take, if_pos hk, List.getElem?_drop]

/-- A write puts the bytes at their place and leaves the others. -/
theorem doWrite_image (m : Mem) {d : Disk} (hro : d.readOnly = false) (sector bufPa bufLen : Nat) :
    (∀ k < bufLen, (doWrite m d sector bufPa bufLen).image[sector * SECTOR_SIZE + k]? = some (m (bufPa + k))) ∧
      ∀ p < d.image.length, (∀ k < bufLen, p ≠ sector * SECTOR_SIZE + k) →
        (doWrite m d sector bufPa bufLen).image[p]? = d.image[p]? := by
  have hlen : (Splice.slice m bufPa bufLen).length = bufLen := Splice.slice_length
  have himage : (doWrite m d sector bufPa bufLen).image =
      if Splice.slice m bufPa bufLen = [] then d.image
      else Splice.splice 0 d.image (sector * SECTOR_SIZE) (Splice.slice m bufPa bufLen) := by
    rw [doWrite, hro]
    rfl
  constructor
  · intro k hk
    have hne : Splice.slice m bufPa bufLen ≠ [] := by
      intro hnil
      rw [hnil] at hlen
      change 0 = bufLen at hlen
      omega
    rw [himage, if_neg hne, Splice.getElem?_splice, hlen, if_neg (by omega), if_pos (by omega),
      Nat.add_sub_cancel_left, Splice.getElem?_slice, if_pos hk]
  · intro p hp hother
    rw [himage]
    split_ifs with hnil
    · rfl
    · rw [Splice.getElem?_splice, hlen]
      split_ifs with hlt hin
      · rw [List.getD_eq_getElem?_getD, List.getElem?_eq_getElem hp]
        rfl
      · exact absurd (by omega) (hother (p - sector * SECTOR_SIZE) (by omega))
      · rfl

theorem answered_blkRequest (hf : Fits m hdr data status) :
    Answered hdr data status m (blkRequest (hdr :: data :: status :: rest) m d).2.1 d
      (blkRequest (hdr :: data :: status :: rest) m d).2.2 := by
  obtain ⟨hmem, hdev⟩ := blkRequest_eq m d data status rest hf.header
  rw [hmem, hdev]
  constructor
  · rw [Splice.patch_singleton, if_pos rfl]
  · intro h0 k hk hne
    rw [Splice.patch_singleton, if_neg hne, if_pos h0, ← readBytes_get m d hdr hk]
    change Splice.patch m data.addr (readBytes m d hdr data) (data.addr + k) = _
    rw [Splice.patch, if_pos (Nat.le_add_right _ _), Nat.add_sub_cancel_left]
  · intro h1 hro k hk
    rw [if_pos h1]
    exact (doWrite_image m hro _ _ _).1 k hk
  · intro p hp hother
    by_cases h1 : reqType m hdr = 1
    · rw [if_pos h1]
      cases hro : d.readOnly
      · exact (doWrite_image m hro _ _ _).2 p hp hother
      · rw [doWrite, hro, if_pos rfl]
    · rw [if_neg h1]
  · rintro (h1 | hro)
    · exact if_neg h1
    · rw [doWrite, hro, if_pos rfl, ite_self]

/-- Bytes outside the status byte and the buffer of a read stay. -/
theorem blkRequest_mem (hh : BLK_OUTHDR_SIZE ≤ hdr.length) {a : Nat} (hstatus : a ≠ status.addr)
    (hdata : reqType m hdr = 0 → ∀ k < data.length, a ≠ data.addr + k) :
    (blkRequest (hdr :: data :: status :: rest) m d).2.1 a = m a := by
  rw [(blkRequest_eq m d data status rest hh).1, Splice.patch_singleton, if_neg hstatus]
  split_ifs with h0
  · have hbuf : ∀ k < (readBytes m d hdr data).length, a ≠ data.addr + k := fun k hk =>
      hdata h0 k (lt_of_lt_of_le hk (readBytes_length m d hdr data))
    exact Splice.patch_of_ne hbuf
  · rfl

end Request

/-- A chain that is broken, ends early or has a short header changes nothing. -/
theorem blkRequest_refused {descs : List VirtqDesc} (m : Mem) (d : Disk)
    (h : ∀ hdr data status rest, descs = hdr :: data :: status :: rest → hdr.length < BLK_OUTHDR_SIZE) :
    (blkRequest descs m d).2 = (m, d) := by
  match descs with
  | [] => rfl
  | [_] => rfl
  | [_, _] => rfl
  | hdr :: data :: status :: rest => rw [blkRequest, if_pos (h hdr data status rest rfl)]

theorem processChain_request {h : VirtIOBlock} {head : Nat} {descs : List VirtqDesc}
    (hchain : (h.mmio.queues 0).descriptorChain h.mem head h.mmio.chainMaxDesc = some descs) :
    ((h.processChain 0 handleRequest head).2.mem, (h.processChain 0 handleRequest head).2.dev) =
      (blkRequest descs h.mem h.dev).2 := by
  simp only [Host.processChain, hchain]
  rfl

/-- The bytes of a descriptor whose fields are small. -/
def descBytes (addr length flags next : BitVec 8) : List (BitVec 8) :=
  [0, addr, 0, 0, 0, 0, 0, 0, length, 0, 0, 0, flags, 0, next, 0]

/-- A request of the type given in the header at `0x100`, with its descriptors at `0x1000`. The last byte
of its buffers, at `0x400`, is `0xFF`, and sector 0 of the disk starts with 7 and 9. -/
def sampleRequest (type : BitVec 8) (readOnly : Bool) (table : List (List (BitVec 8))) : VirtIOBlock :=
  let mem := Splice.patch (Splice.patch (Splice.patch (fun _ => 0) 0x100 [type]) 0x1000 table.flatten) 0x400 [0xFF]
  let h := VirtIOBlock.init { image := [7, 9], diskSize := 2, readOnly := readOnly } mem 1
  h.onCurrentQueue fun q => { q with desc := 0x1000, driver := 0x2000, device := 0x3000, ready := true }

def sampleRead : VirtIOBlock := sampleRequest 0 false [descBytes 1 16 1 1, descBytes 2 1 3 2, descBytes 4 1 2 0]

end Virtio
