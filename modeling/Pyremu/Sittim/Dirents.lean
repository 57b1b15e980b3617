import Pyremu.Sittim.RamfsPath
import Pyremu.Sittim.RamfsFiles
import Pyremu.Lib.ByteMem

/-!
# Directory records

A call writes the entries from its position on, one record behind the other,
as far as the buffer has room. Decoding the buffer gives back the number and
the type of each entry, and its name up to a zero byte.
-/

namespace Pyremu.Sittim

open Links ByteMem

namespace VfsState

/-! ## Bytes of a record -/

def DT_DIR : Byte := 4
def DT_REG : Byte := 8

/-- `dtype_of`. -/
def dtypeOf : VfsKind → Byte
  | .dir => DT_DIR
  | .file => DT_REG

namespace Dirent

/-- What the record says of the entry. -/
def entry (r : Dirent) : Nat × VfsKind × List Byte := (r.ino, r.kind, r.name)

/-- The record at `off` of the buffer. The bytes behind the name stay as they are. -/
def write (buf : Mem) (off : Nat) (r : Dirent) : Mem :=
  storeBytes
    (writeLe
      (writeLe (writeLe (writeLe buf off 8 (BitVec.ofNat 64 r.ino)) (off + 8) 8 (BitVec.ofNat 64 r.off)) (off + 16) 2
        (BitVec.ofNat 64 r.reclen))
      (off + 18) 1 ((dtypeOf r.kind).setWidth 64))
    (off + 19) (r.name ++ [0])

def writeAll (buf : Mem) : Nat → List Dirent → Mem
  | _, [] => buf
  | off, r :: rs => writeAll (r.write buf off) (off + r.reclen) rs

def total (rs : List Dirent) : Nat := (rs.map Dirent.reclen).sum

/-- Number, type and name as the record has them. -/
def fields (r : Dirent) : Nat × Byte × List Byte := (r.ino, dtypeOf r.kind, r.name)

end Dirent

/-- The bytes before the first zero byte, at most `n`. -/
def nameAt (buf : Mem) (off : Nat) : Nat → List Byte
  | 0 => []
  | n + 1 => if buf off = 0 then [] else buf off :: nameAt buf (off + 1) n

/-- `decode_dirents`: number, type and name of at most so many records. -/
def decodeDirents (buf : Mem) (len : Nat) : Nat → Nat → List (Nat × Byte × List Byte)
  | 0, _ => []
  | turns + 1, off =>
    if off < len then
      ((readLe buf off 8).toNat, buf (off + 18), nameAt buf (off + 19) ((readLe buf (off + 16) 2).toNat - 19)) ::
        decodeDirents buf len turns (off + (readLe buf (off + 16) 2).toNat)
    else []

/-! ## Decoding what was written -/

namespace Dirent

variable {buf : Mem} {off i : Nat} {r : Dirent} {rs : List Dirent}

/-- The fields fit in their bytes. -/
structure Sound (r : Dirent) : Prop where
  ino : r.ino < 2 ^ 64
  name : r.name.length < NAME_MAX
  reclen : r.reclen = reclenOf r.name.length

theorem reclenOf_bounds (n : Nat) : n + 20 ≤ reclenOf n ∧ reclenOf n < n + 28 := by
  rw [reclenOf]
  omega

theorem write_below (h : i < off) : r.write buf off i = buf i := by
  rw [write, storeBytes_below _ (by omega), writeLe_other (by omega), writeLe_other (by omega), writeLe_other (by omega),
    writeLe_other (by omega)]

theorem writeAll_below (h : i < off) : writeAll buf off rs i = buf i := by
  induction rs generalizing buf off with
  | nil => rfl
  | cons r rs ih => rw [writeAll, ih (by omega), write_below h]

theorem ofNat_high {n k : Nat} (h : n < 2 ^ (8 * k)) {i : Nat} (hi : 8 * k ≤ i) :
    (BitVec.ofNat 64 n).getLsbD i = false := by
  rw [BitVec.getLsbD_ofNat, Nat.testBit_lt_two_pow (h.trans_le (Nat.pow_le_pow_right Nat.two_pos hi)), Bool.and_false]

theorem readLe_ino (h : r.ino < 2 ^ 64) : (readLe (r.write buf off) off 8).toNat = r.ino := by
  have hcongr : readLe (r.write buf off) off 8 = readLe (writeLe buf off 8 (BitVec.ofNat 64 r.ino)) off 8 := by
    apply readLe_congr
    intro i hi
    rw [write, storeBytes_below _ (by omega), writeLe_other (by omega), writeLe_other (by omega),
      writeLe_other (by omega)]
  rw [hcongr, readLe_writeLe_eight, BitVec.toNat_ofNat, Nat.mod_eq_of_lt h]

theorem readLe_reclen (h : r.reclen < 2 ^ 16) : (readLe (r.write buf off) (off + 16) 2).toNat = r.reclen := by
  have hcongr : readLe (r.write buf off) (off + 16) 2 =
      readLe (writeLe (writeLe (writeLe buf off 8 (BitVec.ofNat 64 r.ino)) (off + 8) 8 (BitVec.ofNat 64 r.off))
        (off + 16) 2 (BitVec.ofNat 64 r.reclen)) (off + 16) 2 := by
    apply readLe_congr
    intro i hi
    rw [write, storeBytes_below _ (by omega), writeLe_other (by omega)]
  rw [hcongr, readLe_writeLe _ _ _ fun i hi => ofNat_high h hi, BitVec.toNat_ofNat, Nat.mod_eq_of_lt (by omega)]

theorem write_dtype : r.write buf off (off + 18) = dtypeOf r.kind := by
  rw [write, storeBytes_below _ (by omega)]
  have hsame := @writeLe_same (writeLe (writeLe (writeLe buf off 8 (BitVec.ofNat 64 r.ino)) (off + 8) 8
    (BitVec.ofNat 64 r.off)) (off + 16) 2 (BitVec.ofNat 64 r.reclen)) (off + 18) 1 0 ((dtypeOf r.kind).setWidth 64)
    Nat.one_pos
  rw [Nat.add_zero] at hsame
  rw [hsame]
  cases r.kind <;> decide

theorem write_name (h : i < r.name.length + 1) : some (r.write buf off (off + 19 + i)) = (r.name ++ [0])[i]? := by
  rw [write, storeBytes_inside]
  rw [List.length_append]
  exact h

end Dirent

/-- A name is read up to its first zero byte. -/
theorem nameAt_eq {buf : Mem} {off n : Nat} {name : List Byte} (hn : name.length < n)
    (h : ∀ i < name.length + 1, some (buf (off + i)) = (name ++ [0])[i]?) :
    nameAt buf off n = name.takeWhile (· != 0) := by
  induction name generalizing off n with
  | nil =>
    obtain ⟨n, rfl⟩ := Nat.exists_eq_succ_of_ne_zero (Nat.ne_of_gt hn)
    have hend : buf off = 0 := Option.some.inj (h 0 Nat.one_pos)
    rw [nameAt, if_pos hend, List.takeWhile_nil]
  | cons b name ih =>
    obtain ⟨n, rfl⟩ := Nat.exists_eq_succ_of_ne_zero (Nat.ne_of_gt (Nat.zero_lt_of_lt hn))
    have hb : buf off = b := Option.some.inj (h 0 (Nat.succ_pos _))
    rw [nameAt, hb, List.takeWhile_cons]
    by_cases hzero : b = 0
    · rw [if_pos hzero, hzero]
      rfl
    · rw [if_neg hzero, if_pos (bne_iff_ne.mpr hzero), ih (Nat.lt_of_succ_lt_succ hn)]
      intro i hi
      have hnext := h (i + 1) (Nat.succ_lt_succ hi)
      rw [← Nat.add_assoc, Nat.add_right_comm] at hnext
      exact hnext

theorem takeWhile_eq_self_iff {name : List Byte} : name.takeWhile (· != 0) = name ↔ 0 ∉ name := by
  rw [List.takeWhile_eq_self_iff]
  constructor
  · intro h hzero
    have hne := h 0 hzero
    cases hne
  · intro h b hb
    exact bne_iff_ne.mpr fun hzero => h (hzero ▸ hb)

namespace Dirent

variable {buf : Mem} {off turns : Nat} {r : Dirent} {rs : List Dirent}

/-- What is written behind a record does not matter to it. -/
theorem nameAt_write (h : r.Sound) :
    nameAt (writeAll (r.write buf off) (off + r.reclen) rs) (off + 19) (r.reclen - 19) = r.name.takeWhile (· != 0) := by
  have hb := reclenOf_bounds r.name.length
  rw [← h.reclen] at hb
  apply nameAt_eq (by omega)
  intro i hi
  rw [writeAll_below (by omega)]
  exact write_name hi

theorem decode_writeAll (h : ∀ r ∈ rs, r.Sound) (hturns : rs.length ≤ turns) :
    decodeDirents (writeAll buf off rs) (off + total rs) turns off =
      rs.map fun r => (r.ino, dtypeOf r.kind, r.name.takeWhile (· != 0)) := by
  induction rs generalizing buf off turns with
  | nil =>
    cases turns with
    | zero => rfl
    | succ turns =>
      rw [decodeDirents]
      exact if_neg (Nat.lt_irrefl off)
  | cons r rs ih =>
    obtain ⟨hr, hrs⟩ := List.forall_mem_cons.mp h
    obtain ⟨turns, rfl⟩ := Nat.exists_eq_succ_of_ne_zero (Nat.ne_of_gt (Nat.zero_lt_of_lt hturns))
    have hb := reclenOf_bounds r.name.length
    rw [← hr.reclen] at hb
    have hlen := hr.name
    have hmax : NAME_MAX = 64 := rfl
    have htotal : off + total (r :: rs) = off + r.reclen + total rs := by
      rw [total, List.map_cons, List.sum_cons, Nat.add_assoc]
      rfl
    have hino : readLe (writeAll (r.write buf off) (off + r.reclen) rs) off 8 = readLe (r.write buf off) off 8 :=
      readLe_congr fun i hi => writeAll_below (by omega)
    have hreclen : readLe (writeAll (r.write buf off) (off + r.reclen) rs) (off + 16) 2 =
        readLe (r.write buf off) (off + 16) 2 := readLe_congr fun i hi => writeAll_below (by omega)
    rw [writeAll, decodeDirents, if_pos (by omega), hino, hreclen, readLe_ino hr.ino, readLe_reclen (by omega),
      writeAll_below (by omega), write_dtype, nameAt_write hr, htotal, ih hrs (Nat.le_of_succ_le_succ hturns)]
    rfl

theorem length_le_total (h : ∀ r ∈ rs, r.Sound) : rs.length ≤ total rs := by
  induction rs with
  | nil => exact le_rfl
  | cons r rs ih =>
    obtain ⟨hr, hrs⟩ := List.forall_mem_cons.mp h
    have hb := reclenOf_bounds r.name.length
    rw [← hr.reclen] at hb
    rw [total, List.map_cons, List.sum_cons, List.length_cons]
    have hle := ih hrs
    rw [total] at hle
    omega

/-- Decoding a buffer gives the entries back, exactly when no name has a zero byte. -/
theorem decode_iff (h : ∀ r ∈ rs, r.Sound) :
    decodeDirents (writeAll buf 0 rs) (total rs) (total rs) 0 = rs.map fields ↔ ∀ r ∈ rs, 0 ∉ r.name := by
  have hdecode : decodeDirents (writeAll buf 0 rs) (0 + total rs) (total rs) 0 =
      rs.map fun r => (r.ino, dtypeOf r.kind, r.name.takeWhile (· != 0)) := decode_writeAll h (length_le_total h)
  rw [Nat.zero_add] at hdecode
  rw [hdecode, List.map_inj_left]
  refine forall_congr' fun r => forall_congr' fun _ => ?_
  rw [fields, Prod.mk.injEq, Prod.mk.injEq, eq_self, true_and, eq_self, true_and, takeWhile_eq_self_iff]

end Dirent

/-! ## One call -/

variable (s : VfsState)

/-- The position after the call, the bytes written and the records. -/
def getdents (idx : BitVec 16) (pos count : Nat) : Except VfsStatus (Nat × Nat × List Dirent) :=
  match nodeOf idx with
  | none => .error .invalid
  | some node =>
    if (s.nodes node).kind ≠ .dir then .error .notDir
    else (s.getdentsLoop node count (MAX_NODES + 3) pos 0 []).getD (.error .invalid)

/-- The records of the entries from one position to another. -/
inductive Records (d : NodeId) : Nat → List Dirent → Nat → Prop
  | nil {pos : Nat} : Records d pos [] pos
  | cons {pos pos' ino : Nat} {kind : VfsKind} {name : List Byte} {rs : List Dirent}
      (h : s.entryAt d pos = some (ino, kind, name)) (hrs : Records d (pos + 1) rs pos') :
      Records d pos (⟨ino, pos + 1, reclenOf name.length, kind, name⟩ :: rs) pos'

/-- The entry at the position fits in the buffer. -/
def EntryFits (d : NodeId) (pos count : Nat) : Prop := ∀ e ∈ s.entryAt d pos, reclenOf e.2.2.length ≤ count

instance (d : NodeId) (pos count : Nat) : Decidable (s.EntryFits d pos count) :=
  inferInstanceAs (Decidable (∀ e ∈ s.entryAt d pos, reclenOf e.2.2.length ≤ count))

variable {s} {d : NodeId} {l : List NodeId} {pos pos' count turns written written' : Nat} {rs acc : List Dirent}

/-- A turn writes the entry, or the directory ends there, or the buffer has no room for more. -/
theorem getdentsLoop_records (h : s.getdentsLoop d count turns pos written acc = some (.ok (pos', written', rs))) :
    ∃ rs', rs = acc ++ rs' ∧ s.Records d pos rs' pos' ∧ written' = written + Dirent.total rs' ∧
      (written' = 0 → s.entryAt d pos' = none) := by
  induction turns generalizing pos written acc with
  | zero => cases h
  | succ turns ih =>
    rw [getdentsLoop] at h
    cases hentry : s.entryAt d pos with
    | none =>
      rw [hentry] at h
      cases h
      exact ⟨[], (List.append_nil _).symm, .nil, rfl, fun _ => hentry⟩
    | some e =>
      obtain ⟨ino, kind, name⟩ := e
      rw [hentry] at h
      dsimp only at h
      split at h
      · split at h
        · cases h
        · rename_i hzero
          cases h
          exact ⟨[], (List.append_nil _).symm, .nil, rfl, fun h => absurd h hzero⟩
      · obtain ⟨rs', rfl, hrs, hwritten, hend⟩ := ih h
        refine ⟨⟨ino, pos + 1, reclenOf name.length, kind, name⟩ :: rs', ?_, .cons hentry hrs, ?_, hend⟩
        · rw [List.append_assoc]
          rfl
        · rw [hwritten, Dirent.total, Dirent.total, List.map_cons, List.sum_cons, Nat.add_assoc]

/-- Only the first record of a call can be refused. -/
theorem getdentsLoop_ok (hfit : written = 0 → s.EntryFits d pos count)
    (h : (s.getdentsLoop d count turns pos written acc).isSome = true) :
    ∃ r, s.getdentsLoop d count turns pos written acc = some (.ok r) := by
  induction turns generalizing pos written acc with
  | zero => cases h
  | succ turns ih =>
    rw [getdentsLoop] at h ⊢
    cases hentry : s.entryAt d pos with
    | none => exact ⟨_, rfl⟩
    | some e =>
      obtain ⟨ino, kind, name⟩ := e
      rw [hentry] at h
      dsimp only at h ⊢
      by_cases hroom : count < written + reclenOf name.length
      · rw [if_pos hroom]
        by_cases hzero : written = 0
        · have hle := hfit hzero (ino, kind, name) hentry
          dsimp only at hle
          omega
        · rw [if_neg hzero]
          exact ⟨_, rfl⟩
      · rw [if_neg hroom] at h ⊢
        have hb := Dirent.reclenOf_bounds name.length
        exact ih (by omega) h

theorem Tree.getdents_ok (h : s.Tree) {idx : BitVec 16} (hidx : nodeOf idx = some d) (hd : d.val < s.nextNode)
    (hdir : s.IsDir d) (hfit : s.EntryFits d pos count) :
    ∃ pos' rs, s.getdents idx pos count = .ok (pos', Dirent.total rs, rs) ∧ s.Records d pos rs pos' ∧
      (Dirent.total rs = 0 → s.entryAt d pos' = none) := by
  obtain ⟨l, hl⟩ := h.kids d hd
  obtain ⟨⟨pos', written, rs⟩, hok⟩ := getdentsLoop_ok (fun _ => hfit) (getdentsLoop_ends hl.chain count pos)
  obtain ⟨rs', heq, hrs, hwritten, hend⟩ := getdentsLoop_records hok
  rw [List.nil_append] at heq
  rw [Nat.zero_add] at hwritten
  subst heq hwritten
  refine ⟨pos', rs, ?_, hrs, hend⟩
  have hkind : (s.nodes d).kind = .dir := hdir
  rw [getdents, hidx]
  dsimp only
  rw [if_neg (not_not.mpr hkind), hok]
  rfl

/-! ## The entries of a directory -/

/-- What `getdents` says of a child. -/
def childEntry (s : VfsState) (c : NodeId) : Nat × VfsKind × List Byte := (inoOf c, (s.nodes c).kind, (s.nodes c).name)

/-- The directory, the one above it, and the children. -/
def entries (s : VfsState) (d : NodeId) (l : List NodeId) : List (Nat × VfsKind × List Byte) :=
  (inoOf d, .dir, [DOT]) :: (inoOf ((s.nodes d).parent.getD d), .dir, [DOT, DOT]) :: l.map s.childEntry

/-- The entries before a position. -/
def listing (s : VfsState) (d : NodeId) (pos : Nat) : List (Nat × VfsKind × List Byte) :=
  (List.range pos).filterMap (s.entryAt d)

/-- The directory has the entry. -/
def Has (s : VfsState) (d : NodeId) (e : Nat × VfsKind × List Byte) : Prop := ∃ pos, s.entryAt d pos = some e

theorem nthSibling_eq {head : Option NodeId} (h : Chain s.next head l) (k : Nat) : s.nthSibling k head = l[k]? := by
  induction h generalizing k with
  | nil => cases k <;> rfl
  | cons _ ih =>
    cases k with
    | zero => rfl
    | succ k => exact ih k

theorem entryAt_eq (h : s.Children d l) (pos : Nat) : s.entryAt d pos = (s.entries d l)[pos]? := by
  rw [entryAt]
  cases pos with
  | zero => rfl
  | succ pos =>
    cases pos with
    | zero => rfl
    | succ k =>
      have hk : k + 1 + 1 - 2 = k := rfl
      rw [if_neg (by omega), if_neg (by omega), hk, nthSibling_eq h, entries, List.getElem?_cons_succ,
        List.getElem?_cons_succ, List.getElem?_map]
      rfl

theorem listing_succ (pos : Nat) : s.listing d (pos + 1) = s.listing d pos ++ (s.entryAt d pos).toList := by
  rw [listing, List.range_succ, List.filterMap_append, listing]
  cases h : s.entryAt d pos <;> simp [h]

theorem listing_eq (h : s.Children d l) (pos : Nat) : s.listing d pos = (s.entries d l).take pos := by
  induction pos with
  | zero => rfl
  | succ pos ih => rw [listing_succ, ih, entryAt_eq h, List.take_add_one]

/-- A call goes on with the listing. -/
theorem Records.listing (h : s.Records d pos rs pos') : s.listing d pos' = s.listing d pos ++ rs.map Dirent.entry := by
  induction h with
  | nil => exact (List.append_nil _).symm
  | cons hentry _ ih =>
    rw [ih, listing_succ, hentry, List.append_assoc]
    rfl

theorem inoOf_inj {c c' : NodeId} : inoOf c = inoOf c' ↔ c = c' := by
  rw [inoOf, inoOf, Nat.add_right_cancel_iff, Fin.val_inj]

/-- No two entries are the same: children have larger numbers than the directory, and this one than the one above. -/
theorem Tree.entries_nodup (h : s.Tree) (hd : d.val < s.nextNode) (hl : s.Kids d l) : (s.entries d l).Nodup := by
  have habove : (s.nodes d).parent.getD d ≤ d := by
    cases hparent : (s.nodes d).parent with
    | none => exact le_rfl
    | some e => exact (h.up hd hparent).le
  have hchild : ∀ c ∈ l, d < c := fun c hc => h.up (hl.link c hc).1 (hl.link c hc).2.1
  have hinj : Function.Injective s.childEntry := fun c c' heq => inoOf_inj.mp (Prod.mk.inj heq).1
  rw [entries, List.nodup_cons, List.nodup_cons, List.nodup_map_iff hinj]
  refine ⟨?_, ?_, hl.chain.nodup⟩
  · rw [List.mem_cons, not_or]
    constructor
    · intro heq
      cases (Prod.mk.inj (Prod.mk.inj heq).2).2
    · intro hmem
      obtain ⟨c, hc, heq⟩ := List.mem_map.mp hmem
      obtain rfl := inoOf_inj.mp (Prod.mk.inj heq).1
      exact lt_irrefl _ (hchild c hc)
  · intro hmem
    obtain ⟨c, hc, heq⟩ := List.mem_map.mp hmem
    obtain rfl := inoOf_inj.mp (Prod.mk.inj heq).1
    exact lt_irrefl _ ((hchild _ hc).trans_le habove)

theorem Tree.listing_nodup (h : s.Tree) (hd : d.val < s.nextNode) (pos : Nat) : (s.listing d pos).Nodup := by
  obtain ⟨l, hl⟩ := h.kids d hd
  rw [listing_eq hl.chain]
  exact (h.entries_nodup hd hl).sublist (List.take_sublist pos _)

theorem Tree.has_bounds (h : s.Tree) (hd : d.val < s.nextNode) {ino : Nat} {kind : VfsKind} {name : List Byte}
    (he : s.Has d (ino, kind, name)) :
    ino < 2 ^ 64 ∧ name.length < NAME_MAX ∧
      (name = [DOT] ∨ name = [DOT, DOT] ∨ ∃ c : NodeId, c.val < s.nextNode ∧ (s.nodes c).name = name) := by
  obtain ⟨l, hl⟩ := h.kids d hd
  obtain ⟨pos, hpos⟩ := he
  have hino : ∀ c : NodeId, inoOf c < 2 ^ 64 := by
    intro c
    have hc := c.isLt
    have hmax : MAX_NODES = 128 := rfl
    rw [inoOf]
    omega
  rw [entryAt_eq hl.chain] at hpos
  have hmem := List.mem_of_getElem? hpos
  rw [entries, List.mem_cons, List.mem_cons, List.mem_map] at hmem
  rcases hmem with heq | heq | ⟨c, hc, heq⟩
  · cases heq
    exact ⟨hino d, by decide, .inl rfl⟩
  · cases heq
    exact ⟨hino _, by decide, .inr (.inl rfl)⟩
  · cases heq
    obtain ⟨hlt, _, hlen⟩ := hl.link c hc
    exact ⟨hino c, hlen, .inr (.inr ⟨c, hlt, rfl⟩)⟩

theorem Records.has (h : s.Records d pos rs pos') {r : Dirent} (hr : r ∈ rs) :
    s.Has d r.entry ∧ r.reclen = reclenOf r.name.length := by
  induction h with
  | nil => cases hr
  | @cons pos _ ino kind name rs hentry _ ih =>
    rcases List.mem_cons.mp hr with rfl | hr
    · exact ⟨⟨pos, hentry⟩, rfl⟩
    · exact ih hr

theorem Tree.records_sound (h : s.Tree) (hd : d.val < s.nextNode) (hrs : s.Records d pos rs pos') :
    ∀ r ∈ rs, r.Sound := by
  intro r hr
  obtain ⟨hhas, hreclen⟩ := hrs.has hr
  obtain ⟨hino, hlen, _⟩ := h.has_bounds hd hhas
  exact ⟨hino, hlen, hreclen⟩

/-- At the end of the directory the listing has every entry. -/
theorem Tree.mem_listing_of_end (h : s.Tree) (hd : d.val < s.nextNode) (hend : s.entryAt d pos = none)
    {e : Nat × VfsKind × List Byte} (he : s.Has d e) : e ∈ s.listing d pos := by
  obtain ⟨l, hl⟩ := h.kids d hd
  obtain ⟨k, hk⟩ := he
  rw [entryAt_eq hl.chain] at hend hk
  rw [listing_eq hl.chain, List.take_of_length_le (List.getElem?_eq_none_iff.mp hend)]
  exact List.mem_of_getElem? hk

end VfsState

end Pyremu.Sittim
