import Pyremu.Sittim.RamfsFiles

/-!
# File offsets

Reads and writes once more, with every sum checked against 64 bits and every
index against the arena. Only the end of a write is checked in the source; the
two sums that follow wrap around where the offset comes within the used part of
the arena of the end of the address space.
-/

namespace Pyremu.Sittim

/-! ## Checked arithmetic -/

/-- A sum of `usize`, `none` where it overflows. -/
def addUsize (a b : Nat) : Option Nat := if a + b < 2 ^ 64 then some (a + b) else none

/-- An index into the arena, `none` behind its end. -/
def arenaIndex (i : Nat) : Option Nat := if i < DATA_ARENA then some i else none

theorem addUsize_eq {a b : Nat} (h : a + b < 2 ^ 64) : addUsize a b = some (a + b) := if_pos h

theorem addUsize_none {a b : Nat} (h : 2 ^ 64 ≤ a + b) : addUsize a b = none := if_neg (Nat.not_lt.mpr h)

theorem arenaIndex_eq {i : Nat} (h : i < DATA_ARENA) : arenaIndex i = some i := if_pos h

/-- `base + i` as an index. -/
def indexAt (base i : Nat) : Option Nat := (addUsize base i).bind arenaIndex

theorem indexAt_eq {base i : Nat} (h : base + i < DATA_ARENA) : indexAt base i = some (base + i) := by
  have harena := VfsState.DATA_ARENA_lt
  rw [indexAt, addUsize_eq (by omega), Option.bind_some, arenaIndex_eq h]

/-- The loop of a read: `n` bytes from `base`. -/
def readLoop (data : Nat → Byte) (base : Nat) : Nat → Option (List Byte)
  | 0 => some []
  | n + 1 => do
    let bytes ← readLoop data base n
    let i ← indexAt base n
    some (bytes ++ [data i])

/-- The loop of a write: `buf[i ..]` at `base + offset + i`. -/
def storeLoop (base offset : Nat) : Nat → List Byte → (Nat → Byte) → Option (Nat → Byte)
  | _, [], data => some data
  | i, b :: buf, data => do
    let start ← addUsize base offset
    let k ← indexAt start i
    storeLoop base offset (i + 1) buf (Function.update data k b)

/-- The loop that moves the first `n` bytes of a file. -/
def moveLoop (data : Nat → Byte) (dst src : Nat) : Nat → Option (Nat → Byte)
  | 0 => some data
  | n + 1 => do
    let data ← moveLoop data dst src n
    let k ← indexAt src n
    let l ← indexAt dst n
    some (Function.update data l (data k))

theorem readLoop_eq (data : Nat → Byte) {base n : Nat} (h : base + n ≤ DATA_ARENA) :
    readLoop data base n = some ((List.range n).map fun i => data (base + i)) := by
  induction n with
  | zero => rfl
  | succ n ih =>
    simp only [readLoop, Option.bind_eq_bind]
    rw [ih (by omega), Option.bind_some, indexAt_eq (by omega), Option.bind_some, List.range_succ, List.map_append]
    rfl

theorem storeLoop_eq {base offset : Nat} (buf : List Byte) (i : Nat) (data : Nat → Byte)
    (h : base + offset + i + buf.length ≤ DATA_ARENA) :
    storeLoop base offset i buf data = some (storeBytes data (base + offset + i) buf) := by
  have harena := VfsState.DATA_ARENA_lt
  induction buf generalizing i data with
  | nil => rfl
  | cons b buf ih =>
    rw [List.length_cons] at h
    simp only [storeLoop, Option.bind_eq_bind]
    rw [addUsize_eq (by omega), Option.bind_some, indexAt_eq (by omega), Option.bind_some, ih _ _ (by omega), storeBytes]
    rfl

theorem moveLoop_eq (data : Nat → Byte) {dst src n : Nat} (hdst : dst + n ≤ DATA_ARENA) (hsrc : src + n ≤ DATA_ARENA) :
    moveLoop data dst src n = some (copyBytes data dst src n) := by
  induction n with
  | zero => rfl
  | succ n ih =>
    simp only [moveLoop, Option.bind_eq_bind]
    rw [ih (by omega) (by omega), Option.bind_some, indexAt_eq (by omega), Option.bind_some, indexAt_eq (by omega),
      Option.bind_some, copyBytes]

namespace VfsState

variable (s : VfsState)

/-! ## The checked calls -/

/-- `read_file`. -/
def readFileChecked (n : NodeId) (offset len : Nat) : Option (List Byte) :=
  if (s.nodes n).size ≤ offset then some []
  else do
    let base ← addUsize (s.nodes n).dataOff offset
    readLoop s.data base (min ((s.nodes n).size - offset) len)

/-- `in_tail && old_off + end <= DATA_ARENA`; the second sum is formed only where the first test succeeds. -/
def inTailChecked (n : NodeId) (fin : Nat) : Option Bool := do
  let oldEnd ← addUsize (s.nodes n).dataOff (s.nodes n).size
  if oldEnd = s.dataUsed then (addUsize (s.nodes n).dataOff fin).map fun e => decide (e ≤ DATA_ARENA) else some false

/-- The end of a write that grew the file, now at `newOff`. -/
def growChecked (n : NodeId) (newOff offset fin : Nat) (buf : List Byte) (data : Nat → Byte) (used : Nat) :
    Option (VfsState × Except VfsStatus Nat) := do
  let data ← storeLoop newOff offset 0 buf data
  some ({ s.setNode n { s.nodes n with dataOff := newOff % 2 ^ 32, size := fin % 2 ^ 32 } with
    data := data, dataUsed := used }, .ok buf.length)

/-- `write_file`. The first sum is checked by the source itself. -/
def writeFileChecked (n : NodeId) (offset : Nat) (buf : List Byte) : Option (VfsState × Except VfsStatus Nat) :=
  if buf = [] then some (s, .ok 0)
  else
    match addUsize offset buf.length with
    | none => some (s, .error .noSpace)
    | some fin =>
      if fin ≤ (s.nodes n).size then do
        let data ← storeLoop (s.nodes n).dataOff offset 0 buf s.data
        some ({ s with data := data }, .ok buf.length)
      else do
        let inPlace ← s.inTailChecked n fin
        if inPlace then do
          let used ← addUsize s.dataUsed (fin - (s.nodes n).size)
          s.growChecked n (s.nodes n).dataOff offset fin buf s.data used
        else do
          let used ← addUsize s.dataUsed fin
          if used ≤ DATA_ARENA then do
            let data ← moveLoop s.data s.dataUsed (s.nodes n).dataOff (s.nodes n).size
            s.growChecked n s.dataUsed offset fin buf data used
          else some (s, .error .noSpace)

/-- `read`. -/
def readNodeChecked (idx : BitVec 16) (offset len : Nat) : Option (Except VfsStatus (List Byte)) :=
  match nodeOf idx with
  | none => some (.error .invalid)
  | some n => if (s.nodes n).kind ≠ .file then some (.error .isDir) else (s.readFileChecked n offset len).map .ok

/-- `write`. -/
def writeNodeChecked (idx : BitVec 16) (offset : Nat) (buf : List Byte) :
    Option (VfsState × Except VfsStatus Nat) :=
  match nodeOf idx with
  | none => some (s, .error .invalid)
  | some n => if (s.nodes n).kind ≠ .file then some (s, .error .isDir) else s.writeFileChecked n offset buf

/-- There is room for the bytes: in the file, behind it when it is the last, or behind all files. -/
def Fits (n : NodeId) (offset len : Nat) : Prop :=
  len = 0 ∨ offset + len ≤ (s.nodes n).size ∨
    ((s.nodes n).dataOff + (s.nodes n).size = s.dataUsed ∧ (s.nodes n).dataOff + (offset + len) ≤ DATA_ARENA) ∨
    s.dataUsed + (offset + len) ≤ DATA_ARENA

/-- Nothing overflows and every index is in the arena, and a write for which there is no room changes nothing. -/
def OffsetSafe : FsOp → Prop
  | .readNode idx offset len => (s.readNodeChecked idx offset len).isSome
  | .writeNode idx offset buf =>
    ∃ r, s.writeNodeChecked idx offset buf = some r ∧
      ∀ n, nodeOf idx = some n → (s.nodes n).kind = .file → ¬ s.Fits n offset buf.length → r = (s, .error .noSpace)
  | .injectFile path data =>
    match s.injectTarget path with
    | (s', some n) => (s'.nodes n).kind = .file → ((s'.truncateNode n 0).writeFileChecked n 0 data).isSome
    | _ => True
  | _ => True

/-- No write to a file comes within the used part of the arena of the end of the address space. -/
def OffsetNoWrap : FsOp → Prop
  | .writeNode idx offset buf =>
    ∀ n, nodeOf idx = some n → (s.nodes n).kind = .file → s.NoWrap n offset buf.length
  | _ => True

variable {s} {n : NodeId} {offset : Nat} {buf : List Byte}

/-! ## What is read and written -/

/-- The bytes of a file lie in the arena. -/
theorem Separated.end_le (h : s.Separated) (hsize : (s.nodes n).size ≠ 0) :
    (s.nodes n).dataOff + (s.nodes n).size ≤ s.dataUsed := by
  have := h.below n ((s.nodes n).dataOff + (s.nodes n).size - 1) ⟨by omega, by omega⟩
  omega

theorem readFileChecked_eq (h : s.Separated) (len : Nat) :
    s.readFileChecked n offset len = some (s.readFile n offset len) := by
  have hfits := h.fits
  have harena := DATA_ARENA_lt
  rw [readFileChecked, readFile]
  split
  · rfl
  · rename_i hlt
    have hend := h.end_le (n := n) (by omega)
    have hmin := Nat.min_le_left ((s.nodes n).size - offset) len
    rw [addUsize_eq (by omega), Option.bind_eq_bind, Option.bind_some, readLoop_eq _ (by omega)]

theorem growChecked_eq {newOff fin used : Nat} {data : Nat → Byte} (hoff : newOff ≤ DATA_ARENA)
    (h : newOff + offset + buf.length ≤ DATA_ARENA) :
    s.growChecked n newOff offset fin buf data used =
      some ({ s.setNode n { s.nodes n with dataOff := newOff, size := fin % 2 ^ 32 } with
        data := storeBytes data (newOff + offset) buf, dataUsed := used }, .ok buf.length) := by
  have harena := DATA_ARENA_lt
  simp only [growChecked, Option.bind_eq_bind]
  rw [storeLoop_eq buf 0 data (by omega), Option.bind_some, Nat.mod_eq_of_lt (by omega : newOff < 2 ^ 32), Nat.add_zero]

theorem inTailChecked_eq {fin : Nat} (hold : (s.nodes n).dataOff + (s.nodes n).size < 2 ^ 64)
    (hnew : (s.nodes n).dataOff + (s.nodes n).size = s.dataUsed → (s.nodes n).dataOff + fin < 2 ^ 64) :
    s.inTailChecked n fin = some (decide ((s.nodes n).dataOff + (s.nodes n).size = s.dataUsed ∧
      (s.nodes n).dataOff + fin ≤ DATA_ARENA)) := by
  simp only [inTailChecked, Option.bind_eq_bind]
  rw [addUsize_eq hold, Option.bind_some]
  split
  · rename_i hused
    rw [addUsize_eq (hnew hused), Option.map_some, Option.some.injEq, decide_eq_decide, and_iff_right hused]
  · rename_i hused
    rw [decide_eq_false fun h => hused h.1]

theorem inTailChecked_false {fin : Nat} {inTail : Bool}
    (h : (s.nodes n).dataOff + (s.nodes n).size = s.dataUsed → DATA_ARENA < (s.nodes n).dataOff + fin)
    (ht : s.inTailChecked n fin = some inTail) : inTail = false := by
  simp only [inTailChecked, Option.bind_eq_bind, Option.bind_eq_some_iff] at ht
  obtain ⟨oldEnd, hold, ht⟩ := ht
  have hsum : oldEnd = (s.nodes n).dataOff + (s.nodes n).size := by
    rw [addUsize] at hold
    split at hold
    · exact (Option.some.inj hold).symm
    · cases hold
  subst hsum
  split at ht
  · rename_i hused
    rw [addUsize] at ht
    split at ht
    · rw [Option.map_some, Option.some.injEq, decide_eq_false (Nat.not_le.mpr (h hused))] at ht
      exact ht.symm
    · cases ht
  · exact (Option.some.inj ht).symm

/-- Where no sum wraps, the checked write is the write. -/
theorem writeFileChecked_eq (hs : s.Inv) (hwrap : s.NoWrap n offset buf.length) :
    s.writeFileChecked n offset buf = some (s.writeFile n offset buf) := by
  have hfits := hs.separated.fits
  have hanch := hs.anchored n
  have harena := DATA_ARENA_lt
  have hlast : (s.nodes n).size = 0 ∨ (s.nodes n).dataOff + (s.nodes n).size ≤ s.dataUsed := by
    by_cases hz : (s.nodes n).size = 0
    · exact .inl hz
    · exact .inr (hs.separated.end_le hz)
  simp only [writeFileChecked, writeFile, Option.bind_eq_bind]
  split
  · rfl
  rename_i hbuf
  have hpos := List.length_pos_of_ne_nil hbuf
  by_cases hend : 2 ^ 64 ≤ offset + buf.length
  · rw [addUsize_none hend, if_pos hend]
  rw [addUsize_eq (by omega), if_neg hend]
  dsimp only
  by_cases hin : offset + buf.length ≤ (s.nodes n).size
  · rw [if_pos hin, if_pos hin, storeLoop_eq buf 0 s.data (by omega)]
    rfl
  rw [if_neg hin, if_neg hin]
  have hsum : s.dataUsed + (offset + buf.length) < 2 ^ 64 := by
    rcases hwrap with hwrap | hwrap | hwrap | hwrap <;> omega
  rw [inTailChecked_eq (by omega) (by omega), Option.bind_some]
  by_cases htail : (s.nodes n).dataOff + (s.nodes n).size = s.dataUsed ∧
      (s.nodes n).dataOff + (offset + buf.length) ≤ DATA_ARENA
  · rw [decide_eq_true htail, if_pos rfl]
    obtain ⟨hused, hroom⟩ := htail
    rw [addUsize_eq (by omega), Option.bind_some, growChecked_eq (by omega) (by omega),
      if_pos ⟨hused, by rwa [Nat.mod_eq_of_lt (by omega)]⟩]
    rfl
  · have hmove : ¬ ((s.nodes n).dataOff + (s.nodes n).size = s.dataUsed ∧
        ((s.nodes n).dataOff + (offset + buf.length)) % 2 ^ 64 ≤ DATA_ARENA) := by
      rintro ⟨hused, hle⟩
      rw [Nat.mod_eq_of_lt (by omega)] at hle
      exact htail ⟨hused, hle⟩
    rw [decide_eq_false htail, if_neg Bool.false_ne_true, addUsize_eq hsum, Option.bind_some, if_neg hmove,
      Nat.mod_eq_of_lt hsum]
    by_cases hroom : s.dataUsed + (offset + buf.length) ≤ DATA_ARENA
    · rw [if_pos hroom, if_pos hroom, moveLoop_eq s.data (by omega) (by omega), Option.bind_some,
        growChecked_eq (by omega) (by omega)]
      rfl
    · rw [if_neg hroom, if_neg hroom]

/-- Where the second sum wraps, one of the checked sums fails. -/
theorem writeFileChecked_none (hs : s.Separated) (hwrap : ¬ s.NoWrap n offset buf.length) :
    s.writeFileChecked n offset buf = none := by
  have hfits := hs.fits
  have harena := DATA_ARENA_lt
  simp only [NoWrap, not_or, Nat.not_le, Nat.not_lt] at hwrap
  obtain ⟨hlen, hend, hin, hsum⟩ := hwrap
  have hbuf : buf ≠ [] := fun h => hlen (by rw [h]; rfl)
  simp only [writeFileChecked, Option.bind_eq_bind]
  rw [if_neg hbuf, addUsize_eq hend]
  dsimp only
  rw [if_neg (Nat.not_le.mpr hin)]
  cases htail : s.inTailChecked n (offset + buf.length) with
  | none => rfl
  | some inTail =>
    have hfalse := inTailChecked_false (by omega) htail
    rw [Option.bind_some, hfalse, if_neg Bool.false_ne_true, addUsize_none hsum]
    rfl

theorem writeFile_noSpace (hwrap : s.NoWrap n offset buf.length) (hfit : ¬ s.Fits n offset buf.length) :
    s.writeFile n offset buf = (s, .error .noSpace) := by
  have harena := DATA_ARENA_lt
  simp only [Fits, not_or, not_and, Nat.not_le] at hfit
  obtain ⟨hlen, hin, htail, hroom⟩ := hfit
  have hbuf : buf ≠ [] := fun h => hlen (by rw [h]; rfl)
  rw [writeFile, if_neg hbuf]
  split
  · rfl
  rename_i hend
  have hsum : s.dataUsed + (offset + buf.length) < 2 ^ 64 := by
    rcases hwrap with hwrap | hwrap | hwrap | hwrap <;> omega
  have hmove : ¬ ((s.nodes n).dataOff + (s.nodes n).size = s.dataUsed ∧
      ((s.nodes n).dataOff + (offset + buf.length)) % 2 ^ 64 ≤ DATA_ARENA) := by
    rintro ⟨hused, hle⟩
    have := htail hused
    rw [Nat.mod_eq_of_lt (by omega)] at hle
    omega
  rw [if_neg (by omega), if_neg hmove, Nat.mod_eq_of_lt hsum, if_neg (by omega)]

/-! ## The operations -/

theorem readNodeChecked_isSome (h : s.Separated) (idx : BitVec 16) (offset len : Nat) :
    (s.readNodeChecked idx offset len).isSome := by
  rw [readNodeChecked]
  split
  · rfl
  · split
    · rfl
    · rw [readFileChecked_eq h]
      rfl

theorem writeNode_safe_iff (hs : s.Inv) (idx : BitVec 16) :
    s.OffsetSafe (.writeNode idx offset buf) ↔ s.OffsetNoWrap (.writeNode idx offset buf) := by
  simp only [OffsetSafe, OffsetNoWrap, writeNodeChecked]
  cases hn : nodeOf idx with
  | none => simp
  | some n =>
    by_cases hfile : (s.nodes n).kind = .file
    · simp only [hfile, ne_eq, not_true_eq_false, if_false, Option.some.injEq]
      constructor
      · rintro ⟨r, hr, _⟩ m rfl _
        by_contra hwrap
        rw [writeFileChecked_none hs.separated hwrap] at hr
        cases hr
      · intro hwrap
        refine ⟨_, writeFileChecked_eq hs (hwrap n rfl hfile), ?_⟩
        rintro m rfl _ hfit
        exact writeFile_noSpace (hwrap n rfl hfile) hfit
    · simp only [hfile, ne_eq, not_false_eq_true, if_true, Option.some.injEq, exists_eq_left']
      constructor
      · rintro _ m rfl hm
        exact absurd hm hfile
      · rintro _ m rfl hm
        exact absurd hm hfile

theorem injectFile_safe (hs : s.Inv) {path data : List Byte} (hlen : data.length < 2 ^ 63) :
    s.OffsetSafe (.injectFile path data) := by
  have hquiet := hs.fresh.quiet_injectTarget path
  rw [OffsetSafe]
  split
  · rename_i s' n htarget
    intro _
    rw [htarget] at hquiet
    have hcut := ((hquiet.inv hs).truncateNode (n := n) 0).2
    rw [writeFileChecked_eq hcut (hcut.separated.noWrap (by omega))]
    rfl
  · trivial

end VfsState

/-- A slice of Rust has fewer than `2^63` bytes. -/
def FsOp.SliceBounded : FsOp → Prop
  | .injectFile _ data => data.length < 2 ^ 63
  | _ => True

namespace VfsState

variable {s : VfsState}

theorem offsetSafe_iff (hs : s.Inv) {op : FsOp} (hop : op.SliceBounded) : s.OffsetSafe op ↔ s.OffsetNoWrap op := by
  cases op with
  | openPath _ _ _ => exact Iff.rfl
  | readNode idx offset len => exact iff_of_true (readNodeChecked_isSome hs.separated idx offset len) trivial
  | writeNode idx offset buf => exact writeNode_safe_iff hs idx
  | truncate _ _ => exact Iff.rfl
  | mkdir _ _ => exact Iff.rfl
  | unlink _ _ => exact Iff.rfl
  | injectFile path data => exact iff_of_true (injectFile_safe hs hop) trivial

theorem Inv.step_noWrap (hs : s.Inv) {op : FsOp} (hop : op.SliceBounded) (hwrap : s.OffsetNoWrap op) :
    (s.step op).Inv := by
  cases op with
  | openPath path flags mode => exact (hs.openPath path flags mode).2
  | readNode idx offset len => exact hs
  | writeNode idx offset buf =>
    by_cases hfile : ∀ n, nodeOf idx = some n → (s.nodes n).kind = .file
    · exact (hs.writeNode fun n hn => hwrap n hn (hfile n hn)).2
    · simp only [not_forall] at hfile
      obtain ⟨n, hn, hkind⟩ := hfile
      rw [VfsState.step, VfsState.writeNode, hn]
      dsimp only
      rw [if_pos hkind]
      exact hs
  | truncate idx len => exact (hs.truncate idx len).2
  | mkdir path mode => exact (hs.fresh.quiet_mkdir path mode).inv hs
  | unlink path flags => exact (quiet_unlink path flags).inv hs
  | injectFile path data => exact (hs.injectFile hop).2

end VfsState

open VfsState in
/-- In every run from `init` the calls are safe at every offset, exactly when no write comes within the used
part of the arena of the end of the address space. -/
theorem ramfs_offsets_iff (l : List FsOp) (hl : ∀ op ∈ l, op.SliceBounded) :
    Run.Along VfsState.step OffsetSafe init l ↔ Run.Along VfsState.step OffsetNoWrap init l :=
  Run.along_iff_of_promised (fun _ _ hs hop => offsetSafe_iff hs hop)
    (fun _ _ hs hop hsafe => hs.step_noWrap hop ((offsetSafe_iff hs hop).mp hsafe)) init_inv hl

/-- A file of three bytes. -/
def threeBytes : FsOp := .injectFile [SLASH, 0x61] [1, 2, 3]

theorem threeBytes_dataUsed : (VfsState.init.step threeBytes).dataUsed = 3 := by decide +kernel

theorem threeBytes_file : ((VfsState.init.step threeBytes).nodes 1).kind = .file ∧
    ((VfsState.init.step threeBytes).nodes 1).size = 3 := by decide +kernel

/-- A write behind a gap, a write at the last offset and a read there. -/
theorem ramfs_offsets_gap : Run.Along VfsState.step VfsState.OffsetSafe VfsState.init
    [threeBytes, .writeNode 1 (2 ^ 64 - 1) [4], .readNode 1 (2 ^ 64 - 1) 8] := by
  refine (ramfs_offsets_iff _ ?_).mpr ⟨trivial, fun n _ _ => .inr (.inl ?_), trivial, trivial⟩
  · simp only [List.forall_mem_cons, List.not_mem_nil, IsEmpty.forall_iff, implies_true, and_true]
    exact ⟨show [1, 2, 3].length < 2 ^ 63 by decide, trivial, trivial⟩
  · exact Nat.le_refl _

/-- One byte before the last offset the sum of the end and the used part wraps around. -/
theorem offset_wraps : ¬ ∀ l : List FsOp, (∀ op ∈ l, op.SliceBounded) →
    Run.Along VfsState.step VfsState.OffsetSafe VfsState.init l := by
  intro h
  have hsafe := h [threeBytes, .writeNode 1 (2 ^ 64 - 2) [4]] (by
    simp only [List.forall_mem_cons, List.not_mem_nil, IsEmpty.forall_iff, implies_true, and_true]
    exact ⟨show [1, 2, 3].length < 2 ^ 63 by decide, trivial⟩)
  have hlen : threeBytes.Bounded := show [1, 2, 3].length < 2 ^ 63 by decide
  have hinv := (VfsState.init_inv.step hlen).2
  obtain ⟨hkind, hsize⟩ := threeBytes_file
  have hwrap := (VfsState.writeNode_safe_iff hinv 1).mp hsafe.2.1 1 rfl hkind
  rw [VfsState.NoWrap, hsize, threeBytes_dataUsed, List.length_singleton] at hwrap
  omega

end Pyremu.Sittim
