import Pyremu.Sittim.Dirents
import Pyremu.Sittim.RamfsGrowth
import Pyremu.Lib.Run

/-!
# A directory scan

A scan calls `getdents` from position 0 until a call writes nothing, and other
operations go on in between. The position counts entries, so what a new entry
or a removed one moves across it is read twice or not at all.
-/

namespace Pyremu.Sittim

open VfsState

/-! ## The scan -/

structure Scan where
  fs : VfsState
  pos : Nat
  /-- The file system at the last call. -/
  seen : VfsState
  /-- All records, of every call. -/
  records : List Dirent

inductive ScanOp where
  | op (o : FsOp)
  | read (count : Nat)

/-- No byte of a path is zero. -/
def ScanOp.Terminated : ScanOp → Prop
  | .op o => 0 ∉ o.path
  | .read _ => True

namespace Scan

def start (s : VfsState) : Scan := ⟨s, 0, s, []⟩

def step (idx : BitVec 16) (sc : Scan) : ScanOp → Scan
  | .op o => { sc with fs := sc.fs.step o }
  | .read count =>
    match sc.fs.getdents idx sc.pos count with
    | .error _ => sc
    | .ok (pos', _, rs) => { sc with pos := pos', seen := sc.fs, records := sc.records ++ rs }

/-- The buffer has room for one entry. -/
def Roomy (d : NodeId) (sc : Scan) : ScanOp → Prop
  | .op _ => True
  | .read count => sc.fs.EntryFits d sc.pos count

instance (d : NodeId) (sc : Scan) : ∀ a, Decidable (sc.Roomy d a)
  | .op _ => .isTrue trivial
  | .read count => inferInstanceAs (Decidable (sc.fs.EntryFits d sc.pos count))

/-- The entry lies before the position, as the last call left it, exactly if it does now. -/
def Stays (d : NodeId) (e : Nat × VfsKind × List Byte) (sc : Scan) : ScanOp → Prop
  | .op _ => True
  | .read _ => e ∈ sc.seen.listing d sc.pos ↔ e ∈ sc.fs.listing d sc.pos

instance (d : NodeId) (e : Nat × VfsKind × List Byte) (sc : Scan) : ∀ a, Decidable (sc.Stays d e a)
  | .op _ => .isTrue trivial
  | .read _ => inferInstanceAs (Decidable (e ∈ sc.seen.listing d sc.pos ↔ e ∈ sc.fs.listing d sc.pos))

/-- As the last call left it, the entry was reported once if it lies before the position, and else not at all. -/
def Accounted (d : NodeId) (e : Nat × VfsKind × List Byte) (sc : Scan) : Prop :=
  (sc.records.map Dirent.entry).count e = (sc.seen.listing d sc.pos).count e

/-- The call succeeds with records of entries, and the buffer decodes to their fields. -/
def Decodes (idx : BitVec 16) (d : NodeId) (sc : Scan) : ScanOp → Prop
  | .op _ => True
  | .read count => ∃ pos' rs, sc.fs.getdents idx sc.pos count = .ok (pos', Dirent.total rs, rs) ∧
      sc.fs.Records d sc.pos rs pos' ∧
        ∀ buf, decodeDirents (Dirent.writeAll buf 0 rs) (Dirent.total rs) (Dirent.total rs) 0 = rs.map Dirent.fields

/-! ## One step -/

structure Inv (d : NodeId) (sc : Scan) : Prop where
  tree : sc.fs.Tree
  given : d.val < sc.fs.nextNode
  dir : sc.fs.IsDir d
  seen : (sc.seen.listing d sc.pos).Nodup

variable {idx : BitVec 16} {d : NodeId} {sc : Scan} {a : ScanOp} {count : Nat} {e : Nat × VfsKind × List Byte}

theorem Inv.read (h : sc.Inv d) (hidx : nodeOf idx = some d) (hroom : sc.fs.EntryFits d sc.pos count) :
    ∃ pos' rs, sc.fs.getdents idx sc.pos count = .ok (pos', Dirent.total rs, rs) ∧
      sc.step idx (.read count) = { sc with pos := pos', seen := sc.fs, records := sc.records ++ rs } ∧
      sc.fs.Records d sc.pos rs pos' ∧ (Dirent.total rs = 0 → sc.fs.entryAt d pos' = none) := by
  obtain ⟨pos', rs, hok, hrs, hend⟩ := h.tree.getdents_ok hidx h.given h.dir hroom
  refine ⟨pos', rs, hok, ?_, hrs, hend⟩
  rw [step, hok]

theorem Inv.step (h : sc.Inv d) (hidx : nodeOf idx = some d) (hroom : sc.Roomy d a) : (sc.step idx a).Inv d := by
  cases a with
  | op o =>
    have hg := h.tree.grows_step o
    refine ⟨h.tree.step o, h.given.trans_le hg.nextNode, ?_, h.seen⟩
    exact (hg.node d h.given).1.trans h.dir
  | read count =>
    obtain ⟨pos', rs, _, hstep, _⟩ := h.read hidx hroom
    rw [hstep]
    exact ⟨h.tree, h.given, h.dir, h.tree.listing_nodup h.given pos'⟩

theorem count_eq_iff {l l' : List (Nat × VfsKind × List Byte)} (hl : l.Nodup) (hl' : l'.Nodup) :
    l.count e = l'.count e ↔ (e ∈ l ↔ e ∈ l') := by
  rw [hl.count, hl'.count]
  by_cases h : e ∈ l <;> by_cases h' : e ∈ l' <;> simp [h, h']

/-- A call adds what it reads to both sides, so it is right exactly where the entry has stayed. -/
theorem Inv.accounted_iff (h : sc.Inv d) (hidx : nodeOf idx = some d) (hroom : sc.Roomy d a) (hacc : sc.Accounted d e) :
    (sc.step idx a).Accounted d e ↔ sc.Stays d e a := by
  cases a with
  | op o => exact iff_of_true hacc trivial
  | read count =>
    obtain ⟨pos', rs, _, hstep, hrs, _⟩ := h.read hidx hroom
    rw [hstep, Accounted, Stays, List.map_append, List.count_append, hrs.listing, List.count_append,
      Nat.add_right_cancel_iff, hacc]
    exact count_eq_iff h.seen (h.tree.listing_nodup h.given sc.pos)

/-! ## Names -/

/-- No name has a zero byte. -/
def NoZero (s : VfsState) : Prop := ∀ c : NodeId, c.val < s.nextNode → 0 ∉ (s.nodes c).name

theorem NoZero.grows {s s' : VfsState} {path : List Byte} (h : NoZero s) (hg : Grows (SLASH :: path) s s')
    (hpath : 0 ∉ path) : NoZero s' := by
  intro c hc
  rcases Nat.lt_or_ge c.val s.nextNode with hlt | hge
  · rw [(hg.node c hlt).2]
    exact h c hlt
  · intro hzero
    rcases List.mem_cons.mp (hg.fresh c hge hc hzero) with hslash | hmem
    · cases hslash
    · exact hpath hmem

theorem noZero_init : NoZero VfsState.init := by
  intro c hc
  obtain rfl : c = 0 := Fin.ext (Nat.lt_one_iff.mp hc)
  decide

theorem Inv.decodes (h : sc.Inv d) (hidx : nodeOf idx = some d) (hroom : sc.Roomy d a) (hzero : NoZero sc.fs) :
    sc.Decodes idx d a := by
  cases a with
  | op o => trivial
  | read count =>
    obtain ⟨pos', rs, hok, _, hrs, _⟩ := h.read hidx hroom
    refine ⟨pos', rs, hok, hrs, fun buf => ?_⟩
    rw [Dirent.decode_iff (h.tree.records_sound h.given hrs)]
    intro r hr
    obtain ⟨_, _, hname⟩ := h.tree.has_bounds h.given (hrs.has hr).1
    rcases hname with heq | heq | ⟨c, hc, heq⟩
    · rw [heq]
      decide
    · rw [heq]
      decide
    · rw [← heq]
      exact hzero c hc

/-! ## A whole scan -/

/-- At the end of the directory every entry was reported as often as it is there. -/
theorem Inv.reported_once (h : sc.Inv d) (hidx : nodeOf idx = some d) (hroom : sc.fs.EntryFits d sc.pos count)
    (hacc : (sc.step idx (.read count)).Accounted d e) (he : sc.fs.Has d e) {pos' : Nat} {rs : List Dirent}
    (hdone : sc.fs.getdents idx sc.pos count = .ok (pos', 0, rs)) :
    ((sc.step idx (.read count)).records.map Dirent.entry).count e = 1 := by
  obtain ⟨pos'', rs', hok, hstep, _, hend⟩ := h.read hidx hroom
  rw [hdone] at hok
  obtain ⟨rfl, htotal, rfl⟩ : pos' = pos'' ∧ 0 = Dirent.total rs' ∧ rs = rs' := by
    injection hok with hok
    injection hok with h₁ h₂
    injection h₂ with h₂ h₃
    exact ⟨h₁, h₂, h₃⟩
  rw [hstep] at hacc ⊢
  rw [hacc]
  exact List.count_eq_one_of_mem (h.tree.listing_nodup h.given pos')
    (h.tree.mem_listing_of_end h.given (hend htotal.symm) he)

variable {l : List ScanOp}

theorem Inv.accounted_run (h : sc.Inv d) (hidx : nodeOf idx = some d) (hroom : Run.Along (Scan.step idx) (Roomy d) sc l)
    (hacc : sc.Accounted d e) :
    Run.Always (Scan.step idx) (Accounted d e) sc l ↔ Run.Along (Scan.step idx) (Stays d e) sc l :=
  Run.always_iff_along (fun _ _ h hroom => h.step hidx hroom) (fun _ _ h hroom hacc => h.accounted_iff hidx hroom hacc) h
    hacc hroom

theorem Inv.decodes_run (h : sc.Inv d) (hidx : nodeOf idx = some d) (hroom : Run.Along (Scan.step idx) (Roomy d) sc l)
    (hzero : NoZero sc.fs) (hl : Run.Along (Scan.step idx) (fun _ a => a.Terminated) sc l) :
    Run.Along (Scan.step idx) (Decodes idx d) sc l := by
  refine Run.along_of_promised (I := fun sc => sc.Inv d ∧ NoZero sc.fs) (fun sc a h hp => ⟨h.1.step hidx hp.1, ?_⟩)
    (fun sc a h hp => h.1.decodes hidx hp.1 h.2) ⟨h, hzero⟩ (hroom.and hl)
  cases a with
  | op o => exact h.2.grows (h.1.tree.grows_step o) hp.2
  | read count =>
    obtain ⟨pos', rs, _, hstep, _⟩ := h.1.read hidx hp.1
    rw [hstep]
    exact h.2

end Scan

/-- The operations lead to the state. -/
def VfsState.Reached (s : VfsState) : Prop := ∃ l : List FsOp, l.foldl VfsState.step .init = s

theorem VfsState.Reached.tree {s : VfsState} (h : s.Reached) : s.Tree := by
  obtain ⟨l, rfl⟩ := h
  exact (Run.always_of_invariant (I := VfsState.Tree) (G := fun _ _ => True) (fun _ op h _ => h.step op) (fun _ h => h)
    init_tree Run.along_true).last

/-- Names have a zero byte only where a path had one. -/
theorem noZero_of_paths {l : List FsOp} (hl : Run.Along VfsState.step (fun _ o => 0 ∉ o.path) .init l) :
    Scan.NoZero (l.foldl VfsState.step .init) := by
  have hrun : Run.Always VfsState.step Scan.NoZero .init l :=
    Run.always_of_invariant (I := fun s => s.Tree ∧ Scan.NoZero s)
      (fun _ o h ho => ⟨h.1.step o, h.2.grows (h.1.grows_step o) ho⟩) (fun _ h => h.2) ⟨init_tree, Scan.noZero_init⟩ hl
  exact hrun.last

/-- After every call of a scan each entry that is there all along stands reported as it lies to the position, exactly
while none moves across the position before the next call; and then once when a call writes nothing. The records
decode to the entries. -/
theorem dir_scan_once {s : VfsState} (hs : s.Reached) {idx : BitVec 16} {d : NodeId} (hidx : nodeOf idx = some d)
    (hd : d.val < s.nextNode) (hdir : s.IsDir d) {ops : List ScanOp} {count : Nat}
    (hroom : Run.Along (Scan.step idx) (Scan.Roomy d) (.start s) (ops ++ [.read count])) :
    (∀ e, Run.Always (Scan.step idx) (fun sc => sc.fs.Has d e) (.start s) (ops ++ [.read count]) →
      (Run.Always (Scan.step idx) (Scan.Accounted d e) (.start s) (ops ++ [.read count]) ↔
        Run.Along (Scan.step idx) (Scan.Stays d e) (.start s) (ops ++ [.read count])) ∧
      (Run.Along (Scan.step idx) (Scan.Stays d e) (.start s) (ops ++ [.read count]) →
        ∀ sc, ops.foldl (Scan.step idx) (.start s) = sc →
          ∀ pos' rs, sc.fs.getdents idx sc.pos count = .ok (pos', 0, rs) →
            ((sc.step idx (.read count)).records.map Dirent.entry).count e = 1)) ∧
    (Scan.NoZero s → Run.Along (Scan.step idx) (fun _ a => a.Terminated) (.start s) (ops ++ [.read count]) →
      Run.Along (Scan.step idx) (Scan.Decodes idx d) (.start s) (ops ++ [.read count])) := by
  have hinv : (Scan.start s).Inv d := ⟨hs.tree, hd, hdir, List.nodup_nil⟩
  refine ⟨fun e hhas => ?_, fun hzero hl => hinv.decodes_run hidx hroom hzero hl⟩
  have hiff := hinv.accounted_run (e := e) hidx hroom rfl
  refine ⟨hiff, ?_⟩
  rintro hstays sc rfl pos' rs hdone
  have hinv' := (Run.along_of_promised (fun _ _ h hr => Scan.Inv.step h hidx hr) (fun _ _ h _ => h) hinv hroom).last
  obtain ⟨_, _, _, hstep, _⟩ := hinv'.read hidx hroom.last
  have hacc := (hiff.mpr hstays).last
  have hlast := hhas.last
  rw [List.foldl_append, List.foldl_cons, List.foldl_nil] at hacc hlast
  refine hinv'.reported_once hidx hroom.last hacc ?_ hdone
  rw [hstep] at hlast
  exact hlast

/-- `/b` and `/a`, in the order of the scan. -/
def twoFiles : VfsState := [.openPath [SLASH, 0x61] 0o102 0o644, .openPath [SLASH, 0x62] 0o102 0o644].foldl VfsState.step .init

/-- Three entries are read, the file goes, and the scan goes on. -/
def removeBetween (path : List Byte) : List ScanOp := [.read 72, .op (.unlink path 0)]

/-- Removing `/a`, which is not read yet, leaves `/b` reported once. -/
theorem dir_scan_once_behind :
    ((((removeBetween [SLASH, 0x61]).foldl (Scan.step 0) (.start twoFiles)).step 0 (.read 72)).records.map
      Dirent.entry).count (3, .file, [0x62]) = 1 :=
  ((@dir_scan_once twoFiles ⟨_, rfl⟩ 0 0 (by decide) (by decide +kernel)
      (show (twoFiles.nodes 0).kind = .dir by decide +kernel) (removeBetween [SLASH, 0x61]) 72
      (by decide +kernel)).1 (3, .file, [0x62])
    ⟨⟨2, by decide +kernel⟩, ⟨2, by decide +kernel⟩, ⟨2, by decide +kernel⟩, ⟨2, by decide +kernel⟩⟩).2
    (by decide +kernel) _ rfl 3 [] (by decide +kernel)

/-- Removing `/b`, which was read: `/a` is there all along, and the scan ends without it. -/
theorem read_and_remove_skips :
    Run.Along (Scan.step 0) (Scan.Roomy 0) (.start twoFiles) (removeBetween [SLASH, 0x62] ++ [.read 72]) ∧
      Run.Always (Scan.step 0) (fun sc => sc.fs.Has 0 (2, .file, [0x61])) (.start twoFiles)
        (removeBetween [SLASH, 0x62] ++ [.read 72]) ∧
      (((removeBetween [SLASH, 0x62]).foldl (Scan.step 0) (.start twoFiles)).fs.getdents 0 3 72 = .ok (3, 0, [])) ∧
      ((((removeBetween [SLASH, 0x62]).foldl (Scan.step 0) (.start twoFiles)).step 0 (.read 72)).records.map
        Dirent.entry).count (2, .file, [0x61]) = 0 :=
  ⟨by decide +kernel, ⟨⟨3, by decide +kernel⟩, ⟨3, by decide +kernel⟩, ⟨2, by decide +kernel⟩, ⟨2, by decide +kernel⟩⟩,
    by decide +kernel, by decide +kernel⟩

end Pyremu.Sittim
