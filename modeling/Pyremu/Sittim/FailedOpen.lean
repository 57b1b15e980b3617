import Pyremu.Sittim.Mount
import Pyremu.Sittim.FdExact
import Pyremu.Sittim.RamfsFiles
import Pyremu.Sittim.RamfsPath

/-!
# Opens that fail

An open creates and truncates before it is over. A directory that was created
for writing is refused only then, and so is a file when no descriptor is left
for it.
-/

namespace Pyremu.Sittim

namespace VfsState

/-- The nodes in use are linked as they were, and the files have their sizes and bytes. -/
structure SameFiles (s s' : VfsState) : Prop where
  tree : ∀ n, n.val < s.nextNode → (s'.nodes n).kind = (s.nodes n).kind ∧ (s'.nodes n).name = (s.nodes n).name ∧
    (s'.nodes n).parent = (s.nodes n).parent ∧ (s'.nodes n).firstChild = (s.nodes n).firstChild ∧
    (s'.nodes n).nextSibling = (s.nodes n).nextSibling
  size : ∀ n, n.val < s.nextNode → (s'.nodes n).size = (s.nodes n).size
  contents : s'.contents = s.contents

variable (s : VfsState) (path : List Byte) (flags : BitVec 32)

/-- The last name of the path is missing and is to be created, and there is a node for it. -/
def Creates : Prop :=
  ∃ dir name, s.splitTarget path = .ok (.child dir name) ∧ s.findChild dir name = none ∧ flags &&& O_CREAT ≠ 0 ∧
    s.nextNode < MAX_NODES

/-- The path names a file that is not empty, and is opened to be emptied. -/
def Empties : Prop :=
  ∃ dir name n, s.splitTarget path = .ok (.child dir name) ∧ s.findChild dir name = some n ∧
    ¬ (flags &&& O_CREAT ≠ 0 ∧ flags &&& O_EXCL ≠ 0) ∧ flags &&& O_DIRECTORY = 0 ∧
    truncates flags (s.nodes n) = true ∧ (s.nodes n).size ≠ 0

/-- `open` changes nothing when it fails. -/
def OpenKeeps (mode : BitVec 32) : Prop :=
  ∀ e, (s.openPath path flags mode).2 = .error e → s.SameFiles (s.openPath path flags mode).1

end VfsState

/-- A directory, and access to write to it. -/
def DirForWriting (flags : BitVec 32) : Prop := flags &&& O_DIRECTORY ≠ 0 ∧ modeWritable flags = true

namespace VfsState

variable {s s' : VfsState} {path : List Byte} {flags mode : BitVec 32}

theorem SameFiles.refl (s : VfsState) : SameFiles s s := ⟨fun _ _ => ⟨rfl, rfl, rfl, rfl, rfl⟩, fun _ _ => rfl, rfl⟩

/-! ## What an open does -/

/-- Without a node to create the tree stays, and so does everything when the open fails. -/
theorem openNode_kept (h : ¬ s.Creates path flags) : (s.openNode path flags mode).1 = s := by
  rw [openNode]
  split
  · rfl
  · split <;> rfl
  · rename_i dir name ht
    split
    · rename_i hfree
      split
      · rfl
      · rename_i hcreat
        have hfull : ¬ s.nextNode < MAX_NODES := fun hlt => h ⟨dir, name, ht, hfree, hcreat, hlt⟩
        rw [createChild, allocNode, dif_neg hfull]
    · split <;> rfl

theorem openPath_of_error {e : VfsStatus} (h : s.openNode path flags mode = (s', .error e)) :
    s.openPath path flags mode = (s', .error e) := by
  rw [openPath, h]

theorem openPath_of_node {n : NodeId} (h : s.openNode path flags mode = (s', .ok n)) :
    s.openPath path flags mode =
      if (s'.nodes n).kind = .dir ∧ modeWritable flags = true then (s', .error .isDir)
      else if (s'.nodes n).kind ≠ .dir ∧ flags &&& O_DIRECTORY ≠ 0 then (s', .error .notDir)
      else if truncates flags (s'.nodes n) then (s'.truncateNode n 0, .ok n)
      else (s', .ok n) := by
  rw [openPath, h]

theorem openPath_error_kept (h : ¬ s.Creates path flags) {e : VfsStatus}
    (he : (s.openPath path flags mode).2 = .error e) : (s.openPath path flags mode).1 = s := by
  have hnode : (s.openNode path flags mode).1 = s := openNode_kept h
  cases hopen : s.openNode path flags mode with
  | mk s₁ r =>
    rw [hopen] at hnode
    cases r with
    | error e' =>
      rw [openPath_of_error hopen]
      exact hnode
    | ok n =>
      rw [openPath_of_node hopen] at he ⊢
      split
      · exact hnode
      · rename_i hdir
        rw [if_neg hdir] at he
        split
        · exact hnode
        · rename_i hnot
          rw [if_neg hnot] at he
          split at he <;> cases he

theorem splitTarget_dir {d : NodeId} {name : List Byte} (h : s.splitTarget path = .ok (.dir d name)) :
    (s.nodes d).kind = .dir := by
  rw [splitTarget] at h
  split at h
  · cases h
  split at h
  · cases h
  split at h
  · cases h
  · rename_i hdir
    split at h
    · cases h
      rw [asDir] at hdir
      split at hdir
      · cases hdir
      · rename_i hkind
        cases hdir
        exact not_not.mp hkind
    · cases h

/-- What is found is a directory, or the child of the last name. -/
theorem openNode_found (h : ¬ s.Creates path flags) {n : NodeId} (hn : s.openNode path flags mode = (s', .ok n)) :
    (s.nodes n).kind = .dir ∨ ∃ dir name, s.splitTarget path = .ok (.child dir name) ∧ s.findChild dir name = some n ∧
      ¬ (flags &&& O_CREAT ≠ 0 ∧ flags &&& O_EXCL ≠ 0) := by
  rw [openNode] at hn
  split at hn
  · cases hn
  · rename_i hsplit
    split at hn
    · cases hn
    · cases hn
      exact .inl (splitTarget_dir hsplit)
  · rename_i dir name hsplit
    split at hn
    · rename_i hfree
      split at hn
      · cases hn
      · rename_i hcreat
        have hfull : ¬ s.nextNode < MAX_NODES := fun hlt => h ⟨dir, name, hsplit, hfree, hcreat, hlt⟩
        rw [createChild, allocNode, dif_neg hfull] at hn
        cases hn
    · rename_i hfound
      split at hn
      · cases hn
      · rename_i hexcl
        cases hn
        exact .inr ⟨dir, name, hsplit, hfound, hexcl⟩

/-- A file of no bytes has none to lose. -/
theorem truncateNode_empty {n : NodeId} (h : (s.nodes n).size = 0) : s.truncateNode n 0 = s :=
  if_neg (by rw [h]; exact Nat.lt_irrefl 0)

/-- A directory is never emptied, nor is what is opened as one. -/
theorem openPath_ok_kept (h : ¬ s.Creates path flags) (hempty : ¬ s.Empties path flags) {n : NodeId}
    (hn : (s.openPath path flags mode).2 = .ok n) : (s.openPath path flags mode).1 = s := by
  have hnode : (s.openNode path flags mode).1 = s := openNode_kept h
  cases hopen : s.openNode path flags mode with
  | mk s₁ r =>
    rw [hopen] at hnode
    dsimp only at hnode
    subst hnode
    cases r with
    | error e =>
      rw [openPath_of_error hopen]
    | ok m =>
      rw [openPath_of_node hopen]
      split
      · rfl
      split
      · rfl
      · rename_i hnot
        split
        · rename_i htrunc
          have hfile := truncates_file htrunc
          have hne : (s₁.nodes m).kind ≠ .dir := by
            rw [hfile]
            decide
          rcases openNode_found h hopen with hdir | ⟨dir, name, hsplit, hfound, hexcl⟩
          · exact absurd hdir hne
          · apply truncateNode_empty
            by_contra hsize
            have hdirectory : flags &&& O_DIRECTORY = 0 := by
              by_contra hd
              exact hnot ⟨hne, hd⟩
            exact hempty ⟨dir, name, m, hsplit, hfound, hexcl, hdirectory, htrunc, hsize⟩
        · rfl

/-- The new node is linked under the directory, so it is none of the nodes that were there. -/
theorem Created.not_sameFiles {d new : NodeId} {name : List Byte} (ht : s.Tree) (hd : d.val < s.nextNode)
    (hc : Created s s' d new name) : ¬ s.SameFiles s' := by
  intro hsame
  have hfirst := (hsame.tree d hd).2.2.2.1
  rw [hc.firstChild d, if_pos rfl] at hfirst
  obtain ⟨l, hl⟩ := ht.kids d hd
  have hchain := hl.chain
  rw [Children, ← hfirst] at hchain
  cases hchain with
  | cons _ =>
    have hlt := (hl.link new (List.mem_cons_self ..)).1
    rw [hc.index] at hlt
    exact Nat.lt_irrefl _ hlt

theorem createChild_kind {d new : NodeId} {name : List Byte} {kind : VfsKind} (hd : d.val < s.nextNode)
    (h : s.createChild d name kind mode = (s', some new)) : (s'.nodes new).kind = kind := by
  rw [createChild, allocNode] at h
  split at h
  · cases h
  · rename_i hnode
    split at hnode
    · rename_i hlt
      cases hnode
      cases h
      have hne : (⟨s.nextNode, hlt⟩ : NodeId) ≠ d := by
        rintro rfl
        exact Nat.lt_irrefl _ hd
      simp [linkChild, setNode, Function.update_of_ne hne]
    · cases hnode

/-- The open of a missing name creates it; a directory for writing is then refused, and all else is opened. -/
theorem openPath_creates (hs : s.Fresh) (ht : s.Tree) (h : s.Creates path flags) (mode : BitVec 32) :
    ∃ s' d new name, Created s s' d new name ∧ d.val < s.nextNode ∧
      ((DirForWriting flags ∧ s.openPath path flags mode = (s', .error .isDir)) ∨
        (¬ DirForWriting flags ∧ s.openPath path flags mode = (s', .ok new))) := by
  obtain ⟨d, name, hsplit, hfree, hcreat, hlt⟩ := h
  have hd := (ht.splitTarget hsplit).1
  have hquiet := hs.quiet_createChild d name (if flags &&& O_DIRECTORY ≠ 0 then .dir else .file) mode
  rcases createChild_cases hd name (if flags &&& O_DIRECTORY ≠ 0 then .dir else .file) mode with hnone | ⟨s', new, hmade, hc⟩
  · rw [createChild, allocNode, dif_pos hlt] at hnone
    have hsome := congrArg Prod.snd hnone
    cases hsome
  · have hkind := createChild_kind hd hmade
    rw [hmade] at hquiet
    have hsize : (s'.nodes new).size = 0 := (hquiet.size new).trans (hs new hc.index.ge).2
    have hopen : s.openNode path flags mode = (s', .ok new) := by
      rw [openNode, hsplit]
      dsimp only
      rw [hfree]
      dsimp only
      rw [if_neg hcreat, hmade]
    refine ⟨s', d, new, name, hc, hd, ?_⟩
    rw [openPath_of_node hopen, truncateNode_empty hsize, ite_self]
    by_cases hdir : flags &&& O_DIRECTORY ≠ 0
    · rw [if_pos hdir] at hkind
      by_cases hw : modeWritable flags = true
      · exact .inl ⟨⟨hdir, hw⟩, if_pos ⟨hkind, hw⟩⟩
      · refine .inr ⟨fun h => hw h.2, ?_⟩
        rw [if_neg fun h => hw h.2, if_neg fun h => h.1 hkind]
    · rw [if_neg hdir] at hkind
      refine .inr ⟨fun h => hdir h.1, ?_⟩
      rw [hkind, if_neg (by rintro ⟨h, _⟩; cases h), if_neg fun h => hdir h.2]

/-- An open that empties a file succeeds. -/
theorem openPath_empties (h : s.Empties path flags) (mode : BitVec 32) :
    ∃ n, s.openPath path flags mode = (s.truncateNode n 0, .ok n) ∧ ¬ s.SameFiles (s.truncateNode n 0) := by
  obtain ⟨dir, name, n, hsplit, hfound, hexcl, hdirectory, htrunc, hsize⟩ := h
  have hfile := truncates_file htrunc
  have hopen : s.openNode path flags mode = (s, .ok n) := by
    rw [openNode, hsplit]
    dsimp only
    rw [hfound]
    dsimp only
    rw [if_neg hexcl]
  refine ⟨n, ?_, fun hsame => hsize ?_⟩
  · rw [openPath_of_node hopen, hfile, if_neg (by rintro ⟨h, _⟩; cases h), if_neg fun h => h.2 hdirectory,
      if_pos htrunc]
  · have hlength := congrArg (fun f => (f n).length) hsame.contents
    beta_reduce at hlength
    rw [contents_length, contents_length, truncateNode, if_pos (Nat.pos_of_ne_zero hsize), setNode_same] at hlength
    exact hlength.symm

/-- `open` leaves everything as it is when it fails, exactly when it does not create a directory for writing. -/
theorem openKeeps_iff (hs : s.Fresh) (ht : s.Tree) :
    s.OpenKeeps path flags mode ↔ ¬ (s.Creates path flags ∧ DirForWriting flags) := by
  constructor
  · rintro hkeeps ⟨hcreates, hdir⟩
    obtain ⟨s', d, new, name, hc, hd, ⟨_, heq⟩ | ⟨hno, _⟩⟩ := openPath_creates hs ht hcreates mode
    · rw [OpenKeeps, heq] at hkeeps
      exact hc.not_sameFiles ht hd (hkeeps _ rfl)
    · exact hno hdir
  · intro h e he
    by_cases hcreates : s.Creates path flags
    · obtain ⟨s', d, new, name, _, _, ⟨hdir, _⟩ | ⟨_, heq⟩⟩ := openPath_creates hs ht hcreates mode
      · exact absurd ⟨hcreates, hdir⟩ h
      · rw [heq] at he
        cases he
    · rw [openPath_error_kept hcreates he]
      exact SameFiles.refl s

/-- Where it succeeds, nothing changes unless a node is created or a file is emptied. -/
theorem openPath_ok_sameFiles_iff (hs : s.Fresh) (ht : s.Tree) {n : NodeId}
    (hn : (s.openPath path flags mode).2 = .ok n) :
    s.SameFiles (s.openPath path flags mode).1 ↔ ¬ s.Creates path flags ∧ ¬ s.Empties path flags := by
  constructor
  · intro hsame
    constructor
    · intro hcreates
      obtain ⟨s', d, new, name, hc, hd, ⟨_, heq⟩ | ⟨_, heq⟩⟩ := openPath_creates hs ht hcreates mode
      · rw [heq] at hn
        cases hn
      · rw [heq] at hsame
        exact hc.not_sameFiles ht hd hsame
    · intro hempties
      obtain ⟨m, heq, hno⟩ := openPath_empties hempties mode
      rw [heq] at hsame
      exact hno hsame
  · rintro ⟨hcreates, hempties⟩
    rw [openPath_ok_kept hcreates hempties hn]
    exact SameFiles.refl s

end VfsState

/-! ## Descriptors -/

/-- There is no descriptor or no description left. -/
def Tables.Full (t : Tables) : Prop := t.takeFdSlot = none ∨ t.takeOpenFileSlot = none

theorem Tables.allocFd_full {t : Tables} (h : t.Full) (target : FdTarget) (flags descFlags : BitVec 32) :
    t.allocFd target flags descFlags = (t, .error EMFILE) := by
  rw [Tables.allocFd]
  cases htake : t.takeFdSlot with
  | none => rfl
  | some fd =>
    have hslot : t.takeOpenFileSlot = none := by
      rcases h with h | h
      · rw [htake] at h
        cases h
      · exact h
    obtain ⟨j, hj, _⟩ := takeFdSlotFrom_spec htake
    dsimp only
    rw [installFd, hj]
    dsimp only
    rw [hslot]

theorem Tables.allocFd_ok {t : Tables} (h : ¬ t.Full) (target : FdTarget) (flags descFlags : BitVec 32) :
    ∃ t' fd, t.allocFd target flags descFlags = (t', .ok fd) := by
  rw [Full, not_or] at h
  obtain ⟨fd, hfd⟩ := Option.ne_none_iff_exists'.mp h.1
  obtain ⟨i, hi⟩ := Option.ne_none_iff_exists'.mp h.2
  obtain ⟨j, hj, _⟩ := takeFdSlotFrom_spec hfd
  rw [Tables.allocFd, hfd]
  dsimp only
  rw [installFd, hj]
  dsimp only
  rw [hi]
  exact ⟨_, fd, rfl⟩

/-- `openat` changes nothing when it fails. -/
def OpenatKeeps (s : VfsState) (f : Files) (ans : Answers) (a : OpenCall) : Prop :=
  ∀ e, (openatHandler s f ans a).2 = .error e →
    s.SameFiles (openatHandler s f ans a).1.1 ∧ (openatHandler s f ans a).1.2.tables = f.tables

section Openat

variable {s : VfsState} {f : Files} {ans : Answers} {a : OpenCall}

theorem openatHandler_of_opened {s' : VfsState} {opened : Except Word (FileSystem × BitVec 16)}
    (h : a.opened s = (s', opened)) :
    openatHandler s f ans a =
      ((s', (f.openatHandler { ans with opened := opened } a.flags).1),
        (f.openatHandler { ans with opened := opened } a.flags).2) := by
  rw [openatHandler, h]

theorem openatKeeps_of_error {s' : VfsState} {e : Word} (h : a.opened s = (s', .error e)) :
    OpenatKeeps s f ans a ↔ s.SameFiles s' := by
  rw [OpenatKeeps, openatHandler_of_opened h]
  simp [Files.openatHandler]

/-- A descriptor is all that can be missing for a node that was opened. -/
theorem openatKeeps_of_ok {s' : VfsState} {p : FileSystem × BitVec 16} (h : a.opened s = (s', .ok p)) :
    OpenatKeeps s f ans a ↔ (f.tables.Full → s.SameFiles s') := by
  rw [OpenatKeeps, openatHandler_of_opened h]
  dsimp only [Files.openatHandler]
  by_cases hfull : f.tables.Full
  · rw [Tables.allocFd_full hfull]
    simp [hfull, Files.setTables]
  · obtain ⟨t', fd, hok⟩ := Tables.allocFd_ok hfull (.vfs p.1 p.2) (a.flags.setWidth 32 &&& ~~~OPEN_ONLY_FLAGS)
      (a.flags.setWidth 32 &&& FD_FLAG_MASK)
    rw [hok]
    simp [hfull]

theorem opened_of_rootfs {sub : List Byte} (h : a.resolved = .ok (.rootfs, sub)) :
    a.opened s =
      match s.openPath sub (a.flags.setWidth 32) ((a.mode &&& 0o777).setWidth 32) with
      | (s', .ok node) => (s', .ok (.rootfs, BitVec.ofNat 16 node.val))
      | (s', .error e) => (s', .error (vfsErrno e)) := by
  rw [OpenCall.opened, h]
  dsimp only [fsOpen]
  cases s.openPath sub (a.flags.setWidth 32) ((a.mode &&& 0o777).setWidth 32) with
  | mk s' r =>
    cases r with
    | error e => rfl
    | ok node => rfl

/-- Only the file system in memory is changed by an open. -/
theorem opened_kept (h : ∀ sub, a.resolved ≠ .ok (.rootfs, sub)) : (a.opened s).1 = s := by
  rw [OpenCall.opened]
  cases hr : a.resolved with
  | error e => rfl
  | ok p =>
    obtain ⟨fs, sub⟩ := p
    cases fs with
    | rootfs => exact absurd hr (h sub)
    | sysfs =>
      dsimp only [fsOpen]
      cases Sysfs.openPath Sysfs.init sub (a.flags.setWidth 32) with
      | error e => rfl
      | ok node => rfl

/-- `openat` leaves everything as it is when it fails, exactly when it does not create a directory for writing in
the file system in memory, nor creates or empties anything there with no descriptor left. -/
theorem openatKeeps_iff (hs : s.Fresh) (ht : s.Tree) :
    OpenatKeeps s f ans a ↔ ∀ sub, a.resolved = .ok (.rootfs, sub) →
      ¬ (s.Creates sub (a.flags.setWidth 32) ∧ DirForWriting (a.flags.setWidth 32)) ∧
        (f.tables.Full → ¬ s.Creates sub (a.flags.setWidth 32) ∧ ¬ s.Empties sub (a.flags.setWidth 32)) := by
  by_cases hroot : ∃ sub, a.resolved = .ok (.rootfs, sub)
  · obtain ⟨sub, hsub⟩ := hroot
    have hone : ∀ P : List Byte → Prop, (∀ sub', a.resolved = .ok (.rootfs, sub') → P sub') ↔ P sub := by
      intro P
      constructor
      · intro h
        exact h sub hsub
      · intro h sub' hsub'
        rw [hsub] at hsub'
        cases hsub'
        exact h
    rw [hone]
    have hopened := opened_of_rootfs (s := s) hsub
    have hiff := @VfsState.openKeeps_iff s sub (a.flags.setWidth 32) ((a.mode &&& 0o777).setWidth 32) hs ht
    cases hr : s.openPath sub (a.flags.setWidth 32) ((a.mode &&& 0o777).setWidth 32) with
    | mk s' r =>
      rw [hr] at hopened
      cases r with
      | error e =>
        rw [openatKeeps_of_error hopened]
        rw [VfsState.OpenKeeps, hr] at hiff
        have hempties : ¬ s.Empties sub (a.flags.setWidth 32) := by
          intro h
          obtain ⟨n, heq, _⟩ := VfsState.openPath_empties h ((a.mode &&& 0o777).setWidth 32)
          rw [heq] at hr
          cases hr
        have hdir : s.Creates sub (a.flags.setWidth 32) → DirForWriting (a.flags.setWidth 32) := by
          intro h
          obtain ⟨_, _, _, _, _, _, ⟨hdir, _⟩ | ⟨_, heq⟩⟩ :=
            VfsState.openPath_creates hs ht h ((a.mode &&& 0o777).setWidth 32)
          · exact hdir
          · rw [heq] at hr
            cases hr
        constructor
        · intro hsame
          have hno := hiff.mp fun _ _ => hsame
          exact ⟨hno, fun _ => ⟨fun hcreates => hno ⟨hcreates, hdir hcreates⟩, hempties⟩⟩
        · rintro ⟨hno, _⟩
          exact hiff.mpr hno e rfl
      | ok n =>
        have hsame := @VfsState.openPath_ok_sameFiles_iff s sub (a.flags.setWidth 32)
          ((a.mode &&& 0o777).setWidth 32) hs ht n (by rw [hr])
        rw [hr] at hsame
        rw [openatKeeps_of_ok hopened, hsame]
        refine ⟨fun h => ⟨?_, h⟩, fun h => h.2⟩
        rintro ⟨hcreates, hdir⟩
        obtain ⟨_, _, _, _, _, _, ⟨_, heq⟩ | ⟨hno, _⟩⟩ :=
          VfsState.openPath_creates hs ht hcreates ((a.mode &&& 0o777).setWidth 32)
        · rw [heq] at hr
          cases hr
        · exact hno hdir
  · have hkept := opened_kept (s := s) fun sub h => hroot ⟨sub, h⟩
    constructor
    · intro _ sub h
      exact absurd ⟨sub, h⟩ hroot
    · intro _
      cases hopened : a.opened s with
      | mk s' opened =>
        rw [hopened] at hkept
        dsimp only at hkept
        subst hkept
        cases opened with
        | error e => exact (openatKeeps_of_error hopened).mpr (VfsState.SameFiles.refl _)
        | ok p => exact (openatKeeps_of_ok hopened).mpr fun _ => VfsState.SameFiles.refl _

end Openat

/-! ## Over every run -/

/-- In every state that the operations reach, a failed open changes nothing: `open` unless it creates a directory for
writing, `openat` unless that happens or it creates or empties with no descriptor left. -/
theorem failed_open_keeps_iff (l : List FsOp) :
    Run.Always VfsState.step (fun s =>
      (∀ path flags mode, s.OpenKeeps path flags mode ↔ ¬ (s.Creates path flags ∧ DirForWriting flags)) ∧
        ∀ f ans a, OpenatKeeps s f ans a ↔ ∀ sub, a.resolved = .ok (.rootfs, sub) →
          ¬ (s.Creates sub (a.flags.setWidth 32) ∧ DirForWriting (a.flags.setWidth 32)) ∧
            (f.tables.Full → ¬ s.Creates sub (a.flags.setWidth 32) ∧ ¬ s.Empties sub (a.flags.setWidth 32)))
      VfsState.init l :=
  Run.always_of_invariant (I := fun s => s.Fresh ∧ s.Tree) (G := fun _ _ => True)
    (fun _ op h _ => ⟨h.1.step op, h.2.step op⟩)
    (fun _ h => ⟨fun _ _ _ => VfsState.openKeeps_iff h.1 h.2, fun _ _ _ => openatKeeps_iff h.1 h.2⟩)
    ⟨VfsState.init_inv.fresh, VfsState.init_tree⟩ Run.along_true

/-- `/d` to create. -/
def openDir (flags : Word) : OpenCall where
  rootOps := .ok ()
  mem := fun va => if va = 0x1000 then SLASH else if va = 0x1001 then 0x64 else 0
  dirfd := AT_FDCWD
  pathname := 0x1000
  flags := flags
  mode := 0o644

/-- The answers to the calls of `everyFd`: the root of `/sys` is opened. -/
def openSys : Answers := ⟨.ok (.sysfs, 0), fun _ => .ok (), .ok 0, none, .error EINVAL⟩

/-- As many opens as there are descriptors. -/
def everyFd : List (FdCall × Answers) := List.replicate MAX_FD (.openat 0, openSys)

/-- `open("/d", O_CREAT | O_DIRECTORY | O_RDWR)` fails and leaves the directory behind, and
`open("/d", O_CREAT | O_RDWR)` with every descriptor taken the file. -/
theorem open_leaves_directory :
    ¬ VfsState.init.OpenKeeps [SLASH, 0x64] 0o200102 0o644 ∧
      ¬ OpenatKeeps VfsState.init (everyFd.foldl Files.step .init) openSys (openDir 0o102) := by
  constructor
  · intro h
    have hsame := h .isDir (by decide +kernel)
    exact absurd (hsame.tree 0 (by decide)).2.2.2.1 (by decide +kernel)
  · intro h
    have hsame := (h EMFILE (by decide +kernel)).1
    exact absurd (hsame.tree 0 (by decide)).2.2.2.1 (by decide +kernel)

end Pyremu.Sittim
