import Pyremu.Sittim.FdTable

/-!
# Descriptions are counted exactly

Between two updates of a call a description may be owed one release. Everything
a call does to the targets and to the sockets is one of six moves.
-/

namespace Pyremu.Sittim

open Tally

namespace Tables

/-- A descriptor that refers to description `i`. -/
def refersTo (i : FdIndex) (entry : Option FdEntry) : Bool := decide (entry.map FdEntry.openFileIdx = some i)

def fileRefs : Option OpenFile → Nat
  | none => 0
  | some file => file.refs.toNat

variable (t : Tables)

/-- The number of descriptors that refer to a description. -/
def refCount (i : FdIndex) : Nat := tally (refersTo i) t.fds

def targetAt (i : FdIndex) : Option FdTarget := (t.openFiles i).map OpenFile.target

/-- A slot is occupied while descriptors refer to it, and counts them; so none refers to a free slot. -/
structure RefExact : Prop where
  occupied_iff : ∀ i, (t.openFiles i).isSome = true ↔ ∃ fd entry, t.fds fd = some entry ∧ entry.openFileIdx = i
  refs_eq : ∀ i file, t.openFiles i = some file → file.refs.toNat = t.refCount i

/-- The counts are right but for one release that is still to come. -/
structure Owing (o : Option FdIndex) : Prop where
  refs : ∀ i, fileRefs (t.openFiles i) = t.refCount i + if o = some i then 1 else 0
  used : ∀ {i file}, t.openFiles i = some file → file.refs ≠ 0

variable {t : Tables} {i j : FdIndex} {o : Option FdIndex} {entry : Option FdEntry} {file : OpenFile}

theorem refersTo_toNat : (refersTo i entry).toNat = if entry.map FdEntry.openFileIdx = some i then 1 else 0 := by
  rw [refersTo]
  by_cases h : entry.map FdEntry.openFileIdx = some i
  · rw [if_pos h, decide_eq_true h]
    rfl
  · rw [if_neg h, decide_eq_false h]
    rfl

theorem setFd_refCount (t : Tables) (j : FdIndex) (entry : Option FdEntry) (i : FdIndex) :
    (t.setFd j entry).refCount i + (if (t.fds j).map FdEntry.openFileIdx = some i then 1 else 0) =
      t.refCount i + if entry.map FdEntry.openFileIdx = some i then 1 else 0 := by
  have h := tally_update (refersTo i) t.fds j entry
  rwa [refersTo_toNat, refersTo_toNat] at h

theorem refCount_le : t.refCount i ≤ MAX_FD := by
  have h := Finset.card_le_univ (Finset.univ.filter fun fd => refersTo i (t.fds fd) = true)
  rwa [Fintype.card_fin] at h

theorem refCount_pos_iff : 0 < t.refCount i ↔ ∃ fd entry, t.fds fd = some entry ∧ entry.openFileIdx = i := by
  constructor
  · intro h
    obtain ⟨fd, hfd⟩ := exists_of_tally_pos h
    have hrefers := of_decide_eq_true hfd
    obtain ⟨entry, hentry, hidx⟩ := Option.map_eq_some_iff.mp hrefers
    exact ⟨fd, entry, hentry, hidx⟩
  · rintro ⟨fd, entry, hentry, hidx⟩
    apply tally_pos (i := fd)
    rw [refersTo, hentry, Option.map_some, hidx]
    exact decide_eq_true rfl

theorem setOpenFile_same {file : Option OpenFile} : (t.setOpenFile i file).openFiles i = file := Function.update_self ..

theorem setOpenFile_other {file : Option OpenFile} (h : j ≠ i) : (t.setOpenFile i file).openFiles j = t.openFiles j :=
  Function.update_of_ne h ..

/-! ## Counts -/

theorem Owing.refExact (h : t.Owing none) : t.RefExact := by
  have hrefs : ∀ i, fileRefs (t.openFiles i) = t.refCount i := fun i => h.refs i
  constructor
  · intro i
    rw [← refCount_pos_iff, ← hrefs]
    cases hfile : t.openFiles i with
    | none => exact iff_of_false Bool.false_ne_true (Nat.lt_irrefl 0)
    | some file =>
      have hne := h.used hfile
      refine iff_of_true rfl (Nat.pos_of_ne_zero fun hz => hne ?_)
      exact BitVec.eq_of_toNat_eq hz
  · intro i file hfile
    rw [← hrefs, hfile]
    rfl

/-- A description is replaced by one with as many references. -/
theorem Owing.store (h : t.Owing o) {file' : OpenFile} (hfile : t.openFiles i = some file)
    (hrefs : file'.refs = file.refs) : (t.setOpenFile i (some file')).Owing o := by
  constructor
  · intro k
    rw [show (t.setOpenFile i (some file')).refCount k = t.refCount k from rfl, ← h.refs k]
    by_cases hk : k = i
    · subst hk
      rw [setOpenFile_same, hfile, fileRefs, fileRefs, hrefs]
    · rw [setOpenFile_other hk]
  · intro k f hf
    by_cases hk : k = i
    · subst hk
      rw [setOpenFile_same] at hf
      obtain rfl := Option.some.inj hf
      rw [hrefs]
      exact h.used hfile
    · rw [setOpenFile_other hk] at hf
      exact h.used hf

/-- A descriptor turns to another description, which counts it; the one it leaves is owed a release. -/
theorem Owing.redirect (h : t.Owing none) (file' : OpenFile) (descFlags : BitVec 32)
    (hrefs : file'.refs.toNat = fileRefs (t.openFiles i) + 1) :
    ((t.setOpenFile i (some file')).setFd j (some ⟨i, descFlags⟩)).Owing ((t.fds j).map FdEntry.openFileIdx) := by
  have hfiles : ∀ k, ((t.setOpenFile i (some file')).setFd j (some ⟨i, descFlags⟩)).openFiles k =
      (t.setOpenFile i (some file')).openFiles k := fun _ => rfl
  constructor
  · intro k
    have hcount := setFd_refCount (t.setOpenFile i (some file')) j (some ⟨i, descFlags⟩) k
    have hold := h.refs k
    rw [if_neg (Option.some_ne_none k).symm] at hold
    rw [show (t.setOpenFile i (some file')).refCount k = t.refCount k from rfl,
      show (t.setOpenFile i (some file')).fds = t.fds from rfl, Option.map_some] at hcount
    rw [hfiles, hcount]
    by_cases hk : k = i
    · subst hk
      rw [setOpenFile_same, if_pos rfl, fileRefs, hrefs]
      omega
    · rw [setOpenFile_other hk, if_neg (fun heq => hk (Option.some.inj heq).symm)]
      exact hold
  · intro k f hf
    rw [hfiles] at hf
    by_cases hk : k = i
    · subst hk
      rw [setOpenFile_same] at hf
      obtain rfl := Option.some.inj hf
      intro hz
      rw [hz] at hrefs
      cases hrefs
    · rw [setOpenFile_other hk] at hf
      exact h.used hf

theorem Owing.clear (h : t.Owing none) : (t.setFd j none).Owing ((t.fds j).map FdEntry.openFileIdx) := by
  constructor
  · intro k
    have hcount := setFd_refCount t j none k
    have hold := h.refs k
    rw [if_neg (Option.some_ne_none k).symm] at hold
    rw [Option.map_none, if_neg (Option.some_ne_none k).symm] at hcount
    rw [hcount]
    exact hold
  · exact h.used

/-- The flags of a descriptor do not matter. -/
theorem Owing.setFd (h : t.Owing o) (hidx : entry.map FdEntry.openFileIdx = (t.fds j).map FdEntry.openFileIdx) :
    (t.setFd j entry).Owing o := by
  refine ⟨fun k => ?_, h.used⟩
  have hcount := setFd_refCount t j entry k
  rw [hidx] at hcount
  rw [Nat.add_right_cancel hcount]
  exact h.refs k

theorem refs_dec (h : file.refs ≠ 0) : (file.refs - 1).toNat + 1 = file.refs.toNat := by
  have hpos : 0 < file.refs.toNat := Nat.pos_of_ne_zero fun hz => h (BitVec.eq_of_toNat_eq hz)
  have hle : (1 : BitVec 16) ≤ file.refs := hpos
  rw [BitVec.toNat_sub_of_le hle]
  exact Nat.sub_add_cancel hpos

theorem Owing.releaseOne (h : t.Owing (some i)) : (t.releaseOne i).1.Owing none := by
  have hrefs := h.refs
  rw [Tables.releaseOne]
  cases hfile : t.openFiles i with
  | none =>
    have hi := hrefs i
    rw [hfile, if_pos rfl] at hi
    cases hi
  | some file =>
    have hdec := refs_dec (h.used hfile)
    have hi := hrefs i
    rw [hfile, if_pos rfl, fileRefs, ← hdec, Nat.add_right_cancel_iff] at hi
    have hother : ∀ {f : Option OpenFile} {k}, k ≠ i →
        fileRefs ((t.setOpenFile i f).openFiles k) = t.refCount k := by
      intro f k hk
      rw [setOpenFile_other hk, hrefs k, if_neg (fun heq => hk (Option.some.inj heq).symm)]
      rfl
    dsimp only
    split
    · rename_i hpos
      constructor
      · intro k
        by_cases hk : k = i
        · subst hk
          rw [setOpenFile_same]
          exact hi
        · exact hother hk
      · intro k f hf
        by_cases hk : k = i
        · subst hk
          rw [setOpenFile_same] at hf
          obtain rfl := Option.some.inj hf
          intro hz
          have hz : file.refs - 1 = 0 := hz
          rw [hz] at hpos
          exact absurd hpos (BitVec.lt_irrefl _)
        · rw [setOpenFile_other hk] at hf
          exact h.used hf
    · rename_i hzero
      have hz : (file.refs - 1).toNat = 0 := Nat.eq_zero_of_not_pos hzero
      constructor
      · intro k
        by_cases hk : k = i
        · subst hk
          rw [setOpenFile_same]
          show 0 = t.refCount k + 0
          rw [← hi, hz]
        · exact hother hk
      · intro k f hf
        by_cases hk : k = i
        · subst hk
          rw [setOpenFile_same] at hf
          cases hf
        · rw [setOpenFile_other hk] at hf
          exact h.used hf

/-! ## Lookups -/

theorem fdIndex_ofNat (i : FdIndex) : fdIndex (BitVec.ofNat 64 i.val) = some i := by
  have hi : (BitVec.ofNat 64 i.val).toNat = i.val := by
    rw [BitVec.toNat_ofNat]
    exact Nat.mod_eq_of_lt (i.isLt.trans (by decide))
  rw [fdIndex, dif_pos (by rw [hi]; exact i.isLt)]
  exact congrArg some (Fin.ext hi)

theorem takeFdSlotFrom_spec {start fd : Word} (h : t.takeFdSlotFrom start = some fd) :
    ∃ j, fdIndex fd = some j ∧ t.fds j = none := by
  obtain ⟨j, hj, rfl⟩ := Option.map_eq_some_iff.mp h
  have hfree := List.find?_some hj
  rw [Bool.and_eq_true, Option.isNone_iff_eq_none] at hfree
  exact ⟨j, fdIndex_ofNat j, hfree.1⟩

theorem takeOpenFileSlot_spec (h : t.takeOpenFileSlot = some i) : t.openFiles i = none := by
  rw [takeOpenFileSlot] at h
  have hfree := List.find?_some h
  rwa [Option.isNone_iff_eq_none] at hfree

theorem openFileOf_spec {fd : Word} (h : t.openFileOf fd = some (i, file)) :
    ∃ j entry, fdIndex fd = some j ∧ t.fds j = some entry ∧ entry.openFileIdx = i ∧ t.openFiles i = some file := by
  obtain ⟨entry, hslot, hmap⟩ := Option.bind_eq_some_iff.mp h
  obtain ⟨f, hf, heq⟩ := Option.map_eq_some_iff.mp hmap
  obtain ⟨rfl, rfl⟩ := Prod.mk.inj heq
  obtain ⟨j, hj, hentry⟩ := Option.bind_eq_some_iff.mp hslot
  exact ⟨j, entry, hj, hentry, rfl, hf⟩

theorem openFileOf_eq {fd : Word} {e : FdEntry} (hj : fdIndex fd = some j) (hfd : t.fds j = some e)
    (hfile : t.openFiles e.openFileIdx = some file) : t.openFileOf fd = some (e.openFileIdx, file) := by
  rw [openFileOf, fdSlot, hj, Option.bind_some, hfd, Option.bind_some, hfile]
  rfl

/-- With exact counts no descriptor refers to a free slot. -/
theorem Owing.openFile_of_fd (h : t.Owing none) {e : FdEntry} (hfd : t.fds j = some e) :
    ∃ file, t.openFiles e.openFileIdx = some file :=
  Option.isSome_iff_exists.mp ((h.refExact.occupied_iff e.openFileIdx).mpr ⟨j, e, hfd, rfl⟩)

theorem Owing.fdOpenFileIdx (h : t.Owing none) {fd : Word} (hj : fdIndex fd = some j) :
    t.fdOpenFileIdx fd = (t.fds j).map FdEntry.openFileIdx := by
  rw [Tables.fdOpenFileIdx]
  cases hfd : t.fds j with
  | none =>
    rw [openFileOf, fdSlot, hj, Option.bind_some, hfd]
    rfl
  | some e =>
    obtain ⟨file, hfile⟩ := h.openFile_of_fd hfd
    rw [openFileOf_eq hj hfd hfile]
    rfl

/-! ## Targets -/

theorem targetAt_setOpenFile (i : FdIndex) (file : Option OpenFile) :
    (t.setOpenFile i file).targetAt = Function.update t.targetAt i (file.map OpenFile.target) := by
  funext k
  rw [targetAt]
  by_cases hk : k = i
  · subst hk
    rw [setOpenFile_same, Function.update_self]
  · rw [setOpenFile_other hk, Function.update_of_ne hk]
    rfl

theorem targetAt_setOpenFile_same {file' : OpenFile} (hfile : t.openFiles i = some file)
    (ht : file'.target = file.target) : (t.setOpenFile i (some file')).targetAt = t.targetAt := by
  have hi : t.targetAt i = some file'.target := by
    rw [targetAt, hfile, ht]
    rfl
  rw [targetAt_setOpenFile, Option.map_some, ← hi]
  exact Function.update_eq_self i t.targetAt

theorem Owing.dupAt (h : t.Owing none) {fd : Word} (hj : fdIndex fd = some j) (hfile : t.openFiles i = some file)
    (descFlags : BitVec 32) :
    (t.dupAt fd i file descFlags).Owing ((t.fds j).map FdEntry.openFileIdx) ∧
      (t.dupAt fd i file descFlags).targetAt = t.targetAt := by
  rw [Tables.dupAt, hj]
  constructor
  · apply h.redirect
    have hle : file.refs.toNat ≤ MAX_FD := by
      rw [h.refExact.refs_eq i file hfile]
      exact refCount_le
    rw [hfile, fileRefs, BitVec.toNat_add]
    exact Nat.mod_eq_of_lt (Nat.lt_of_le_of_lt (Nat.add_le_add_right hle 1) (by decide))
  · exact targetAt_setOpenFile_same hfile rfl

/-- A release leaves the targets alone, or frees the slot and reports the target it had. -/
theorem releaseOne_target (hfile : t.openFiles i = some file) :
    ((t.releaseOne i).2 = .retained ∧ (t.releaseOne i).1.targetAt = t.targetAt) ∨
      ((t.releaseOne i).2 = .released file.target ∧
        (t.releaseOne i).1.targetAt = Function.update t.targetAt i none) := by
  rw [releaseOne, hfile]
  dsimp only
  split
  · exact .inl ⟨rfl, targetAt_setOpenFile_same hfile rfl⟩
  · exact .inr ⟨rfl, targetAt_setOpenFile i none⟩

/-- A free description is bound to a free descriptor, or nothing changes. -/
theorem Owing.installFd (h : t.Owing none) {fd : Word} (hj : fdIndex fd = some j) (hfree : t.fds j = none)
    (target : FdTarget) (flags descFlags : BitVec 32) :
    t.installFd fd target flags descFlags = (t, false) ∨
      ∃ t' i, t.installFd fd target flags descFlags = (t', true) ∧ t'.Owing none ∧ t.targetAt i = none ∧
        t'.targetAt = Function.update t.targetAt i (some target) := by
  rw [Tables.installFd, hj]
  cases hslot : t.takeOpenFileSlot with
  | none => exact .inl rfl
  | some i =>
    have hnone := takeOpenFileSlot_spec hslot
    refine .inr ⟨_, i, rfl, ?_, ?_, targetAt_setOpenFile i _⟩
    · have hone : (1 : BitVec 16).toNat = fileRefs (t.openFiles i) + 1 := by
        rw [hnone]
        rfl
      have hred := h.redirect (j := j) ⟨target, 0, flags, 1⟩ (descFlags &&& FD_FLAG_MASK) hone
      rwa [hfree] at hred
    · rw [targetAt, hnone]
      rfl

theorem Owing.allocFd (h : t.Owing none) (target : FdTarget) (flags descFlags : BitVec 32) :
    t.allocFd target flags descFlags = (t, .error EMFILE) ∨
      ∃ t' fd i, t.allocFd target flags descFlags = (t', .ok fd) ∧ t'.Owing none ∧ t.targetAt i = none ∧
        t'.targetAt = Function.update t.targetAt i (some target) := by
  rw [Tables.allocFd]
  cases htake : t.takeFdSlot with
  | none => exact .inl rfl
  | some fd =>
    obtain ⟨j, hj, hfree⟩ := takeFdSlotFrom_spec htake
    dsimp only
    rcases h.installFd hj hfree target flags descFlags with heq | ⟨t', i, heq, hrest⟩
    · rw [heq]
      exact .inl rfl
    · rw [heq]
      exact .inr ⟨t', fd, i, rfl, hrest⟩

end Tables

end Pyremu.Sittim
