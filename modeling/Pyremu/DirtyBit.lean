import Pyremu.Transparency

/-!
# Dirty bits

After a write has been translated the leaf of its page should carry A and D. A
walk to a 4 KiB leaf sets both. An answer from the TLB sets nothing, and the walk
to a 2 MiB leaf loses D when it also had to set A: the second compare-exchange
still expects the entry as it was before the first.
-/

namespace Pyremu

open ByteMem

/-- A write of an Sv39 address that is translated. -/
def WriteServed (cfg : Features) (w : World) (va : Word) : Prop :=
  w.hart.Translates ∧ ∃ r, (w.translate cfg va .write).2 = .ok r

/-- The leaf that maps `va` has A and D set. -/
def World.LeafDirty (w : World) (va : Word) : Prop :=
  ∃ l, leafOf w.mem w.hart.satp va = some l ∧
    readPte w.mem l.addr ||| (Pte.A ||| Pte.D) = readPte w.mem l.addr

/-- Every write that is translated leaves its page dirty. -/
def DirtyComplete (cfg : Features) (w : World) : TlbOp → Prop
  | .translate va .write => WriteServed cfg w va → (w.translate cfg va .write).1.LeafDirty va
  | _ => True

/-- The page is dirty already, or it is walked to and is not a 2 MiB page with A clear. -/
def PageLeaf.DirtyOrWalked (cfg : Features) (w : World) (va : Word) (l : PageLeaf) : Prop :=
  l.Dirty w.mem ∨ tlbHit cfg w.hart va .write = none ∧
    (l.level = 0 ∨ readPte w.mem l.addr ||| Pte.A = readPte w.mem l.addr)

/-- Every write that is translated goes to such a page. -/
def DirtyReached (cfg : Features) (w : World) : TlbOp → Prop
  | .translate va .write => WriteServed cfg w va →
      ∀ l, leafOf w.mem w.hart.satp va = some l → l.DirtyOrWalked cfg w va
  | _ => True

section Step

variable {cfg : Features} {w : World} {s : HartState} {c : WalkCtx} {p : PmpCtx} {va : Word} {rwx : Rwx}
  {m : Mode} {l : PageLeaf} {r : TranslateResult}

theorem walkAnswer_ok (h : walkAnswer s c va rwx p m = .ok r) :
    ∃ c', sv39Walk c s p s.satp va rwx = (c', .ok (some r)) := by
  simp only [walkAnswer] at h
  rcases heq : sv39Walk c s p s.satp va rwx with ⟨c', e | _ | r'⟩ <;> rw [heq] at h
  · cases h
  · cases h
  · simp only [permChecked] at h
    split at h
    · cases h
      exact ⟨c', rfl⟩
    · cases h

/-- With A set on the path a leaf is dirty exactly when D is set. -/
theorem PageLeaf.Accessed.leafDirty (hA : l.Accessed w.mem)
    (hl : leafOf w.mem w.hart.satp va = some l) : w.LeafDirty va ↔ l.Dirty w.mem := by
  have hmem := hA.update .write
  constructor
  · rintro ⟨l', hl', h⟩
    rw [hl] at hl'
    cases hl'
    exact hmem.mp h rfl
  · intro h
    exact ⟨l, hl, hmem.mpr fun _ => h⟩

/-- The state after a write that is translated: the leaf is still there, A is set, and D
is set exactly when the page was dirty or was walked to. -/
theorem write_spec (h : w.TlbsSound) (hs : FixedPages cfg w (.translate va .write))
    (hok : WriteServed cfg w va) :
    ∃ l, leafOf w.mem w.hart.satp va = some l ∧ l.Accessed (w.translate cfg va .write).1.mem ∧
      (l.Dirty (w.translate cfg va .write).1.mem ↔ l.DirtyOrWalked cfg w va) := by
  obtain ⟨⟨hm, he⟩, r, hr⟩ := hok
  obtain ⟨m, he'⟩ := Option.ne_none_iff_exists'.mp he
  obtain ⟨hans, hmem⟩ := @translateVa_answer cfg w.hart w.mem va .write w.pmp m hm he'
  change (translateVa cfg w.hart w.mem va .write w.pmp).2.2 = .ok r at hr
  rw [hr] at hans
  simp only [World.translate, PageLeaf.DirtyOrWalked]
  simp only [FixedPages, TlbOp.step, World.translate] at hs
  rw [hmem] at hs ⊢
  cases hh : tlbHit cfg w.hart va .write with
  | some e =>
    obtain ⟨l, hl, hA, _⟩ := TlbSound.hit h hh
    exact ⟨l, hl, hA, by simp⟩
  | none =>
    rw [hh] at hans hs
    obtain ⟨c', hc'⟩ := walkAnswer_ok hans.symm
    rw [hc'] at hs ⊢
    obtain ⟨l, hl, _, hA, hD⟩ := sv39Walk_leaf hc' hs
    exact ⟨l, hl, hA, by simpa using hD rfl⟩

/-- One step: a write leaves its page dirty exactly when the page was dirty or is walked to. -/
theorem dirtyComplete_step (h : w.TlbsSound) {op : TlbOp} (hs : FixedPages cfg w op) :
    DirtyComplete cfg w op ↔ DirtyReached cfg w op := by
  cases op with
  | translate va rwx =>
    cases rwx with
    | write =>
      apply forall_congr'
      intro hok
      obtain ⟨l, hl, hA, hD⟩ := write_spec h hs hok
      have hsatp : (w.translate cfg va .write).1.hart.satp = w.hart.satp :=
        (TlbFrame.translateVa cfg w.hart w.mem va .write w.pmp).satp
      have hl' : leafOf (w.translate cfg va .write).1.mem (w.translate cfg va .write).1.hart.satp va =
          some l := by
        rw [hsatp, ← hl]
        exact leafOf_congr hs _ _
      rw [hA.leafDirty hl', hD]
      constructor
      · intro hd l' hl''
        rw [hl] at hl''
        cases hl''
        exact hd
      · intro hd
        exact hd l hl
    | _ => exact Iff.rfl
  | _ => exact Iff.rfl

end Step

/-- Runs from empty TLBs: every write that is translated leaves A and D in the leaf of its
page exactly when every such write goes to a page that is dirty, or that is walked to and
is not a 2 MiB page with A clear. -/
theorem dirty_complete_iff (cfg : Features) (w : World) (ops : List TlbOp)
    (hempty : w.hart.TlbsEmpty) (hfix : Run.Along (TlbOp.step cfg) (FixedPages cfg) w ops) :
    Run.Along (TlbOp.step cfg) (DirtyComplete cfg) w ops ↔
      Run.Along (TlbOp.step cfg) (DirtyReached cfg) w ops :=
  Run.along_congr (I := World.TlbsSound) (fun w op => op.step_sound cfg w)
    (fun _ _ h hs => dirtyComplete_step h hs) (World.tlbsSound_of_empty hempty) hfix

/-- A read puts the page into the TLB. The write after it is served from there and leaves
D clear. -/
theorem write_hit_leaves_clean :
    let cfg : Features := ⟨false, false, false, 0⟩
    let w := onePage 0x47 (Pmp.R ||| Pmp.W)
    let ops : List TlbOp := [.translate 0x10 .read, .translate 0x10 .write]
    w.hart.TlbsEmpty ∧ Run.Along (TlbOp.step cfg) (FixedPages cfg) w ops ∧
      ¬ Run.Along (TlbOp.step cfg) (DirtyComplete cfg) w ops := by
  refine ⟨onePage_empty _ _, fixedPages_of_aligned _ (onePage_aligned _ _) _, ?_⟩
  rintro ⟨_, h, _⟩
  obtain ⟨l, hl, hD⟩ := h ⟨⟨by decide, by decide⟩, ⟨0x80004010, 6, 0⟩, by decide⟩
  revert hl hD
  generalize hl : leafOf _ _ _ = o
  have ho : o = some ⟨0x80001000, 0x80002000, 0x80003000, 0⟩ := by
    rw [← hl]
    decide
  rw [ho]
  rintro ⟨⟩
  decide

/-- A write to a fresh 4 KiB page walks to it and sets both bits. -/
theorem write_walk_sets_dirty :
    let cfg : Features := ⟨false, false, false, 0⟩
    Run.Along (TlbOp.step cfg) (DirtyComplete cfg) (onePage 0x7 (Pmp.R ||| Pmp.W))
      [.translate 0x10 .write] := by
  intro cfg
  refine (dirty_complete_iff cfg _ _ (onePage_empty _ _)
    (fixedPages_of_aligned cfg (onePage_aligned _ _) _)).mpr ⟨?_, trivial⟩
  intro _ l hl
  have hleaf : leafOf (onePage 0x7 (Pmp.R ||| Pmp.W)).mem 0x8000000000080001 0x10 =
      some ⟨0x80001000, 0x80002000, 0x80003000, 0⟩ := by decide
  cases hleaf.symm.trans hl
  exact .inr ⟨by decide, .inl rfl⟩

end Pyremu
