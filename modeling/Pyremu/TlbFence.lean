import Pyremu.TlbPython
import Pyremu.TlbSound

/-!
# Fences and fragments

Every line of the TLB is the walk of its page number, but for pages whose fence
is still owed. A fence for one address leaves the other fragments of a larger
page where they are.
-/

namespace Pyremu

open ByteMem

/-! ## Lines -/

namespace TlbPy

/-- Valid lines are found under their tags, and a TLB that is off has none. -/
structure Indexed (t : TlbPy) : Prop where
  index : ∀ i, (t.entries i).valid = true → t.tagToIdx (t.entries i).tag = some i
  off : t.noTlb = true → ∀ i, (t.entries i).valid = false

/-- The lines of `t'` are lines of `t`. -/
def Sub (t t' : TlbPy) : Prop := ∀ i, (t'.entries i).valid = true → t'.entries i = t.entries i

variable {t t' t'' : TlbPy} {vpn ppn mdid : Word} {perm : BitVec 8} {asid : BitVec 16} {level : Nat}

theorem Sub.refl (t : TlbPy) : Sub t t := fun _ _ => rfl

theorem Sub.trans (h : Sub t t') (h' : Sub t' t'') : Sub t t'' := by
  intro i hi
  have h1 := h' i hi
  rw [h1] at hi
  rw [h1, h i hi]

theorem indexed_init (noTlb : Bool) (size : Nat) : (init noTlb size).Indexed where
  index := fun _ h => by cases h
  off := fun _ _ => rfl

theorem findByTag_entries (t : TlbPy) (tag : Word) :
    (t.findByTag tag).2.entries = t.entries ∧ (t.findByTag tag).2.noTlb = t.noTlb := by
  rw [findByTag]
  split
  · exact ⟨rfl, rfl⟩
  · split_ifs <;> exact ⟨rfl, rfl⟩

theorem findByTag_some {tag : Word} {e : TlbLine} (h : (t.findByTag tag).1 = some e) :
    ∃ i, t.entries i = e ∧ e.valid = true ∧ e.tag = tag := by
  rw [findByTag] at h
  split at h
  · cases h
  · rename_i idx _
    split_ifs at h with hmatch
    cases h
    exact ⟨idx, rfl, hmatch⟩

theorem Indexed.findByTag (h : t.Indexed) (tag : Word) : (t.findByTag tag).2.Indexed := by
  rw [TlbPy.findByTag]
  split
  · exact h
  · rename_i idx hidx
    split_ifs with hmatch
    · exact h
    · refine ⟨?_, h.off⟩
      intro i hi
      change Function.update t.tagToIdx tag none (t.entries i).tag = some i
      have hindex := h.index i hi
      have hne : (t.entries i).tag ≠ tag := by
        intro htag
        rw [htag, hidx] at hindex
        cases hindex
        exact hmatch ⟨hi, htag⟩
      rw [Function.update_of_ne hne, hindex]

theorem lookup_entries (t : TlbPy) (vpn : Word) (asid : BitVec 16) :
    (t.lookup vpn asid).2.entries = t.entries := by
  rw [lookup]
  dsimp only
  split_ifs
  · rfl
  · split
    · exact (findByTag_entries t vpn).1
    · split_ifs <;> exact (findByTag_entries t vpn).1

theorem Indexed.lookup (h : t.Indexed) (vpn : Word) (asid : BitVec 16) : (t.lookup vpn asid).2.Indexed := by
  rw [TlbPy.lookup]
  dsimp only
  split_ifs
  · exact h
  · split
    · exact h.findByTag vpn
    · split_ifs <;> exact h.findByTag vpn

theorem lookup_some (h : (t.lookup vpn asid).1 = some (ppn, perm)) :
    ∃ i, (t.entries i).valid = true ∧ (t.entries i).tag = vpn ∧ (t.entries i).ppn = ppn ∧ (t.entries i).perm = perm := by
  rw [lookup] at h
  dsimp only at h
  by_cases hoff : t.noTlb = true
  · rw [if_pos hoff] at h
    cases h
  · rw [if_neg hoff] at h
    cases he : (t.findByTag vpn).1 with
    | none =>
      rw [he] at h
      cases h
    | some e =>
      rw [he] at h
      dsimp only at h
      obtain ⟨i, hi, hvalid, htag⟩ := findByTag_some he
      split_ifs at h
      cases h
      rw [← hi] at hvalid htag
      exact ⟨i, hvalid, htag, by rw [hi], by rw [hi]⟩

theorem indexed_update (hoff : t.noTlb = false) {i : Nat} {e : TlbLine} {tags : Word → Option Nat}
    {ptr : Nat} (htag : tags e.tag = some i)
    (hother : ∀ j, j ≠ i → (t.entries j).valid = true → tags (t.entries j).tag = some j) :
    Indexed { t with entries := Function.update t.entries i e, tagToIdx := tags, fifoPtr := ptr } := by
  constructor
  · intro j hj
    change (Function.update t.entries i e j).valid = true at hj
    change tags (Function.update t.entries i e j).tag = some j
    by_cases hji : j = i
    · subst hji
      rw [Function.update_self]
      exact htag
    · rw [Function.update_of_ne hji] at hj ⊢
      exact hother j hji hj
  · intro hon
    change t.noTlb = true at hon
    rw [hoff] at hon
    cases hon

theorem Indexed.replace (h : t.Indexed) (hoff : t.noTlb = false)
    (hfree : ∀ i, (t.entries i).valid = true → (t.entries i).tag ≠ vpn) :
    (t.replace vpn ppn perm level mdid asid).Indexed := by
  rw [TlbPy.replace]
  apply indexed_update hoff
  · exact Function.update_self ..
  · intro j hj hvalid
    rw [Function.update_of_ne (hfree j hvalid)]
    have hindex := h.index j hvalid
    split_ifs with hvictim
    · have hne : (t.entries j).tag ≠ (t.entries t.fifoPtr).tag := by
        intro htag
        rw [htag, h.index _ hvictim] at hindex
        exact hj (Option.some.inj hindex).symm
      rw [Function.update_of_ne hne]
      exact hindex
    · exact hindex

theorem Indexed.insert (h : t.Indexed) (vpn ppn : Word) (perm : BitVec 8) (level : Nat) (mdid : Word)
    (asid : BitVec 16) : (t.insert vpn ppn perm level mdid asid).Indexed := by
  rw [TlbPy.insert]
  by_cases hoff : t.noTlb = true
  · rw [if_pos hoff]
    exact h
  · rw [if_neg hoff]
    have hoff := Bool.eq_false_of_not_eq_true hoff
    cases hidx : t.tagToIdx vpn with
    | none =>
      apply h.replace hoff
      intro i hi htag
      have hindex := h.index i hi
      rw [htag, hidx] at hindex
      cases hindex
    | some idx =>
      dsimp only
      by_cases hmatch : (t.entries idx).valid = true ∧ (t.entries idx).tag = vpn
      · rw [if_pos hmatch]
        exact indexed_update hoff hidx fun j _ => h.index j
      · rw [if_neg hmatch]
        apply h.replace hoff
        intro i hi htag
        have hindex := h.index i hi
        rw [htag, hidx] at hindex
        cases hindex
        exact hmatch ⟨hi, htag⟩

/-- A valid line after an insertion is the new one or was there. -/
theorem insert_lines (t : TlbPy) (vpn ppn : Word) (perm : BitVec 8) (level : Nat) (mdid : Word) (asid : BitVec 16)
    (i : Nat) :
    (t.insert vpn ppn perm level mdid asid).entries i = ⟨vpn, true, ppn, perm, level, mdid, asid⟩ ∨
      (t.insert vpn ppn perm level mdid asid).entries i = t.entries i := by
  have hupdate : ∀ idx (e : TlbLine), Function.update t.entries idx e i = e ∨
      Function.update t.entries idx e i = t.entries i := by
    intro idx e
    by_cases hi : i = idx
    · subst hi
      exact .inl (Function.update_self ..)
    · exact .inr (Function.update_of_ne hi _ _)
  rw [insert]
  split_ifs
  · exact .inr rfl
  · split
    · split_ifs
      · exact hupdate _ _
      · exact hupdate _ _
    · exact hupdate _ _

theorem Indexed.flushAll (h : t.Indexed) : t.flushAll.Indexed ∧ ∀ i, (t.flushAll.entries i).valid = false := by
  rw [TlbPy.flushAll]
  split_ifs with hoff
  · exact ⟨h, h.off hoff⟩
  · have hnone : ∀ i, ({ t.entries i with tag := 0, valid := false } : TlbLine).valid = false := fun _ => rfl
    refine ⟨⟨fun i hi => ?_, fun _ => hnone⟩, hnone⟩
    rw [hnone i] at hi
    cases hi

/-- A line of the TLB that is dropped with its index; no other has its tag. -/
theorem Indexed.drop (h : t.Indexed) {idx : Nat} {e : TlbLine} (he : e.valid = false)
    (hidx : (t.entries idx).valid = true) :
    let t' := { t with
      tagToIdx := Function.update t.tagToIdx (t.entries idx).tag none, entries := Function.update t.entries idx e }
    t'.Indexed ∧ ∀ i, (t'.entries i).valid = true → t'.entries i = t.entries i ∧ (t.entries i).tag ≠ (t.entries idx).tag := by
  intro t'
  have hlines : ∀ i, (t'.entries i).valid = true →
      t'.entries i = t.entries i ∧ (t.entries i).tag ≠ (t.entries idx).tag := by
    intro i hi
    change (Function.update t.entries idx e i).valid = true at hi
    by_cases hii : i = idx
    · subst hii
      rw [Function.update_self, he] at hi
      cases hi
    · rw [Function.update_of_ne hii] at hi
      refine ⟨Function.update_of_ne hii _ _, fun htag => ?_⟩
      have hindex := h.index i hi
      rw [htag, h.index idx hidx] at hindex
      exact hii (Option.some.inj hindex).symm
  refine ⟨⟨fun i hi => ?_, fun hoff => ?_⟩, hlines⟩
  · obtain ⟨heq, hne⟩ := hlines i hi
    rw [heq] at hi ⊢
    change Function.update t.tagToIdx (t.entries idx).tag none (t.entries i).tag = some i
    rw [Function.update_of_ne hne]
    exact h.index i hi
  · have hvalid := h.off hoff idx
    rw [hidx] at hvalid
    cases hvalid

/-- After a flush of one page number no valid line has it. -/
theorem Indexed.flush (h : t.Indexed) (vpn : Word) :
    (t.flush vpn).Indexed ∧ ∀ i, ((t.flush vpn).entries i).valid = true →
      (t.flush vpn).entries i = t.entries i ∧ vpn ≠ 0 ∧ (t.entries i).tag ≠ vpn := by
  rw [TlbPy.flush]
  by_cases h0 : vpn = 0
  · rw [if_pos h0]
    obtain ⟨hi, hnone⟩ := h.flushAll
    refine ⟨hi, fun i hv => ?_⟩
    rw [hnone i] at hv
    cases hv
  · rw [if_neg h0]
    have hindexed : ∀ {i}, (t.entries i).valid = true → (t.entries i).tag = vpn → t.tagToIdx vpn = some i := by
      intro i hi htag
      rw [← htag]
      exact h.index i hi
    cases hidx : t.tagToIdx vpn with
    | none =>
      refine ⟨h, fun i hi => ⟨rfl, h0, fun htag => ?_⟩⟩
      have hindex := hindexed hi htag
      rw [hidx] at hindex
      cases hindex
    | some idx =>
      dsimp only
      by_cases hmatch : (t.entries idx).valid = true ∧ (t.entries idx).tag = vpn
      · rw [if_pos hmatch]
        obtain ⟨hdrop, hlines⟩ := h.drop (e := { t.entries idx with valid := false, tag := 0, ppn := 0, perm := 0, level := 0 })
          rfl hmatch.1
        rw [hmatch.2] at hdrop hlines
        exact ⟨hdrop, fun i hi => ⟨(hlines i hi).1, h0, (hlines i hi).2⟩⟩
      · rw [if_neg hmatch]
        have hne : ∀ i, (t.entries i).valid = true → (t.entries i).tag ≠ vpn := by
          intro i hi htag
          have hindex := hindexed hi htag
          rw [hidx] at hindex
          cases hindex
          exact hmatch ⟨hi, htag⟩
        refine ⟨⟨fun i hi => ?_, h.off⟩, fun i hi => ⟨rfl, h0, hne i hi⟩⟩
        change Function.update t.tagToIdx vpn none (t.entries i).tag = some i
        rw [Function.update_of_ne (hne i hi)]
        exact h.index i hi

theorem Indexed.flushLine (h : t.Indexed) (mdid : Word) (i : Nat) :
    (TlbPy.flushLine mdid t i).Indexed ∧ Sub t (TlbPy.flushLine mdid t i) := by
  rw [TlbPy.flushLine]
  by_cases hmatch : (t.entries i).valid = true ∧ (t.entries i).mdid = mdid
  · rw [if_pos hmatch]
    obtain ⟨hdrop, hlines⟩ := h.drop (e := { t.entries i with valid := false, tag := 0 }) rfl hmatch.1
    exact ⟨hdrop, fun j hj => (hlines j hj).1⟩
  · rw [if_neg hmatch]
    exact ⟨h, .refl t⟩

theorem Indexed.flushByMdid (h : t.Indexed) (mdid : Word) :
    (t.flushByMdid mdid).Indexed ∧ Sub t (t.flushByMdid mdid) := by
  have hfold : ∀ (l : List Nat) {t : TlbPy}, t.Indexed →
      (l.foldl (TlbPy.flushLine mdid) t).Indexed ∧ Sub t (l.foldl (TlbPy.flushLine mdid) t) := by
    intro l
    induction l with
    | nil => exact fun h => ⟨h, .refl _⟩
    | cons i l ih =>
      intro t h
      obtain ⟨hline, hsub⟩ := h.flushLine mdid i
      obtain ⟨hrest, hsub'⟩ := ih hline
      exact ⟨hrest, hsub.trans hsub'⟩
  rw [TlbPy.flushByMdid]
  split_ifs
  · exact ⟨h, .refl t⟩
  · exact hfold _ h

end TlbPy

/-! ## Walks -/

namespace MmuPy

variable {nativeMmu : NativeMmu} {va va' satp : Word} {read : Word → Word} {reader : Word → Option Word}

/-- A walk that a reader lets through is the walk of all entries it gives. -/
theorem sv39Walk_mono {root : Word} (hr : ∀ a raw, reader a = some raw → raw = read a)
    {o : Option (Word × BitVec 8 × Nat)} (h : sv39Walk nativeMmu root va reader = some o) :
    sv39Walk nativeMmu root va (fun a => some (read a)) = some o := by
  simp only [sv39Walk, Option.bind_eq_bind, Option.bind_some] at h ⊢
  cases h2 : reader (pteAddr root (sv39Vpn nativeMmu va).1) with
  | none =>
    rw [h2] at h
    cases h
  | some raw2 =>
    rw [h2, Option.bind_some, hr _ _ h2] at h
    cases hl1 : level1NextPpn nativeMmu (read (pteAddr root (sv39Vpn nativeMmu va).1)) with
    | none =>
      rw [hl1] at h
      exact h
    | some l1 =>
      rw [hl1] at h
      dsimp only at h ⊢
      cases h1 : reader (pteAddr l1 (sv39Vpn nativeMmu va).2.1) with
      | none =>
        rw [h1] at h
        cases h
      | some raw1 =>
        rw [h1, Option.bind_some, hr _ _ h1] at h
        cases hleaf : level2Leaf nativeMmu (read (pteAddr l1 (sv39Vpn nativeMmu va).2.1)) va with
        | some leaf =>
          rw [hleaf] at h
          exact h
        | none =>
          rw [hleaf] at h
          dsimp only at h ⊢
          cases hl2 : level2NextPpn nativeMmu (read (pteAddr l1 (sv39Vpn nativeMmu va).2.1)) with
          | none =>
            rw [hl2] at h
            exact h
          | some l2 =>
            rw [hl2] at h
            dsimp only at h ⊢
            cases h0 : reader (pteAddr l2 (sv39Vpn nativeMmu va).2.2) with
            | none =>
              rw [h0] at h
              cases h
            | some raw0 =>
              rw [h0, Option.bind_some, hr _ _ h0] at h
              exact h

theorem translateVa_mono (hr : ∀ a raw, reader a = some raw → raw = read a) {o : Option (Word × BitVec 8)}
    (h : translateVa nativeMmu va satp reader = some o) :
    translateVa nativeMmu va satp (fun a => some (read a)) = some o := by
  by_cases h8 : satp >>> 60 = satpModeSv39
  · rw [translateVa_sv39 h8] at h ⊢
    cases hwalk : sv39Walk nativeMmu (rootPpn satp) va reader with
    | none =>
      rw [hwalk] at h
      cases h
    | some w =>
      rw [sv39Walk_mono hr hwalk, ← hwalk]
      exact h
  · have h8' : ¬ satp >>> 60 = 8 := h8
    rw [translateVa, if_neg h8'] at h ⊢
    exact h

/-- The walk depends on the entries that it reads. -/
theorem translateVa_reads (hr : ∀ a ∈ walkReads nativeMmu va satp read, reader a = some (read a)) :
    translateVa nativeMmu va satp reader = translateVa nativeMmu va satp fun a => some (read a) := by
  by_cases h8 : satp >>> 60 = satpModeSv39
  · rw [translateVa_sv39 h8, translateVa_sv39 h8]
    congr 1
    simp only [sv39Walk, Option.bind_eq_bind, Option.bind_some]
    simp only [walkReads] at hr
    cases hl1 : level1NextPpn nativeMmu (read (pteAddr (rootPpn satp) (sv39Vpn nativeMmu va).1)) with
    | none =>
      rw [hl1] at hr
      rw [hr _ (List.mem_singleton_self _), Option.bind_some, hl1]
    | some l1 =>
      rw [hl1] at hr
      dsimp only at hr ⊢
      cases hleaf : level2Leaf nativeMmu (read (pteAddr l1 (sv39Vpn nativeMmu va).2.1)) va with
      | some leaf =>
        rw [hleaf] at hr
        rw [hr _ List.mem_cons_self, Option.bind_some, hl1]
        dsimp only
        rw [hr _ (List.mem_cons_of_mem _ List.mem_cons_self), Option.bind_some, hleaf]
      | none =>
        rw [hleaf] at hr
        dsimp only at hr ⊢
        cases hl2 : level2NextPpn nativeMmu (read (pteAddr l1 (sv39Vpn nativeMmu va).2.1)) with
        | none =>
          rw [hl2] at hr
          rw [hr _ List.mem_cons_self, Option.bind_some, hl1]
          dsimp only
          rw [hr _ (List.mem_cons_of_mem _ List.mem_cons_self), Option.bind_some, hleaf]
          dsimp only
          rw [hl2]
        | some l2 =>
          rw [hl2] at hr
          rw [hr _ List.mem_cons_self, Option.bind_some, hl1]
          dsimp only
          rw [hr _ (List.mem_cons_of_mem _ List.mem_cons_self), Option.bind_some, hleaf]
          dsimp only
          rw [hl2]
          dsimp only
          rw [hr _ (List.mem_cons_of_mem _ (List.mem_cons_of_mem _ List.mem_cons_self)), Option.bind_some]
  · have h8' : ¬ satp >>> 60 = 8 := h8
    rw [translateVa, translateVa, if_neg h8', if_neg h8']

/-- A word is its page number and its offset. -/
theorem page_or_offset (x : Word) : (x >>> 12 <<< 12) ||| (x &&& 0xFFF) = x := by
  have hmask : ∀ i < 64, (0xFFF : Word).getLsbD i = decide (i < 12) := by decide
  apply BitVec.eq_of_getLsbD_eq
  intro i hi
  rw [BitVec.getLsbD_or, BitVec.getLsbD_shiftLeft, BitVec.getLsbD_ushiftRight, BitVec.getLsbD_and, hmask i hi]
  by_cases h12 : i < 12
  · rw [decide_eq_true hi, decide_eq_true h12]
    simp
  · rw [decide_eq_true hi, decide_eq_false h12, Nat.add_sub_cancel' (Nat.not_lt.mp h12)]
    simp

theorem sv39Walk_page {root : Word} (hpage : va' >>> 12 = va >>> 12) :
    sv39Walk nativeMmu root va' reader = sv39Walk nativeMmu root va reader := by
  simp only [sv39Walk, sv39Vpn_eq, level2Leaf_eq, sv39DecomposeVa_page hpage]

/-- Addresses of one page number have one page. -/
theorem translateVa_page {pa : Word} {perm : BitVec 8} (hpage : va' >>> 12 = va >>> 12)
    (h : translateVa nativeMmu va satp reader = some (some (pa, perm))) :
    translateVa nativeMmu va' satp reader = some (some ((pa >>> 12 <<< 12) ||| (va' &&& 0xFFF), perm)) := by
  by_cases h8 : satp >>> 60 = satpModeSv39
  · rw [translateVa_sv39 h8, sv39Walk_page hpage]
    rw [translateVa_sv39 h8] at h
    cases hwalk : sv39Walk nativeMmu (rootPpn satp) va reader with
    | none =>
      rw [hwalk] at h
      cases h
    | some w =>
      rw [hwalk] at h
      cases w with
      | none => cases h
      | some r =>
        cases h
        change some (some ((r.1 <<< 12) ||| (va' &&& 0xFFF), r.2.1)) = _
        rw [page_of_or]
  · have h8' : ¬ satp >>> 60 = 8 := h8
    rw [translateVa, if_neg h8'] at h ⊢
    by_cases h0 : satp >>> 60 = 0
    · rw [if_pos h0] at h ⊢
      cases h
      rw [← hpage, page_or_offset]
    · rw [if_neg h0] at h
      cases h

end MmuPy

/-! ## The invariant of a run -/

namespace Fencing

variable {env : MmuEnv} {t : Fencing} {h : MmuHart}

/-- The line is what the walk finds for every address of its page number. -/
def Current (env : MmuEnv) (h : MmuHart) (e : TlbLine) : Prop :=
  ∀ va : Word, va >>> 12 = e.tag → walkOf env h va = some (some ((e.ppn <<< 12) ||| (va &&& 0xFFF), e.perm))

/-- Every line is current or of a page that waits for a fence. -/
structure Sound (env : MmuEnv) (t : Fencing) : Prop where
  indexed : t.hart.dtlb.Indexed
  line : ∀ i, (t.hart.dtlb.entries i).valid = true →
    (∃ pg ∈ t.owed, pg.Has (t.hart.dtlb.entries i).tag) ∨ Current env t.hart (t.hart.dtlb.entries i)

theorem pageWalkReader_eq (env : MmuEnv) (h : MmuHart) {a raw : Word} (hr : h.pageWalkReader env a = some raw) :
    raw = h.readPte a := by
  rw [MmuHart.pageWalkReader] at hr
  split_ifs at hr
  cases hr
  rfl

theorem Current.congr {h' : MmuHart} {e : TlbLine} (hc : Current env h e)
    (hwalk : ∀ va : Word, va >>> 12 = e.tag → walkOf env h' va = walkOf env h va) : Current env h' e := by
  intro va hva
  rw [hwalk va hva]
  exact hc va hva

/-- What a walk returns does not depend on the TLB. -/
theorem translatePageWalk_result (env : MmuEnv) (h : MmuHart) (m : Mode) (va : Word) (isWrite isExecute : Bool)
    (d : TlbPy) :
    (MmuHart.translatePageWalk env { h with dtlb := d } m va isWrite isExecute).1 =
      (h.translatePageWalk env m va isWrite isExecute).1 := by
  have hwalk : MmuPy.translateVa env.nativeMmu va h.satp (MmuHart.pageWalkReader env { h with dtlb := d }) =
      MmuPy.translateVa env.nativeMmu va h.satp (h.pageWalkReader env) := rfl
  rw [MmuHart.translatePageWalk, MmuHart.translatePageWalk, hwalk]
  cases MmuPy.translateVa env.nativeMmu va h.satp (h.pageWalkReader env) with
  | none => rfl
  | some o =>
    cases o with
    | none => rfl
    | some r =>
      dsimp only
      split_ifs <;> rfl

/-- A walk leaves the TLB as it is or inserts its page. -/
theorem translatePageWalk_lines (env : MmuEnv) (h : MmuHart) (m : Mode) (va : Word) (isWrite isExecute : Bool)
    (hi : h.dtlb.Indexed) :
    (h.translatePageWalk env m va isWrite isExecute).2.Indexed ∧
      ∀ i, ((h.translatePageWalk env m va isWrite isExecute).2.entries i).valid = true →
        (h.translatePageWalk env m va isWrite isExecute).2.entries i = h.dtlb.entries i ∨
          Current env h ((h.translatePageWalk env m va isWrite isExecute).2.entries i) := by
  rw [MmuHart.translatePageWalk]
  have hsame : ∀ r : MmuResult, (r, h.dtlb).2.Indexed ∧ ∀ i, ((r, h.dtlb).2.entries i).valid = true →
      (r, h.dtlb).2.entries i = h.dtlb.entries i ∨ Current env h ((r, h.dtlb).2.entries i) :=
    fun _ => ⟨hi, fun _ _ => .inl rfl⟩
  cases hwalk : MmuPy.translateVa env.nativeMmu va h.satp (h.pageWalkReader env) with
  | none => exact hsame _
  | some o =>
    cases o with
    | none => exact hsame _
    | some r =>
      obtain ⟨pa, perm⟩ := r
      dsimp only
      split_ifs
      · exact hsame _
      · exact hsame _
      · refine ⟨hi.insert _ _ _ _ _ _, fun i _ => ?_⟩
        rcases TlbPy.insert_lines h.dtlb (va >>> 12) (pa >>> 12) perm 0 h.mdid h.asid i with hnew | hold
        · right
          rw [hnew]
          intro va' hva'
          have hall := MmuPy.translateVa_mono (fun a raw => pageWalkReader_eq env h) hwalk
          exact MmuPy.translateVa_page hva' hall
        · exact .inl hold

/-- A translation changes the TLB only. -/
theorem translateAddr_hart (env : MmuEnv) (h : MmuHart) (va : Word) (isWrite isExecute : Bool) :
    ∃ d, (h.translateAddr env va isWrite isExecute).2 = { h with dtlb := d } := by
  rw [MmuHart.translateAddr]
  split_ifs
  · exact ⟨h.dtlb, rfl⟩
  · split
    · exact ⟨h.dtlb, rfl⟩
    · dsimp only
      split
      · split_ifs <;> exact ⟨_, rfl⟩
      · exact ⟨_, rfl⟩

/-- The lines after a translation are lines from before it or what its walk has found. -/
theorem translateAddr_lines (env : MmuEnv) (h : MmuHart) (va : Word) (isWrite isExecute : Bool)
    (hi : h.dtlb.Indexed) :
    (h.translateAddr env va isWrite isExecute).2.dtlb.Indexed ∧
      ∀ i, ((h.translateAddr env va isWrite isExecute).2.dtlb.entries i).valid = true →
        (h.translateAddr env va isWrite isExecute).2.dtlb.entries i = h.dtlb.entries i ∨
          Current env h ((h.translateAddr env va isWrite isExecute).2.dtlb.entries i) := by
  have hlookup := hi.lookup (va >>> 12) h.asid
  have hentries := TlbPy.lookup_entries h.dtlb (va >>> 12) h.asid
  rw [MmuHart.translateAddr]
  split_ifs with hbare
  · exact ⟨hi, fun _ _ => .inl rfl⟩
  · cases heff : h.effectiveMode with
    | none => exact ⟨hi, fun _ _ => .inl rfl⟩
    | some m =>
      dsimp only
      cases hhit : (h.dtlb.lookup (va >>> 12) h.asid).1 with
      | some r =>
        dsimp only
        split_ifs <;> exact ⟨hlookup, fun i _ => .inl (by rw [hentries])⟩
      | none =>
        dsimp only
        obtain ⟨hi', hl⟩ := translatePageWalk_lines env
          { h with dtlb := (h.dtlb.lookup (va >>> 12) h.asid).2 } m va isWrite isExecute hlookup
        refine ⟨hi', fun i hv => ?_⟩
        rcases hl i hv with hold | hcur
        · rw [hold]
          exact .inl (by rw [hentries])
        · exact .inr hcur

theorem Sound.retlb (hs : Sound env t) {d : TlbPy} (hi : d.Indexed)
    (hl : ∀ i, (d.entries i).valid = true →
      d.entries i = t.hart.dtlb.entries i ∨ Current env t.hart (d.entries i)) :
    Sound env { t with hart := { t.hart with dtlb := d } } := by
  refine ⟨hi, fun i hv => ?_⟩
  rcases hl i hv with hold | hcur
  · have hline := hs.line i
    change (∃ pg ∈ t.owed, pg.Has (d.entries i).tag) ∨ Current env t.hart (d.entries i)
    rw [← hold] at hline
    exact hline hv
  · exact .inr hcur

theorem Sound.translate (hs : Sound env t) (va : Word) (isWrite isExecute : Bool) :
    Sound env (t.step env (.translate va isWrite isExecute)) := by
  change Sound env { t with hart := (t.hart.translateAddr env va isWrite isExecute).2 }
  obtain ⟨hi, hl⟩ := translateAddr_lines env t.hart va isWrite isExecute hs.indexed
  obtain ⟨d, hd⟩ := translateAddr_hart env t.hart va isWrite isExecute
  rw [hd] at hi hl ⊢
  exact hs.retlb hi hl

/-- A store to the leaf of a page leaves the lines of other pages current. -/
theorem Sound.modify (hs : Sound env t) {a pte : Word} {pg : SvPage} (hp : t.Protocol env (.modify a pte pg)) :
    Sound env (t.step env (.modify a pte pg)) := by
  refine ⟨hs.indexed, fun i hv => ?_⟩
  change (∃ pg' ∈ pg :: t.owed, pg'.Has (t.hart.dtlb.entries i).tag) ∨ _
  by_cases hin : pg.Has (t.hart.dtlb.entries i).tag
  · exact .inl ⟨pg, List.mem_cons_self, hin⟩
  · rcases hs.line i hv with ⟨pg', hmem, hhas⟩ | hcur
    · exact .inl ⟨pg', List.mem_cons_of_mem _ hmem, hhas⟩
    · right
      apply hcur.congr
      intro va hva
      apply hp va
      rw [hva]
      exact hin

theorem Sound.flushed {h' : MmuHart} (hi : h'.dtlb.Indexed) (hnone : ∀ i, (h'.dtlb.entries i).valid = false)
    (owed : List SvPage) : Sound env ⟨h', owed⟩ := by
  refine ⟨hi, fun i hv => ?_⟩
  change (h'.dtlb.entries i).valid = true at hv
  rw [hnone i] at hv
  cases hv

/-- A fence for an address, which finds no other fragment of the pages that it pays for. -/
theorem Sound.sfenceVma (hs : Sound env t) {va : Word} (hm : t.Meets env (.sfenceVma (some va))) :
    Sound env (t.step env (.sfenceVma (some va))) := by
  obtain ⟨hi, hl⟩ := hs.indexed.flush (va >>> 12)
  refine ⟨hi, fun i hv => ?_⟩
  obtain ⟨heq, h0, htag⟩ := hl i hv
  change (∃ pg ∈ t.owed.filter fun pg => ¬ pg.Has (va >>> 12), pg.Has ((t.hart.dtlb.flush (va >>> 12)).entries i).tag) ∨
    Current env t.hart ((t.hart.dtlb.flush (va >>> 12)).entries i)
  have hv' : ((t.hart.dtlb.flush (va >>> 12)).entries i).valid = true := hv
  rw [heq] at hv' ⊢
  rcases hs.line i hv' with ⟨pg, hmem, hhas⟩ | hcur
  · left
    refine ⟨pg, List.mem_filter.mpr ⟨hmem, ?_⟩, hhas⟩
    rw [decide_eq_true_iff]
    intro hpaid
    rcases hm with hzero | hfrag
    · exact h0 hzero
    · exact htag (hfrag pg hmem hpaid i hv' hhas)
  · exact .inr hcur

theorem Sound.step (hs : Sound env t) {op : MmuOp} (hp : t.Protocol env op) (hm : t.Meets env op) :
    Sound env (t.step env op) := by
  cases op with
  | translate va isWrite isExecute => exact hs.translate va isWrite isExecute
  | modify a pte pg => exact hs.modify hp
  | sfenceVma rs1 =>
    cases rs1 with
    | none =>
      obtain ⟨hi, hnone⟩ := hs.indexed.flushAll
      exact Sound.flushed hi hnone []
    | some va => exact hs.sfenceVma hm
  | mfenceDid mdid =>
    obtain ⟨hi, hsub⟩ := hs.indexed.flushByMdid mdid
    exact hs.retlb hi fun i hv => .inl (hsub i hv)
  | writeSatp v =>
    obtain ⟨hi, hnone⟩ := hs.indexed.flushAll
    exact Sound.flushed hi hnone t.owed
  | enter mode mstatus => exact ⟨hs.indexed, hs.line⟩

/-- Without a fence that is owed a hit is the fresh walk. -/
theorem Sound.agrees (hs : Sound env t) {op : MmuOp} (hp : t.Protocol env op) (hm : t.Meets env op) :
    t.Agrees env op := by
  cases op with
  | translate va isWrite isExecute =>
    have howed : t.owed = [] := hp
    change (t.hart.translateAddr env va isWrite isExecute).1 = t.hart.freshTranslate env va isWrite isExecute
    rw [MmuHart.translateAddr, MmuHart.freshTranslate]
    by_cases hbare : t.hart.mmuMode = 0
    · rw [if_pos hbare, if_pos hbare]
    · rw [if_neg hbare, if_neg hbare]
      cases heff : t.hart.effectiveMode with
      | none => rfl
      | some m =>
        dsimp only
        cases hhit : (t.hart.dtlb.lookup (va >>> 12) t.hart.asid).1 with
        | none =>
          exact translatePageWalk_result env t.hart m va isWrite isExecute _
        | some r =>
          obtain ⟨ppn, perm⟩ := r
          obtain ⟨i, hv, htag, rfl, rfl⟩ := TlbPy.lookup_some hhit
          rcases hs.line i hv with ⟨pg, hmem, _⟩ | hcur
          · rw [howed] at hmem
            cases hmem
          · have hreads := hm hbare (by rw [heff]; exact Option.some_ne_none m)
              (by rw [hhit]; exact Option.some_ne_none _)
            have hwalk : MmuPy.translateVa env.nativeMmu va t.hart.satp (t.hart.pageWalkReader env) =
                walkOf env t.hart va := by
              apply MmuPy.translateVa_reads
              intro a ha
              rw [MmuHart.pageWalkReader, if_pos (hreads a ha)]
            rw [hcur va htag.symm] at hwalk
            dsimp only
            rw [MmuHart.translatePageWalk, hwalk]
            dsimp only
            split_ifs <;> rfl
  | modify a pte pg => trivial
  | sfenceVma rs1 => trivial
  | mfenceDid mdid => trivial
  | writeSatp v => trivial
  | enter mode mstatus => trivial

/-- Translations return what fresh walks return, in every run whose fences by address find no other
fragment of the modified page and whose hits are of pages with readable tables. -/
theorem sfence_vma_honoured (env : MmuEnv) (h : MmuHart) (noTlb : Bool) (size : Nat) {ops : List MmuOp}
    (hrun : Run.Along (step env) (fun t op => t.Protocol env op ∧ t.Meets env op)
      ⟨{ h with dtlb := .init noTlb size }, []⟩ ops) :
    Run.Along (step env) (fun t op => t.Agrees env op) ⟨{ h with dtlb := .init noTlb size }, []⟩ ops := by
  have hinit : Sound env ⟨{ h with dtlb := .init noTlb size }, []⟩ :=
    ⟨TlbPy.indexed_init noTlb size, fun _ hv => by cases hv⟩
  exact Run.along_of_promised (fun _ _ hs hop => hs.step hop.1 hop.2) (fun _ _ hs hop => hs.agrees hop.1 hop.2)
    hinit hrun

/-! ## A page of 2 MiB -/

/-- The root table points to a table whose first entry is a leaf of 2 MiB. -/
def megaMem : Mem := writeLe (writeLe (fun _ => 0) 0x1000 8 0x801) 0x2000 8 0x800CF

def openEnv : MmuEnv where
  nativeMmu := true
  pmpCheck := fun _ _ _ => true
  isDeviceAddr := fun _ => false

def megaHart : MmuHart where
  satp := (8 <<< 60) ||| 1
  mmuMode := 8
  mode := .S
  mstatus := 0
  mdid := 0
  dtlb := .init false 256
  mem := megaMem

/-- Two fragments are translated, the leaf is removed, a fence is made and the second fragment is
translated again. -/
def megaRun (rs1 : Option Word) : List MmuOp :=
  [.translate 0x1000 false false, .translate 0x2000 false false, .modify 0x2000 0 ⟨true, 0⟩, .sfenceVma rs1,
    .translate 0x2000 false false]

theorem megaMem_zero {k n : Nat} (hk : 0 < k) (hn : k < 512) (hbase : n = 0x1000 ∨ n = 0x2000) :
    readLe megaMem (n + 8 * k) 8 = 0 := by
  have hzero : ∀ i < 8, megaMem (n + 8 * k + i) = (fun _ => 0 : Mem) (n + 8 * k + i) := by
    intro i hi
    rw [megaMem, writeLe_other (by omega), writeLe_other (by omega)]
  have heq : readLe megaMem (n + 8 * k) 8 = readLe (fun _ => 0) (n + 8 * k) 8 := readLe_congr hzero
  rw [heq]
  simp [readLe]

theorem index_lt (x : Word) : (x &&& 0x1FF).toNat < 512 := by
  rw [BitVec.toNat_and]
  exact Nat.lt_of_le_of_lt Nat.and_le_right (by decide)

/-- An entry behind the first one of the two tables. -/
theorem megaHart_entry {ppn x : Word} (hppn : ppn = 1 ∨ ppn = 2) (hx : x &&& 0x1FF ≠ 0) :
    megaHart.readPte (pteAddr ppn (x &&& 0x1FF)) = 0 := by
  have hlt := index_lt x
  have hpos : 0 < (x &&& 0x1FF).toNat := by bv_omega
  have haddr : (pteAddr ppn (x &&& 0x1FF)).toNat = ppn.toNat * 0x1000 + 8 * (x &&& 0x1FF).toNat := by
    rw [pteAddr]
    rcases hppn with rfl | rfl <;> bv_omega
  change readLe megaMem (pteAddr ppn (x &&& 0x1FF)).toNat 8 = 0
  rw [haddr]
  apply megaMem_zero hpos hlt
  rcases hppn with rfl | rfl
  · exact .inl rfl
  · exact .inr rfl

/-- Walks of addresses past the first 2 MiB do not read the leaf. -/
theorem megaHart_reads {va : Word} (hva : ¬ SvPage.Has ⟨true, 0⟩ (va >>> 12)) :
    ∀ a ∈ MmuPy.walkReads true va megaHart.satp megaHart.readPte, a.toNat + 8 ≤ 0x2000 ∨ 0x2008 ≤ a.toNat := by
  have hroot : MmuPy.rootPpn megaHart.satp = 1 := by decide
  have hlt2 := index_lt (va >>> 30)
  have hlt1 := index_lt (va >>> 21)
  simp only [MmuPy.walkReads, hroot, MmuPy.sv39Vpn_eq, sv39DecomposeVa]
  by_cases h2 : (va >>> 30) &&& 0x1FF = 0
  · have h1 : (va >>> 21) &&& 0x1FF ≠ 0 := by
      intro h1
      apply hva
      change (va >>> 12 >>> 9) &&& 0x3FFFF = 0
      rw [← BitVec.shiftRight_add]
      have hn2 : va.toNat / 2 ^ 30 % 512 = 0 := by
        have h := congrArg BitVec.toNat h2
        rw [BitVec.toNat_and, BitVec.toNat_ushiftRight, Nat.shiftRight_eq_div_pow] at h
        exact (Nat.and_two_pow_sub_one_eq_mod _ 9).symm.trans h
      have hn1 : va.toNat / 2 ^ 21 % 512 = 0 := by
        have h := congrArg BitVec.toNat h1
        rw [BitVec.toNat_and, BitVec.toNat_ushiftRight, Nat.shiftRight_eq_div_pow] at h
        exact (Nat.and_two_pow_sub_one_eq_mod _ 9).symm.trans h
      apply BitVec.eq_of_toNat_eq
      rw [BitVec.toNat_and, BitVec.toNat_ushiftRight, Nat.shiftRight_eq_div_pow]
      refine (Nat.and_two_pow_sub_one_eq_mod _ 18).trans ?_
      change va.toNat / 2 ^ 21 % 2 ^ 18 = 0
      omega
    have hptr : MmuPy.level1NextPpn true (megaHart.readPte (pteAddr 1 0)) = some 2 := by decide +kernel
    have hleaf : MmuPy.level2Leaf true 0 va = none := by
      rw [MmuPy.level2Leaf_eq, if_neg (by decide)]
    have hnone : MmuPy.level2NextPpn true 0 = none := by decide
    rw [h2, hptr]
    dsimp only
    rw [megaHart_entry (.inr rfl) h1, hleaf, hnone]
    have hpos : 0 < ((va >>> 21) &&& 0x1FF).toNat := by bv_omega
    change ∀ a ∈ [pteAddr 1 0, pteAddr 2 ((va >>> 21) &&& 0x1FF)], _
    intro a ha
    rcases List.mem_cons.mp ha with rfl | ha
    · decide
    · rw [List.mem_singleton.mp ha, pteAddr]
      right
      bv_omega
  · rw [megaHart_entry (.inl rfl) h2]
    change ∀ a ∈ [pteAddr 1 ((va >>> 30) &&& 0x1FF)], _
    intro a ha
    rw [List.mem_singleton.mp ha, pteAddr]
    left
    bv_omega

/-- Without the leaf only addresses in its page translate differently. -/
theorem megaRun_protocol (d : TlbPy) (va : Word) (hva : ¬ SvPage.Has ⟨true, 0⟩ (va >>> 12)) :
    walkOf openEnv { megaHart with dtlb := d, mem := writeLe megaMem 0x2000 8 0 } va =
      walkOf openEnv { megaHart with dtlb := d } va := by
  apply MmuPy.translateVa_reads
  intro a ha
  have hother := megaHart_reads hva a ha
  have hsame : readLe (writeLe megaMem 0x2000 8 0) a.toNat 8 = readLe megaMem a.toNat 8 :=
    readLe_congr fun i hi => writeLe_other (by omega)
  exact congrArg some hsame

theorem megaRun_along (rs1 : Option Word) (howed : (step openEnv ⟨megaHart, [⟨true, 0⟩]⟩ (.sfenceVma rs1)).owed = []) :
    Run.Along (step openEnv) (Protocol openEnv) ⟨megaHart, []⟩ (megaRun rs1) := by
  refine ⟨rfl, rfl, ?_, by cases rs1 <;> trivial, ?_, trivial⟩
  · obtain ⟨d, hd⟩ := translateAddr_hart openEnv megaHart 0x1000 false false
    obtain ⟨d', hd'⟩ := translateAddr_hart openEnv { megaHart with dtlb := d } 0x2000 false false
    intro va hva
    have hstate : (step openEnv (step openEnv ⟨megaHart, []⟩ (.translate 0x1000 false false))
        (.translate 0x2000 false false)).hart = { megaHart with dtlb := d' } := by
      change ((megaHart.translateAddr openEnv 0x1000 false false).2.translateAddr openEnv 0x2000 false false).2 = _
      rw [hd, hd']
    rw [hstate]
    exact megaRun_protocol d' va hva
  · cases rs1 with
    | none => rfl
    | some va => exact howed

/-- With a fence without address the fragments are gone. -/
theorem sfence_vma_honoured_all :
    Run.Along (step openEnv) (fun t op => t.Agrees openEnv op) ⟨megaHart, []⟩ (megaRun none) := by
  apply sfence_vma_honoured openEnv megaHart false 256
  apply Run.Along.and (megaRun_along none rfl)
  exact ⟨fun _ _ _ _ _ => rfl, fun _ _ _ _ _ => rfl, trivial, trivial, fun _ _ _ _ _ => rfl, trivial⟩

/-- A fence that names the first fragment leaves the second: the page is gone and is still translated. -/
theorem sfence_vma_leaves_fragment :
    Run.Along (step openEnv) (Protocol openEnv) ⟨megaHart, []⟩ (megaRun (some 0x1000)) ∧
      ¬ Run.Along (step openEnv) (Agrees openEnv) ⟨megaHart, []⟩ (megaRun (some 0x1000)) := by
  refine ⟨megaRun_along (some 0x1000) (by decide), fun h => ?_⟩
  have hstale := h.2.2.2.2.1
  revert hstale
  decide +kernel

end Fencing

end Pyremu
