import Mathlib.Data.List.Induction
import Pyremu.PmpViews

/-!
# Coherence of the PMP registers

The slice of a hart that is not stale holds the registers of that hart after
every step. The registers are those of the Python engine exactly along the runs
whose rounds write on every hart what they write on one.
-/

namespace Pyremu

open Table

/-! ## Bytes of a register -/

theorem decodePmpcfg_getLsbD (w : Word) (i b : Nat) :
    (decodePmpcfg w i).getLsbD b = (decide (b < 8) && w.getLsbD (i % 8 * 8 + b)) := by
  rw [decodePmpcfg, BitVec.getLsbD_setWidth, BitVec.getLsbD_ushiftRight]

theorem byte_getLsbD (b : Nat) : (0xff : Word).getLsbD b = decide (b < 8) := by
  by_cases hb : b < 64
  · revert b
    decide
  · rw [BitVec.getLsbD_of_ge _ _ (by omega), decide_eq_false (by omega)]

theorem decodePmpcfg_putCfgByte (w : Word) (i j : Nat) (x : BitVec 8) :
    decodePmpcfg (putCfgByte w i x) j = if i % 8 = j % 8 then x else decodePmpcfg w j := by
  apply BitVec.eq_of_getLsbD_eq
  intro b hb
  have hj : j % 8 * 8 + b < 64 := by omega
  simp only [decodePmpcfg_getLsbD, putCfgByte, BitVec.getLsbD_or, BitVec.getLsbD_and, BitVec.getLsbD_not,
    BitVec.getLsbD_shiftLeft, byte_getLsbD, BitVec.getLsbD_setWidth, hj, decide_true, Bool.true_and]
  by_cases hij : i % 8 = j % 8
  · have h1 : ¬ j % 8 * 8 + b < i % 8 * 8 := by omega
    have h2 : j % 8 * 8 + b - i % 8 * 8 = b := by omega
    simp only [if_pos hij, h1, h2, hb, decide_true, decide_false, Bool.not_false, Bool.true_and, Bool.not_true,
      Bool.and_false, Bool.false_or]
    rw [decide_eq_true (by omega : b < 64), Bool.true_and]
  · rw [if_neg hij, decodePmpcfg_getLsbD, decide_eq_true hb]
    by_cases hlt : j % 8 * 8 + b < i % 8 * 8
    · simp only [hlt, decide_true, Bool.not_true, Bool.false_and, Bool.not_false, Bool.and_true, Bool.or_false,
        Bool.true_and]
    · have h8 : ¬ j % 8 * 8 + b - i % 8 * 8 < 8 := by omega
      rw [BitVec.getLsbD_of_ge x _ (by omega)]
      simp only [h8, decide_false, Bool.and_false, Bool.not_false, Bool.and_true, Bool.or_false, Bool.true_and]

namespace PmpRegs

variable {n : Nat} {c c' : PmpRegs} {flatCfg : Nat → BitVec 8} {flatAddr : Nat → Word}

/-- Registers are equal when all their entries are. -/
theorem ext_iff : c = c' ↔ (∀ i, c.readCfg i = c'.readCfg i) ∧ ∀ k, c.readAddr k = c'.readAddr k := by
  constructor
  · rintro rfl
    exact ⟨fun _ => rfl, fun _ => rfl⟩
  · rintro ⟨hcfg, haddr⟩
    funext r
    cases r with
    | addr k => exact haddr k
    | cfg g =>
      apply BitVec.eq_of_getLsbD_eq
      intro b hb
      have hdiv : (g * 8 + b / 8) / 8 = g := by omega
      have hbit : (g * 8 + b / 8) % 8 * 8 + b % 8 = b := by omega
      have h := congrArg (fun x => x.getLsbD (b % 8)) (hcfg (g * 8 + b / 8))
      simp only [readCfg, hdiv, decodePmpcfg_getLsbD, hbit, decide_eq_true (Nat.mod_lt b (by omega : 0 < 8)),
        Bool.true_and] at h
      exact h

theorem readCfg_put (c : PmpRegs) (i : Nat) (x : BitVec 8) (j : Nat) :
    readCfg (Function.update c (.cfg (i / 8)) (putCfgByte (c (.cfg (i / 8))) i x)) j =
      if j = i then x else c.readCfg j := by
  rw [readCfg]
  by_cases hg : j / 8 = i / 8
  · rw [hg, Function.update_self, decodePmpcfg_putCfgByte]
    by_cases hij : j = i
    · rw [if_pos hij, if_pos (by rw [hij])]
    · rw [if_neg hij, if_neg (by omega), readCfg, hg]
  · have hr : PmpReg.cfg (j / 8) ≠ .cfg (i / 8) := by
      intro h
      exact hg (PmpReg.cfg.inj h)
    rw [Function.update_of_ne hr, if_neg (by rintro rfl; exact hg rfl)]
    rfl

theorem cfgLoop_readCfg (m j : Nat) :
    readCfg ((List.range m).foldl (fun c i =>
      Function.update c (.cfg (i / 8)) (putCfgByte (c (.cfg (i / 8))) i (flatCfg i))) c) j =
      if j < m then flatCfg j else c.readCfg j := by
  induction m with
  | zero => rfl
  | succ m ih =>
    rw [List.range_succ, List.foldl_append, List.foldl_cons, List.foldl_nil, readCfg_put, ih]
    by_cases hj : j = m
    · rw [if_pos hj, if_pos (by omega), hj]
    · rw [if_neg hj]
      by_cases hm : j < m
      · rw [if_pos hm, if_pos (by omega)]
      · rw [if_neg hm, if_neg (by omega)]

theorem cfgLoop_readAddr (m k : Nat) :
    readAddr ((List.range m).foldl (fun c i =>
      Function.update c (.cfg (i / 8)) (putCfgByte (c (.cfg (i / 8))) i (flatCfg i))) c) k = c.readAddr k := by
  induction m with
  | zero => rfl
  | succ m ih =>
    rw [List.range_succ, List.foldl_append, List.foldl_cons, List.foldl_nil, readAddr,
      Function.update_of_ne (by simp)]
    exact ih

theorem addrLoop_apply (m : Nat) (r : PmpReg) :
    (List.range m).foldl (fun c i => Function.update c (.addr i) (flatAddr i)) c r =
      match r with
      | .cfg _ => c r
      | .addr k => if k < m then flatAddr k else c r := by
  induction m with
  | zero => cases r <;> rfl
  | succ m ih =>
    rw [List.range_succ, List.foldl_append, List.foldl_cons, List.foldl_nil]
    cases r with
    | cfg g =>
      rw [Function.update_of_ne (by simp)]
      exact ih
    | addr k =>
      by_cases hk : k = m
      · subst hk
        rw [Function.update_self]
        exact (if_pos (Nat.lt_succ_self k)).symm
      · rw [Function.update_of_ne (by simpa using hk), ih]
        by_cases hm : k < m
        · simp only [hm, Nat.lt_succ_of_lt hm, if_true]
        · simp only [hm, show ¬ k < m + 1 by omega, if_false]

theorem syncFromFlat_readCfg (i : Nat) :
    (syncFromFlat n flatCfg flatAddr c).readCfg i = if i < n then flatCfg i else c.readCfg i := by
  have h := @cfgLoop_readCfg c flatCfg n i
  rw [← h, syncFromFlat, readCfg, addrLoop_apply]
  rfl

theorem syncFromFlat_readAddr (k : Nat) :
    (syncFromFlat n flatCfg flatAddr c).readAddr k = if k < n then flatAddr k else c.readAddr k := by
  have h := @cfgLoop_readAddr c flatCfg n k
  rw [← h, syncFromFlat, readAddr, addrLoop_apply]
  rfl

end PmpRegs

/-! ## The slices -/

/-- A cell of a slice lies within the slice of one hart only. -/
theorem slot_iff {a b n i : Nat} (hi : i < n) : a * n ≤ b * n + i ∧ b * n + i < a * n + n ↔ a = b := by
  constructor
  · rintro ⟨hlo, hhi⟩
    rcases Nat.lt_trichotomy a b with h | h | h
    · have := Nat.mul_le_mul_right n (Nat.succ_le_of_lt h)
      rw [Nat.succ_mul] at this
      omega
    · exact h
    · have := Nat.mul_le_mul_right n (Nat.succ_le_of_lt h)
      rw [Nat.succ_mul] at this
      omega
  · rintro rfl
    omega

namespace PmpViews

variable {total n : Nat} {v snap : PmpViews total}

/-- The slice of hart `h` holds the registers of the hart. -/
def Filled (n : Nat) (v : PmpViews total) (h : Fin total) : Prop :=
  ∀ i < n, v.cfgBuf (h * n + i) = (v.harts h).csrs.readCfg i ∧ v.addrBuf (h * n + i) = (v.harts h).csrs.readAddr i

/-- What is not stale is filled. -/
def Clean (n : Nat) (v : PmpViews total) : Prop := ∀ h, (v.harts h).cacheDirty = false → v.Filled n h

theorem fill_slot {α : Type*} (d : Nat → α) (f : Nat → α) (h h' : Fin total) {i : Nat} (hi : i < n) :
    fill d (h * n) n f (h' * n + i) = if h = h' then f i else d (h' * n + i) := by
  by_cases hh : h = h'
  · subst hh
    rw [fill_add, if_pos hi, if_pos rfl]
  · have hs := not_congr (slot_iff (a := h) (b := h') hi)
    rw [if_neg hh, fill_apply, if_neg]
    apply hs.mpr
    intro he
    exact hh (Fin.ext he)

theorem rebuildCache_csrs (h h' : Fin total) : ((v.rebuildCache n h).harts h').csrs = (v.harts h').csrs := by
  rw [rebuildCache]
  by_cases hh : h' = h
  · subst hh
    simp only [Function.update_self]
  · simp only [Function.update_of_ne hh]

theorem rebuildCache_dirty (h h' : Fin total) :
    ((v.rebuildCache n h).harts h').cacheDirty = if h' = h then false else (v.harts h').cacheDirty := by
  rw [rebuildCache]
  by_cases hh : h' = h
  · subst hh
    simp only [Function.update_self, if_true]
  · simp only [Function.update_of_ne hh, hh, if_false]

theorem rebuildCache_filled (h : Fin total) : (v.rebuildCache n h).Filled n h := by
  intro i hi
  rw [rebuildCache_csrs]
  simp only [rebuildCache, fill_slot _ _ _ _ hi, if_true, and_self]

theorem rebuildCache_filled_other {h h' : Fin total} (hh : h ≠ h') (hf : v.Filled n h') :
    (v.rebuildCache n h).Filled n h' := by
  intro i hi
  rw [rebuildCache_csrs]
  simp only [rebuildCache, fill_slot _ _ _ _ hi, if_neg hh]
  exact hf i hi

theorem refresh_csrs (h h' : Fin total) : ((v.refresh n h).harts h').csrs = (v.harts h').csrs := by
  rw [refresh]
  split
  · exact rebuildCache_csrs h h'
  · rfl

/-- A slice that was not stale stays so, and that of `h` no longer is. -/
theorem refresh_dirty {h h' : Fin total} (hd : h' = h ∨ (v.harts h').cacheDirty = false) :
    ((v.refresh n h).harts h').cacheDirty = false := by
  rw [refresh]
  split
  · rw [rebuildCache_dirty]
    by_cases hh : h' = h
    · exact if_pos hh
    · rw [if_neg hh]
      exact hd.resolve_left hh
  · rename_i hn
    rcases hd with rfl | hd
    · exact Bool.eq_false_iff.mpr hn
    · exact hd

theorem Clean.refresh (hc : v.Clean n) (h : Fin total) : (v.refresh n h).Clean n := by
  rw [PmpViews.refresh]
  split
  · intro h' hd
    by_cases hh : h = h'
    · subst hh
      exact rebuildCache_filled h
    · apply rebuildCache_filled_other hh
      apply hc
      rwa [rebuildCache_dirty, if_neg (Ne.symm hh)] at hd
  · exact hc

theorem Clean.refresh_filled (hc : v.Clean n) (h : Fin total) : (v.refresh n h).Filled n h :=
  hc.refresh h h (refresh_dirty (.inl rfl))

/-! ## Marshalling -/

theorem foldl_refresh_csrs (l : List (Fin total)) (h : Fin total) :
    ((l.foldl (PmpViews.refresh n) v).harts h).csrs = (v.harts h).csrs := by
  induction l generalizing v with
  | nil => rfl
  | cons a l ih =>
    rw [List.foldl_cons, ih, refresh_csrs]

theorem foldl_refresh_dirty {l : List (Fin total)} {h : Fin total}
    (hd : h ∈ l ∨ (v.harts h).cacheDirty = false) :
    ((l.foldl (PmpViews.refresh n) v).harts h).cacheDirty = false := by
  induction l generalizing v with
  | nil => exact hd.resolve_left List.not_mem_nil
  | cons a l ih =>
    apply ih
    rcases hd with hd | hd
    · rcases List.mem_cons.mp hd with rfl | hl
      · exact .inr (refresh_dirty (.inl rfl))
      · exact .inl hl
    · exact .inr (refresh_dirty (.inr hd))

theorem Clean.foldl_refresh (hc : v.Clean n) (l : List (Fin total)) :
    (l.foldl (PmpViews.refresh n) v).Clean n := by
  induction l generalizing v with
  | nil => exact hc
  | cons a l ih => exact ih (hc.refresh a)

theorem marshal_csrs (h : Fin total) : ((v.marshal n).harts h).csrs = (v.harts h).csrs := foldl_refresh_csrs _ h

theorem marshal_dirty (h : Fin total) : ((v.marshal n).harts h).cacheDirty = false :=
  foldl_refresh_dirty (.inl (List.mem_finRange h))

/-- At the start of a round every slice holds the registers of its hart. -/
theorem Clean.marshal_filled (hc : v.Clean n) (h : Fin total) : (v.marshal n).Filled n h :=
  hc.foldl_refresh _ h (marshal_dirty h)

/-! ## Writes of a round -/

theorem csrWrite_harts (w : PmpWrite total) : (v.csrWrite n w).harts = v.harts := by
  rw [csrWrite]
  split <;> rfl

theorem decodePmpcfg_congr (val : Word) {i j : Nat} (h : i % 8 = j % 8) :
    decodePmpcfg val i = decodePmpcfg val j := by
  rw [decodePmpcfg, decodePmpcfg, h]

theorem reg_isValid {w : PmpWrite total} {r : PmpReg} (h : w.reg n = some r) : r.isValid n = true :=
  (Option.filter_eq_some_iff.mp h).2

theorem csrWrite_cfgBuf (w : PmpWrite total) (h : Fin total) {i : Nat} (hi : i < n) :
    (v.csrWrite n w).cfgBuf (h * n + i) =
      if w.hart = h ∧ w.reg n = some (.cfg (i / 8)) then decodePmpcfg w.val i else v.cfgBuf (h * n + i) := by
  rw [csrWrite]
  cases hr : w.reg n with
  | none => rw [if_neg (by simp)]
  | some r =>
    cases r with
    | addr k => rw [if_neg (by simp)]
    | cfg g =>
      simp only [fill_apply, Option.some.injEq, PmpReg.cfg.injEq]
      by_cases hh : w.hart = h
      · subst hh
        by_cases hg : g = i / 8
        · rw [if_pos (by omega), if_pos ⟨rfl, hg⟩]
          apply decodePmpcfg_congr
          omega
        · rw [if_neg (by omega), if_neg fun hw => hg hw.2]
      · have hs := mt (slot_iff (a := w.hart) (b := h) hi).mp fun he => hh (Fin.ext he)
        rw [if_neg (by omega), if_neg fun hw => hh hw.1]

theorem csrWrite_addrBuf (w : PmpWrite total) (h : Fin total) {k : Nat} (hk : k < n) :
    (v.csrWrite n w).addrBuf (h * n + k) =
      if w.hart = h ∧ w.reg n = some (.addr k) then w.val else v.addrBuf (h * n + k) := by
  rw [csrWrite]
  cases hr : w.reg n with
  | none => rw [if_neg (by simp)]
  | some r =>
    cases r with
    | cfg g => rw [if_neg (by simp)]
    | addr j =>
      have hj : j < n := of_decide_eq_true (reg_isValid hr)
      simp only [Option.some.injEq, PmpReg.addr.injEq]
      by_cases hw : w.hart = h ∧ j = k
      · obtain ⟨rfl, rfl⟩ := hw
        rw [Function.update_self, if_pos ⟨rfl, rfl⟩]
      · rw [if_neg hw, Function.update_of_ne]
        intro he
        apply hw
        have hs : (w.hart : Nat) = h := (slot_iff (b := h) hk).mp (by omega)
        refine ⟨Fin.ext hs, ?_⟩
        rw [hs] at he
        omega

open PmpWrite

theorem lastTo_append (r : PmpReg) (ws : List (PmpWrite total)) (w : PmpWrite total) :
    lastTo n r (ws ++ [w]) = if w.reg n = some r then some w.val else lastTo n r ws := by
  rw [lastTo, List.filterMap_append]
  by_cases hr : w.reg n = some r
  · simp [hr]
  · simp [hr, lastTo]

theorem lastOf_append (h : Fin total) (r : PmpReg) (ws : List (PmpWrite total)) (w : PmpWrite total) :
    lastOf n h r (ws ++ [w]) = if w.hart = h ∧ w.reg n = some r then some w.val else lastOf n h r ws := by
  rw [lastOf, List.filter_append]
  by_cases hh : w.hart = h
  · rw [List.filter_cons_of_pos (by simpa using hh), List.filter_nil, lastTo_append]
    by_cases hr : w.reg n = some r
    · rw [if_pos hr, if_pos ⟨hh, hr⟩]
    · rw [if_neg hr, if_neg fun hw => hr hw.2]
      rfl
  · rw [List.filter_cons_of_neg (by simpa using hh), List.filter_nil, List.append_nil, if_neg fun hw => hh hw.1]
    rfl

/-- No write reaches a register whose entries are all past the last one. -/
theorem lastTo_eq_none {r : PmpReg} (hr : r.isValid n = false) (ws : List (PmpWrite total)) :
    lastTo n r ws = none := by
  induction ws using List.reverseRecOn with
  | nil => rfl
  | append_singleton ws w ih =>
    rw [lastTo_append, ih, if_neg]
    intro hw
    rw [reg_isValid hw] at hr
    cases hr

variable (ws : List (PmpWrite total))

theorem foldl_csrWrite_harts : (ws.foldl (csrWrite n) v).harts = v.harts := by
  induction ws generalizing v with
  | nil => rfl
  | cons w ws ih => rw [List.foldl_cons, ih, csrWrite_harts]

/-- The slice of a hart holds the last value that the hart wrote. -/
theorem foldl_csrWrite_cfgBuf (h : Fin total) {i : Nat} (hi : i < n) :
    (ws.foldl (csrWrite n) v).cfgBuf (h * n + i) =
      ((lastOf n h (.cfg (i / 8)) ws).map fun x => decodePmpcfg x i).getD (v.cfgBuf (h * n + i)) := by
  induction ws using List.reverseRecOn with
  | nil => rfl
  | append_singleton ws w ih =>
    rw [List.foldl_append, List.foldl_cons, List.foldl_nil, csrWrite_cfgBuf _ _ hi, lastOf_append, ih]
    by_cases hw : w.hart = h ∧ w.reg n = some (.cfg (i / 8))
    · rw [if_pos hw, if_pos hw]
      rfl
    · rw [if_neg hw, if_neg hw]

theorem foldl_csrWrite_addrBuf (h : Fin total) {k : Nat} (hk : k < n) :
    (ws.foldl (csrWrite n) v).addrBuf (h * n + k) = (lastOf n h (.addr k) ws).getD (v.addrBuf (h * n + k)) := by
  induction ws using List.reverseRecOn with
  | nil => rfl
  | append_singleton ws w ih =>
    rw [List.foldl_append, List.foldl_cons, List.foldl_nil, csrWrite_addrBuf _ _ hk, lastOf_append, ih]
    by_cases hw : w.hart = h ∧ w.reg n = some (.addr k)
    · rw [if_pos hw, if_pos hw]
      rfl
    · rw [if_neg hw, if_neg hw]

/-! ## The same writes in the Python engine -/

theorem writePmpCsr_harts (self : Fin total) (r : PmpReg) (val : Word) :
    (v.writePmpCsr self r val).harts = fun h => putReg r val (v.harts h) := by
  rw [writePmpCsr, forEach_finRange]
  funext h
  by_cases hh : h = self
  · subst hh
    simp only [if_true, Function.update_self]
  · simp only [hh, if_false, Function.update_of_ne hh]

theorem execute_csrs (w : PmpWrite total) (h : Fin total) (r : PmpReg) :
    ((v.execute n w).harts h).csrs r = if w.reg n = some r then w.val else (v.harts h).csrs r := by
  rw [execute]
  cases hw : w.reg n with
  | none => rw [if_neg (by simp)]
  | some r' =>
    simp only [writePmpCsr_harts, putReg, Option.some.injEq]
    by_cases hr : r' = r
    · subst hr
      rw [Function.update_self, if_pos rfl]
    · rw [Function.update_of_ne (Ne.symm hr), if_neg hr]

/-- All harts have the last value written. -/
theorem foldl_execute_csrs (h : Fin total) (r : PmpReg) :
    ((ws.foldl (execute n) v).harts h).csrs r = (lastTo n r ws).getD ((v.harts h).csrs r) := by
  induction ws using List.reverseRecOn with
  | nil => rfl
  | append_singleton ws w ih =>
    rw [List.foldl_append, List.foldl_cons, List.foldl_nil, execute_csrs, lastTo_append, ih]
    by_cases hw : w.reg n = some r
    · rw [if_pos hw, if_pos hw]
      rfl
    · rw [if_neg hw, if_neg hw]

theorem Clean.execute (hc : v.Clean n) (w : PmpWrite total) : (v.execute n w).Clean n := by
  rw [PmpViews.execute]
  split
  · exact hc
  · intro h hd
    rw [writePmpCsr_harts] at hd
    cases hd

/-! ## Unmarshalling -/

theorem unmarshal_bufs : (unmarshal n snap v).cfgBuf = v.cfgBuf ∧ (unmarshal n snap v).addrBuf = v.addrBuf := by
  rw [unmarshal]
  split
  · exact ⟨rfl, rfl⟩
  · split
    · exact ⟨rfl, rfl⟩
    · exact ⟨rfl, rfl⟩

/-- The registers of a hart that hold its slice. -/
def HoldsSlice (n : Nat) (v : PmpViews total) (h : Fin total) (c c' : PmpRegs) : Prop :=
  (∀ i, c'.readCfg i = if i < n then v.cfgBuf (h * n + i) else c.readCfg i) ∧
  ∀ k, c'.readAddr k = if k < n then v.addrBuf (h * n + k) else c.readAddr k

/-- A slice that has not changed since it held the registers needs no copy. -/
theorem holdsSlice_self {h : Fin total} (hf : snap.Filled n h) (hh : v.harts = snap.harts)
    (hs : SameSlice n snap v h) : v.HoldsSlice n h (v.harts h).csrs (v.harts h).csrs := by
  constructor
  · intro i
    by_cases hi : i < n
    · rw [if_pos hi, (hs i hi).1, (hf i hi).1, hh]
    · rw [if_neg hi]
  · intro k
    by_cases hk : k < n
    · rw [if_pos hk, (hs k hk).2, (hf k hk).2, hh]
    · rw [if_neg hk]

/-- After the round the registers hold the slices, copied or not. -/
theorem unmarshal_csrs {h : Fin total} (hf : snap.Filled n h) (hh : v.harts = snap.harts) :
    v.HoldsSlice n h (v.harts h).csrs ((unmarshal n snap v).harts h).csrs := by
  rw [unmarshal]
  split
  · rename_i hn
    apply holdsSlice_self hf hh
    intro i hi
    omega
  · split
    · rename_i hall
      apply holdsSlice_self hf hh
      intro i hi
      apply hall
      have hlt := Nat.mul_le_mul_right n (Nat.succ_le_of_lt h.isLt)
      rw [Nat.succ_mul, Nat.mul_comm total n] at hlt
      omega
    · rw [forEach_finRange]
      simp only
      split
      · rename_i hs
        exact holdsSlice_self hf hh hs
      · constructor
        · intro i
          rw [PmpRegs.syncFromFlat_readCfg]
        · intro k
          rw [PmpRegs.syncFromFlat_readAddr]

/-! ## A round -/

variable {ws : List (PmpWrite total)}

theorem nativeRound_holdsSlice (hc : v.Clean n) (h : Fin total) :
    (ws.foldl (csrWrite n) (v.marshal n)).HoldsSlice n h (v.harts h).csrs ((v.nativeRound n ws).harts h).csrs := by
  have hu := unmarshal_csrs (hc.marshal_filled h) (foldl_csrWrite_harts (n := n) (v := v.marshal n) ws)
  rwa [foldl_csrWrite_harts, marshal_csrs] at hu

theorem Clean.nativeRound (hc : v.Clean n) : (v.nativeRound n ws).Clean n := by
  intro h _ i hi
  obtain ⟨hcfg, haddr⟩ := @nativeRound_holdsSlice _ _ _ ws hc h
  rw [hcfg, haddr, if_pos hi, if_pos hi, PmpViews.nativeRound, unmarshal_bufs.1, unmarshal_bufs.2]
  exact ⟨rfl, rfl⟩

/-- A round leaves in an entry what the hart's own last write left. -/
theorem nativeRound_readCfg (hc : v.Clean n) (h : Fin total) (i : Nat) :
    ((v.nativeRound n ws).harts h).csrs.readCfg i =
      if i < n then decodePmpcfg ((lastOf n h (.cfg (i / 8)) ws).getD ((v.harts h).csrs (.cfg (i / 8)))) i
      else (v.harts h).csrs.readCfg i := by
  rw [(nativeRound_holdsSlice hc h).1]
  by_cases hi : i < n
  · rw [if_pos hi, if_pos hi, foldl_csrWrite_cfgBuf _ _ hi, (hc.marshal_filled h i hi).1, marshal_csrs]
    cases lastOf n h (.cfg (i / 8)) ws with
    | none => rfl
    | some x => rfl
  · rw [if_neg hi, if_neg hi]

theorem nativeRound_readAddr (hc : v.Clean n) (h : Fin total) (k : Nat) :
    ((v.nativeRound n ws).harts h).csrs.readAddr k =
      (lastOf n h (.addr k) ws).getD ((v.harts h).csrs (.addr k)) := by
  rw [(nativeRound_holdsSlice hc h).2]
  by_cases hk : k < n
  · rw [if_pos hk, foldl_csrWrite_addrBuf _ _ hk, (hc.marshal_filled h k hk).2, marshal_csrs]
    rfl
  · have hv : (PmpReg.addr k).isValid n = false := decide_eq_false hk
    rw [if_neg hk, lastOf, lastTo_eq_none hv]
    rfl

/-- The round does to the registers what the Python engine does exactly when it meets the condition. -/
theorem nativeRound_mirrors_iff {p : PmpViews total} (hc : v.Clean n)
    (hm : ∀ h, (v.harts h).csrs = (p.harts h).csrs) :
    (∀ h, ((v.nativeRound n ws).harts h).csrs = ((ws.foldl (PmpViews.execute n) p).harts h).csrs) ↔
      v.RoundMeets n ws := by
  apply forall_congr'
  intro h
  rw [PmpRegs.ext_iff]
  apply and_congr
  · apply forall_congr'
    intro i
    have hp : ((ws.foldl (PmpViews.execute n) p).harts h).csrs.readCfg i =
        decodePmpcfg ((lastTo n (.cfg (i / 8)) ws).getD ((v.harts h).csrs (.cfg (i / 8)))) i := by
      rw [PmpRegs.readCfg, foldl_execute_csrs, hm]
    rw [nativeRound_readCfg hc, hp]
    exact eq_comm
  · apply forall_congr'
    intro k
    have hp : ((ws.foldl (PmpViews.execute n) p).harts h).csrs.readAddr k =
        (lastTo n (.addr k) ws).getD ((v.harts h).csrs (.addr k)) := by
      rw [PmpRegs.readAddr, foldl_execute_csrs, hm]
    rw [nativeRound_readAddr hc, hp]
    exact eq_comm

end PmpViews

/-! ## Runs -/

namespace PmpBoard

variable {total n : Nat} {s : PmpBoard total}

theorem coherent_of_clean (hc : s.views.Clean n) : s.Coherent n := by
  intro h i hi
  have hf := hc.refresh_filled h i hi
  rwa [PmpViews.refresh_csrs] at hf

theorem clean_step (hc : s.views.Clean n) (a : PmpStep total) : (s.step n a).views.Clean n := by
  cases a with
  | python w => exact hc.execute w
  | check h => exact hc.refresh h
  | round ws => exact hc.nativeRound

theorem mirrors_step_iff (hc : s.views.Clean n) (hm : s.Mirrors) (a : PmpStep total) :
    (s.step n a).Mirrors ↔ s.Meets n a := by
  cases a with
  | python w =>
    apply iff_of_true _ trivial
    intro h
    funext r
    change ((s.views.execute n w).harts h).csrs r = ((s.python.execute n w).harts h).csrs r
    rw [PmpViews.execute_csrs, PmpViews.execute_csrs, hm h]
  | check h =>
    apply iff_of_true _ trivial
    intro h'
    change ((s.views.refresh n h).harts h').csrs = (s.python.harts h').csrs
    rw [PmpViews.refresh_csrs]
    exact hm h'
  | round ws => exact PmpViews.nativeRound_mirrors_iff hc hm

theorem bound_clean (csrs : Fin total → PmpRegs) (cfgBuf : Nat → BitVec 8) (addrBuf : Nat → Word) :
    (bound csrs cfgBuf addrBuf).views.Clean n := by
  intro h hd
  cases hd

/-- Whatever the rounds write, the slices hold the registers. -/
theorem coherent_always (csrs : Fin total → PmpRegs) (cfgBuf : Nat → BitVec 8) (addrBuf : Nat → Word)
    (l : List (PmpStep total)) : Run.Always (step n) (Coherent n) (bound csrs cfgBuf addrBuf) l := by
  apply Run.always_of_invariant (I := fun s => s.views.Clean n) (G := fun _ _ => True)
  · intro s a hc _
    exact clean_step hc a
  · intro s hc
    exact coherent_of_clean hc
  · exact bound_clean csrs cfgBuf addrBuf
  · exact Run.along_true

/-- One hart with whole groups of entries has nobody to miss a write. -/
theorem meets_single (hn : n % 8 = 0) (s : PmpBoard 1) (a : PmpStep 1) : s.Meets n a := by
  cases a with
  | python w => trivial
  | check h => trivial
  | round ws =>
    intro h
    have hall : ∀ r, PmpWrite.lastOf n h r ws = PmpWrite.lastTo n r ws := by
      intro r
      rw [PmpWrite.lastOf, List.filter_eq_self.mpr]
      intro w _
      exact decide_eq_true (Subsingleton.elim w.hart h)
    constructor
    · intro i
      by_cases hi : i < n
      · rw [if_pos hi, hall]
      · have hv : (PmpReg.cfg (i / 8)).isValid n = false := decide_eq_false (by omega)
        rw [if_neg hi, PmpViews.lastTo_eq_none hv]
        rfl
    · intro k
      rw [hall]

/-- The slices hold the registers and the registers are those of the Python engine after every step
exactly when each round writes on every hart what it writes on one. -/
theorem views_agree_iff (total n : Nat) (csrs : Fin total → PmpRegs) (cfgBuf : Nat → BitVec 8)
    (addrBuf : Nat → Word) (l : List (PmpStep total)) :
    Run.Always (step n) (fun s => s.Coherent n ∧ s.Mirrors) (bound csrs cfgBuf addrBuf) l ↔
      Run.Along (step n) (Meets n) (bound csrs cfgBuf addrBuf) l := by
  apply Run.always_iff_along (I := fun s => s.views.Clean n) (G := fun _ _ => True)
  · intro s a hc _
    exact clean_step hc a
  · intro s a hc _ hq
    rw [and_iff_right (coherent_of_clean (clean_step hc a))]
    exact mirrors_step_iff hc hq.2 a
  · exact bound_clean csrs cfgBuf addrBuf
  · constructor
    · exact coherent_of_clean (bound_clean csrs cfgBuf addrBuf)
    · intro h
      rfl
  · exact Run.along_true

/-- Two harts with 16 entries each: hart 0 sets `pmpaddr0` in a round and hart 1 keeps its own. -/
theorem native_write_stays_local :
    ¬ Run.Always (step 16) (fun s => s.Coherent 16 ∧ s.Mirrors)
      (bound (fun _ _ => 0) (fun _ => 0) fun _ => 0 : PmpBoard 2) [.round [⟨0, 0x3b0, 5⟩]] := by
  intro hall
  have hm := congrFun (hall.2.2 1) (.addr 0)
  revert hm
  decide +kernel

end PmpBoard

end Pyremu
