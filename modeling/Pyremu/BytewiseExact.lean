import Pyremu.Bytewise

/-!
# Loads and stores that are their bytes

Where the checks agree the bytes of the access are found one behind the other
on each page, so that the values read and the RAM left behind are the same.
-/

namespace Pyremu

open ByteMem (writeLe)

theorem AccessOutcome.raised {w : World} {r : World × Word} (h : AccessOutcome w.hart r) (hz : r.2 = 0) :
    Raised w r := by
  obtain ⟨hv, _⟩ | ht := h
  · rw [hz] at hv
    rcases hv with hv | hv <;> cases hv
  · exact ht

/-! ## The second page -/

section Second

variable {cfg : Features} {w w1 w2 : World} {rwx : Rwx} {va pa v : Word} {size n : Nat}
  {t t2 : TranslateResult}

theorem translateAccess_isSome (ac ft pt : Word) :
    (translateAccess cfg w (va + BitVec.ofNat 64 (bytesFirst va)) rwx (size - bytesFirst va)
      ac ft pt).2.isSome = secondGranted cfg w va size rwx := by
  rw [translateAccess, secondGranted]
  rcases w.translate cfg (va + BitVec.ofNat 64 (bytesFirst va)) rwx with ⟨w2, f | t2⟩
  · rfl
  · dsimp only
    cases pmpOk w2.hart t2.pa (size - bytesFirst va) (hasWrite rwx) false w2.pmp <;> rfl

theorem loadRam_isSome : (loadRam cfg w va pa size).2.isSome =
    (!crossesPage va size || secondGranted cfg w va size .read) := by
  rw [loadRam]
  cases crossesPage va size with
  | false =>
    rw [if_neg Bool.false_ne_true]
    split_ifs <;> rfl
  | true =>
    rw [if_pos rfl, readRamCrossPage, ← translateAccess_isSome Exc.ldAccessFault
      (va + BitVec.ofNat 64 (bytesFirst va)) va]
    rcases translateAccess cfg w (va + BitVec.ofNat 64 (bytesFirst va)) .read (size - bytesFirst va)
      Exc.ldAccessFault (va + BitVec.ofNat 64 (bytesFirst va)) va with ⟨w2, _ | pa2⟩ <;> rfl

theorem storeRam_isTrue : (storeRam cfg w va pa v size).2 =
    (!crossesPage va size || secondGranted cfg
      { w with mem := ramWriteBytes w.mem pa v (bytesFirst va) } va size .write) := by
  rw [storeRam]
  cases crossesPage va size with
  | false =>
    rw [if_neg Bool.false_ne_true]
    split_ifs <;> rfl
  | true =>
    rw [if_pos rfl, writeRamCrossPage, ← translateAccess_isSome Exc.stAccessFault
      (va + BitVec.ofNat 64 (bytesFirst va)) va]
    rcases translateAccess cfg { w with mem := ramWriteBytes w.mem pa v (bytesFirst va) }
      (va + BitVec.ofNat 64 (bytesFirst va)) .write (size - bytesFirst va)
      Exc.stAccessFault (va + BitVec.ofNat 64 (bytesFirst va)) va with ⟨w2, _ | pa2⟩ <;> rfl

end Second

/-! ## The handlers -/

section Handlers

variable {cfg : Features} {w w1 : World} {f : DecodedFields} {instr : BitVec 32} {size : Nat}
  {signed : Bool} {t : TranslateResult}

theorem handleLoad_tail (hk : loadKind f.func3 = some (size, signed))
    (ht : w.translate cfg (loadAddr w f) .read = (w1, .ok t)) (ho : OutsideDevices cfg w1 t.pa) :
    handleLoad cfg w f instr = (if RangeGranted w1 t.pa size .read then
        match loadRam cfg w1 (loadAddr w f) t.pa size with
        | (w2, none) => (w2, 0)
        | (w2, some v) => (w2.writeGpr f.rd (extendLoad size signed v), 4)
      else (w1.trap Exc.ldAccessFault (loadAddr w f), 0) : World × Word) := by
  rw [loadAddr] at ht
  simp only [handleLoad, hk, translateAccess, ht, loadAddr]
  by_cases hp : pmpOk w1.hart t.pa size (hasWrite .read) false w1.pmp = true
  · rw [if_pos hp]
    dsimp only
    rw [ho.deviceLoad]
    dsimp only
    rw [loadTail, if_neg (by rw [ho.windows]; exact Bool.false_ne_true)]
    cases hr : HartSched.ramOffset w1.mem.toLayout t.pa size with
    | none =>
      rw [if_pos (show (none : Option Word).isNone = true from rfl),
        if_neg fun h => by have := h.2; rw [hr] at this; cases this]
    | some off =>
      exact (if_neg (show ¬ (some off).isNone = true from Bool.false_ne_true)).trans
        (if_pos ⟨hp, by rw [hr]; rfl⟩).symm
  · rw [if_neg hp, if_neg fun h => hp h.1]

theorem handleLoad_fault (hk : loadKind f.func3 = some (size, signed)) {e : TranslateFault}
    (ht : w.translate cfg (loadAddr w f) .read = (w1, .error e)) :
    (handleLoad cfg w f instr).2 = 0 := by
  rw [loadAddr] at ht
  simp only [handleLoad, hk, translateAccess, ht]

/-- A load goes on exactly when the checks of the whole access grant it. -/
theorem handleLoad_granted (instr : BitVec 32) (hk : loadKind f.func3 = some (size, signed))
    (hdev : ∀ w1 t, w.translate cfg (loadAddr w f) .read = (w1, .ok t) → OutsideDevices cfg w1 t.pa) :
    (handleLoad cfg w f instr).2 = if loadGranted cfg w (loadAddr w f) size then 4 else 0 := by
  rw [loadGranted, wholeGranted]
  rcases ht : w.translate cfg (loadAddr w f) .read with ⟨w1, e | t⟩
  · exact handleLoad_fault hk ht
  · rw [handleLoad_tail hk ht (hdev w1 t ht)]
    dsimp only
    have hsome : (loadRam cfg w1 (loadAddr w f) t.pa size).2.isSome =
        (!crossesPage (loadAddr w f) size || secondGranted cfg w1 (loadAddr w f) size .read) :=
      loadRam_isSome
    by_cases hg : RangeGranted w1 t.pa size .read
    · simp only [hg, if_true, decide_true, Bool.true_and, ← hsome]
      rcases loadRam cfg w1 (loadAddr w f) t.pa size with ⟨w2, _ | v⟩ <;> rfl
    · simp only [hg, if_false, decide_false, Bool.false_and]
      rfl

theorem handleStore_tail (hk : storeSize f.func3 = some size)
    (ht : w.translate cfg (storeAddr w f) .write = (w1, .ok t)) (ho : OutsideDevices cfg w1 t.pa) :
    handleStore cfg w f instr = (if RangeGranted w1 t.pa size .write then
        match storeRam cfg w1 (storeAddr w f) t.pa (readGpr w1.hart f.rs2) size with
        | (w2, false) => (w2, 0)
        | (w2, true) => (w2, 4)
      else (w1.trap Exc.stAccessFault (storeAddr w f), 0) : World × Word) := by
  rw [storeAddr] at ht
  simp only [handleStore, hk, translateAccess, ht, storeAddr]
  by_cases hp : pmpOk w1.hart t.pa size (hasWrite .write) false w1.pmp = true
  · rw [if_pos hp]
    dsimp only
    rw [ho.deviceStore]
    dsimp only
    rw [storeTail, if_neg (by rw [ho.windows]; exact Bool.false_ne_true)]
    cases hr : HartSched.ramOffset w1.mem.toLayout t.pa size with
    | none =>
      rw [if_pos (show (none : Option Word).isNone = true from rfl),
        if_neg fun h => by have := h.2; rw [hr] at this; cases this]
    | some off =>
      exact (if_neg (show ¬ (some off).isNone = true from Bool.false_ne_true)).trans
        (if_pos ⟨hp, by rw [hr]; rfl⟩).symm
  · rw [if_neg hp, if_neg fun h => hp h.1]

theorem handleStore_fault (hk : storeSize f.func3 = some size) {e : TranslateFault}
    (ht : w.translate cfg (storeAddr w f) .write = (w1, .error e)) :
    (handleStore cfg w f instr).2 = 0 := by
  rw [storeAddr] at ht
  simp only [handleStore, hk, translateAccess, ht]

/-- Translation leaves the registers. -/
theorem readGpr_translated {va : Word} {rwx : Rwx} (ht : w.translate cfg va rwx = (w1, .ok t))
    (rs : BitVec 5) : readGpr w1.hart rs = readGpr w.hart rs := by
  have hfr := (w.translate_frame cfg va rwx).hart
  rw [ht] at hfr
  rw [readGpr, readGpr, hfr.gprs]

theorem handleStore_granted (instr : BitVec 32) (hk : storeSize f.func3 = some size)
    (hdev : ∀ w1 t, w.translate cfg (storeAddr w f) .write = (w1, .ok t) → OutsideDevices cfg w1 t.pa) :
    (handleStore cfg w f instr).2 =
      if storeGranted cfg w (storeAddr w f) (readGpr w.hart f.rs2) size then 4 else 0 := by
  rw [storeGranted, wholeGranted]
  rcases ht : w.translate cfg (storeAddr w f) .write with ⟨w1, e | t⟩
  · exact handleStore_fault hk ht
  · rw [handleStore_tail hk ht (hdev w1 t ht), readGpr_translated ht]
    dsimp only
    have htrue : (storeRam cfg w1 (storeAddr w f) t.pa (readGpr w.hart f.rs2) size).2 = _ := storeRam_isTrue
    by_cases hg : RangeGranted w1 t.pa size .write
    · simp only [hg, if_true, decide_true, Bool.true_and, ← htrue]
      rcases storeRam cfg w1 (storeAddr w f) t.pa (readGpr w.hart f.rs2) size with ⟨w2, _ | _⟩ <;> rfl
    · simp only [hg, if_false, decide_false, Bool.false_and]
      rfl

end Handlers

/-! ## What the bytes have -/

section Outcomes

variable {cfg : Features} {w w1 w2 : World} {rwx : Rwx} {va : Word} {size n : Nat} {t : TranslateResult}
  {eff : Nat → ByteOutcome → WalkCtx → WalkCtx} {m : Mode}

/-- The first byte is judged where the access itself is translated to. -/
theorem byteSeq_head (ht : w.translate cfg va rwx = (w1, .ok t)) (hpos : 1 ≤ n) :
    judgeByte cfg w1 t.pa rwx ∈ (byteSeq cfg rwx eff w va n).2.1 := by
  apply byteSeq_mem_of_le eff hpos
  rw [byteSeq_succ]
  dsimp only [byteSeq]
  rw [BitVec.add_zero, byteAccess, ht]
  exact List.mem_singleton_self _

/-- Without a byte in a device window the address of the access is none either. -/
theorem byteSeq_outside (hno : ∀ o ∈ (byteSeq cfg rwx eff w va n).2.1, o ≠ .device) (hpos : 1 ≤ n)
    (w1 : World) (t : TranslateResult) (ht : w.translate cfg va rwx = (w1, .ok t)) :
    OutsideDevices cfg w1 t.pa :=
  judgeByte_device.mp (hno _ (byteSeq_head ht hpos))

/-- Bytes that all succeed lie one behind the other. -/
theorem judgeFrom_done {pa : Word}
    (h : ∀ o ∈ (List.range n).map (judgeFrom cfg w pa rwx), o.isDone = true) :
    ∀ k < n, judgeFrom cfg w pa rwx k = .done (pa + BitVec.ofNat 64 k) := by
  intro k hk
  apply judgeByte_done
  exact h _ (List.mem_map_of_mem (List.mem_range.mpr hk))

theorem AccessSize.pos (h : AccessSize n) : 1 ≤ n := by
  rcases h with rfl | rfl | rfl | rfl <;> omega

theorem AccessSize.le (h : AccessSize n) : n ≤ 8 := by
  rcases h with rfl | rfl | rfl | rfl <;> omega

/-- An aligned virtual address has an aligned physical address. -/
theorem aligned_pa {pa : Word} (hsize : AccessSize size) (ho : pageOffset pa = pageOffset va)
    (ha : aligned va size = true) : pa.toNat % size = 0 := by
  have hva : va.toNat % size = 0 := of_decide_eq_true ha
  rw [pageOffset, pageOffset] at ho
  rcases hsize with rfl | rfl | rfl | rfl <;> omega

end Outcomes

/-! ## Values -/

section Values

variable {cfg : Features} {w w1 : World} {va v : Word} {size : Nat} {t : TranslateResult} {m : Mode}

theorem Translated.placed {w w' : World} (h : Translated w w') (hl : w.mem.Placed) : w'.mem.Placed := by
  rw [h.mem.toLayout]
  exact hl

/-- On one page RAM is read as its bytes are, aligned or not. -/
theorem loadRam_page (hsize : AccessSize size) (hl : w1.mem.Placed) {pa : Word}
    (ho : pageOffset pa = pageOffset va) (hx : crossesPage va size = false)
    (hw : (HartSched.ramOffset w1.mem.toLayout pa size).isSome = true)
    (hb : (HartSched.ramOffset w1.mem.toLayout pa 1).isSome = true) :
    loadRam cfg w1 va pa size = (w1, some (ramReadBytes w1.mem pa size)) := by
  rw [loadRam, hx, if_neg Bool.false_ne_true]
  by_cases ha : aligned va size = true
  · rw [if_pos ha, ramReadRaw_bytes hl hsize (aligned_pa hsize ho ha) hw hb]
  · rw [if_neg ha]

theorem storeRam_page (hsize : AccessSize size) (hl : w1.mem.Placed) {pa : Word}
    (ho : pageOffset pa = pageOffset va) (hx : crossesPage va size = false)
    (hw : (HartSched.ramOffset w1.mem.toLayout pa size).isSome = true)
    (hb : (HartSched.ramOffset w1.mem.toLayout pa 1).isSome = true) :
    storeRam cfg w1 va pa v size = ({ w1 with mem := ramWriteBytes w1.mem pa v size }, true) := by
  rw [storeRam, hx, if_neg Bool.false_ne_true]
  by_cases ha : aligned va size = true
  · rw [if_pos ha, ramWriteRaw_bytes hl hsize (aligned_pa hsize ho ha) hw hb]
  · rw [if_neg ha]

/-- A granted load whose bytes all succeed reads what they read. -/
theorem loadRam_bytes (hda : DataAccess cfg w m .read) (hl : w.mem.Placed) (hsize : AccessSize size)
    (ht : w.translate cfg va .read = (w1, .ok t)) (hg : loadGranted cfg w va size = true)
    (hd : ∀ o ∈ (loadBytes cfg w va size).2.1, o.isDone = true) :
    ∃ h, loadRam cfg w1 va t.pa size =
      ((loadBytes cfg w va size).1.withHits h, some (loadBytes cfg w va size).2.2) := by
  have hfr := w.translate_frame cfg va .read
  have hres := w.translate_result cfg va .read
  rw [ht] at hfr hres
  have hl1 : w1.mem.Placed := hfr.placed hl
  rw [loadGranted, wholeGranted, ht] at hg
  obtain ⟨hr, hsecond⟩ := Bool.and_eq_true_iff.mp hg
  have hrange : RangeGranted w1 t.pa size .read := of_decide_eq_true hr
  rw [loadBytes] at hd ⊢
  have hfirst := judgeByte_isDone.mp (hd _ (byteSeq_head ht hsize.pos))
  cases hx : crossesPage va size with
  | false =>
    have hoff : (va &&& 0xFFF).toNat + size ≤ 0x1000 := Nat.le_of_not_lt (of_decide_eq_false hx)
    obtain ⟨h, hseq⟩ := byteSeq_page hda keepsLayout_load ht hsize.pos hoff
    rw [hseq] at hd ⊢
    rw [pageSeq_load (judgeFrom_done hd), loadRam_page hsize hl1 hres hx hrange.2 hfirst.2.2]
    exact ⟨w1.hart.dtlbHits, rfl⟩
  | true =>
    rw [hx, Bool.not_true, Bool.false_or, secondGranted] at hsecond
    obtain ⟨h1, hseq1⟩ := byteSeq_first hda keepsLayout_load ht
    have hle : bytesFirst va ≤ size := by
      have hlt : 0x1000 < (va &&& 0xFFF).toNat + size := of_decide_eq_true hx
      rw [bytesFirst]
      omega
    have hd1 := judgeFrom_done fun o ho => hd o (byteSeq_mem_of_le loadEffect hle (by rw [hseq1]; exact ho))
    rcases ht2 : w1.translate cfg (va + BitVec.ofNat 64 (bytesFirst va)) .read with ⟨w2, e | t2⟩
    · have heq : ({ w1 with mem := w1.mem } : World) = w1 := rfl
      rw [heq, ht2] at hsecond
      cases hsecond
    · have heq : ({ w1 with mem := w1.mem } : World) = w1 := rfl
      rw [heq, ht2] at hsecond
      obtain ⟨h, hseq⟩ := byteSeq_cross hda keepsLayout_load hsize.le hx ht (by
        rw [pageSeq_load hd1]
        exact ht2)
      rw [hseq] at hd ⊢
      have hd2 := judgeFrom_done fun o ho => hd o (List.mem_append_right _ ho)
      have heff : (fun k => loadEffect (bytesFirst va + k)) = loadEffect := rfl
      rw [heff, pageSeq_load hd1, pageSeq_load hd2, loadRam, hx, if_pos rfl, readRamCrossPage]
      dsimp only
      rw [translateAccess, ht2]
      dsimp only
      rw [if_pos hsecond]
      exact ⟨w2.hart.dtlbHits, rfl⟩

theorem storeEffect_zero (v : Word) : (fun k => storeEffect v (0 + k)) = storeEffect v := by
  funext k
  rw [Nat.zero_add]

theorem pageSeq_stored {o : Nat → ByteOutcome} {c : WalkCtx} {pa : Word} {n : Nat}
    (h : ∀ k < n, o k = .done (pa + BitVec.ofNat 64 k)) :
    (pageSeq o (storeEffect v) c n).1 = ramWriteBytes c pa v n := by
  have hstore := pageSeq_store (c := c) (v := v) (i := 0) h
  rw [storeEffect_zero, Nat.mul_zero, BitVec.ushiftRight_zero] at hstore
  exact hstore

/-- A granted store whose bytes all succeed leaves RAM as they do. -/
theorem storeRam_bytes (hda : DataAccess cfg w m .write) (hl : w.mem.Placed) (hsize : AccessSize size)
    (ht : w.translate cfg va .write = (w1, .ok t)) (hg : storeGranted cfg w va v size = true)
    (hd : ∀ o ∈ (storeBytes cfg w va v size).2.1, o.isDone = true) :
    ∃ h, storeRam cfg w1 va t.pa v size = ((storeBytes cfg w va v size).1.withHits h, true) := by
  have hfr := w.translate_frame cfg va .write
  have hres := w.translate_result cfg va .write
  rw [ht] at hfr hres
  have hl1 : w1.mem.Placed := hfr.placed hl
  rw [storeGranted, wholeGranted, ht] at hg
  obtain ⟨hr, hsecond⟩ := Bool.and_eq_true_iff.mp hg
  have hrange : RangeGranted w1 t.pa size .write := of_decide_eq_true hr
  rw [storeBytes] at hd ⊢
  have hfirst := judgeByte_isDone.mp (hd _ (byteSeq_head ht hsize.pos))
  cases hx : crossesPage va size with
  | false =>
    have hoff : (va &&& 0xFFF).toNat + size ≤ 0x1000 := Nat.le_of_not_lt (of_decide_eq_false hx)
    obtain ⟨h, hseq⟩ := byteSeq_page hda (keepsLayout_store v) ht hsize.pos hoff
    rw [hseq] at hd ⊢
    rw [pageSeq_stored (judgeFrom_done hd), storeRam_page hsize hl1 hres hx hrange.2 hfirst.2.2]
    exact ⟨w1.hart.dtlbHits, rfl⟩
  | true =>
    rw [hx, Bool.not_true, Bool.false_or, secondGranted] at hsecond
    obtain ⟨h1, hseq1⟩ := byteSeq_first hda (keepsLayout_store v) ht
    have hle : bytesFirst va ≤ size := by
      have hlt : 0x1000 < (va &&& 0xFFF).toNat + size := of_decide_eq_true hx
      rw [bytesFirst]
      omega
    have hd1 := judgeFrom_done fun o ho =>
      hd o (byteSeq_mem_of_le (storeEffect v) hle (by rw [hseq1]; exact ho))
    rcases ht2 : ({ w1 with mem := ramWriteBytes w1.mem t.pa v (bytesFirst va) } : World).translate cfg
      (va + BitVec.ofNat 64 (bytesFirst va)) .write with ⟨w2, e | t2⟩
    · rw [ht2] at hsecond
      cases hsecond
    · rw [ht2] at hsecond
      obtain ⟨h, hseq⟩ := byteSeq_cross hda (keepsLayout_store v) hsize.le hx ht (by
        rw [pageSeq_stored hd1]
        exact ht2)
      rw [hseq] at hd ⊢
      have hd2 := judgeFrom_done fun o ho => hd o (List.mem_append_right _ ho)
      rw [pageSeq_store hd2, storeRam, hx, if_pos rfl, writeRamCrossPage]
      dsimp only
      rw [translateAccess, ht2]
      dsimp only
      rw [if_pos hsecond]
      exact ⟨w2.hart.dtlbHits, rfl⟩

end Values

/-! ## The two ways to check -/

section Checks

variable {cfg : Features} {w w1 w2 : World} {rwx : Rwx} {va pa pa2 : Word} {size n : Nat} {m : Mode}
  {eff : Nat → ByteOutcome → WalkCtx → WalkCtx} {first : Word → WalkCtx → WalkCtx}

theorem bytesGranted_iff
    (hno : ∀ o ∈ (List.range n).map (judgeFrom cfg w pa rwx), o ≠ .device) :
    (∀ o ∈ (List.range n).map (judgeFrom cfg w pa rwx), o.isDone = true) ↔ BytesGranted w pa n rwx := by
  rw [BytesGranted]
  constructor
  · intro hd k hk
    exact (judgeByte_isDone.mp (hd _ (List.mem_map_of_mem (List.mem_range.mpr hk)))).2
  · intro hg o ho
    obtain ⟨k, hk, rfl⟩ := List.mem_map.mp ho
    exact judgeByte_isDone.mpr ⟨judgeByte_device.mp (hno _ ho), hg k (List.mem_range.mp hk)⟩

/-- What the bytes of the first page do to RAM, when they all succeed, is what the access does. -/
def FirstPage (cfg : Features) (w1 : World) (pa va : Word) (rwx : Rwx)
    (eff : Nat → ByteOutcome → WalkCtx → WalkCtx) (first : Word → WalkCtx → WalkCtx) : Prop :=
  (∀ k < bytesFirst va, judgeFrom cfg w1 pa rwx k = .done (pa + BitVec.ofNat 64 k)) →
    (pageSeq (judgeFrom cfg w1 pa rwx) eff w1.mem (bytesFirst va)).1 = first pa w1.mem

theorem mem_append_all {P : ByteOutcome → Prop} {l l' : List ByteOutcome} :
    (∀ o ∈ l ++ l', P o) ↔ (∀ o ∈ l, P o) ∧ (∀ o ∈ l', P o) :=
  List.forall_mem_append

/-- The second page does not translate: one of the bytes faults. -/
theorem byteSeq_cross_fault (hda : DataAccess cfg w m rwx) (heff : KeepsLayout eff)
    (hx : crossesPage va size = true) {t : TranslateResult} (ht : w.translate cfg va rwx = (w1, .ok t))
    {e : TranslateFault}
    (ht2 : ({ w1 with mem := (pageSeq (judgeFrom cfg w1 t.pa rwx) eff w1.mem (bytesFirst va)).1 }).translate
      cfg (va + BitVec.ofNat 64 (bytesFirst va)) rwx = (w2, .error e)) :
    .fault e ∈ (byteSeq cfg rwx eff w va size).2.1 := by
  have hlt : 0x1000 < (va &&& 0xFFF).toNat + size := of_decide_eq_true hx
  have hpage : (va &&& 0xFFF).toNat < 0x1000 := by
    rw [pageOffset_toNat]
    exact Nat.mod_lt _ (by decide)
  have hlen : bytesFirst va + (size - bytesFirst va) = size := by
    rw [bytesFirst]
    omega
  obtain ⟨h1, hseq⟩ := byteSeq_first hda heff ht
  generalize hV : ({ w1 with mem := (pageSeq (judgeFrom cfg w1 t.pa rwx) eff w1.mem (bytesFirst va)).1 } : World) = v
    at hseq ht2
  obtain ⟨h2, htr⟩ := @translate_hits cfg (va + BitVec.ofNat 64 (bytesFirst va)) rwx v h1
  rw [ht2] at htr
  have hadd := @byteSeq_add cfg rwx eff w va (bytesFirst va) (size - bytesFirst va)
  rw [hlen, hseq] at hadd
  rw [hadd]
  exact List.mem_append_right _ (byteSeq_fault htr (by rw [bytesFirst]; omega))

/-- The second page: its bytes are judged in the world that the first page leaves. -/
theorem secondAgrees_iff (hda : DataAccess cfg w m rwx) (heff : KeepsLayout eff) (hs : size ≤ 8)
    (hx : crossesPage va size = true) {t : TranslateResult} (ht : w.translate cfg va rwx = (w1, .ok t))
    (hfirst : FirstPage cfg w1 t.pa va rwx eff first)
    (hno : ∀ o ∈ (byteSeq cfg rwx eff w va size).2.1, o ≠ .device) :
    ((decide (RangeGranted w1 t.pa size rwx) &&
          secondGranted cfg { w1 with mem := first t.pa w1.mem } va size rwx) = true ↔
        ∀ o ∈ (byteSeq cfg rwx eff w va size).2.1, o.isDone = true) ↔
      SecondAgrees cfg w1 { w1 with mem := first t.pa w1.mem } t.pa va size rwx := by
  obtain ⟨h1, hseq1⟩ := byteSeq_first hda heff ht
  have hle : bytesFirst va ≤ size := by
    have hlt : 0x1000 < (va &&& 0xFFF).toNat + size := of_decide_eq_true hx
    rw [bytesFirst]
    omega
  have hsub {o : ByteOutcome} (ho : o ∈ (List.range (bytesFirst va)).map (judgeFrom cfg w1 t.pa rwx)) :
      o ∈ (byteSeq cfg rwx eff w va size).2.1 :=
    byteSeq_mem_of_le eff hle (by rw [hseq1]; exact ho)
  have hno1 := @bytesGranted_iff cfg w1 rwx t.pa (bytesFirst va) fun o ho => hno o (hsub ho)
  rw [secondGranted, SecondAgrees]
  by_cases hd1 : ∀ o ∈ (List.range (bytesFirst va)).map (judgeFrom cfg w1 t.pa rwx), o.isDone = true
  · have hmid := hfirst (judgeFrom_done hd1)
    rcases ht2 : ({ w1 with mem := first t.pa w1.mem } : World).translate cfg
      (va + BitVec.ofNat 64 (bytesFirst va)) rwx with ⟨w2, e | t2⟩
    · dsimp only
      rw [← hmid] at ht2
      rw [Bool.and_false]
      refine iff_of_true (iff_of_false Bool.false_ne_true fun hd => ?_) trivial
      have hfault := hd _ (byteSeq_cross_fault hda heff hx ht ht2)
      cases hfault
    · dsimp only
      rw [← hmid] at ht2
      obtain ⟨h, hseq⟩ := byteSeq_cross hda heff hs hx ht ht2
      rw [hseq] at hno ⊢
      dsimp only at hno ⊢
      have hno2 := bytesGranted_iff (mem_append_all.mp hno).2
      rw [CrossAgrees, Bool.and_eq_true_iff, decide_eq_true_iff, mem_append_all, hno1, hno2]
  · have hnot : ¬ ∀ o ∈ (byteSeq cfg rwx eff w va size).2.1, o.isDone = true :=
      fun h => hd1 fun o ho => h o (hsub ho)
    rcases ({ w1 with mem := first t.pa w1.mem } : World).translate cfg
      (va + BitVec.ofNat 64 (bytesFirst va)) rwx with ⟨w2, e | t2⟩
    · dsimp only
      rw [Bool.and_false]
      exact iff_of_true (iff_of_false Bool.false_ne_true hnot) trivial
    · dsimp only
      rw [CrossAgrees, Bool.and_eq_true_iff, decide_eq_true_iff, ← hno1]
      constructor
      · intro h
        exact iff_of_false (fun hg => hnot (h.mp hg)) fun hg => hd1 hg.1
      · intro h
        exact iff_of_false (fun hg => hd1 (h.mp hg).1) hnot

/-- Without bytes in a device window the two verdicts agree where PMP and RAM do. -/
theorem checksAgree_whole (hda : DataAccess cfg w m rwx) (heff : KeepsLayout eff) (hsize : AccessSize size)
    (hfirst : ∀ w1 t, w.translate cfg va rwx = (w1, .ok t) → FirstPage cfg w1 t.pa va rwx eff first) :
    ChecksAgree (wholeGranted cfg w va size rwx first) (byteSeq cfg rwx eff w va size).2.1 ↔
      ((∀ o ∈ (byteSeq cfg rwx eff w va size).2.1, o ≠ .device) →
        JudgedAsBytes cfg w va size rwx first) := by
  apply forall_congr'
  intro hno
  rw [wholeGranted, JudgedAsBytes]
  rcases ht : w.translate cfg va rwx with ⟨w1, e | t⟩
  · dsimp only
    refine iff_of_true (iff_of_false Bool.false_ne_true fun hd => ?_) trivial
    have hfault := hd _ (byteSeq_fault ht hsize.pos)
    cases hfault
  · dsimp only
    cases hx : crossesPage va size with
    | false =>
      have hoff : (va &&& 0xFFF).toNat + size ≤ 0x1000 := Nat.le_of_not_lt (of_decide_eq_false hx)
      obtain ⟨h, hseq⟩ := byteSeq_page hda heff ht hsize.pos hoff
      rw [hseq] at hno ⊢
      rw [if_neg Bool.false_ne_true, Bool.not_false, Bool.true_or, Bool.and_true, decide_eq_true_iff,
        bytesGranted_iff hno]
    | true =>
      rw [if_pos rfl, Bool.not_true, Bool.false_or]
      exact secondAgrees_iff hda heff hsize.le hx ht (hfirst w1 t ht) hno

end Checks

/-! ## The property -/

section Main

variable {cfg : Features} {w : World} {f : DecodedFields} {instr : BitVec 32} {size : Nat} {signed : Bool}
  {m : Mode}

theorem loadKind_size (h : loadKind f.func3 = some (size, signed)) : AccessSize size := by
  have hall : ∀ k : BitVec 3, ∀ p ∈ loadKind k, AccessSize p.1 := by
    simp only [AccessSize]
    decide
  exact hall f.func3 (size, signed) h

theorem storeSize_size (h : storeSize f.func3 = some size) : AccessSize size := by
  have hall : ∀ k : BitVec 3, ∀ n ∈ storeSize k, AccessSize n := by
    simp only [AccessSize]
    decide
  exact hall f.func3 size h

theorem loadIsBytes_iff (hda : DataAccess cfg w m .read) (hl : w.mem.Placed)
    (hk : loadKind f.func3 = some (size, signed)) :
    LoadIsBytes cfg w f instr size signed ↔
      ChecksAgree (loadGranted cfg w (loadAddr w f) size) (loadBytes cfg w (loadAddr w f) size).2.1 := by
  have hsize := loadKind_size hk
  have hout := handleLoad_outcome cfg w f instr
  rw [LoadIsBytes]
  apply checksAgree_iff
  · intro hg hd
    have hno : ∀ o ∈ (loadBytes cfg w (loadAddr w f) size).2.1, o ≠ .device := by
      rintro o ho rfl
      cases hd _ ho
    rcases ht : w.translate cfg (loadAddr w f) .read with ⟨w1, e | t⟩
    · rw [loadGranted, wholeGranted, ht] at hg
      cases hg
    · obtain ⟨h, hram⟩ := loadRam_bytes hda hl hsize ht hg hd
      rw [handleLoad_tail hk ht (byteSeq_outside hno hsize.pos w1 t ht), hram]
      rw [loadGranted, wholeGranted, ht] at hg
      rw [if_pos (of_decide_eq_true (Bool.and_eq_true_iff.mp hg).1)]
      exact ⟨h, rfl⟩
  · intro hg hno
    have hv := handleLoad_granted instr hk (byteSeq_outside hno hsize.pos)
    rw [hg] at hv
    exact hout.raised hv
  · intro hg hno ht
    have hv := handleLoad_granted instr hk (byteSeq_outside hno hsize.pos)
    rw [hg, ht.1] at hv
    cases hv
  · rintro ⟨h, hh⟩ ht
    rw [hh] at ht
    cases ht.1

theorem storeIsBytes_iff (hda : DataAccess cfg w m .write) (hl : w.mem.Placed)
    (hk : storeSize f.func3 = some size) :
    StoreIsBytes cfg w f instr size ↔
      ChecksAgree (storeGranted cfg w (storeAddr w f) (readGpr w.hart f.rs2) size)
        (storeBytes cfg w (storeAddr w f) (readGpr w.hart f.rs2) size).2.1 := by
  have hsize := storeSize_size hk
  have hout := handleStore_outcome cfg w f instr
  rw [StoreIsBytes]
  apply checksAgree_iff
  · intro hg hd
    have hno : ∀ o ∈ (storeBytes cfg w (storeAddr w f) (readGpr w.hart f.rs2) size).2.1,
        o ≠ .device := by
      rintro o ho rfl
      cases hd _ ho
    rcases ht : w.translate cfg (storeAddr w f) .write with ⟨w1, e | t⟩
    · rw [storeGranted, wholeGranted, ht] at hg
      cases hg
    · obtain ⟨h, hram⟩ := storeRam_bytes hda hl hsize ht hg hd
      rw [handleStore_tail hk ht (byteSeq_outside hno hsize.pos w1 t ht), readGpr_translated ht, hram]
      rw [storeGranted, wholeGranted, ht] at hg
      rw [if_pos (of_decide_eq_true (Bool.and_eq_true_iff.mp hg).1)]
      exact ⟨h, rfl⟩
  · intro hg hno
    have hv := handleStore_granted instr hk (byteSeq_outside hno hsize.pos)
    rw [hg] at hv
    exact hout.raised hv
  · intro hg hno ht
    have hv := handleStore_granted instr hk (byteSeq_outside hno hsize.pos)
    rw [hg, ht.1] at hv
    cases hv
  · rintro ⟨h, hh⟩ ht
    rw [hh] at ht
    cases ht.1

/-- In S or U mode under Sv39 a load or store that meets no device is its bytes exactly when PMP
and RAM judge it as they judge them. -/
theorem access_is_bytes_iff (cfg : Features) (w : World) (f : DecodedFields) (instr : BitVec 32)
    (hn : cfg.noTlb = false) (hmode : w.hart.mode = .S ∨ w.hart.mode = .U) (hmmu : w.hart.mmuMode = 8)
    (hl : w.mem.Placed) :
    (∀ size signed, loadKind f.func3 = some (size, signed) →
      (LoadIsBytes cfg w f instr size signed ↔
        ((∀ o ∈ (loadBytes cfg w (loadAddr w f) size).2.1, o ≠ .device) →
          LoadJudgedAsBytes cfg w (loadAddr w f) size))) ∧
    (∀ size, storeSize f.func3 = some size →
      (StoreIsBytes cfg w f instr size ↔
        ((∀ o ∈ (storeBytes cfg w (storeAddr w f) (readGpr w.hart f.rs2) size).2.1, o ≠ .device) →
          StoreJudgedAsBytes cfg w (storeAddr w f) (readGpr w.hart f.rs2) size))) := by
  have hmode' : effectiveMode w.hart = some w.hart.mode := by
    rw [effectiveMode]
    rcases hmode with h | h <;> rw [h] <;> rfl
  have hda (rwx : Rwx) (hx : hasExec rwx = false) : DataAccess cfg w w.hart.mode rwx :=
    ⟨hn, hmmu, hmode', hx⟩
  constructor
  · intro size signed hk
    rw [loadIsBytes_iff (hda .read rfl) hl hk, loadGranted, loadBytes, LoadJudgedAsBytes]
    apply checksAgree_whole (hda .read rfl) keepsLayout_load (loadKind_size hk)
    intro w1 t _ hdone
    rw [pageSeq_load hdone]
  · intro size hk
    rw [storeIsBytes_iff (hda .write rfl) hl hk, storeGranted, storeBytes, StoreJudgedAsBytes]
    apply checksAgree_whole (hda .write rfl) (keepsLayout_store _) (storeSize_size hk)
    intro w1 t _ hdone
    exact pageSeq_stored hdone

end Main

/-- A supervisor over two pages of RAM. The first page is the page table on all three levels; it
maps `0x1000` to `first` and `0x2000` to `second`, and `x1` holds `0x1FFC`. -/
def twoPages (first second : Word) : World :=
  let w := World.zeroed ⟨0x80000000, 0x2000, 0, 0⟩
  { w with
    hart := { HartState.zeroed with mode := .S, satp := 0x8000000000080000, mmuMode := 8,
                                    gprs := fun r => if r = 1 then 0x1FFC else 0 }
    mem := { w.mem with
      ram := writeLe (writeLe (writeLe w.mem.ram 0 8 0x20000001) 8 8 ((first >>> 2) ||| 0xC7))
        16 8 ((second >>> 2) ||| 0xC7) }
    pmp := ⟨fun _ => Pmp.aNapot ||| Pmp.R ||| Pmp.W, fun _ => BitVec.allOnes 64, 1⟩ }

theorem twoPages_placed (first second : Word) : (twoPages first second).mem.Placed :=
  ⟨(by decide : (0x80000000 : Word).toNat + (0x2000 : Word).toNat ≤ 2 ^ 56), .inl rfl⟩

/-- `ld x3, 0(x1)` across two pages that follow each other in RAM. -/
theorem load_of_consecutive_pages :
    LoadIsBytes ⟨false, false, false, 0⟩ (twoPages 0x80000000 0x80001000) (decodeFields 0xB183) 0xB183 8
      false := by
  apply ((access_is_bytes_iff ⟨false, false, false, 0⟩ (twoPages 0x80000000 0x80001000)
    (decodeFields 0xB183) 0xB183 rfl (.inl rfl) rfl (twoPages_placed _ _)).1 8 false rfl).mpr
  intro _
  decide +kernel

/-- The first page is the last of RAM: all bytes are there, and the load traps. Or the second page
lies outside RAM: the load goes on. -/
theorem load_judged_by_first_page :
    (¬ LoadIsBytes ⟨false, false, false, 0⟩ (twoPages 0x80001000 0x80000000) (decodeFields 0xB183) 0xB183 8
      false) ∧
    ¬ LoadIsBytes ⟨false, false, false, 0⟩ (twoPages 0x80000000 0x90000000) (decodeFields 0xB183) 0xB183 8
      false := by
  constructor
  · rintro ⟨hgood, _⟩
    obtain ⟨h, hh⟩ := hgood (by decide +kernel)
    have hv : (handleLoad ⟨false, false, false, 0⟩ (twoPages 0x80001000 0x80000000)
        (decodeFields 0xB183) 0xB183).2 = 4 := congrArg Prod.snd hh
    revert hv
    decide +kernel
  · rintro ⟨_, htrap⟩
    have hv := (htrap (by decide +kernel) (by decide +kernel)).1
    revert hv
    decide +kernel

end Pyremu
