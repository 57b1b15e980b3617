import Pyremu.ByteAccess

/-!
# Loads and stores against their bytes

The bytes of a page are translated once and then served by the TLB, so that
they lie one behind the other at the address the access itself is given. What
remains are the checks: the engine makes them for the whole access at its first
physical address, and on a second page for PMP alone.
-/

namespace Pyremu

/-! ## The count of TLB hits -/

/-- The state with another count of data TLB hits. -/
def HartState.withHits (s : HartState) (h : Word) : HartState := { s with dtlbHits := h }

def World.withHits (w : World) (h : Word) : World := w.setHart (w.hart.withHits h)

section Hits

variable {cfg : Features} {s : HartState} {c : WalkCtx} {va : Word} {rwx : Rwx} {p : PmpCtx}

theorem tlbProbeCounted_hits (h vpn : Word) (asid : BitVec 16) (m : Mode) (isWrite isExecute : Bool) :
    ∃ h', tlbProbeCounted cfg (s.withHits h) c va vpn asid m isWrite isExecute =
      ((tlbProbeCounted cfg s c va vpn asid m isWrite isExecute).1.withHits h',
        (tlbProbeCounted cfg s c va vpn asid m isWrite isExecute).2) := by
  rw [tlbProbeCounted, tlbProbeCounted]
  by_cases hn : cfg.noTlb = true
  · rw [if_pos hn, if_pos hn]
    exact ⟨h, rfl⟩
  · rw [if_neg hn, if_neg hn]
    have htlb : (s.withHits h).tlb isExecute = s.tlb isExecute := by cases isExecute <;> rfl
    rw [htlb]
    dsimp only [HartState.withHits]
    generalize tlbProbe (s.tlb isExecute) vpn va asid c.tlbFlushCnt c.tlbFlushCnt m s.mstatus
      isWrite isExecute = r
    cases isExecute <;> cases r.2.isHit <;> exact ⟨_, rfl⟩

theorem translateWalk_hits (h : Word) (m : Mode) (cnt : Option Word) (reuse : Option Nat) :
    translateWalk cfg (s.withHits h) c va rwx p m cnt reuse =
      ((translateWalk cfg s c va rwx p m cnt reuse).1.withHits h,
        (translateWalk cfg s c va rwx p m cnt reuse).2) := by
  have hw : sv39Walk c (s.withHits h) p (s.withHits h).satp va rwx = sv39Walk c s p s.satp va rwx := rfl
  rw [translateWalk, translateWalk, hw]
  rcases sv39Walk c s p s.satp va rwx with ⟨c1, e | _ | r⟩
  · rfl
  · rfl
  · have hms : (s.withHits h).mstatus = s.mstatus := rfl
    dsimp only
    rw [hms]
    by_cases hc : (!checkPtePerm r.perm m s.mstatus (hasWrite rwx) (hasExec rwx)) = true
    · rw [if_pos hc, if_pos hc]
    · rw [if_neg hc, if_neg hc]
      by_cases hi : cnt = c1.tlbFlushCnt ∧ (!cfg.noTlb) = true
      · rw [if_pos hi, if_pos hi]
        cases hasExec rwx <;> rfl
      · rw [if_neg hi, if_neg hi]

/-- Translation does not look at the count of hits. -/
theorem translateVa_hits (h : Word) :
    ∃ h', translateVa cfg (s.withHits h) c va rwx p =
      ((translateVa cfg s c va rwx p).1.withHits h', (translateVa cfg s c va rwx p).2) := by
  rw [translateVa, translateVa]
  by_cases hm : s.mmuMode ≠ 8
  · rw [if_pos hm, if_pos (show (s.withHits h).mmuMode ≠ 8 from hm)]
    exact ⟨h, rfl⟩
  · rw [if_neg hm, if_neg (show ¬ (s.withHits h).mmuMode ≠ 8 from hm)]
    have he : effectiveMode (s.withHits h) = effectiveMode s := rfl
    rw [he]
    cases effectiveMode s with
    | none => exact ⟨h, rfl⟩
    | some m =>
      obtain ⟨h', hp⟩ := @tlbProbeCounted_hits cfg s c va h (va >>> 12)
        (satpAsid s.satp) m (hasWrite rwx) (hasExec rwx)
      have hsatp : satpAsid (s.withHits h).satp = satpAsid s.satp := rfl
      dsimp only
      rw [hsatp, hp]
      rcases tlbProbeCounted cfg s c va (va >>> 12) (satpAsid s.satp) m (hasWrite rwx) (hasExec rwx)
        with ⟨s1, r | f | reuse⟩
      · exact ⟨h', rfl⟩
      · exact ⟨h', rfl⟩
      · exact ⟨h', translateWalk_hits h' m c.tlbFlushCnt reuse⟩

theorem translate_hits (w : World) (h : Word) :
    ∃ h', (w.withHits h).translate cfg va rwx =
      ((w.translate cfg va rwx).1.withHits h', (w.translate cfg va rwx).2) := by
  obtain ⟨h', ht⟩ := @translateVa_hits cfg w.hart w.mem va rwx w.pmp h
  refine ⟨h', ?_⟩
  have hw : (w.withHits h).translate cfg va rwx =
      ({ w.withHits h with
          hart := (translateVa cfg (w.hart.withHits h) w.mem va rwx w.pmp).1
          mem := (translateVa cfg (w.hart.withHits h) w.mem va rwx w.pmp).2.1 },
        (translateVa cfg (w.hart.withHits h) w.mem va rwx w.pmp).2.2) := rfl
  rw [hw, ht]
  rfl

end Hits

/-! ## The bytes of one page -/

/-- The bytes with outcomes `o`, on RAM alone: RAM after the first `n` and what they read. -/
def pageSeq (o : Nat → ByteOutcome) (eff : Nat → ByteOutcome → WalkCtx → WalkCtx) (c : WalkCtx) :
    Nat → WalkCtx × Word
  | 0 => (c, 0)
  | n + 1 =>
    let r := pageSeq o eff c n
    (eff n (o n) r.1, r.2 ||| ((o n).read r.1 <<< (8 * n)))

/-- The verdicts on the bytes from the physical address `pa`. -/
def judgeFrom (cfg : Features) (w : World) (pa : Word) (rwx : Rwx) (k : Nat) : ByteOutcome :=
  judgeByte cfg w (pa + BitVec.ofNat 64 k) rwx

/-- What the bytes do to RAM leaves its placement. -/
def KeepsLayout (eff : Nat → ByteOutcome → WalkCtx → WalkCtx) : Prop :=
  ∀ k o c, (eff k o c).toLayout = c.toLayout

theorem keepsLayout_load : KeepsLayout loadEffect := fun _ _ _ => rfl

theorem keepsLayout_store (v : Word) : KeepsLayout (storeEffect v) := by
  intro k o c
  cases o with
  | done pa => exact ramWriteRaw_toLayout c pa _ 1
  | _ => rfl

section Page

variable {cfg : Features} {w w1 w2 : World} {rwx : Rwx} {va pa : Word} {t t2 : TranslateResult}
  {eff : Nat → ByteOutcome → WalkCtx → WalkCtx} {o : Nat → ByteOutcome} {c : WalkCtx} {n : Nat}
  {m : Mode}

theorem pageSeq_layout (he : KeepsLayout eff) (o : Nat → ByteOutcome) (c : WalkCtx) (n : Nat) :
    (pageSeq o eff c n).1.toLayout = c.toLayout := by
  induction n with
  | zero => rfl
  | succ n ih => exact (he n (o n) _).trans ih

theorem pageSeq_load (h : ∀ k < n, o k = .done (pa + BitVec.ofNat 64 k)) :
    pageSeq o loadEffect c n = (c, ramReadBytes c pa n) := by
  induction n with
  | zero => rfl
  | succ n ih => rw [pageSeq, ih fun k hk => h k (Nat.lt_succ_of_lt hk), h n (Nat.lt_succ_self n)]; rfl

theorem pageSeq_store {v : Word} {i : Nat} (h : ∀ k < n, o k = .done (pa + BitVec.ofNat 64 k)) :
    (pageSeq o (fun k => storeEffect v (i + k)) c n).1 = ramWriteBytes c pa (v >>> (8 * i)) n := by
  induction n with
  | zero => rfl
  | succ n ih =>
    rw [pageSeq, ih fun k hk => h k (Nat.lt_succ_of_lt hk), h n (Nat.lt_succ_self n)]
    dsimp only [storeEffect, ByteOutcome.write, ramWriteBytes]
    rw [← BitVec.shiftRight_add, Nat.mul_add]

/-- The verdict on a byte does not depend on the contents of RAM or the count of hits. -/
theorem judgeByte_congr {c : WalkCtx} (hc : c.toLayout = w.mem.toLayout) (h : Word) :
    judgeByte cfg (({ w with mem := c }).withHits h) pa rwx = judgeByte cfg w pa rwx := by
  rw [judgeByte, judgeByte]
  by_cases ho : OutsideDevices cfg w pa
  · have ho' : OutsideDevices cfg (({ w with mem := c }).withHits h) pa :=
      ⟨ho.windows, ho.clint, ho.uart, ho.virtio, ho.plic, ho.imsic⟩
    have hmem : (({ w with mem := c }).withHits h).mem.toLayout = w.mem.toLayout := hc
    have hpmp : pmpOk (({ w with mem := c }).withHits h).hart pa 1 (hasWrite rwx) false
        (({ w with mem := c }).withHits h).pmp = pmpOk w.hart pa 1 (hasWrite rwx) false w.pmp := rfl
    rw [if_neg (not_not.mpr ho), if_neg (not_not.mpr ho'), hmem, hpmp]
  · have ho' : ¬ OutsideDevices cfg (({ w with mem := c }).withHits h) pa :=
      fun h' => ho ⟨h'.windows, h'.clint, h'.uart, h'.virtio, h'.plic, h'.imsic⟩
    rw [if_pos ho, if_pos ho']

/-- A data access runs under Sv39 in mode `m`, on a build with TLBs. -/
structure DataAccess (cfg : Features) (w : World) (m : Mode) (rwx : Rwx) : Prop where
  noTlb : cfg.noTlb = false
  mmuMode : w.hart.mmuMode = 8
  mode : effectiveMode w.hart = some m
  data : hasExec rwx = false

theorem DataAccess.frame (h : DataAccess cfg w m rwx) {w' : World} (hf : TlbFrame w.hart w'.hart) :
    DataAccess cfg w' m rwx := by
  refine ⟨h.noTlb, ?_, ?_, h.data⟩
  · obtain ⟨_, _, _, _, _, _, hs⟩ := hf
    rw [hs]
    exact h.mmuMode
  · obtain ⟨_, _, _, _, _, _, hs⟩ := hf
    rw [hs]
    exact h.mode

theorem cached_withHits {s : HartState} (hx : hasExec rwx = false) (h : Cached s va rwx m pa) (x : Word) :
    Cached (s.withHits x) va rwx m pa := by
  rw [Cached, hx] at h ⊢
  exact h

/-- A byte of a page that is cached is one more hit. -/
theorem byteAccess_cached (hda : DataAccess cfg w m rwx) (hc : Cached w.hart va rwx m pa) :
    byteAccess cfg w va rwx = (w.withHits (w.hart.dtlbHits + 1), judgeByte cfg w pa rwx) := by
  obtain ⟨t, ht, htr⟩ := hc.translateVa hda.noTlb hda.mmuMode hda.mode w.mem w.pmp
  have htw : w.translate cfg va rwx = (w.withHits (w.hart.dtlbHits + 1), .ok t) := by
    rw [World.translate, htr, hda.data]
    rfl
  rw [byteAccess, htw]
  dsimp only
  rw [ht]
  exact congrArg _ (judgeByte_congr (w := w) (c := w.mem) rfl _)

/-- The bytes of one page: a translation, and one hit for each further byte. -/
theorem byteSeq_page (hda : DataAccess cfg w m rwx) (heff : KeepsLayout eff)
    (ht : w.translate cfg va rwx = (w1, .ok t)) (hpos : 1 ≤ n)
    (hoff : (va &&& 0xFFF).toNat + n ≤ 0x1000) :
    ∃ h, byteSeq cfg rwx eff w va n =
      (({ w1 with mem := (pageSeq (judgeFrom cfg w1 t.pa rwx) eff
          w1.mem n).1 }).withHits h,
        (List.range n).map (judgeFrom cfg w1 t.pa rwx),
        (pageSeq (judgeFrom cfg w1 t.pa rwx) eff w1.mem n).2) := by
  induction n, hpos using Nat.le_induction with
  | base =>
    refine ⟨w1.hart.dtlbHits, ?_⟩
    have hb : byteAccess cfg w (va + BitVec.ofNat 64 0) rwx = (w1, judgeByte cfg w1 t.pa rwx) := by
      rw [BitVec.add_zero, byteAccess, ht]
    have hz : judgeFrom cfg w1 t.pa rwx 0 = judgeByte cfg w1 t.pa rwx := by
      rw [judgeFrom, BitVec.add_zero]
    rw [byteSeq_succ]
    dsimp only [byteSeq]
    rw [hb]
    dsimp only [pageSeq, List.range, List.range.loop, List.map]
    rw [hz]
    rfl
  | succ n hpos ih =>
    obtain ⟨h, hseq⟩ := ih (by omega)
    have hfr := w.translate_frame cfg va rwx
    rw [ht] at hfr
    have hca : Cached w1.hart va rwx m t.pa := by
      rw [World.translate] at ht
      rcases htv : translateVa cfg w.hart w.mem va rwx w.pmp with ⟨s', c', r⟩
      rw [htv] at ht
      cases ht
      exact cached_of_translateVa hda.noTlb hda.mmuMode hda.mode htv
    have hlay := pageSeq_layout heff (judgeFrom cfg w1 t.pa rwx) w1.mem n
    have hbyte := byteAccess_cached
      (w := ({ w1 with mem := (pageSeq (judgeFrom cfg w1 t.pa rwx) eff
          w1.mem n).1 }).withHits h)
      ((hda.frame hfr.hart).frame ⟨_, _, _, _, _, _, rfl⟩)
      (cached_withHits hda.data (hca.add (k := n) (by omega)) h)
    rw [judgeByte_congr hlay] at hbyte
    rw [byteSeq_succ, hseq]
    dsimp only
    rw [hbyte, List.range_succ, List.map_append]
    exact ⟨_, rfl⟩

/-- A byte that does not translate is among the outcomes. -/
theorem byteSeq_fault {f : TranslateFault} (ht : w.translate cfg va rwx = (w1, .error f)) (hpos : 1 ≤ n) :
    .fault f ∈ (byteSeq cfg rwx eff w va n).2.1 := by
  apply byteSeq_mem_of_le eff hpos
  rw [byteSeq_succ]
  dsimp only [byteSeq]
  rw [BitVec.add_zero, byteAccess, ht]
  exact List.mem_singleton_self _

/-- The bytes of an access that crosses a page, up to the translation of the second page. -/
theorem byteSeq_first (hda : DataAccess cfg w m rwx) (heff : KeepsLayout eff)
    (ht : w.translate cfg va rwx = (w1, .ok t)) :
    ∃ h, byteSeq cfg rwx eff w va (bytesFirst va) =
      (({ w1 with mem := (pageSeq (judgeFrom cfg w1 t.pa rwx) eff
          w1.mem (bytesFirst va)).1 }).withHits h,
        (List.range (bytesFirst va)).map (judgeFrom cfg w1 t.pa rwx),
        (pageSeq (judgeFrom cfg w1 t.pa rwx) eff w1.mem
          (bytesFirst va)).2) := by
  have hlt : (va &&& 0xFFF).toNat < 0x1000 := by
    rw [pageOffset_toNat]
    exact Nat.mod_lt _ (by decide)
  apply byteSeq_page hda heff ht
  · rw [bytesFirst]
    omega
  · rw [bytesFirst]
    omega

/-- Both pages translate: the bytes of the second follow those of the first. -/
theorem byteSeq_cross (hda : DataAccess cfg w m rwx) (heff : KeepsLayout eff) {size : Nat} (hs : size ≤ 8)
    (hx : crossesPage va size = true) (ht : w.translate cfg va rwx = (w1, .ok t))
    (ht2 : ({ w1 with mem := (pageSeq (judgeFrom cfg w1 t.pa rwx) eff
      w1.mem (bytesFirst va)).1 }).translate cfg (va + BitVec.ofNat 64 (bytesFirst va)) rwx = (w2, .ok t2)) :
    ∃ h, byteSeq cfg rwx eff w va size =
      (({ w2 with mem := (pageSeq (judgeFrom cfg w2 t2.pa rwx)
          (fun k => eff (bytesFirst va + k)) w2.mem (size - bytesFirst va)).1 }).withHits h,
        (List.range (bytesFirst va)).map (judgeFrom cfg w1 t.pa rwx) ++
          (List.range (size - bytesFirst va)).map (judgeFrom cfg w2 t2.pa rwx),
        (pageSeq (judgeFrom cfg w1 t.pa rwx) eff w1.mem
            (bytesFirst va)).2 |||
          ((pageSeq (judgeFrom cfg w2 t2.pa rwx)
            (fun k => eff (bytesFirst va + k)) w2.mem (size - bytesFirst va)).2 <<<
              (8 * bytesFirst va))) := by
  have hlt : (va &&& 0xFFF).toNat < 0x1000 := by
    rw [pageOffset_toNat]
    exact Nat.mod_lt _ (by decide)
  have hsize : 0x1000 < (va &&& 0xFFF).toNat + size := by simpa [crossesPage] using hx
  obtain ⟨h1, hfirst⟩ := byteSeq_first hda heff ht
  have hfr := w.translate_frame cfg va rwx
  rw [ht] at hfr
  generalize hV : ({ w1 with mem := (pageSeq (judgeFrom cfg w1 t.pa rwx) eff w1.mem (bytesFirst va)).1 } : World) = v
    at hfirst ht2
  obtain ⟨h2, htr⟩ := @translate_hits cfg (va + BitVec.ofNat 64 (bytesFirst va)) rwx v h1
  rw [ht2] at htr
  have hda2 : DataAccess cfg (v.withHits h1) m rwx := by
    rw [← hV]
    exact (hda.frame hfr.hart).frame ⟨_, _, _, _, _, _, rfl⟩
  have hzero : (va + BitVec.ofNat 64 (bytesFirst va) &&& 0xFFF).toNat = 0 := by
    rw [pageOffset_toNat, BitVec.toNat_add, BitVec.toNat_ofNat, bytesFirst, pageOffset_toNat]
    omega
  have hlen : bytesFirst va + (size - bytesFirst va) = size := by
    rw [bytesFirst]
    omega
  obtain ⟨h3, hsecond⟩ := @byteSeq_page cfg _ _ rwx _ _ (fun k => eff (bytesFirst va + k)) (size - bytesFirst va)
    m hda2 (fun k => heff (bytesFirst va + k)) htr (by rw [bytesFirst]; omega) (by omega)
  have hj : judgeFrom cfg (w2.withHits h2) t2.pa rwx = judgeFrom cfg w2 t2.pa rwx :=
    funext fun k => judgeByte_congr (w := w2) (c := w2.mem) rfl h2
  have hadd := @byteSeq_add cfg rwx eff w va (bytesFirst va) (size - bytesFirst va)
  rw [hlen, hfirst] at hadd
  dsimp only at hadd
  rw [hsecond] at hadd
  dsimp only at hadd
  rw [hj] at hadd
  exact ⟨_, hadd⟩

end Page

end Pyremu
