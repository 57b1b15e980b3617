import Pyremu.Lib.RingBuf
import Pyremu.Lib.Run
import Mathlib.Data.List.Infix
import Mathlib.Tactic.Common

/-!
# Terminal input

The input thread collects what is typed, takes out stop requests, keeps escape
sequences together and copies the rest to the receive ring, of which the Python
side frees space whenever it likes.
-/

namespace Pyremu

/-- Ctrl+Q. -/
def STOP_BYTE : BitVec 8 := 0x11

def ESC : BitVec 8 := 0x1b

namespace Termio

/-! ## The parser -/

/-- `esc_seq_len`: the length of a sequence that starts with `ESC`, `none` while that is open. -/
def escSeqLen : List (BitVec 8) → Option Nat
  | [] | [_] => none
  | b :: b1 :: rest =>
    if b1 ≠ 0x5b ∧ b1 ≠ 0x4f then some 2
    else if b1 = 0x4f then some 3
    else match (rest.take 4).findIdx? fun b => decide (0x40 ≤ b ∧ b ≤ 0x7e) with
      | some idx => some (2 + idx + 1)
      | none => if 6 < (b :: b1 :: rest).length then some 1 else none

/-- What `scan_rx` returns, with the buffer it leaves. -/
structure Scan where
  deliverable : Nat
  recv : List (BitVec 8)
  stop : Bool
  deriving DecidableEq, Repr

/-- A byte in front that may be delivered. -/
def Scan.cons (b : BitVec 8) (r : Scan) : Scan := ⟨r.deliverable + 1, b :: r.recv, r.stop⟩

/-- The loop of `scan_rx`, `skip` bytes before the end of a complete sequence. -/
def scanFrom : Nat → List (BitVec 8) → Scan
  | _, [] => ⟨0, [], false⟩
  | skip + 1, b :: bs => (scanFrom skip bs).cons b
  | 0, b :: bs =>
    if b = STOP_BYTE then ⟨0, bs.dropWhile (· == STOP_BYTE), true⟩
    else if b = ESC then
      match escSeqLen (b :: bs) with
      | some n => if n ≤ (b :: bs).length then (scanFrom (n - 1) bs).cons b else ⟨0, b :: bs, false⟩
      | none => ⟨0, b :: bs, false⟩
    else (scanFrom 0 bs).cons b

def scanRx (recv : List (BitVec 8)) : Scan := scanFrom 0 recv

/-! ## The thread -/

end Termio

/-- The state of the input thread; `stops` counts the calls of `notify_emu_stop`. -/
structure Termio where
  recv : List (BitVec 8)
  rx : RingBuf (BitVec 8) 32
  stops : Nat

namespace Termio

/-- The ring after a call of `deliver_rx`, how many bytes went in and what was read meanwhile. -/
structure Delivery where
  rx : RingBuf (BitVec 8) 32
  delivered : Nat
  taken : List (BitVec 8)

/-- The loop of `deliver_rx`. Before each test of the free space the reader frees as many bytes as
`frees` says, up to the published index `wr`. -/
def deliverLoop (wr : BitVec 32) : RingBuf (BitVec 8) 32 → List (BitVec 8) → List Nat → Delivery
  | rx, [], _ => ⟨rx, 0, []⟩
  | rx, b :: bs, frees =>
    let n := min (frees.headD 0) (wr - rx.rd).toNat
    let r := rx.pop n
    if r.free = 0 then ⟨r, 0, rx.contents.take n⟩
    else
      let d := deliverLoop wr (r.push b) bs frees.tail
      ⟨d.rx, d.delivered + 1, rx.contents.take n ++ d.taken⟩

/-- A round of `termio_thread`: `chunk` is what `read_stdin_into` finds. -/
def round (t : Termio) (chunk : List (BitVec 8)) (frees : List Nat) : Termio × Delivery :=
  let s := scanRx (t.recv ++ chunk)
  let d := deliverLoop t.rx.wr t.rx (s.recv.take s.deliverable) frees
  (⟨s.recv.drop d.delivered, d.rx, if s.stop then t.stops + 1 else t.stops⟩, d)

/-! ## What has been typed, delivered and read -/

/-- The thread with its history. -/
structure Session where
  io : Termio
  input : List (BitVec 8)
  delivered : List (BitVec 8)
  taken : List (BitVec 8)

inductive Op where
  | round (chunk : List (BitVec 8)) (frees : List Nat)
  /-- The reader frees bytes between two rounds. -/
  | free (n : Nat)

namespace Session

variable (s : Session)

def step : Op → Session
  | .round chunk frees =>
    let r := s.io.round chunk frees
    ⟨r.1, s.input ++ chunk, s.delivered ++ (scanRx (s.io.recv ++ chunk)).recv.take r.2.delivered, s.taken ++ r.2.taken⟩
  | .free n =>
    let k := min n s.io.rx.used
    { s with io := { s.io with rx := s.io.rx.pop k }, taken := s.taken ++ s.io.rx.contents.take k }

/-- A thread that starts on an empty ring, wherever its indices stand. -/
def start (cap : Nat) (idx : BitVec 32) : Session := ⟨⟨[], ⟨cap, fun _ => 0, idx, idx⟩, 0⟩, [], [], []⟩

end Session

/-- From `xs` to `ys` only stop bytes are lost. -/
structure Strips (xs ys : List (BitVec 8)) : Prop where
  sublist : ys.Sublist xs
  rest : xs.filter (· != STOP_BYTE) = ys.filter (· != STOP_BYTE)

/-- The first `i` bytes are ordinary bytes and complete escape sequences. -/
inductive Passed : List (BitVec 8) → Nat → Prop
  | here {bs : List (BitVec 8)} : Passed bs 0
  | byte {b : BitVec 8} {bs : List (BitVec 8)} {i : Nat} (hb : b ≠ STOP_BYTE) (he : b ≠ ESC) (h : Passed bs i) :
    Passed (b :: bs) (i + 1)
  | seq {bs : List (BitVec 8)} {n i : Nat} (hn : escSeqLen (ESC :: bs) = some (n + 1))
      (hle : n + 1 ≤ (ESC :: bs).length) (h : Passed (bs.drop n) i) : Passed (ESC :: bs) (n + 1 + i)

/-- The start of an escape sequence of at most six bytes. -/
structure Incomplete (rest : List (BitVec 8)) : Prop where
  esc : rest.head? = some ESC
  short : rest.length ≤ 6
  isOpen : ∀ n, escSeqLen rest = some n → rest.length < n

/-! ## One scan -/

section Scan

variable {bs : List (BitVec 8)} {b : BitVec 8} {n : Nat}

theorem Strips.refl (xs : List (BitVec 8)) : Strips xs xs := ⟨List.Sublist.refl _, rfl⟩

theorem Strips.trans {xs ys zs : List (BitVec 8)} (h : Strips xs ys) (h' : Strips ys zs) : Strips xs zs :=
  ⟨h'.sublist.trans h.sublist, h.rest.trans h'.rest⟩

theorem Strips.append {xs ys : List (BitVec 8)} (h : Strips xs ys) (zs : List (BitVec 8)) :
    Strips (xs ++ zs) (ys ++ zs) := by
  refine ⟨h.sublist.append (List.Sublist.refl zs), ?_⟩
  rw [List.filter_append, List.filter_append, h.rest]

/-- A run of stop bytes goes. -/
theorem strips_run (pre : List (BitVec 8)) {run : List (BitVec 8)} (rest : List (BitVec 8)) (hrun : ∀ b ∈ run, b = STOP_BYTE) :
    Strips (pre ++ (run ++ rest)) (pre ++ rest) := by
  refine ⟨(List.Sublist.refl pre).append (List.sublist_append_right run rest), ?_⟩
  have hnone : run.filter (· != STOP_BYTE) = [] := by
    rw [List.filter_eq_nil_iff]
    intro b hb
    rw [hrun b hb]
    decide
  rw [List.filter_append, List.filter_append, List.filter_append, hnone, List.nil_append]

/-- A complete sequence has a first byte. -/
theorem escSeqLen_pos (h : escSeqLen bs = some n) : 0 < n := by
  rw [escSeqLen.eq_def] at h
  split at h
  · cases h
  · cases h
  · split_ifs at h
    · cases h
      decide
    · cases h
      decide
    · split at h <;> cases h <;> omega
    · split at h <;> cases h
      omega

theorem escSeqLen_long {b1 : BitVec 8} (hlong : 6 < (b :: b1 :: bs).length) :
    ∃ n, escSeqLen (b :: b1 :: bs) = some n ∧ n ≤ 6 := by
  rw [escSeqLen, if_pos hlong]
  split_ifs
  · exact ⟨2, rfl, by decide⟩
  · exact ⟨3, rfl, by decide⟩
  · split
    · rename_i idx hidx
      have hlt := (List.findIdx?_eq_some_iff_findIdx_eq.mp hidx).1
      rw [List.length_take] at hlt
      exact ⟨_, rfl, by omega⟩
    · exact ⟨1, rfl, by decide⟩

/-- A sequence that is open is short. -/
theorem length_of_open (h : ∀ n, escSeqLen bs = some n → bs.length < n) : bs.length ≤ 6 := by
  by_contra hlong
  match bs with
  | [] => simp at hlong
  | [_] => simp at hlong
  | b :: b1 :: rest =>
    obtain ⟨n, hn, hle⟩ := escSeqLen_long (Nat.not_le.mp hlong)
    have hlt := h n hn
    omega

/-- A scan passes the front of the buffer and ends at a run of stop bytes, which goes, at an open
sequence or at the end. -/
theorem scanFrom_spec (skip : Nat) (bs : List (BitVec 8)) (hskip : skip ≤ bs.length) :
    ∃ pre run rest, bs = pre ++ (run ++ rest) ∧ skip ≤ pre.length ∧ Passed (bs.drop skip) (pre.length - skip) ∧
      (∀ b ∈ run, b = STOP_BYTE) ∧ rest.head? ≠ some STOP_BYTE ∧ (run = [] → rest = [] ∨ Incomplete rest) ∧
      scanFrom skip bs = ⟨pre.length, pre ++ rest, !run.isEmpty⟩ := by
  induction bs generalizing skip with
  | nil =>
    obtain rfl : skip = 0 := Nat.le_zero.mp hskip
    exact ⟨[], [], [], rfl, le_refl _, .here, fun _ h => (List.not_mem_nil h).elim, by decide, fun _ => .inl rfl, rfl⟩
  | cons b bs ih =>
    cases skip with
    | succ skip =>
      obtain ⟨pre, run, rest, hbs, hle, hpassed, hrun, hhead, hend, hscan⟩ := ih skip (Nat.le_of_succ_le_succ hskip)
      refine ⟨b :: pre, run, rest, by rw [hbs]; rfl, Nat.succ_le_succ hle, ?_, hrun, hhead, hend, ?_⟩
      · rw [List.drop_succ_cons, List.length_cons, Nat.add_sub_add_right]
        exact hpassed
      · rw [scanFrom, hscan]
        rfl
    | zero =>
      by_cases hstop : b = STOP_BYTE
      · -- the run with its first byte
        subst hstop
        refine ⟨[], STOP_BYTE :: bs.takeWhile (· == STOP_BYTE), bs.dropWhile (· == STOP_BYTE), ?_, le_refl _, .here,
          ?_, ?_, ?_, ?_⟩
        · rw [List.nil_append, List.cons_append, List.takeWhile_append_dropWhile]
        · intro c hc
          rcases List.mem_cons.mp hc with rfl | hc
          · rfl
          · exact eq_of_beq (List.all_eq_true.mp List.all_takeWhile c hc)
        · intro hhead
          have hno := List.head?_dropWhile_not (fun c : BitVec 8 => c == STOP_BYTE) bs
          rw [hhead] at hno
          revert hno
          decide
        · intro h
          cases h
        · rw [scanFrom, if_pos rfl]
          rfl
      · by_cases hesc : b = ESC
        · subst hesc
          by_cases hdone : ∃ n, escSeqLen (ESC :: bs) = some n ∧ n ≤ (ESC :: bs).length
          · obtain ⟨n, hn, hle⟩ := hdone
            obtain ⟨k, rfl⟩ : ∃ k, n = k + 1 := Nat.exists_eq_succ_of_ne_zero (Nat.ne_of_gt (escSeqLen_pos hn))
            obtain ⟨pre, run, rest, hbs, hpre, hpassed, hrun, hhead, hend, hscan⟩ := ih k (Nat.le_of_succ_le_succ hle)
            refine ⟨ESC :: pre, run, rest, by rw [hbs]; rfl, Nat.zero_le _, ?_, hrun, hhead, hend, ?_⟩
            · have hlen : (ESC :: pre).length - 0 = k + 1 + (pre.length - k) := by
                rw [List.length_cons]
                omega
              rw [hlen]
              exact .seq hn hle hpassed
            · rw [scanFrom, if_neg hstop, if_pos rfl, hn]
              dsimp only
              rw [if_pos hle, Nat.add_sub_cancel, hscan]
              rfl
          · push Not at hdone
            refine ⟨[], [], ESC :: bs, rfl, le_refl _, .here, fun _ h => (List.not_mem_nil h).elim, ?_, fun _ => .inr ?_,
              ?_⟩
            · intro h
              exact absurd (Option.some.inj h) (by decide)
            · exact ⟨rfl, length_of_open hdone, hdone⟩
            · rw [scanFrom, if_neg hstop, if_pos rfl]
              split
              · rename_i n hn
                exact if_neg (Nat.not_le.mpr (hdone n hn))
              · rfl
        · obtain ⟨pre, run, rest, hbs, _, hpassed, hrun, hhead, hend, hscan⟩ := ih 0 (Nat.zero_le _)
          refine ⟨b :: pre, run, rest, by rw [hbs]; rfl, Nat.zero_le _, .byte hstop hesc hpassed, hrun, hhead, hend, ?_⟩
          rw [scanFrom, if_neg hstop, if_neg hesc, hscan]
          rfl

/-- Without escape sequences only ordinary bytes are passed. -/
theorem Passed.plain {i : Nat} (h : Passed bs i) (hesc : ESC ∉ bs) : STOP_BYTE ∉ bs.take i := by
  induction h with
  | here =>
    rw [List.take_zero]
    exact List.not_mem_nil
  | byte hb he h ih =>
    rw [List.take_succ_cons, List.mem_cons]
    rintro (heq | hmem)
    · exact hb heq.symm
    · exact ih (fun hm => hesc (List.mem_cons_of_mem _ hm)) hmem
  | seq hn hle h ih => exact absurd List.mem_cons_self hesc

/-- A stop byte with no escape sequence before it is met at once. -/
theorem scanRx_plain {pre : List (BitVec 8)} (rest : List (BitVec 8)) (hstop : STOP_BYTE ∉ pre) (hesc : ESC ∉ pre) :
    (scanRx (pre ++ STOP_BYTE :: rest)).stop = true := by
  rw [scanRx]
  induction pre with
  | nil =>
    rw [List.nil_append, scanFrom, if_pos rfl]
  | cons b pre ih =>
    rw [List.mem_cons, not_or] at hstop hesc
    rw [List.cons_append, scanFrom, if_neg (Ne.symm hstop.1), if_neg (Ne.symm hesc.1)]
    exact ih hstop.2 hesc.2

end Scan

/-! ## One delivery -/

section Deliver

variable {rx : RingBuf (BitVec 8) 32} {wr : BitVec 32}

/-- The bytes enter the ring in order, the reader gets them in order, and the loop ends early only at a
full ring. -/
theorem deliverLoop_spec (bs : List (BitVec 8)) (frees : List Nat) (hfits : rx.Fits) (hwr : (wr - rx.rd).toNat ≤ rx.used) :
    let d := deliverLoop wr rx bs frees
    d.rx.Fits ∧ d.delivered ≤ bs.length ∧ rx.contents ++ bs.take d.delivered = d.taken ++ d.rx.contents ∧
      (d.delivered = bs.length ∨ d.rx.used = d.rx.cap) := by
  induction bs generalizing rx frees with
  | nil =>
    refine ⟨hfits, le_refl _, ?_, .inl rfl⟩
    rw [List.take_nil, List.append_nil]
    rfl
  | cons b bs ih =>
    rw [deliverLoop]
    dsimp only
    generalize hk : min (frees.headD 0) (wr - rx.rd).toNat = n
    have hn : n ≤ rx.used := by omega
    have hpop := hfits.pop hn
    have htake := RingBuf.take_append_contents_pop hn
    by_cases hfree : (rx.pop n).free = 0
    · rw [if_pos hfree]
      refine ⟨hpop, Nat.zero_le _, ?_, .inr ?_⟩
      · rw [List.take_zero, List.append_nil]
        exact htake.symm
      · exact Nat.le_antisymm hpop.room (Nat.sub_eq_zero_iff_le.mp hfree)
    · rw [if_neg hfree]
      have hroom : (rx.pop n).used < (rx.pop n).cap := Nat.lt_of_sub_ne_zero hfree
      -- the published index is still behind the bytes that came in
      have hwr' : (wr - ((rx.pop n).push b).rd).toNat ≤ ((rx.pop n).push b).used := by
        have hgap := RingBuf.used_pop (r := { rx with wr := wr }) (n := n) (by rw [← hk]; exact Nat.min_le_right _ _)
        rw [RingBuf.used_push hpop hroom, RingBuf.used_pop hn]
        change ({ rx with wr := wr } : RingBuf (BitVec 8) 32).used ≤ _ at hwr
        change (RingBuf.pop { rx with wr := wr } n).used ≤ _
        omega
      obtain ⟨hfits', hlen, hbytes, hend⟩ := ih frees.tail (hpop.push hroom) hwr'
      refine ⟨hfits', Nat.succ_le_succ hlen, ?_, ?_⟩
      · rw [RingBuf.contents_push hpop hroom, List.append_assoc] at hbytes
        generalize deliverLoop wr ((rx.pop n).push b) bs frees.tail = d at hbytes
        rw [List.take_succ_cons]
        calc rx.contents ++ b :: bs.take d.delivered
            = rx.contents.take n ++ (rx.pop n).contents ++ ([b] ++ bs.take d.delivered) := by
              rw [htake]
              rfl
          _ = rx.contents.take n ++ (d.taken ++ d.rx.contents) := by rw [List.append_assoc, hbytes]
          _ = (rx.contents.take n ++ d.taken) ++ d.rx.contents := (List.append_assoc _ _ _).symm
      · rcases hend with he | he
        · exact .inl (congrArg Nat.succ he)
        · exact .inr he

end Deliver

/-! ## Every round -/

namespace Session

/-- What holds in every state: the reader has read what was delivered, apart from what is in the ring; the
bytes that are neither delivered nor held back are stop bytes. -/
structure Faithful (s : Session) : Prop where
  fits : s.io.rx.Fits
  ring : s.delivered = s.taken ++ s.io.rx.contents
  strips : Strips s.input (s.delivered ++ s.io.recv)
  plain : ESC ∉ s.input → s.delivered <+: s.input.filter (· != STOP_BYTE)

/-- What a round does with the buffer `pre ++ run ++ rest`: it takes out the run of stop bytes and asks for
a stop once, delivers of `pre` what the ring has room for and holds the rest back. Without a run the
rest is an open escape sequence. -/
def Says (s : Session) : Op → Prop
  | .round chunk frees =>
    ∃ pre run rest m, s.io.recv ++ chunk = pre ++ (run ++ rest) ∧ Passed (s.io.recv ++ chunk) pre.length ∧
      (∀ b ∈ run, b = STOP_BYTE) ∧ rest.head? ≠ some STOP_BYTE ∧ (run = [] → rest = [] ∨ Incomplete rest) ∧
      (s.step (.round chunk frees)).io.stops = s.io.stops + (if run = [] then 0 else 1) ∧
      m ≤ pre.length ∧ (s.step (.round chunk frees)).delivered = s.delivered ++ pre.take m ∧
      (s.step (.round chunk frees)).io.recv = pre.drop m ++ rest ∧
      (m = pre.length ∨ (s.step (.round chunk frees)).io.rx.used = (s.step (.round chunk frees)).io.rx.cap) ∧
      (∀ p q, s.io.recv ++ chunk = p ++ STOP_BYTE :: q → ESC ∉ p → run ≠ [])
  | .free _ => True

/-- The same with what it takes to keep it. -/
structure Inv (s : Session) : Prop where
  fits : s.io.rx.Fits
  ring : s.delivered = s.taken ++ s.io.rx.contents
  strips : Strips s.input (s.delivered ++ s.io.recv)
  clean : ESC ∉ s.input → STOP_BYTE ∉ s.delivered

section Rounds

variable {s : Session}

theorem Inv.faithful (h : s.Inv) : s.Faithful := by
  refine ⟨h.fits, h.ring, h.strips, fun hesc => ?_⟩
  have hkept : s.delivered.filter (· != STOP_BYTE) = s.delivered := by
    rw [List.filter_eq_self]
    intro b hb
    exact bne_iff_ne.mpr fun heq => h.clean hesc (heq ▸ hb)
  rw [h.strips.rest, List.filter_append, hkept]
  exact List.prefix_append _ _

theorem Inv.round (h : s.Inv) (chunk : List (BitVec 8)) (frees : List Nat) :
    (s.step (.round chunk frees)).Inv ∧ s.Says (.round chunk frees) := by
  obtain ⟨pre, run, rest, hbuf, _, hpassed, hrun, hhead, hend, hscan⟩ :=
    scanFrom_spec 0 (s.io.recv ++ chunk) (Nat.zero_le _)
  rw [List.drop_zero, Nat.sub_zero] at hpassed
  have htake : (scanRx (s.io.recv ++ chunk)).recv.take (scanRx (s.io.recv ++ chunk)).deliverable = pre := by
    rw [scanRx, hscan]
    exact List.take_left
  obtain ⟨hfits, hlen, hbytes, hfull⟩ := deliverLoop_spec pre frees h.fits (le_refl _)
  generalize hd : deliverLoop s.io.rx.wr s.io.rx pre frees = d at hfits hlen hbytes hfull
  have hstep : s.step (.round chunk frees) =
      ⟨⟨pre.drop d.delivered ++ rest, d.rx, if run.isEmpty then s.io.stops else s.io.stops + 1⟩, s.input ++ chunk,
        s.delivered ++ pre.take d.delivered, s.taken ++ d.taken⟩ := by
    rw [step, Termio.round, htake, hd, scanRx, hscan]
    dsimp only
    rw [List.drop_append_of_le_length hlen, List.take_append_of_le_length hlen]
    cases run.isEmpty <;> rfl
  have hstrips : Strips (s.input ++ chunk) ((s.delivered ++ pre.take d.delivered) ++ (pre.drop d.delivered ++ rest)) := by
    have hin := h.strips.append chunk
    rw [List.append_assoc, hbuf, ← List.append_assoc] at hin
    have hout := hin.trans (strips_run (s.delivered ++ pre) rest hrun)
    rw [List.append_assoc, ← List.append_assoc (pre.take d.delivered), List.take_append_drop, ← List.append_assoc]
    exact hout
  constructor
  · rw [hstep]
    refine ⟨hfits, ?_, hstrips, ?_⟩
    · change s.delivered ++ pre.take d.delivered = (s.taken ++ d.taken) ++ d.rx.contents
      rw [h.ring, List.append_assoc, hbytes, List.append_assoc]
    · intro hesc
      have hnew : ESC ∉ s.io.recv ++ chunk := by
        intro hmem
        apply hesc
        rcases List.mem_append.mp hmem with hm | hm
        · exact List.mem_append_left _ (h.strips.sublist.subset (List.mem_append_right _ hm))
        · exact List.mem_append_right _ hm
      have hplain := hpassed.plain hnew
      rw [hbuf, List.take_left] at hplain
      rw [List.mem_append, not_or]
      exact ⟨h.clean fun hm => hesc (List.mem_append_left _ hm), fun hm => hplain (List.mem_of_mem_take hm)⟩
  · refine ⟨pre, run, rest, d.delivered, hbuf, hpassed, hrun, hhead, hend, ?_, hlen, ?_, ?_, ?_, ?_⟩
    · rw [hstep]
      cases run <;> rfl
    · rw [hstep]
    · rw [hstep]
    · rw [hstep]
      exact hfull
    · intro p q heq hesc hnone
      -- the first stop byte is met
      obtain ⟨p', q', heq', hstop, hesc'⟩ : ∃ p' q', s.io.recv ++ chunk = p' ++ STOP_BYTE :: q' ∧
          STOP_BYTE ∉ p' ∧ ESC ∉ p' := by
        by_cases hp : STOP_BYTE ∈ p
        · obtain ⟨p', q', rfl, hno⟩ := List.eq_append_cons_of_mem hp
          refine ⟨p', q' ++ STOP_BYTE :: q, ?_, hno, fun hm => hesc (List.mem_append_left _ hm)⟩
          rw [heq, List.append_assoc, List.cons_append]
        · exact ⟨p, q, heq, hp, hesc⟩
      have hmet := scanRx_plain q' hstop hesc'
      rw [← heq', scanRx, hscan, hnone] at hmet
      cases hmet

theorem Inv.free (h : s.Inv) (n : Nat) : (s.step (.free n)).Inv := by
  have hk : min n s.io.rx.used ≤ s.io.rx.used := Nat.min_le_right _ _
  refine ⟨h.fits.pop hk, ?_, h.strips, h.clean⟩
  change s.delivered = (s.taken ++ s.io.rx.contents.take (min n s.io.rx.used)) ++ (s.io.rx.pop _).contents
  rw [List.append_assoc, RingBuf.take_append_contents_pop hk, ← h.ring]

theorem Inv.step (h : s.Inv) (op : Op) : (s.step op).Inv := by
  cases op with
  | round chunk frees => exact (h.round chunk frees).1
  | free n => exact h.free n

theorem Inv.says (h : s.Inv) (op : Op) : s.Says op := by
  cases op with
  | round chunk frees => exact (h.round chunk frees).2
  | free n => trivial

theorem inv_start {k : Nat} (hk : k < 32) (idx : BitVec 32) : (start (2 ^ k) idx).Inv := by
  have hused : (start (2 ^ k) idx).io.rx.used = 0 := by
    change (idx - idx).toNat = 0
    rw [BitVec.sub_self]
    rfl
  refine ⟨⟨Nat.pow_dvd_pow 2 (Nat.le_of_lt hk), Nat.pow_lt_pow_right (by decide) hk, ?_⟩, ?_, .refl _, fun _ => List.not_mem_nil⟩
  · rw [hused]
    exact Nat.zero_le _
  · apply (List.eq_nil_of_length_eq_zero _).symm
    rw [List.length_append, RingBuf.length_contents, hused]
    rfl

end Rounds

end Session

end Termio

end Pyremu
