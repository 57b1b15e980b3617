import Mathlib.Data.List.Find
import Pyremu.Debug.Breakpoint
import Pyremu.Lib.Run
import Pyremu.OpDispatcher

/-!
# Conditional breakpoints while stepping

A breakpoint turns true in an instruction when its condition was false before
it and is true afterwards. Single steps and `cmd_run` should report it before
the hart goes on. The ghost fields of `Watch` record what each hart has turned
true in its last instruction, and which of these were passed over.
-/

namespace Pyremu.Debug

inductive WatchEvent (H : Type) (n : Nat) where
  | select (i : Fin n)
  /-- `step_one` with the word it fetches and what becomes of the harts. -/
  | stepOne (raw : Option (BitVec 32)) (after : Fin n → H)
  /-- One turn of `cmd_run`. -/
  | runOne (round : Round H n) (readU32 : Word → Option (BitVec 32))

structure Watch (H : Type) (n : Nat) where
  dbg : Debugger H n
  /-- Breakpoints that the last instruction of the hart has turned true, or a trap since. -/
  turned : Fin n → List Nat
  /-- The last turn of the hart was in `cmd_run`. -/
  byRun : Fin n → Bool
  /-- Breakpoints passed over, with the hart. -/
  missed : List (Fin n × Nat)

section Watch

variable {H : Type} {n : Nat} (o : HartOps H)

def Debugger.reported (d : Debugger H n) (k : Nat) : Bool := d.reports.any (·.idx == k)

/-- The places of the breakpoints that become true between two states of a hart. -/
def turnedBy (bps : List Breakpoint) (s s' : H) : List Nat :=
  (bps.zipIdx.filter fun x => !holds o s x.1 && holds o s' x.1).map (·.2)

namespace Watch

/-- Hart `i` has its turn. An instruction passes over what is pending. -/
def turn (w : Watch H n) (i : Fin n) (executes byRun : Bool) (after : Fin n → H) : Watch H n where
  dbg := { w.dbg with harts := after }
  turned := Function.update w.turned i ((if executes then [] else w.turned i) ++
    turnedBy o w.dbg.breakpoints (w.dbg.harts i) (after i))
  byRun := Function.update w.byRun i byRun
  missed := w.missed ++
    (if executes then (w.turned i).filter fun k => !w.dbg.reported k else []).map fun k => (i, k)

def move (w : Watch H n) (m : Move H n) : Watch H n := w.turn o m.hart m.executes true m.after

def turns (w : Watch H n) (round : Round H n) : Watch H n :=
  let w := round.moves.foldl (move o) w
  { w with dbg := { w.dbg with harts := round.synced } }

def step (w : Watch H n) : WatchEvent H n → Watch H n
  | .select i => { w with dbg := { w.dbg with selected := i } }
  | .stepOne raw after =>
    let i := w.dbg.selected
    if o.halted (w.dbg.harts i) then w
    else if o.waiting (w.dbg.harts i) then w.turn o i false false after
    else
      match raw with
      | none => w.turn o i false false after
      | some instr =>
        match checkBreakpoints o w.dbg i instr with
        | (true, d) => { w with dbg := d }
        | (false, d) => { w with dbg := d }.turn o i true false after
  | .runOne round readU32 =>
    let w := w.turns o round
    { w with dbg := (checkMultiHartBp o readU32 w.dbg true).2 }

end Watch

/-- A session with these conditions, before anything has been stepped. -/
def watching (harts : Fin n → H) (i : Fin n) (bps : List Breakpoint) (prevCsr : Option (BitVec 12)) :
    Watch H n where
  dbg := ⟨harts, i, bps, hasNonAddr bps, [], prevCsr, [], []⟩
  turned := fun _ => []
  byRun := fun _ => false
  missed := []

/-! ## When nothing is missed -/

/-- What the prefilter lets pass: the next instruction has the register in its `rd` field, or is a
SYSTEM instruction on the CSR, or the last one checked was. -/
def Watches (instr : BitVec 32) (prevCsr : Option (BitVec 12)) (c : Cond) : Prop :=
  let f := decodeFields instr
  match c.reg with
  | .reg r => f.rd ≠ 0 ∧ r = some f.rd
  | .csr a => a = none ∨ (f.opcode = 0x73 ∧ a = some f.func12) ∨ a = prevCsr

/-- What hart `i` has turned true and nobody has reported. -/
def Watch.Pending (w : Watch H n) (i : Fin n) (k : Nat) : Prop := k ∈ w.turned i ∧ w.dbg.reported k = false

/-- The first breakpoint that holds, hart by hart. -/
def firstHolding (d : Debugger H n) : Option Nat :=
  ((candidates n d.breakpoints).find? fun x => holds o (d.harts x.1) x.2.1).map (·.2.2)

/-- The instruction about to be stepped lets all pending breakpoints through, and they still hold. -/
def StepSees (w : Watch H n) (instr : BitVec 32) : Prop :=
  ∀ k bp, w.Pending w.dbg.selected k → w.dbg.breakpoints[k]? = some bp →
    (∀ c, bp.cond = some c → Watches instr w.dbg.prevCsr c) ∧ holds o (w.dbg.harts w.dbg.selected) bp = true

/-- No hart comes to `cmd_run` from a single step with a breakpoint pending. -/
def MovesSeen : Watch H n → List (Move H n) → Prop
  | _, [] => True
  | w, m :: ms =>
    (m.executes = true → ∀ k, w.Pending m.hart k → w.byRun m.hart = true) ∧ MovesSeen (w.move o m) ms

/-- One breakpoint at most is pending after the turn, the first that holds, and `cmd_run` has reported
none so far. -/
def RunSees (w : Watch H n) : Prop :=
  ∀ i k, w.Pending i k → .value .cond 0 ∉ w.dbg.hits ∧ firstHolding o w.dbg = some k

def Sees (w : Watch H n) : WatchEvent H n → Prop
  | .select _ => True
  | .stepOne raw _ => ∀ instr, o.halted (w.dbg.harts w.dbg.selected) = false →
      o.waiting (w.dbg.harts w.dbg.selected) = false → raw = some instr → StepSees o w instr
  | .runOne round _ => MovesSeen o w round.moves ∧ RunSees o (w.turns o round)

end Watch

/-! ## The two checks -/

section Checks

variable {H : Type} {n : Nat} {o : HartOps H} {bps : List Breakpoint} {d : Debugger H n}

/-- Conditional breakpoints as `bp if` makes them. -/
def AllCond (bps : List Breakpoint) : Prop := ∀ bp ∈ bps, bp.kind = .cond ∧ bp.value = 0

theorem mayAffect_iff (instr : BitVec 32) (prevCsr : Option (BitVec 12)) (bp : Breakpoint) :
    instrMayAffectCond instr prevCsr bp = true ↔ ∀ c, bp.cond = some c → Watches instr prevCsr c := by
  rw [instrMayAffectCond]
  cases bp.cond with
  | none => simp
  | some c =>
    simp only [Option.some.injEq, forall_eq', Watches]
    rcases c.reg with r | _ | a
    · simp
    · simp
    · change decide _ = true ↔
        some a = none ∨ (_ ∧ some a = some (decodeFields instr).func12) ∨ some a = prevCsr
      rw [decide_eq_true_eq, Option.some_inj, @eq_comm _ a, @eq_comm _ (some a) prevCsr]
      simp

theorem mem_of_place {bp : Breakpoint} {k : Nat} (h : bps[k]? = some bp) : bp ∈ bps :=
  List.mem_of_getElem? h

/-- Either nothing hits, holds and is new, or one breakpoint is reported. -/
theorem checkBreakpoints_cases (hpure : PureReads o d.breakpoints) (i : Fin n) (instr : BitVec 32) :
    (∃ prev, checkBreakpoints o d i instr = (false, { d with prevCsr := prev }) ∧
        ∀ k bp, d.breakpoints[k]? = some bp → hitBefore o instr d.prevCsr (d.harts i) (i, bp, k) = true →
          holds o (d.harts i) bp = true → keyBefore o (d.harts i) (i, bp, k) ∈ d.hits) ∨
      ∃ k bp, d.breakpoints[k]? = some bp ∧ checkBreakpoints o d i instr = (true, { d with
        hits := d.hits ++ [keyBefore o (d.harts i) (i, bp, k)]
        reports := d.reports ++ [⟨i, k, bp⟩] }) := by
  have hmem : ∀ x : Candidate n, x ∈ d.breakpoints.zipIdx.map (fun x => (i, x)) →
      x.1 = i ∧ d.breakpoints[x.2.2]? = some x.2.1 := by
    intro x hx
    obtain ⟨y, hy, rfl⟩ := List.mem_map.mp hx
    exact ⟨rfl, List.mem_zipIdx_iff_getElem?.mp hy⟩
  rw [checkBreakpoints]
  cases hnil : d.breakpoints.isEmpty with
  | true =>
    refine .inl ⟨d.prevCsr, rfl, fun k bp hk => ?_⟩
    rw [List.isEmpty_iff.mp hnil] at hk
    cases hk
  | false =>
    rw [if_neg Bool.false_ne_true, checkEach_eq fun x hx => hpure _ (mem_of_place (hmem x hx).2)]
    cases hf : found o (hitBefore o instr d.prevCsr) (keyBefore o) d
      (d.breakpoints.zipIdx.map fun x => (i, x)) with
    | none =>
      refine .inl ⟨_, rfl, fun k bp hk hhit hholds => ?_⟩
      have hx := List.find?_eq_none.mp hf (i, bp, k)
        (List.mem_map.mpr ⟨(bp, k), List.mem_zipIdx_iff_getElem?.mpr hk, rfl⟩)
      simpa [hhit, hholds] using hx
    | some x =>
      obtain ⟨rfl, hk⟩ := hmem x (List.mem_of_find?_eq_some hf)
      exact .inr ⟨x.2.2, x.2.1, hk, rfl⟩

/-- `cmd_run` reports the first breakpoint that holds, unless it has reported one before. -/
theorem checkMultiHartBp_cases (hpure : PureReads o d.breakpoints) (hcond : AllCond d.breakpoints)
    (readU32 : Word → Option (BitVec 32)) :
    (checkMultiHartBp o readU32 d true).2 = d ∧ (firstHolding o d = none ∨ .value .cond 0 ∈ d.hits) ∨
      ∃ i k bp, d.breakpoints[k]? = some bp ∧ firstHolding o d = some k ∧
        (checkMultiHartBp o readU32 d true).2 = { d with
          hits := d.hits ++ [.value .cond 0]
          reports := d.reports ++ [⟨i, k, bp⟩] } := by
  have hmem : ∀ x ∈ candidates n d.breakpoints, x.2.1.kind = .cond ∧ x.2.1.value = 0 :=
    fun x hx => hcond _ (mem_of_place (mem_candidates.mp hx))
  have hfilter : (candidates n d.breakpoints).filter
      (fun x => !(x.2.1.kind == .addr && x.2.1.cond.isNone && !true)) = candidates n d.breakpoints := by
    simp
  have hkey : ∀ x ∈ candidates n d.breakpoints, keyAfter o (d.harts x.1) x = .value .cond 0 := by
    intro x hx
    obtain ⟨hkind, hvalue⟩ := hmem x hx
    rw [keyAfter, hkind, hvalue]
  have hhit : ∀ x ∈ candidates n d.breakpoints, hitAfter o readU32 (d.harts x.1) x = true := by
    intro x hx
    rw [hitAfter, (hmem x hx).1]
  rw [checkMultiHartBp, if_neg (by simp), hfilter,
    checkEach_eq fun x hx => hpure _ (mem_of_place (mem_candidates.mp hx))]
  by_cases hseen : BpKey.value .cond 0 ∈ d.hits
  · have hnone : found o (hitAfter o readU32) (keyAfter o) d (candidates n d.breakpoints) = none := by
      apply List.find?_eq_none.mpr
      intro x hx
      rw [hkey x hx, decide_eq_false (not_not_intro hseen), Bool.and_false, Bool.and_false]
      exact Bool.false_ne_true
    rw [hnone]
    exact .inl ⟨rfl, .inr hseen⟩
  · have hfound : found o (hitAfter o readU32) (keyAfter o) d (candidates n d.breakpoints) =
        (candidates n d.breakpoints).find? fun x => holds o (d.harts x.1) x.2.1 := by
      apply List.find?_congr
      intro x hx
      rw [hkey x hx, hhit x hx, decide_eq_true hseen, Bool.true_and, Bool.and_true]
    rw [hfound, firstHolding]
    cases hf : (candidates n d.breakpoints).find? fun x => holds o (d.harts x.1) x.2.1 with
    | none => exact .inl ⟨rfl, .inl rfl⟩
    | some x =>
      have hx := List.mem_of_find?_eq_some hf
      refine .inr ⟨x.1, x.2.2, x.2.1, mem_candidates.mp hx, rfl, ?_⟩
      simp only [hkey x hx]

end Checks

/-! ## Runs -/

section Runs

variable {H : Type} {n : Nat} {o : HartOps H} {bps : List Breakpoint} {w : Watch H n}

/-- Between two events. The checks of a single step hold a breakpoint back only after a report of it,
and what `cmd_run` has executed is reported. -/
structure Watch.Kept (bps : List Breakpoint) (w : Watch H n) : Prop where
  list : w.dbg.breakpoints = bps
  keys : ∀ k, .object .cond k ∈ w.dbg.hits → w.dbg.reported k = true
  places : ∀ i, ∀ k ∈ w.turned i, k < bps.length
  seen : ∀ i k, w.byRun i = true → ¬ w.Pending i k
  missed : w.missed = []

theorem turnedBy_lt {s s' : H} {k : Nat} (h : k ∈ turnedBy o bps s s') : k < bps.length := by
  obtain ⟨x, hx, rfl⟩ := List.mem_map.mp h
  exact (List.mem_zipIdx' (List.mem_of_mem_filter hx)).1

theorem reported_append {d : Debugger H n} {k : Nat} (r : Report n) (hits : List BpKey) :
    Debugger.reported { d with hits := hits, reports := d.reports ++ [r] } k = (d.reported k || r.idx == k) := by
  simp [Debugger.reported]

section Turn

variable {i j : Fin n} {executes byRun : Bool} {after : Fin n → H}

theorem Watch.turn_turned : (w.turn o i executes byRun after).turned =
    Function.update w.turned i ((if executes then [] else w.turned i) ++
      turnedBy o w.dbg.breakpoints (w.dbg.harts i) (after i)) := rfl

theorem Watch.turn_byRun : (w.turn o i executes byRun after).byRun = Function.update w.byRun i byRun := rfl

/-- A turn passes nothing over when nothing is pending at its hart. -/
theorem Watch.turn_missed (hm : w.missed = []) (hp : executes = true → ∀ k, ¬ w.Pending i k) :
    (w.turn o i executes byRun after).missed = [] := by
  have hnone : (if executes then (w.turned i).filter fun k => !w.dbg.reported k else []) = [] := by
    cases executes with
    | false => rfl
    | true =>
      apply List.filter_eq_nil_iff.mpr
      intro k hk hr
      exact hp rfl k ⟨hk, by simpa using hr⟩
  rw [turn, hm, hnone]
  rfl

theorem Watch.turn_places (hb : w.dbg.breakpoints = bps) (h : ∀ i, ∀ k ∈ w.turned i, k < bps.length) :
    ∀ j, ∀ k ∈ (w.turn o i executes byRun after).turned j, k < bps.length := by
  intro j k hk
  rw [turn_turned] at hk
  by_cases hj : j = i
  · rw [hj, Function.update_self, hb, List.mem_append] at hk
    rcases hk with hk | hk
    · split_ifs at hk
      · cases hk
      · exact h i k hk
    · exact turnedBy_lt hk
  · rw [Function.update_of_ne hj] at hk
    exact h j k hk

theorem Watch.pending_turn (h : j ≠ i) {k : Nat} :
    (w.turn o i executes byRun after).Pending j k ↔ w.Pending j k := by
  rw [Pending, Pending, turn_turned, Function.update_of_ne h]
  rfl

/-- A turn outside `cmd_run` keeps the invariant. -/
theorem Watch.Kept.turn (h : w.Kept bps) (hp : executes = true → ∀ k, ¬ w.Pending i k) :
    (w.turn o i executes false after).Kept bps := by
  refine ⟨h.list, h.keys, turn_places h.list h.places, fun j k hj => ?_, turn_missed h.missed hp⟩
  rw [turn_byRun] at hj
  by_cases hji : j = i
  · rw [hji, Function.update_self] at hj
    cases hj
  · rw [Function.update_of_ne hji] at hj
    rw [pending_turn hji]
    exact h.seen j k hj

end Turn

/-! ### Single steps -/

theorem stepOne_kept (hpure : PureReads o bps) (hcond : AllCond bps) (h : w.Kept bps)
    {raw : Option (BitVec 32)} {after : Fin n → H} (hs : Sees o w (.stepOne raw after)) :
    (w.step o (.stepOne raw after)).Kept bps := by
  simp only [Watch.step]
  split_ifs with hhalted hwaiting
  · exact h
  · exact h.turn fun hx => by cases hx
  · cases raw with
    | none => exact h.turn fun hx => by cases hx
    | some instr =>
      dsimp only
      have hsees := hs instr (by simpa using hhalted) (by simpa using hwaiting) rfl
      have hbps := h.list
      obtain ⟨prev, hc, hall⟩ | ⟨k, bp, hk, hc⟩ :=
        checkBreakpoints_cases (hbps ▸ hpure) w.dbg.selected instr
      · rw [hc]
        have hnone : ∀ k, ¬ w.Pending w.dbg.selected k := by
          intro k hp
          have hk := h.places _ k hp.1
          have hbp : w.dbg.breakpoints[k]? = some bps[k] := by rw [hbps, List.getElem?_eq_getElem hk]
          have hkind := (hcond _ (List.getElem_mem hk)).1
          obtain ⟨hwatch, hholds⟩ := hsees k _ hp hbp
          have hkey := hall k _ hbp (by rw [hitBefore, hkind]; exact (mayAffect_iff _ _ _).mpr hwatch) hholds
          rw [keyBefore, hkind] at hkey
          have hrep := h.keys k hkey
          rw [hp.2] at hrep
          cases hrep
        have hkept : ({ w with dbg := { w.dbg with prevCsr := prev } } : Watch H n).Kept bps :=
          ⟨hbps, h.keys, h.places, h.seen, h.missed⟩
        exact hkept.turn fun _ => hnone
      · rw [hc]
        have hkind := (hcond _ (mem_of_place (hbps ▸ hk))).1
        refine ⟨hbps, fun j hj => ?_, h.places, fun i j hi hp => h.seen i j hi ⟨hp.1, ?_⟩, h.missed⟩
        · rw [reported_append]
          rw [keyBefore, hkind, List.mem_append, List.mem_singleton] at hj
          rcases hj with hj | hj
          · rw [h.keys j hj, Bool.true_or]
          · cases hj
            rw [beq_self_eq_true, Bool.or_true]
        · have hr := hp.2
          rw [reported_append, Bool.or_eq_false_iff] at hr
          exact hr.1

/-! ### Turns of `cmd_run` -/

/-- The invariant within a turn, where `ms` is still to come. -/
structure Watch.Turning (bps : List Breakpoint) (w : Watch H n) (ms : List (Move H n)) : Prop where
  list : w.dbg.breakpoints = bps
  keys : ∀ k, .object .cond k ∈ w.dbg.hits → w.dbg.reported k = true
  places : ∀ i, ∀ k ∈ w.turned i, k < bps.length
  seen : ∀ m ∈ ms, ∀ k, w.byRun m.hart = true → ¬ w.Pending m.hart k
  missed : w.missed = []

theorem moves_kept {ms : List (Move H n)} (h : w.Turning bps ms) (honce : (ms.map (·.hart)).Nodup)
    (hs : MovesSeen o w ms) : (ms.foldl (Watch.move o) w).Turning bps [] := by
  induction ms generalizing w with
  | nil => exact h
  | cons m ms ih =>
    obtain ⟨hm, hs⟩ := hs
    obtain ⟨hnew, honce⟩ := List.nodup_cons.mp honce
    have hnone : m.executes = true → ∀ k, ¬ w.Pending m.hart k :=
      fun hx k hp => h.seen m (List.mem_cons_self ..) k (hm hx k hp) hp
    refine ih ⟨h.list, h.keys, Watch.turn_places h.list h.places, fun x hxm k hrun => ?_,
      Watch.turn_missed h.missed hnone⟩ honce hs
    have hne : x.hart ≠ m.hart := fun heq => hnew (List.mem_map.mpr ⟨x, hxm, heq⟩)
    rw [Watch.move, Watch.turn_byRun, Function.update_of_ne hne] at hrun
    rw [Watch.move, Watch.pending_turn hne]
    exact h.seen x (List.mem_cons_of_mem m hxm) k hrun

theorem runOne_kept (hpure : PureReads o bps) (hcond : AllCond bps) (h : w.Kept bps) {round : Round H n}
    {readU32 : Word → Option (BitVec 32)} (hm : MovesSeen o w round.moves)
    (hr : RunSees o (w.turns o round)) : (w.step o (.runOne round readU32)).Kept bps := by
  have hmoves := moves_kept ⟨h.list, h.keys, h.places, fun m _ k => h.seen m.hart k, h.missed⟩ round.once hm
  have ht : (w.turns o round).Turning bps [] :=
    ⟨hmoves.list, hmoves.keys, hmoves.places, (fun m hm => by cases hm), hmoves.missed⟩
  simp only [Watch.step]
  generalize w.turns o round = w' at ht hr ⊢
  have hbps := ht.list
  obtain ⟨hc, hnone⟩ | ⟨i, k, bp, hk, hfirst, hc⟩ :=
    checkMultiHartBp_cases (hbps ▸ hpure) (hbps ▸ hcond) readU32
  · rw [hc]
    refine ⟨hbps, ht.keys, ht.places, fun i k _ hp => ?_, ht.missed⟩
    obtain ⟨hnew, hfirst⟩ := hr i k hp
    rcases hnone with hnone | hold
    · rw [hnone] at hfirst
      cases hfirst
    · exact hnew hold
  · rw [hc]
    refine ⟨hbps, fun j hj => ?_, ht.places, fun i' j _ hp => ?_, ht.missed⟩
    · rw [reported_append]
      rw [List.mem_append, List.mem_singleton] at hj
      rcases hj with hj | hj
      · rw [ht.keys j hj, Bool.true_or]
      · cases hj
    · obtain ⟨hturned, hrep⟩ := hp
      rw [reported_append, Bool.or_eq_false_iff] at hrep
      obtain ⟨-, hfirst'⟩ := hr i' j ⟨hturned, hrep.1⟩
      rw [hfirst] at hfirst'
      cases hfirst'
      exact absurd hrep.2 (by simp)

/-- Where the prefilter lets through what the last instructions have turned true, and `cmd_run` finds one
new breakpoint at most and has not reported another, no hart runs past a breakpoint. -/
theorem cond_breakpoints_seen (o : HartOps H) (cs : List (Cond × String)) (harts : Fin n → H) (i : Fin n)
    (prevCsr : Option (BitVec 12)) (events : List (WatchEvent H n))
    (hpure : PureReads o (cs.map fun c => condBp c.1 c.2))
    (h : Run.Along (Watch.step o) (Sees o) (watching harts i (cs.map fun c => condBp c.1 c.2) prevCsr) events) :
    Run.Always (Watch.step o) (fun w => w.missed = [])
      (watching harts i (cs.map fun c => condBp c.1 c.2) prevCsr) events := by
  have hcond : AllCond (cs.map fun c => condBp c.1 c.2) := by
    intro bp hbp
    obtain ⟨c, -, rfl⟩ := List.mem_map.mp hbp
    exact ⟨rfl, rfl⟩
  generalize cs.map (fun c => condBp c.1 c.2) = bps at hpure hcond h ⊢
  refine Run.always_of_invariant (I := Watch.Kept bps) (G := Sees o) (fun w ev hw hs => ?_) (fun w hw => hw.missed)
    ?_ h
  · cases ev with
    | select i => exact ⟨hw.list, hw.keys, hw.places, hw.seen, hw.missed⟩
    | stepOne raw after => exact stepOne_kept hpure hcond hw hs
    | runOne round readU32 => exact runOne_kept hpure hcond hw hs.1 hs.2
  · refine ⟨rfl, fun k hk => ?_, fun i k hk => ?_, fun i k hi => ?_, rfl⟩
    · cases hk
    · cases hk
    · cases hi

end Runs

/-! ## One hart -/

/-- The hart after these immediate instructions. -/
def afterImms (instrs : List (BitVec 32)) : Fin 1 → HartState := fun _ =>
  instrs.foldl (fun s i =>
    let r := handleOpImm s (decodeFields i) i
    { r.1 with pc := r.1.pc + r.2 }) .zeroed

def condIs (r : BitVec 5) (v : Int) : Cond × String := (⟨.reg (some r), .eq, v⟩, "")

/-- The session that watches for these values in registers. -/
def watchingRegs (cs : List (Cond × String)) : Watch HartState 1 :=
  watching (afterImms []) 0 (cs.map fun c => condBp c.1 c.2) none

def turnOf (instrs : List (BitVec 32)) : WatchEvent HartState 1 :=
  .runOne ⟨[⟨0, true, afterImms instrs⟩], by simp, afterImms instrs⟩ fun _ => none

/-- `li t0, 1` and `addi t0, t0, 0`, which is stopped at before it is executed. -/
theorem cond_breakpoint_reported :
    let events : List (WatchEvent HartState 1) := [.stepOne (some 0x00100293) (afterImms [0x00100293]),
      .stepOne (some 0x00028293) (afterImms [0x00100293, 0x00028293]),
      .stepOne (some 0x00028293) (afterImms [0x00100293, 0x00028293])]
    Run.Always (Watch.step bareOps) (fun w => w.missed = []) (watchingRegs [condIs 5 1]) events ∧
      (events.foldl (Watch.step bareOps) (watchingRegs [condIs 5 1])).dbg.reports.length = 1 := by
  refine ⟨cond_breakpoints_seen bareOps [condIs 5 1] _ 0 none _ ?_ ?_, by decide⟩
  · intro bp hbp c hc s
    obtain rfl := List.mem_singleton.mp hbp
    cases hc
    rfl
  · refine ⟨fun _ _ _ _ k _ hp => ?_, fun instr _ _ hi k bp hp hbp => ?_, fun instr _ _ hi k bp hp hbp => ?_,
      trivial⟩
    · cases hp.1
    · cases hi
      have hk : k = 0 := List.mem_singleton.mp hp.1
      subst hk
      cases hbp
      refine ⟨fun c hc => ?_, by decide⟩
      cases hc
      exact ⟨by decide, rfl⟩
    · have hk : k = 0 := List.mem_singleton.mp hp.1
      subst hk
      exact absurd hp.2 (by decide)

/-- After `li t0, 1` a single step runs on, as the next instruction does not write `t0`; and once `cmd_run` has
reported `t0 == 1` it does not report `t1 == 1`. -/
theorem cond_breakpoint_missed :
    ((([.stepOne (some 0x00100293) (afterImms [0x00100293]),
        .stepOne (some 0x00000013) (afterImms [0x00100293, 0x00000013])] : List (WatchEvent HartState 1)).foldl
          (Watch.step bareOps) (watchingRegs [condIs 5 1])).missed = [(0, 0)]) ∧
      (([turnOf [0x00100293], turnOf [0x00100293, 0x00100313],
        turnOf [0x00100293, 0x00100313, 0x00000013]] : List (WatchEvent HartState 1)).foldl
          (Watch.step bareOps) (watchingRegs [condIs 5 1, condIs 6 1])).missed = [(0, 1)] := by
  constructor <;> decide

end Pyremu.Debug
