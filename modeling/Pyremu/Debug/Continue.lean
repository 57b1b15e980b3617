import Mathlib.Data.Fin.VecNotation
import Mathlib.Data.List.Find
import Mathlib.Data.List.Perm.Subperm
import Pyremu.Debug.Breakpoint
import Pyremu.Lib.Run

/-!
# Address breakpoints under `continue`

`cmd_continue` first steps over the breakpoints that harts stand on and then
lets the engine run. A stop reports one hart at one breakpoint. The reports of
a hart are kept in the ghost log for as long as the hart stays where it is.
-/

namespace Pyremu.Debug

inductive StopReason where
  | breakpoint
  /-- A pause, the end of the firmware, the deadline, or all harts halted. -/
  | other
  deriving DecidableEq, Repr

inductive Phase where
  | repl | running
  deriving DecidableEq, Repr

structure Session (H : Type) (n : Nat) where
  dbg : Debugger H n
  phase : Phase
  /-- Breakpoints that a hart has executed through without a report. -/
  passed : List (Fin n × Breakpoint)

inductive ContinueEvent (H : Type) (n : Nat) where
  /-- `cmd_continue`, with the turns of its step over the breakpoints. -/
  | cont (stepped : Round H n)
  /-- A turn of a hart in the engine. -/
  | engine (m : Move H n)
  /-- The engine stops; `stepped` are the turns of a step over breakpoints whose condition fails. -/
  | stop (reason : StopReason) (readU32 : Word → Option (BitVec 32)) (stepped : Round H n)

section Session

variable {H : Type} {n : Nat} (o : HartOps H) (paToVa : Word → Option Word)

def running (s : H) : Bool := !o.halted s && !o.waiting s

/-- The hart is at the address of the breakpoint, whose condition holds. -/
def standsAt (s : H) (bp : Breakpoint) : Bool := bpMatchPc o s (o.pc s) bp.value && holds o s bp

def Debugger.reportedFor (d : Debugger H n) (i : Fin n) (bp : Breakpoint) : Bool :=
  d.reports.any fun r => decide (r.hart = i ∧ r.bp = bp)

/-- A turn of one hart. It executes if it is running, and its reports are over when it has. -/
def Session.turn (s : Session H n) (bps : List Breakpoint) (m : Move H n) : Session H n :=
  let executes := m.executes && running o (s.dbg.harts m.hart)
  { s with
    dbg := { s.dbg with
      harts := m.after
      reports := s.dbg.reports.filter fun r =>
        !(executes && decide (r.hart = m.hart)) && decide (o.pc (m.after r.hart) = o.pc (s.dbg.harts r.hart)) }
    passed := s.passed ++
      (if executes then bps.filter fun bp => standsAt o (s.dbg.harts m.hart) bp && !s.dbg.reportedFor m.hart bp
        else []).map fun bp => (m.hart, bp) }

/-- `step` of the emulator. -/
def Session.turns (s : Session H n) (bps : List Breakpoint) (round : Round H n) : Session H n :=
  let s := round.moves.foldl (fun s m => s.turn o bps m) s
  { s with dbg := { s.dbg with
    harts := round.synced
    reports := s.dbg.reports.filter fun r => decide (o.pc (round.synced r.hart) = o.pc (s.dbg.harts r.hart)) } }

/-- The breakpoint of the first match for a running hart. -/
def firstMatch (d : Debugger H n) (i : Fin n) : Option Breakpoint :=
  if running o (d.harts i) then
    d.breakpoints.find? fun bp => bp.kind == .addr && bpMatchPc o (d.harts i) (o.pc (d.harts i)) bp.value
  else none

def bpsToSkip (d : Debugger H n) : List Breakpoint :=
  (List.finRange n).foldl (fun skip i =>
    match firstMatch o d i with
    | none => skip
    | some bp => if bp ∈ skip then skip else skip ++ [bp]) []

def stepOverBpAtPc (s : Session H n) (round : Round H n) : Bool × Session H n :=
  let skip := bpsToSkip o s.dbg
  if skip.isEmpty then (false, s)
  else
    let bps := s.dbg.breakpoints
    let saved := s.dbg.bpAddrs
    let values := skip.map (·.value)
    let s := { s with dbg := { s.dbg with
      breakpoints := skip.foldl List.erase bps
      bpAddrs := saved.filter fun a => decide (a ∉ values) } }
    let s := s.turns o bps round
    let bps := s.dbg.breakpoints ++ skip
    (true, { s with dbg := { s.dbg with breakpoints := bps, hasNonAddrBps := hasNonAddr bps, bpAddrs := saved } })

/-- What `_run_loop` hands to the engine. -/
def engineAddrs (bps : List Breakpoint) : List Word :=
  (bps.filter (·.kind == .addr)).flatMap fun bp => bp.value :: (paToVa bp.value).toList

/-- The engine is left to run again exactly when this is true. -/
def handleRunStop (s : Session H n) (reason : StopReason) (readU32 : Word → Option (BitVec 32))
    (stepped : Round H n) : Bool × Session H n :=
  match reason with
  | .other => (false, s)
  | .breakpoint =>
    match checkMultiHartBp o readU32 s.dbg true with
    | (true, d) => (false, { s with dbg := d })
    | (false, d) => stepOverBpAtPc o { s with dbg := d } stepped

def Session.step (s : Session H n) : ContinueEvent H n → Session H n
  | .cont stepped =>
    if s.phase = .running then s
    else
      let s := (stepOverBpAtPc o s stepped).2
      { s with
        dbg := { s.dbg with hits := [], bpAddrs := engineAddrs paToVa s.dbg.breakpoints }
        phase := .running }
  | .engine m => if s.phase = .repl then s else s.turn o s.dbg.breakpoints m
  | .stop reason readU32 stepped =>
    if s.phase = .repl then s
    else
      match handleRunStop o s reason readU32 stepped with
      | (again, s) => { s with phase := if again then .running else .repl }

/-! ## When nothing is passed -/

/-- All harts that run and stand at a breakpoint have been reported there. -/
def Session.Reported (s : Session H n) : Prop :=
  ∀ i, running o (s.dbg.harts i) = true → ∀ bp ∈ s.dbg.breakpoints,
    standsAt o (s.dbg.harts i) bp = true → s.dbg.reportedFor i bp = true

/-- The first hart and breakpoint where the hart stands at the breakpoint. -/
def firstStanding (d : Debugger H n) : Option (Fin n × Breakpoint) :=
  ((candidates n d.breakpoints).find? fun x => standsAt o (d.harts x.1) x.2.1).map fun x => (x.1, x.2.1)

/-- The debugger sees a hart at the same place, running or not, and at the same breakpoints. -/
def SameStand (bps : List Breakpoint) (s s' : H) : Prop :=
  o.pc s' = o.pc s ∧ running o s' = running o s ∧ ∀ bp ∈ bps, standsAt o s' bp = standsAt o s bp

/-- No turn touches a hart that is still to execute. -/
def RoundQuiet (bps : List Breakpoint) : (Fin n → H) → List (Move H n) → Prop
  | _, [] => True
  | harts, m :: ms =>
    (∀ x ∈ ms, x.executes = true → SameStand o bps (harts x.hart) (m.after x.hart)) ∧
      RoundQuiet bps m.after ms

/-- What the engine promises: no hart executes at an address of the list. -/
def EngineStops (s : Session H n) : ContinueEvent H n → Prop
  | .engine m => m.executes = true → o.pc (s.dbg.harts m.hart) ∉ s.dbg.bpAddrs
  | _ => True

/-- A hart in the engine that stands at a breakpoint is at an address of the list. A stop at breakpoints
finds no running hart at one, other than the first of all; any other stop finds none at all. And a step
over breakpoints leaves the harts alone that are still to execute. -/
def StopSees (s : Session H n) : ContinueEvent H n → Prop
  | .cont stepped => s.phase = .repl → RoundQuiet o s.dbg.breakpoints s.dbg.harts stepped.moves
  | .engine m => s.phase = .running → m.executes = true → running o (s.dbg.harts m.hart) = true →
      ∀ bp ∈ s.dbg.breakpoints, standsAt o (s.dbg.harts m.hart) bp = true →
        o.pc (s.dbg.harts m.hart) ∈ s.dbg.bpAddrs
  | .stop .other _ _ => s.phase = .running → ∀ i, running o (s.dbg.harts i) = true →
      ∀ bp ∈ s.dbg.breakpoints, standsAt o (s.dbg.harts i) bp = false
  | .stop .breakpoint _ stepped => s.phase = .running →
      (∀ i, running o (s.dbg.harts i) = true → ∀ bp ∈ s.dbg.breakpoints,
        standsAt o (s.dbg.harts i) bp = true → firstStanding o s.dbg = some (i, bp)) ∧
      (firstStanding o s.dbg = none → RoundQuiet o s.dbg.breakpoints s.dbg.harts stepped.moves)

/-- The three descriptions of the breakpoints before and after. -/
structure SameBreakpoints (d d' : Debugger H n) : Prop where
  list : d'.breakpoints.Perm d.breakpoints
  addrs : d'.bpAddrs = d.bpAddrs
  flag : d.hasNonAddrBps = hasNonAddr d.breakpoints → d'.hasNonAddrBps = d.hasNonAddrBps

end Session

/-! ## Turns -/

section Turns

variable {H : Type} {n : Nat} {o : HartOps H} {bps : List Breakpoint} {s : Session H n}

/-- A turn passes nothing when the hart has been reported wherever it stands. -/
theorem Session.turn_passed {m : Move H n} (hp : s.passed = [])
    (hr : m.executes = true → running o (s.dbg.harts m.hart) = true → ∀ bp ∈ bps,
      standsAt o (s.dbg.harts m.hart) bp = true → s.dbg.reportedFor m.hart bp = true) :
    (s.turn o bps m).passed = [] := by
  rw [turn, hp, List.nil_append, List.map_eq_nil_iff]
  by_cases hx : (m.executes && running o (s.dbg.harts m.hart)) = true
  · rw [if_pos hx]
    obtain ⟨hex, hrun⟩ := Bool.and_eq_true_iff.mp hx
    apply List.filter_eq_nil_iff.mpr
    intro bp hbp hpass
    rw [Bool.and_eq_true_iff] at hpass
    simp [hr hex hrun bp hbp hpass.1] at hpass
  · rw [if_neg hx]

/-- The reports of a hart outlive the turn of another that leaves it in place. -/
theorem Session.turn_reportedFor {m : Move H n} {i : Fin n} {bp : Breakpoint} (hne : i ≠ m.hart)
    (hpc : o.pc (m.after i) = o.pc (s.dbg.harts i)) (hr : s.dbg.reportedFor i bp = true) :
    (s.turn o bps m).dbg.reportedFor i bp = true := by
  obtain ⟨r, hmem, hri⟩ := List.any_eq_true.mp hr
  obtain ⟨rfl, rfl⟩ := of_decide_eq_true hri
  refine List.any_eq_true.mpr ⟨r, List.mem_filter.mpr ⟨hmem, ?_⟩, hri⟩
  simp [hne, hpc]

theorem moves_passed {ms : List (Move H n)} (hp : s.passed = []) (honce : (ms.map (·.hart)).Nodup)
    (hq : RoundQuiet o bps s.dbg.harts ms)
    (hr : ∀ m ∈ ms, m.executes = true → running o (s.dbg.harts m.hart) = true → ∀ bp ∈ bps,
      standsAt o (s.dbg.harts m.hart) bp = true → s.dbg.reportedFor m.hart bp = true) :
    (ms.foldl (fun s m => s.turn o bps m) s).passed = [] := by
  induction ms generalizing s with
  | nil => exact hp
  | cons m ms ih =>
    obtain ⟨hsame, hq⟩ := hq
    obtain ⟨hnew, honce⟩ := List.nodup_cons.mp honce
    refine ih (Session.turn_passed hp (hr m (List.mem_cons_self ..))) honce hq ?_
    intro x hxm hex hrun bp hbp hstand
    have hne : x.hart ≠ m.hart := fun heq => hnew (List.mem_map.mpr ⟨x, hxm, heq⟩)
    obtain ⟨hpc, hrunning, hstands⟩ := hsame x hxm hex
    have hbefore := hr x (List.mem_cons_of_mem m hxm) hex (hrunning ▸ hrun) bp hbp ((hstands bp hbp) ▸ hstand)
    exact Session.turn_reportedFor hne hpc hbefore

theorem moves_frame (ms : List (Move H n)) :
    (ms.foldl (fun s m => s.turn o bps m) s).dbg.breakpoints = s.dbg.breakpoints ∧
      (ms.foldl (fun s m => s.turn o bps m) s).dbg.hits = s.dbg.hits ∧
      (ms.foldl (fun s m => s.turn o bps m) s).phase = s.phase := by
  induction ms generalizing s with
  | nil => exact ⟨rfl, rfl, rfl⟩
  | cons m ms ih => exact ih

@[simp] theorem Session.turns_breakpoints (round : Round H n) :
    (s.turns o bps round).dbg.breakpoints = s.dbg.breakpoints := (moves_frame round.moves).1

@[simp] theorem Session.turns_hits (round : Round H n) : (s.turns o bps round).dbg.hits = s.dbg.hits :=
  (moves_frame round.moves).2.1

end Turns

/-! ## A step over breakpoints -/

section StepOver

variable {H : Type} {n : Nat} {o : HartOps H} {s : Session H n} {d : Debugger H n}

theorem firstMatch_mem {i : Fin n} {bp : Breakpoint} (h : firstMatch o d i = some bp) : bp ∈ d.breakpoints := by
  rw [firstMatch] at h
  split_ifs at h
  exact List.mem_of_find?_eq_some h

/-- Breakpoints of the list, each once. -/
theorem bpsToSkip_spec : (bpsToSkip o d).Nodup ∧ bpsToSkip o d ⊆ d.breakpoints := by
  refine List.foldlRecOn (motive := fun skip => skip.Nodup ∧ skip ⊆ d.breakpoints) _ _
    ⟨List.nodup_nil, List.nil_subset _⟩ ?_
  rintro skip ⟨hnodup, hsub⟩ i -
  cases hm : firstMatch o d i with
  | none => exact ⟨hnodup, hsub⟩
  | some bp =>
    by_cases hbp : bp ∈ skip
    · simpa only [if_pos hbp] using ⟨hnodup, hsub⟩
    · simp only [if_neg hbp]
      refine ⟨List.nodup_append.mpr ⟨hnodup, List.nodup_singleton bp, ?_⟩, List.append_subset.mpr ⟨hsub, ?_⟩⟩
      · intro a ha b hb heq
        exact hbp (List.mem_singleton.mp hb ▸ heq ▸ ha)
      · exact List.cons_subset.mpr ⟨firstMatch_mem hm, List.nil_subset _⟩

/-- Taking breakpoints of the list out and putting them back at its end. -/
theorem erase_append_perm {skip bps : List Breakpoint} (hnodup : skip.Nodup) (hsub : skip ⊆ bps) :
    (skip.foldl List.erase bps ++ skip).Perm bps := by
  rw [← List.diff_eq_foldl]
  exact List.perm_append_comm.trans
    (List.subperm_append_diff_self_of_count_le (List.subperm_ext_iff.mp (hnodup.subperm hsub)))

theorem hasNonAddr_perm {bps bps' : List Breakpoint} (h : bps'.Perm bps) : hasNonAddr bps' = hasNonAddr bps := by
  exact h.any_eq

theorem stepOverBpAtPc_same (o : HartOps H) (s : Session H n) (stepped : Round H n) :
    SameBreakpoints s.dbg (stepOverBpAtPc o s stepped).2.dbg := by
  rw [stepOverBpAtPc]
  by_cases hskip : (bpsToSkip o s.dbg).isEmpty = true
  · rw [if_pos hskip]
    exact ⟨.rfl, rfl, fun _ => rfl⟩
  · rw [if_neg hskip]
    have hperm := erase_append_perm (bpsToSkip_spec (o := o) (d := s.dbg)).1 bpsToSkip_spec.2
    constructor
    · simpa using hperm
    · rfl
    · intro hflag
      rw [hflag]
      simpa using hasNonAddr_perm hperm

theorem stepOverBpAtPc_hits (stepped : Round H n) : (stepOverBpAtPc o s stepped).2.dbg.hits = s.dbg.hits := by
  rw [stepOverBpAtPc]
  split_ifs
  · rfl
  · exact Session.turns_hits stepped

theorem stepOverBpAtPc_passed {stepped : Round H n} (hp : s.passed = []) (hr : s.Reported o)
    (hq : RoundQuiet o s.dbg.breakpoints s.dbg.harts stepped.moves) : (stepOverBpAtPc o s stepped).2.passed = [] := by
  rw [stepOverBpAtPc]
  by_cases hskip : (bpsToSkip o s.dbg).isEmpty = true
  · rwa [if_pos hskip]
  · rw [if_neg hskip]
    refine moves_passed hp stepped.once hq ?_
    intro m _ _ hrun bp hbp hstand
    exact hr m.hart hrun bp hbp hstand

/-- Without breakpoints to skip nothing happens. -/
theorem stepOverBpAtPc_false {stepped : Round H n} (h : (stepOverBpAtPc o s stepped).1 = false) :
    (stepOverBpAtPc o s stepped).2 = s := by
  rw [stepOverBpAtPc] at h ⊢
  split_ifs at h ⊢
  rfl

end StepOver

/-! ## The check at a stop -/

section Stop

variable {H : Type} {n : Nat} {o : HartOps H} {d : Debugger H n}

def AllAddr (bps : List Breakpoint) : Prop := ∀ bp ∈ bps, bp.kind = .addr

/-- The first check of a run reports the first hart at the first breakpoint, and no other. -/
theorem checkMultiHartBp_first (hpure : PureReads o d.breakpoints) (haddr : AllAddr d.breakpoints)
    (hhits : d.hits = []) (readU32 : Word → Option (BitVec 32)) :
    (checkMultiHartBp o readU32 d true = (false, d) ∧ firstStanding o d = none) ∨
      ∃ i bp hits reports, checkMultiHartBp o readU32 d true =
          (true, { d with hits := hits, reports := reports }) ∧
        firstStanding o d = some (i, bp) ∧ (reports.any fun r => decide (r.hart = i ∧ r.bp = bp)) = true := by
  have hmem : ∀ x ∈ candidates n d.breakpoints, x.2.1 ∈ d.breakpoints :=
    fun x hx => List.mem_of_getElem? (mem_candidates.mp hx)
  have hfilter : (candidates n d.breakpoints).filter
      (fun x => !(x.2.1.kind == .addr && x.2.1.cond.isNone && !true)) = candidates n d.breakpoints := by
    simp
  have hfound : found o (hitAfter o readU32) (keyAfter o) d (candidates n d.breakpoints) =
      (candidates n d.breakpoints).find? fun x => standsAt o (d.harts x.1) x.2.1 := by
    apply List.find?_congr
    intro x hx
    rw [hitAfter, haddr _ (hmem x hx), hhits, standsAt]
    simp
  rw [checkMultiHartBp, if_neg (by simp), hfilter, checkEach_eq fun x hx => hpure _ (hmem x hx), hfound,
    firstStanding]
  cases (candidates n d.breakpoints).find? fun x => standsAt o (d.harts x.1) x.2.1 with
  | none => exact .inl ⟨rfl, rfl⟩
  | some x => exact .inr ⟨x.1, x.2.1, _, _, rfl, rfl, by simp⟩

theorem firstStanding_none (h : firstStanding o d = none) (i : Fin n) {bp : Breakpoint}
    (hbp : bp ∈ d.breakpoints) : standsAt o (d.harts i) bp = false := by
  obtain ⟨k, hk⟩ := List.mem_iff_getElem?.mp hbp
  have hnone := List.find?_eq_none.mp (Option.map_eq_none_iff.mp h) (i, bp, k) (mem_candidates.mpr hk)
  simpa using hnone

end Stop

/-! ## Runs -/

section Runs

variable {H : Type} {n : Nat} {o : HartOps H} {paToVa : Word → Option Word} {bps : List Breakpoint}
  {s : Session H n}

/-- Between two events. A step over breakpoints may reorder the list. -/
structure Session.Kept (o : HartOps H) (bps : List Breakpoint) (s : Session H n) : Prop where
  list : s.dbg.breakpoints.Perm bps
  reported : s.phase = .repl → s.Reported o
  hits : s.phase = .running → s.dbg.hits = []
  passed : s.passed = []

theorem cont_kept (h : s.Kept o bps) {stepped : Round H n} (hs : StopSees o s (.cont stepped)) :
    (s.step o paToVa (.cont stepped)).Kept o bps := by
  rw [Session.step]
  split_ifs with hphase
  · exact h
  · have hrepl : s.phase = .repl := by
      cases hp : s.phase with
      | repl => rfl
      | running => exact absurd hp hphase
    refine ⟨?_, fun hr => ?_, fun _ => rfl, ?_⟩
    · exact (stepOverBpAtPc_same o s stepped).list.trans h.list
    · cases hr
    · exact stepOverBpAtPc_passed h.passed (h.reported hrepl) (hs hrepl)

theorem engine_kept (h : s.Kept o bps) {m : Move H n} (he : EngineStops o s (.engine m))
    (hs : StopSees o s (.engine m)) : (s.step o paToVa (.engine m)).Kept o bps := by
  rw [Session.step]
  split_ifs with hphase
  · exact h
  · have hrun : s.phase = .running := by
      cases hp : s.phase with
      | repl => exact absurd hp hphase
      | running => rfl
    refine ⟨h.list, fun hr => absurd hr hphase, h.hits, Session.turn_passed h.passed ?_⟩
    intro hex hrunning bp hbp hstand
    -- the engine has stopped before the hart gets here
    exact absurd (hs hrun hex hrunning bp hbp hstand) (he hex)

theorem stop_kept (hpure : PureReads o bps) (haddr : AllAddr bps) (h : s.Kept o bps) {reason : StopReason}
    {readU32 : Word → Option (BitVec 32)} {stepped : Round H n} (hs : StopSees o s (.stop reason readU32 stepped)) :
    (s.step o paToVa (.stop reason readU32 stepped)).Kept o bps := by
  rw [Session.step]
  split_ifs with hphase
  · exact h
  · have hrun : s.phase = .running := by
      cases hp : s.phase with
      | repl => exact absurd hp hphase
      | running => rfl
    cases reason with
    | other =>
      simp only [handleRunStop]
      refine ⟨h.list, fun _ i hi bp hbp hstand => ?_, (fun hr => by cases hr), h.passed⟩
      rw [hs hrun i hi bp hbp] at hstand
      cases hstand
    | breakpoint =>
      obtain ⟨hfirst, hquiet⟩ := hs hrun
      have hpure' : PureReads o s.dbg.breakpoints := fun bp hbp => hpure bp (h.list.subset hbp)
      have haddr' : AllAddr s.dbg.breakpoints := fun bp hbp => haddr bp (h.list.subset hbp)
      obtain ⟨hc, hnone⟩ | ⟨i, bp, hits, reports, hc, hsome, hrep⟩ :=
        checkMultiHartBp_first hpure' haddr' (h.hits hrun) readU32
      · have hreported : s.Reported o := by
          intro i _ bp hbp hstand
          rw [firstStanding_none hnone i hbp] at hstand
          cases hstand
        simp only [handleRunStop, hc]
        cases hagain : (stepOverBpAtPc o s stepped).1 with
        | false =>
          rw [stepOverBpAtPc_false hagain]
          exact ⟨h.list, fun _ => hreported, (fun hr => by cases hr), h.passed⟩
        | true =>
          refine ⟨(stepOverBpAtPc_same o s stepped).list.trans h.list, (fun hr => by cases hr), fun _ => ?_,
            stepOverBpAtPc_passed h.passed hreported (hquiet hnone)⟩
          exact (stepOverBpAtPc_hits stepped).trans (h.hits hrun)
      · simp only [handleRunStop, hc]
        refine ⟨h.list, fun _ j hj b hb hstand => ?_, (fun hr => by cases hr), h.passed⟩
        have heq := hfirst j hj b hb hstand
        rw [hsome] at heq
        cases heq
        exact hrep

/-- When every stop leaves one hart at one breakpoint at most, no hart executes through an unreported
address breakpoint. A step over breakpoints always puts them back. -/
theorem continue_reports (o : HartOps H) (paToVa : Word → Option Word) (s : Session H n)
    (events : List (ContinueEvent H n)) (haddr : AllAddr s.dbg.breakpoints)
    (hpure : PureReads o s.dbg.breakpoints) (hphase : s.phase = .repl) (hpassed : s.passed = [])
    (hreported : s.Reported o) (hengine : Run.Along (Session.step o paToVa) (EngineStops o) s events)
    (hsees : Run.Along (Session.step o paToVa) (StopSees o) s events) :
    Run.Always (Session.step o paToVa) (fun s => s.passed = []) s events ∧
      ∀ (s : Session H n) stepped, SameBreakpoints s.dbg (stepOverBpAtPc o s stepped).2.dbg := by
  refine ⟨?_, stepOverBpAtPc_same o⟩
  refine Run.always_of_invariant (I := Session.Kept o s.dbg.breakpoints)
    (G := fun s ev => EngineStops o s ev ∧ StopSees o s ev) (fun s' ev hs hg => ?_) (fun s' hs => hs.passed)
    ⟨.rfl, fun _ => hreported, fun hr => ?_, hpassed⟩ (hengine.and hsees)
  · cases ev with
    | cont stepped => exact cont_kept hs hg.2
    | engine m => exact engine_kept hs hg.1 hg.2
    | stop reason readU32 stepped => exact stop_kept hpure haddr hs hg.2
  · rw [hphase] at hr
    cases hr

end Runs

/-! ## Harts that execute `nop` -/

def addrBp (pc : Word) : Breakpoint := ⟨.addr, pc, "", none⟩

def hartsAt {n : Nat} (pcs : Fin n → Word) : Fin n → HartState :=
  fun i => { HartState.zeroed with pc := pcs i }

/-- The debugger before the first `continue`, with breakpoints at these addresses. -/
def sessionAt {n : Nat} (pcs : Fin (n + 1) → Word) (addrs : List Word) : Session HartState (n + 1) where
  dbg := ⟨hartsAt pcs, 0, addrs.map addrBp, false, [], none, [], []⟩
  phase := .repl
  passed := []

/-- Hart `i` executes, and then the harts are there. -/
def nopTo {n : Nat} (i : Fin n) (pcs : Fin n → Word) : Move HartState n := ⟨i, true, hartsAt pcs⟩

def noTurn {n : Nat} : Round HartState n := ⟨[], by simp, hartsAt fun _ => 0⟩

/-- One hart is stopped at `0x10`, reported and continued from there. -/
theorem continue_reports_one :
    let events : List (ContinueEvent HartState 1) := [.cont noTurn, .engine (nopTo 0 ![0x10]),
      .stop .breakpoint (fun _ => none) noTurn,
      .cont ⟨[nopTo 0 ![0x14]], by simp, hartsAt ![0x14]⟩]
    Run.Always (Session.step bareOps fun _ => none) (fun s => s.passed = []) (sessionAt ![0xc] [0x10]) events ∧
      ((events.foldl (Session.step bareOps fun _ => none) (sessionAt ![0xc] [0x10])).dbg.harts 0).pc =
        0x14 := by
  refine ⟨(continue_reports bareOps _ (sessionAt ![0xc] [0x10]) _ ?_ ?_ rfl rfl ?_ ?_ ?_).1, by decide⟩
  · intro bp hbp
    obtain rfl := List.mem_singleton.mp hbp
    rfl
  · intro bp hbp c hc
    obtain rfl := List.mem_singleton.mp hbp
    cases hc
  · intro i _ bp hbp
    obtain rfl := List.mem_singleton.mp hbp
    revert i
    decide
  · refine ⟨trivial, ?_, trivial, trivial, trivial⟩
    intro _
    decide
  · refine ⟨fun _ => trivial, ?_, ?_, ?_, trivial⟩
    · intro _ _ _ bp hbp
      obtain rfl := List.mem_singleton.mp hbp
      decide
    · refine fun _ => ⟨?_, ?_⟩
      · intro i hi bp hbp
        obtain rfl := List.mem_singleton.mp hbp
        revert i
        decide
      · exact fun _ => trivial
    · exact fun _ => ⟨by simp, trivial⟩

/-- The stop at `0x10` reports the first hart only, though the second stands at `0x20`. The next
`continue` takes both breakpoints out and steps both harts. -/
theorem continue_passes_second :
    let events : List (ContinueEvent HartState 2) := [.cont noTurn, .engine (nopTo 0 ![0x10, 0x1c]),
      .engine (nopTo 1 ![0x10, 0x20]), .stop .breakpoint (fun _ => none) noTurn,
      .cont ⟨[nopTo 0 ![0x14, 0x20], nopTo 1 ![0x14, 0x24]], by decide, hartsAt ![0x14, 0x24]⟩]
    Run.Along (Session.step bareOps fun _ => none) (EngineStops bareOps) (sessionAt ![0xc, 0x1c] [0x10, 0x20])
        events ∧
      (events.foldl (Session.step bareOps fun _ => none) (sessionAt ![0xc, 0x1c] [0x10, 0x20])).passed =
        [(1, addrBp 0x20)] := by
  constructor
  · refine ⟨trivial, ?_, ?_, trivial, trivial, trivial⟩
    · intro _
      decide
    · intro _
      decide
  · decide

end Pyremu.Debug
