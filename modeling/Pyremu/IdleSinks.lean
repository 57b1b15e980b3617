import Pyremu.IdleWakeRuns
import Pyremu.PlicLevel
import Pyremu.Lib.Run

/-!
# The sink of the devices and an idle machine

The controllers that stand behind the sink, and the runs in which no wake-up of a
device is lost.
-/

namespace Pyremu

/-! ## A PLIC behind the sink -/

namespace Plic

variable {p : Plic} {context src : Nat}

/-- What lets a pending source show at a context. -/
structure Shows (p : Plic) (context src : Nat) : Prop where
  valid : 0 < src ∧ src ≤ p.numSources
  served : context < p.numContexts
  word : src / 32 < p.numWords
  enabled : p.enable (context * p.numWords + src / 32) &&& (1#32 <<< (src % 32)) ≠ 0
  above : (p.threshold context).toNat < (p.priority src).toNat

theorem better_pos (hs : 0 < src) {best : Nat × Nat} (hb : 0 < best.1) : 0 < (p.better context best src).1 := by
  rcases p.better_fst context best src with h | h
  · rw [h]
    exact hb
  · rw [h]
    exact hs

theorem foldl_better_pos (l : List Nat) (hl : ∀ src ∈ l, 0 < src) {best : Nat × Nat} (hb : 0 < best.1) :
    0 < (l.foldl (p.better context) best).1 := by
  induction l generalizing best with
  | nil => exact hb
  | cons a l ih =>
    apply ih
    · exact fun src hsrc => hl src (List.mem_cons_of_mem _ hsrc)
    · exact better_pos (hl a List.mem_cons_self) hb

/-- A priority that has been found belongs to a source. -/
theorem better_owned (hs : 0 < src) {best : Nat × Nat} (hb : 0 < best.2 → 0 < best.1) :
    0 < (p.better context best src).2 → 0 < (p.better context best src).1 := by
  simp only [better]
  split_ifs
  · exact hb
  · exact hb
  · exact hb
  · exact hb
  · exact fun _ => hs
  · exact hb

theorem better_of_shows (hs : p.Shows context src) (hp : p.pending src = true) {best : Nat × Nat}
    (hb : 0 < best.2 → 0 < best.1) : 0 < (p.better context best src).1 := by
  have habove := hs.above
  simp only [better]
  rw [if_neg (Nat.not_le.mpr hs.word), if_neg (by simp [hp]), if_neg hs.enabled, if_neg (by omega)]
  split_ifs with hbest
  · exact hs.valid.1
  · exact hb (by omega)

theorem foldl_better_of_shows (hs : p.Shows context src) (hp : p.pending src = true) (l : List Nat)
    (hl : ∀ src ∈ l, 0 < src) (hmem : src ∈ l) {best : Nat × Nat} (hb : 0 < best.2 → 0 < best.1) :
    0 < (l.foldl (p.better context) best).1 := by
  induction l generalizing best with
  | nil => cases hmem
  | cons a l ih =>
    have hl' : ∀ src ∈ l, 0 < src := fun src hsrc => hl src (List.mem_cons_of_mem _ hsrc)
    rw [List.mem_cons] at hmem
    rcases hmem with rfl | hmem
    · exact foldl_better_pos l hl' (better_of_shows hs hp hb)
    · exact ih hl' hmem (better_owned (hl a List.mem_cons_self) hb)

theorem findHighest_of_shows (hs : p.Shows context src) (hp : p.pending src = true) :
    0 < p.findHighest context := by
  rw [findHighest, if_neg (Nat.not_le.mpr hs.served)]
  apply foldl_better_of_shows hs hp
  · intro j hj
    obtain ⟨i, _, rfl⟩ := List.mem_map.mp hj
    omega
  · have hsrc := hs.valid
    exact List.mem_map.mpr ⟨src - 1, List.mem_range.mpr (by omega), by omega⟩
  · exact id

theorem shows_setIrq (source : Nat) (high : Bool) : (p.setIrq source high).Shows context src ↔ p.Shows context src := by
  simp only [setIrq]
  split_ifs
  · exact ⟨fun h => ⟨h.1, h.2, h.3, h.4, h.5⟩, fun h => ⟨h.1, h.2, h.3, h.4, h.5⟩⟩
  · exact Iff.rfl

end Plic

/-- The context of a hart. -/
def plicContext (hartId : Nat) (mmode : Bool) : Nat := if mmode then 2 * hartId else 2 * hartId + 1

/-- The sink with a PLIC for every source. -/
def plicWiring (n : Nat) : IrqWiring n Unit where
  setIrq
    | .plic p, _, source, pending => some (.plic (p.setIrq source pending), ())
    | .imsic _, _, _, _ => none
  held
    | .plic p, _, source => p.pending source
    | .imsic _, _, _ => false
  routed
    | .plic p, _, source, h, mmode => p.Shows (plicContext h mmode) source
    | .imsic _, _, _, _, _ => False
  line_of_held := by
    intro e _ src h m hheld hrouted
    cases e with
    | imsic files => cases hheld
    | plic p =>
      have hpos := Plic.findHighest_of_shows hrouted hheld
      have hctx := hrouted.served
      simp only [ExtIntCtrl.line, plicContext] at hpos hctx ⊢
      simp [hpos, hctx]
  routed_setIrq := by
    intro e w src level e' w' hset s h m
    cases e with
    | imsic files => cases hset
    | plic p =>
      cases hset
      exact Plic.shows_setIrq src level

/-! ## Runs -/

namespace IdleState

variable {n : Nat} {W : Type} {wiring : IrqWiring n W} {calls : Nat → IrqCall}

/-- In a run whose steps are in time no wake-up of a device is lost. -/
theorem wakeups_kept {s : IdleState n W} (hs : s.Fresh) (run : List (IdleOp n W))
    (ht : Run.Along (step wiring calls) (InTime wiring calls) s run) :
    Run.Always (step wiring calls) (fun s => ¬ s.Lost wiring calls) s run :=
  Run.always_of_invariant (I := Sound wiring calls) (fun _ _ h hg => h.step hg) (fun _ h => h.not_lost)
    (sound_of_fresh hs) ht

/-- One hart that waits for the external interrupt of M mode, and a PLIC that routes source 1 to it. -/
def asleep : IdleState 1 Unit where
  hasSstc := true
  harts := fun _ =>
    { mode := .M, pc := 0x80000000, csrs := fun r => if r = .mie then bit 11 else 0, waiting := true
      wfiWoken := false, reservationValid := false, imsicSelectM := 0, imsicSelectS := 0, intStateVersion := ⟨0⟩
      intCacheVersion := none, intCacheNextTimer := 0 }
  halted := fun _ => false
  clint := { msip := fun _ => false, mtimecmp := fun _ => 0, mtime := 0 }
  ext := .plic { Plic.reset 0xC000000 1 2 with priority := fun _ => 1, enable := fun _ => 2 }
  wires := ()
  extIrqPending := false
  wakeEvent := false
  pc := .round
  stage := fun _ => .idle
  made := fun _ => false

theorem fresh_asleep : asleep.Fresh := ⟨rfl, fun _ => rfl, fun _ => rfl⟩

/-- A call for source 1 that comes while the hart sleeps wakes the thread. -/
theorem call_after_clear :
    Run.Always (step (plicWiring 1) fun _ => ⟨1, true⟩) (fun s => ¬ s.Lost (plicWiring 1) fun _ => ⟨1, true⟩) asleep
      [.startStep [0], .hart (.wfi 0x10500073) fun _ => ⟨0⟩, .emu 0, .emu 0, .device 0, .device 0, .emu 0,
        .device 0, .emu 1] := by
  apply wakeups_kept fresh_asleep
  refine ⟨trivial, ?_, trivial, trivial, ?_, ?_, trivial, ?_, trivial, trivial⟩
  · intro h rest hp hw
    exact Bool.noConfusion hw
  · exact fun h => absurd h (by decide +kernel)
  · exact fun h => absurd h (by decide +kernel)
  · exact fun _ _ _ hh => hh.elim

/-- A call that sets the event between the look at the hart and the clearing is lost. -/
theorem call_before_clear_lost :
    ¬ ∀ (n : Nat) (W : Type) (wiring : IrqWiring n W) (calls : Nat → IrqCall) (s : IdleState n W), s.Fresh →
        ∀ run, Run.Always (step wiring calls) (fun s => ¬ s.Lost wiring calls) s run := by
  intro h
  have hlast := (h 1 Unit (plicWiring 1) (fun _ => ⟨1, true⟩) asleep fresh_asleep
    [.startStep [0], .hart (.wfi 0x10500073) fun _ => ⟨0⟩, .emu 0, .device 0, .device 0, .device 0, .emu 0,
      .emu 0]).last
  refine hlast ⟨⟨⟨false, by decide +kernel⟩, by decide +kernel⟩, 0, 0, true, by decide +kernel, ⟨?_, ?_, ?_, ?_⟩, ?_⟩
  · decide +kernel
  · decide +kernel
  · exact ⟨by decide +kernel, by decide +kernel, by decide +kernel, by decide +kernel, by decide +kernel⟩
  · decide +kernel
  · decide +kernel

end IdleState

end Pyremu
