import Pyremu.PyInterrupt

/-!
# Sleeping in WFI and the threads of the devices

When every hart waits, the emulator thread clears the wake event and blocks until
a device sets it. A device thread changes the interrupt controller, marks the
shared context and sets the event. The thread steps here are as fine as the
threads can see each other; what the guest executes meanwhile is arbitrary.
-/

namespace Pyremu

/-! ## Waiting harts -/

/-- `mstatus.TW`. -/
def mstatusTw : Word := bit 21

/-- `wake_hart_from_wfi`; whether the hart was woken comes with the state. -/
def PyHart.wakeHartFromWfi (h : PyHart) (halted : Bool) : PyHart × Bool :=
  if h.waiting = false ∨ halted = true then (h, false)
  else
    let hwMipBits := h.csrs .mip &&& hwMipMask
    if hwMipBits = 0 then (h, false)
    else if h.csrs .mip &&& h.csrs .mie = 0 ∧ hwMipBits.getLsbD 3 = false then (h, false)
    else ({ h with waiting := false, wfiWoken := true }, true)

namespace PyBoard

variable {n : Nat} (b : PyBoard n)

/-- `sync_pending_interrupts`: a software interrupt of the CLINT enables itself. -/
def syncPendingInterrupts : PyBoard n :=
  let synced := b.updateHwMip b.hwMip
  if b.hwMip.getLsbD 3 = true ∧ (b.csr .mie).getLsbD 3 = false then
    synced.withHart (synced.hart.setCsr .mie (b.csr .mie ||| bit 3))
  else synced

/-- `handle_wfi`. -/
def handleWfi (instr : BitVec 32) : PyBoard n :=
  if b.hart.mode ≠ .M ∧ b.csr .mstatus &&& mstatusTw ≠ 0 then b.deliverTrap 2 (instr.setWidth 64) false
  else if b.hart.wfiWoken then b.withHart { b.hart with wfiWoken := false }
  else if b.csr .mip &&& b.csr .mie ≠ 0 then b
  else b.withHart { b.hart with waiting := true, wfiWoken := false }

/-- WFI as one step of an awake hart: the instruction, then the check at its end. -/
def stepWfi (instr : BitVec 32) : PyBoard n :=
  let done := b.handleWfi instr
  let next := if done.hart.pc = b.hart.pc then done.withHart { done.hart with pc := b.hart.pc + 4 } else done
  next.checkPendingInterrupts.2

/-- A waiting hart looks at its interrupts. -/
def look (halted : Bool) : PyBoard n × Bool :=
  let synced := b.syncPendingInterrupts
  let r := synced.hart.wakeHartFromWfi halted
  (synced.withHart r.1, r.2)

end PyBoard

/-! ## The platform -/

/-- The controllers behind the sink: the lines the harts read, and what lies before them. `none`
means that no controller serves the source. A source is held from the call that raises it until
software takes it; it shows at the lines it is routed to, and devices route nothing. -/
structure IrqWiring (n : Nat) (W : Type) where
  setIrq : ExtIntCtrl n → W → Nat → Bool → Option (ExtIntCtrl n × W)
  held : ExtIntCtrl n → W → Nat → Bool
  routed : ExtIntCtrl n → W → Nat → Fin n → Bool → Prop
  line_of_held : ∀ e w src h m, held e w src = true → routed e w src h m → e.line h m = true
  routed_setIrq : ∀ e w src level e' w', setIrq e w src level = some (e', w') →
    ∀ s h m, routed e' w' s h m ↔ routed e w s h m

/-- What one call of the sink asks for. -/
structure IrqCall where
  source : Nat
  pending : Bool
  deriving DecidableEq, Repr

/-- How far a call of the sink has got. -/
inductive CallStage where
  | idle | irqSet | flagged | done
  deriving DecidableEq, Repr

/-- Where the emulator thread stands. The lists hold the harts that are still to come; `native`
tells a finished engine round from a Python round. -/
inductive EmuPc (n : Nat) where
  | round
  | stepping (rest : List (Fin n))
  | reading (rest : List (Fin n))
  | deciding (native : Bool)
  | clearing (native : Bool)
  | waiting (native : Bool)
  | resync (rest : List (Fin n))
  | rechecking (rest : List (Fin n)) (woken : Bool)
  | settling (rest : List (Fin n))
  deriving DecidableEq

/-- `made` is a ghost: the call has made its source held, and it has stayed held since. -/
structure IdleState (n : Nat) (W : Type) where
  hasSstc : Bool
  harts : Fin n → PyHart
  halted : Fin n → Bool
  clint : PyClint n
  ext : ExtIntCtrl n
  wires : W
  extIrqPending : Bool
  wakeEvent : Bool
  pc : EmuPc n
  stage : Nat → CallStage
  made : Nat → Bool

/-- What an awake hart does in one step of a Python round. Other instructions than WFI leave the hart
awake and may change the devices. -/
inductive HartAct (n : Nat) (W : Type) where
  | wfi (instr : BitVec 32)
  | exec (post : PyHart) (clint : PyClint n) (ext : ExtIntCtrl n) (wires : W)

/-- One step of a thread. `engine` is a whole round of the engine, `startStep` the beginning of a
Python round with the shuffled harts, `hart` its next hart; `emu` is the next step of
`_native_finalize` and of `_wfi_sleep_if_idle`, with the time a wait took. `versions` are the
version numbers that the other harts have afterwards. -/
inductive IdleOp (n : Nat) (W : Type) where
  | engine (harts : Fin n → PyHart) (halted : Fin n → Bool) (clint : PyClint n) (ext : ExtIntCtrl n)
      (wires : W)
  | startStep (order : List (Fin n))
  | hart (act : HartAct n W) (versions : Fin n → IntStateVersion)
  | emu (ticks : Nat)
  | device (i : Nat)

namespace IdleState

variable {n : Nat} {W : Type} (wiring : IrqWiring n W) (calls : Nat → IrqCall) (s : IdleState n W)

def live : List (Fin n) := (List.finRange n).filter fun h => !s.halted h

/-- Hart `h` with the devices it looks at. -/
def board (h : Fin n) : PyBoard n := ⟨h, s.hasSstc, s.harts h, s.clint, s.ext⟩

/-- New controllers: a call keeps its credit while its source is held. -/
def setCtrl (ext : ExtIntCtrl n) (wires : W) : IdleState n W :=
  { s with ext := ext, wires := wires, made := fun i => s.made i && wiring.held ext wires (calls i).source }

def withHart (h : Fin n) (hart : PyHart) : IdleState n W := { s with harts := Function.update s.harts h hart }

/-- The board of hart `h` after a step, which may have moved the versions of the others. -/
def withBoard (h : Fin n) (b : PyBoard n) (versions : Fin n → IntStateVersion) : IdleState n W :=
  { s.setCtrl wiring calls b.ext s.wires with
    harts := fun j => if j = h then b.hart else { s.harts j with intStateVersion := versions j }
    clint := b.clint }

/-- One hart of `step`. -/
def stepHart (h : Fin n) (act : HartAct n W) (versions : Fin n → IntStateVersion) : IdleState n W :=
  if (s.harts h).waiting then
    let r := (s.board h).look (s.halted h)
    s.withBoard wiring calls h (if r.2 then r.1.checkPendingInterrupts.2 else r.1) versions
  else
    match act with
    | .wfi instr => s.withBoard wiring calls h ((s.board h).stepWfi instr) versions
    | .exec post clint ext wires =>
      { s.setCtrl wiring calls ext wires with
        harts := fun j =>
          if j = h then { post with waiting := false } else { s.harts j with intStateVersion := versions j }
        clint := clint }

/-- One hart of the loops that look for a reason to wake it. -/
def lookHart (h : Fin n) : IdleState n W × Bool :=
  if (s.harts h).waiting = false ∨ s.halted h = true then (s, false)
  else
    let r := (s.board h).look (s.halted h)
    (s.withHart h r.1.hart, r.2)

/-- The external lines of one hart, as `_native_sync_plic_mip` copies them. -/
def syncPlicMip (h : Fin n) : IdleState n W :=
  let hart := s.harts h
  let extMask := bit 9 ||| bit 11
  s.withHart h (hart.csrWriteRaw .mip ((hart.csrs .mip &&& ~~~extMask) ||| s.ext.getPendingMip h))

/-- All live harts wait, and there is one. -/
def idle : Bool := !s.live.isEmpty && s.live.all fun h => (s.harts h).waiting

/-- The next step of the emulator thread outside the rounds. -/
def emuStep (ticks : Nat) : IdleState n W :=
  match s.pc with
  | .reading [] => { s with pc := .deciding true }
  | .reading (h :: rest) => { (s.lookHart h).1 with pc := .reading rest }
  | .stepping [] => { s with pc := .deciding false }
  | .deciding native =>
    if s.idle then { s with pc := .clearing native }
    else { s with pc := if native then .resync (List.finRange n) else .round }
  | .clearing native => { s with wakeEvent := false, pc := .waiting native }
  | .waiting native =>
    if s.wakeEvent then
      { s with clint := (s.clint.tick ticks).1, pc := if native then .resync (List.finRange n) else .round }
    else s
  | .resync [] => { s with pc := .rechecking (List.finRange n) false }
  | .resync (h :: rest) => { s.syncPlicMip h with pc := .resync rest }
  | .rechecking [] woken =>
    { s with wakeEvent := s.wakeEvent && !woken, pc := .settling (List.finRange n) }
  | .rechecking (h :: rest) woken =>
    { (s.lookHart h).1 with pc := .rechecking rest (woken || (s.lookHart h).2) }
  | .settling [] => { s with pc := .round }
  | .settling (h :: rest) => { (s.lookHart h).1 with pc := .settling rest }
  | .stepping (_ :: _) => s
  | .round => s

/-- The next step of call `i` of the sink. -/
def deviceStep (i : Nat) : IdleState n W :=
  let c := calls i
  match s.stage i with
  | .idle =>
    match wiring.setIrq s.ext s.wires c.source c.pending with
    | none => { s with stage := Function.update s.stage i .done }
    | some (ext, wires) =>
      { s.setCtrl wiring calls ext wires with
        stage := Function.update s.stage i .irqSet
        made := fun j => if j = i then
            wiring.held ext wires c.source && (c.pending || !wiring.held s.ext s.wires c.source)
          else s.made j && wiring.held ext wires (calls j).source }
  | .irqSet => { s with extIrqPending := true, stage := Function.update s.stage i .flagged }
  | .flagged => { s with wakeEvent := true, stage := Function.update s.stage i .done }
  | .done => s

def step : IdleOp n W → IdleState n W
  | .engine harts halted clint ext wires =>
    match s.pc with
    | .round =>
      { s.setCtrl wiring calls ext wires with
        harts := harts, halted := halted, clint := clint, pc := .reading (List.finRange n) }
    | _ => s
  | .startStep order =>
    match s.pc with
    | .round => if order.Perm s.live then { s with pc := .stepping order } else s
    | _ => s
  | .hart act versions =>
    match s.pc with
    | .stepping (h :: rest) => { s.stepHart wiring calls h act versions with pc := .stepping rest }
    | _ => s
  | .emu ticks => s.emuStep ticks
  | .device i => s.deviceStep wiring calls i

/-! ## Lost wake-ups -/

/-- The bit of an external line. -/
def extCode (mmode : Bool) : Nat := if mmode then IntSource.MEI.code else IntSource.SEI.code

/-- Call `i` has made pending an interrupt that is enabled in `mie` of hart `h`. -/
structure Wants (i : Nat) (h : Fin n) (m : Bool) : Prop where
  made : s.made i = true
  live : s.halted h = false
  routed : wiring.routed s.ext s.wires (calls i).source h m
  enabled : ((s.harts h).csrs .mie).getLsbD (extCode m) = true

/-- The hart that the interrupt is for waits. -/
structure Reaches (i : Nat) (h : Fin n) (m : Bool) : Prop extends s.Wants wiring calls i h m where
  waiting : (s.harts h).waiting = true

/-- The emulator thread is blocked in `wait`. -/
def Blocked : Prop := (∃ native, s.pc = .waiting native) ∧ s.wakeEvent = false

/-- The thread is blocked although a completed call has an interrupt for a waiting hart. -/
def Lost : Prop := s.Blocked ∧ ∃ i h m, s.stage i = .done ∧ s.Reaches wiring calls i h m

/-- The round has dealt with the hart, and the event is not yet cleared. -/
def handled (h : Fin n) : Prop :=
  match s.pc with
  | .stepping rest => h ∉ rest
  | .reading rest => h ∉ rest
  | .deciding _ => True
  | .clearing _ => True
  | _ => False

/-- No call sets the event for a hart that the round has left waiting, and no WFI puts a hart to
sleep for which a completed call has made an interrupt pending. -/
def InTime : IdleOp n W → Prop
  | .device i => s.stage i = .flagged → ∀ h m, s.handled h → ¬ s.Reaches wiring calls i h m
  | .hart (.wfi instr) _ =>
    ∀ h rest, s.pc = .stepping (h :: rest) → (s.harts h).waiting = false →
      ((s.board h).stepWfi instr).hart.waiting = true →
        ∀ i m, s.stage i = .done → ¬ s.Wants wiring calls i h m
  | _ => True

/-- Before the first round, with no call begun. -/
structure Fresh : Prop where
  pc : s.pc = .round
  stage : ∀ i, s.stage i = .idle
  made : ∀ i, s.made i = false

end IdleState

end Pyremu
