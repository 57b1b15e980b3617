import Pyremu.Devices
import Pyremu.OpDispatcher

/-!
# Loads and stores of the 32-bit encodings

All of them translate, check PMP, offer the access to the devices and fall
through to RAM. An access that crosses a page translates its second page on its
own. `translateAccess` is the common prefix; it returns no address after it has
delivered a trap.
-/

namespace Pyremu

/-- `sext` to 64 bits from an 8-, 16- or 32-bit value; wider loads are unchanged. -/
def extendLoad (size : Nat) (signed : Bool) (v : Word) : Word :=
  if !signed then v
  else
    match size with
    | 1 => (v.setWidth 8).signExtend 64
    | 2 => (v.setWidth 16).signExtend 64
    | 4 => (v.setWidth 32).signExtend 64
    | _ => v

namespace World

variable (w : World)

/-- Raise a trap on the executing hart. -/
def trap (code tval : Word) : World := w.setHart (deliverTrap w.hart (mcauseVal code false) tval)

def illegal (instr : BitVec 32) : World :=
  w.setHart (deliverIllegalInstruction w.hart (instr.setWidth 64))

/-- Raise the trap of a failed translation. -/
def fault (f : TranslateFault) (accessCode tval : Word) : World :=
  match f with
  | .pageFault cause => w.trap cause tval
  | .accessFault => w.trap accessCode tval

def requestStop (reason : ExitReason) (instr : BitVec 32) : World :=
  let info : StopInfo := ⟨reason, w.hart.mhartid.setWidth 8, w.hart.pc, instr⟩
  { w with module := w.module.requestStop info }

end World

/-- Translate without any check of the physical address. -/
def World.translate (cfg : Features) (w : World) (va : Word) (rwx : Rwx) :
    World × Except TranslateFault TranslateResult :=
  let r := translateVa cfg w.hart w.mem va rwx w.pmp
  ({ w with hart := r.1, mem := r.2.1 }, r.2.2)

/-- Translate `va` and check PMP over `size` bytes; traps carry `tval`. -/
def translateAccess (cfg : Features) (w : World) (va : Word) (rwx : Rwx) (size : Nat)
    (accessCode faultTval pmpTval : Word) : World × Option Word :=
  match w.translate cfg va rwx with
  | (w, .error f) => (w.fault f accessCode faultTval, none)
  | (w, .ok t) =>
    if pmpOk w.hart t.pa size (hasWrite rwx) false w.pmp then (w, some t.pa)
    else (w.trap accessCode pmpTval, none)

/-! ## RAM accesses -/

/-- Bytes `0` to `n - 1` from `pa`, each resolved on its own. -/
def ramReadBytes (c : WalkCtx) (pa : Word) : Nat → Word
  | 0 => 0
  | n + 1 => ramReadBytes c pa n ||| (ramReadRaw c (pa + BitVec.ofNat 64 n) 1 <<< (8 * n))

/-- Store the bytes of `v` one by one, lowest address first. -/
def ramWriteBytes (c : WalkCtx) (pa v : Word) : Nat → WalkCtx
  | 0 => c
  | n + 1 =>
    ramWriteRaw (ramWriteBytes c pa v n) (pa + BitVec.ofNat 64 n) ((v >>> (8 * n)) &&& 0xFF) 1

/-- Bytes left on the page of `va`. -/
def bytesFirst (va : Word) : Nat := 0x1000 - (va &&& 0xFFF).toNat

def crossesPage (va : Word) (size : Nat) : Bool := decide (0x1000 < (va &&& 0xFFF).toNat + size)

/-- The second page is translated after the bytes of the first have been read;
a PMP denial there reports the start of the access. -/
def readRamCrossPage (cfg : Features) (w : World) (va paFirst : Word) (size : Nat) :
    World × Option Word :=
  let n := bytesFirst va
  let first := ramReadBytes w.mem paFirst n
  let va2 := va + BitVec.ofNat 64 n
  match translateAccess cfg w va2 .read (size - n) Exc.ldAccessFault va2 va with
  | (w, none) => (w, none)
  | (w, some pa2) => (w, some (first ||| (ramReadBytes w.mem pa2 (size - n) <<< (8 * n))))

/-- The bytes of the first page are stored before the second page is translated. -/
def writeRamCrossPage (cfg : Features) (w : World) (va paFirst v : Word) (size : Nat) :
    World × Bool :=
  let n := bytesFirst va
  let w := { w with mem := ramWriteBytes w.mem paFirst v n }
  let va2 := va + BitVec.ofNat 64 n
  match translateAccess cfg w va2 .write (size - n) Exc.stAccessFault va2 va with
  | (w, none) => (w, false)
  | (w, some pa2) =>
    ({ w with mem := ramWriteBytes w.mem pa2 (v >>> (8 * n)) (size - n) }, true)

def aligned (va : Word) (size : Nat) : Bool := decide (va.toNat % size = 0)

/-- Read from RAM; `none` after a trap on the second page. -/
def loadRam (cfg : Features) (w : World) (va pa : Word) (size : Nat) : World × Option Word :=
  if crossesPage va size then readRamCrossPage cfg w va pa size
  else if aligned va size then (w, some (ramReadRaw w.mem pa size))
  else (w, some (ramReadBytes w.mem pa size))

/-- Write to RAM; `false` after a trap on the second page. -/
def storeRam (cfg : Features) (w : World) (va pa v : Word) (size : Nat) : World × Bool :=
  if crossesPage va size then writeRamCrossPage cfg w va pa v size
  else if aligned va size then ({ w with mem := ramWriteRaw w.mem pa v size }, true)
  else ({ w with mem := ramWriteBytes w.mem pa v size }, true)

/-! ## Device accesses -/

def World.tryVirtio (w : World) (pa : Word) (isWrite : Bool) (v : Word) : World × Option Word :=
  let r := tryHandleVirtio w.dev pa isWrite v
  ({ w with dev := r.1 }, r.2)

def World.tryUart (w : World) (pa : Word) (isWrite : Bool) (v : Word) : World × Option Word :=
  let r := tryHandleUart w.uart pa isWrite v (w.hart.mhartid.setWidth 8)
  ({ w with uart := r.1 }, r.2)

def World.tryPlic (w : World) (pa : Word) (isWrite : Bool) (v : Word) (size : Nat) :
    World × Option Word :=
  let r := tryHandlePlic w.hart w.dev pa isWrite v size
  ({ w with hart := r.1, dev := r.2.1 }, r.2.2)

/-- Ask one handler after the other until one answers. -/
def firstDevice (w : World) : List (World → World × Option Word) → World × Option Word
  | [] => (w, none)
  | h :: hs =>
    match h w with
    | (w, some d) => (w, some d)
    | (w, none) => firstDevice w hs

def deviceLoad (cfg : Features) (w : World) (pa : Word) (size : Nat) : World × Option Word :=
  firstDevice w
    [fun w => tryHandleClint w pa false 0 size, fun w => w.tryVirtio pa false 0,
     fun w => w.tryUart pa false 0, fun w => (w, tryHandleImsicRead cfg pa w.clint.numHarts),
     fun w => w.tryPlic pa false 0 size]

def deviceStore (cfg : Features) (w : World) (pa v : Word) (size : Nat) : World × Option Word :=
  firstDevice w
    [fun w => tryHandleClint w pa true v size, fun w => w.tryUart pa true v,
     fun w => w.tryVirtio pa true v,
     fun w => ((tryHandleImsic cfg w pa v).1, if (tryHandleImsic cfg w pa v).2 then some 0 else none),
     fun w => w.tryPlic pa true v size]

/-! ## Handlers -/

/-- What follows the device handlers of a load: leave the round for a device
window, trap outside RAM, or read RAM and finish with `done`. -/
def loadTail (cfg : Features) (w : World) (va pa : Word) (size : Nat) (instr : BitVec 32)
    (done : World → Word → World) : World × Word :=
  if isDeviceAddr pa w.dev then (w.requestStop .mmio instr, exitSentinel)
  else if (HartSched.ramOffset w.mem.toLayout pa size).isNone then
    (w.trap Exc.ldAccessFault va, 0)
  else
    match loadRam cfg w va pa size with
    | (w, none) => (w, 0)
    | (w, some v) => (done w v, 4)

def storeTail (cfg : Features) (w : World) (va pa v : Word) (size : Nat) (instr : BitVec 32) :
    World × Word :=
  if isDeviceAddr pa w.dev then (w.requestStop .mmio instr, exitSentinel)
  else if (HartSched.ramOffset w.mem.toLayout pa size).isNone then
    (w.trap Exc.stAccessFault va, 0)
  else
    match storeRam cfg w va pa v size with
    | (w, false) => (w, 0)
    | (w, true) => (w, 4)

def loadKind (func3 : BitVec 3) : Option (Nat × Bool) :=
  match func3 with
  | 0b000 => some (1, true)
  | 0b001 => some (2, true)
  | 0b010 => some (4, true)
  | 0b011 => some (8, false)
  | 0b100 => some (1, false)
  | 0b101 => some (2, false)
  | 0b110 => some (4, false)
  | 0b111 => none

def storeSize (func3 : BitVec 3) : Option Nat :=
  match func3 with
  | 0b000 => some 1
  | 0b001 => some 2
  | 0b010 => some 4
  | 0b011 => some 8
  | _ => none

def fpSize (func3 : BitVec 3) : Option Nat :=
  match func3 with
  | 0b010 => some 4
  | 0b011 => some 8
  | _ => none

def World.writeGpr (w : World) (rd : BitVec 5) (v : Word) : World :=
  w.setHart (Pyremu.writeGpr w.hart rd v)

/-- A loaded single is NaN-boxed, and the unit becomes dirty. -/
def World.writeFprLoad (w : World) (rd : BitVec 5) (size : Nat) (v : Word) : World :=
  w.setHart (setFsDirty (writeFpr w.hart rd (if size = 4 then nanboxS ||| v else v)))

def handleLoad (cfg : Features) (w : World) (f : DecodedFields) (instr : BitVec 32) :
    World × Word :=
  match loadKind f.func3 with
  | none => (w.illegal instr, 0)
  | some (size, signed) =>
    let va := readGpr w.hart f.rs1 + f.imm12Se
    match translateAccess cfg w va .read size Exc.ldAccessFault va va with
    | (w, none) => (w, 0)
    | (w, some pa) =>
      match deviceLoad cfg w pa size with
      | (w, some d) => (w.writeGpr f.rd (extendLoad size signed d), 4)
      | (w, none) =>
        loadTail cfg w va pa size instr fun w v => w.writeGpr f.rd (extendLoad size signed v)

def handleStore (cfg : Features) (w : World) (f : DecodedFields) (instr : BitVec 32) :
    World × Word :=
  match storeSize f.func3 with
  | none => (w.illegal instr, 0)
  | some size =>
    let va := readGpr w.hart f.rs1 + f.immS
    match translateAccess cfg w va .write size Exc.stAccessFault va va with
    | (w, none) => (w, 0)
    | (w, some pa) =>
      let v := readGpr w.hart f.rs2
      match deviceStore cfg w pa v size with
      | (w, some _) => (w, 4)
      | (w, none) => storeTail cfg w va pa v size instr

def handleFpLoad (cfg : Features) (w : World) (f : DecodedFields) (instr : BitVec 32) :
    World × Word :=
  if fpOff w.hart then (w.illegal instr, 0)
  else
    match fpSize f.func3 with
    | none => (w.illegal instr, 0)
    | some size =>
      let va := readGpr w.hart f.rs1 + f.imm12Se
      match translateAccess cfg w va .read size Exc.ldAccessFault va va with
      | (w, none) => (w, 0)
      | (w, some pa) =>
        match w.tryVirtio pa false 0 with
        | (w, some d) => (w.writeFprLoad f.rd size d, 4)
        | (w, none) => loadTail cfg w va pa size instr fun w v => w.writeFprLoad f.rd size v

def handleFpStore (cfg : Features) (w : World) (f : DecodedFields) (instr : BitVec 32) :
    World × Word :=
  if fpOff w.hart then (w.illegal instr, 0)
  else
    match fpSize f.func3 with
    | none => (w.illegal instr, 0)
    | some size =>
      let va := readGpr w.hart f.rs1 + f.immS
      match translateAccess cfg w va .write size Exc.stAccessFault va va with
      | (w, none) => (w, 0)
      | (w, some pa) =>
        let v := w.hart.fprs f.rs2
        match w.tryVirtio pa true v with
        | (w, some _) => (w, 4)
        | (w, none) => storeTail cfg w va pa v size instr

end Pyremu
