import Pyremu.PlicLevel

/-!
# The Python PLIC

`PLIC` of `interrupt/plic.py` works on the arrays that it shares with the native
engine. It looks for set bytes in the pending array and skips from one to the
next; the engine goes through all sources.
-/

namespace Pyremu

namespace PlicPy

variable (p : Plic)

/-- Sources from here on have no enable bit. -/
def limit : Nat := min p.numSources (p.numWords * 32 - 1)

/-- `pending_bytes.find(1, start, limit + 1)`. -/
def findPending (start : Nat) : Option Nat := (List.range' start (limit p + 1 - start)).find? p.pending

/-- The body of the loop in `_find_highest`. -/
def consider (context : Nat) (best : Nat × Nat) (i : Nat) : Nat × Nat :=
  if ((p.enable (context * p.numWords + i / 32)) >>> (i % 32)) &&& 1 ≠ 0 then
    let pri := (p.priority i).toNat
    if (p.threshold context).toNat < pri ∧ best.2 < pri then (i, pri) else best
  else best

/-- The loop in `_find_highest`. Every turn starts behind the last one, so `limit + 1` turns are enough. -/
def scan (context : Nat) : Nat → Nat → Nat × Nat → Nat × Nat
  | 0, _, best => best
  | n + 1, start, best =>
    match findPending p start with
    | none => best
    | some i => scan context n (i + 1) (consider p context best i)

/-- `_find_highest`. -/
def findHighest (context : Nat) : Nat := (scan p context (limit p + 1) 1 (0, 0)).1

/-- `get_pending_mip`. -/
def getPendingMip (hartId : Nat) : Word :=
  let mCtx := 2 * hartId
  let sCtx := mCtx + 1
  (if mCtx < p.numContexts ∧ 0 < findHighest p mCtx then bit 11 else 0) |||
    (if sCtx < p.numContexts ∧ 0 < findHighest p sCtx then bit 9 else 0)

/-- `_read_pending_word`. -/
def readPendingWord (wordIdx : Nat) : Word :=
  (List.range 32).foldl (fun result i =>
    let src := wordIdx * 32 + i
    if src ≤ p.numSources ∧ p.pending src = true then result ||| bit i else result) 0

/-- `_read_enable_word`. -/
def readEnableWord (context wordIdx : Nat) : Word :=
  if p.numContexts ≤ context ∨ p.numWords ≤ wordIdx then 0
  else (p.enable (context * p.numWords + wordIdx)).setWidth 64

/-- `_write_enable_word`. -/
def writeEnableWord (context wordIdx : Nat) (val : BitVec 32) : Plic :=
  if p.numContexts ≤ context ∨ p.numWords ≤ wordIdx then p
  else
    let srcBase := wordIdx * 32
    let bits := if srcBase = 0 then val &&& ~~~1 else val
    let bitCount := p.numSources + 1 - srcBase
    let bits := if bitCount < 32 then bits &&& ((1#32 <<< bitCount) - 1) else bits
    { p with enable := Function.update p.enable (context * p.numWords + wordIdx) bits }

/-- `_do_claim`. -/
def doClaim (context : Nat) : Plic × Nat :=
  let src := findHighest p context
  if 0 < src then
    ({ p with
      pending := Function.update p.pending src false
      claimed := Function.update p.claimed context (BitVec.ofNat 32 src) }, src)
  else (p, src)

/-- `_do_complete`. -/
def doComplete (context src : Nat) : Plic :=
  if 0 < src ∧ src ≤ p.numSources ∧ (p.claimed context).toNat = src then
    let p := { p with claimed := Function.update p.claimed context 0 }
    if p.level src then { p with pending := Function.update p.pending src true } else p
  else p

/-- `_read_context`. -/
def readContext (rel : Nat) : Plic × Word :=
  let context := rel / 0x1000
  let ctxOff := rel % 0x1000
  if p.numContexts ≤ context then (p, 0)
  else if ctxOff = 0 then (p, (p.threshold context &&& 7).setWidth 64)
  else if ctxOff = 4 then
    let r := doClaim p context
    (r.1, BitVec.ofNat 64 r.2)
  else (p, 0)

/-- `_mmio_read`. -/
def mmioRead (offset : Nat) : Plic × Word :=
  if offset < 0x1000 then
    let src := offset / 4
    (p, if 1 ≤ src ∧ src ≤ p.numSources then (p.priority src &&& 7).setWidth 64 else 0)
  else if offset < 0x2000 then (p, readPendingWord p ((offset - 0x1000) / 4))
  else if offset < 0x200000 then
    let rel := offset - 0x2000
    (p, readEnableWord p (rel / 0x80) (rel % 0x80 / 4))
  else readContext p (offset - 0x200000)

/-- `_mmio_write`. -/
def mmioWrite (offset : Nat) (val : BitVec 32) : Plic :=
  if offset < 0x1000 then
    let src := offset / 4
    if 1 ≤ src ∧ src ≤ p.numSources then
      { p with priority := Function.update p.priority src ((val &&& 7).setWidth 8) }
    else p
  else if offset < 0x2000 then p
  else if offset < 0x200000 then
    let rel := offset - 0x2000
    writeEnableWord p (rel / 0x80) (rel % 0x80 / 4) val
  else
    let rel := offset - 0x200000
    let context := rel / 0x1000
    let ctxOff := rel % 0x1000
    if p.numContexts ≤ context then p
    else if ctxOff = 0 then { p with threshold := Function.update p.threshold context ((val &&& 7).setWidth 8) }
    else if ctxOff = 4 then doComplete p context val.toNat
    else p

/-- `read`; none where `to_bytes` overflows. -/
def read (offset size : Nat) : Plic × Option Word :=
  if size ≠ 2 ∧ size ≠ 4 then (p, some 0)
  else
    let r := mmioRead p offset
    (r.1, if r.2.toNat < 2 ^ (8 * size) then some r.2 else none)

end PlicPy

end Pyremu
