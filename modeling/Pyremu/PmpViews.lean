import Pyremu.Lib.Run
import Pyremu.Lib.Table
import Pyremu.State

/-!
# The PMP registers under two engines

Every hart has its registers and a slice of two arrays that the check reads.
The Python engine writes a register on all harts and marks their slices as
stale; the native engine writes the slice of the hart that executes the write,
and the slices that a round has changed are copied back to the registers.
-/

namespace Pyremu

open Table

/-- A register of the bank: `pmpcfg(2 * group)` with eight entries, or `pmpaddr k`. -/
inductive PmpReg where
  | cfg (group : Nat)
  | addr (k : Nat)
  deriving DecidableEq, Repr

/-- The bank has the even `pmpcfg` from `0x3a0` on and `pmpaddr` from `0x3b0` to `0x3ef`. -/
def pmpReg (csrAddr : BitVec 12) : Option PmpReg :=
  let a := csrAddr.toNat
  if 0x3b0 ≤ a ∧ a ≤ 0x3ef then some (.addr (a - 0x3b0))
  else if 0x3a0 ≤ a ∧ a ≤ 0x3af ∧ a % 2 = 0 then some (.cfg ((a - 0x3a0) / 2))
  else none

/-- `_pmp_csr_valid` for `n` entries. -/
def PmpReg.isValid (n : Nat) : PmpReg → Bool
  | .cfg group => decide (group * 8 < n)
  | .addr k => decide (k < n)

/-- `_decode_pmpcfg`. -/
def decodePmpcfg (cfgVal : Word) (entryIdx : Nat) : BitVec 8 :=
  (cfgVal >>> (entryIdx % 8 * 8)).setWidth 8

/-- The byte of entry `i` replaced, as in the first loop of `sync_from_flat`. -/
def putCfgByte (cfgVal : Word) (i : Nat) (b : BitVec 8) : Word :=
  let shift := i % 8 * 8
  let byteMask := (0xff : Word) <<< shift
  (cfgVal &&& ~~~byteMask) ||| (b.setWidth 64 <<< shift)

/-- The registers of a hart. -/
abbrev PmpRegs := PmpReg → Word

namespace PmpRegs

/-- `_read_cfg`. -/
def readCfg (c : PmpRegs) (idx : Nat) : BitVec 8 := decodePmpcfg (c (.cfg (idx / 8))) idx

/-- `_read_addr`. -/
def readAddr (c : PmpRegs) (idx : Nat) : Word := c (.addr idx)

/-- `sync_from_flat` with the slice of the hart. There are at most 64 entries, so that no register is
missing. -/
def syncFromFlat (n : Nat) (flatCfg : Nat → BitVec 8) (flatAddr : Nat → Word) (c : PmpRegs) : PmpRegs :=
  let c := (List.range n).foldl
    (fun c i => Function.update c (.cfg (i / 8)) (putCfgByte (c (.cfg (i / 8))) i (flatCfg i))) c
  (List.range n).foldl (fun c i => Function.update c (.addr i) (flatAddr i)) c

end PmpRegs

/-- The `Pmp` of a hart: its registers and `_cache_dirty`. -/
structure HartPmp where
  csrs : PmpRegs
  cacheDirty : Bool

/-- A write to a CSR and the hart that executes it. -/
structure PmpWrite (total : Nat) where
  hart : Fin total
  csrAddr : BitVec 12
  val : Word

/-- The register that a write reaches. Both engines bound the registers alike: what is out of bounds
is an illegal instruction in the one and without effect in the other. -/
def PmpWrite.reg {total : Nat} (n : Nat) (w : PmpWrite total) : Option PmpReg :=
  (pmpReg w.csrAddr).filter (PmpReg.isValid n)

/-- All harts with the shared arrays `_pmp_cfg_buf` and `_pmp_addr_buf`. With `n` entries the slice of
hart `h` begins at `h * n`. -/
structure PmpViews (total : Nat) where
  harts : Fin total → HartPmp
  cfgBuf : Nat → BitVec 8
  addrBuf : Nat → Word

namespace PmpViews

variable {total : Nat} (n : Nat)

/-! ## The Python engine -/

/-- `_csr_write_raw` of a PMP register and `invalidate_cache`. -/
def putReg (r : PmpReg) (val : Word) (p : HartPmp) : HartPmp :=
  { csrs := Function.update p.csrs r val, cacheDirty := true }

/-- `_write_pmp_csr` of hart `self`. -/
def writePmpCsr (v : PmpViews total) (self : Fin total) (r : PmpReg) (val : Word) : PmpViews total :=
  let own := Function.update v.harts self (putReg r val (v.harts self))
  { v with harts := forEach (List.finRange total) (fun h p => if h = self then p else putReg r val p) own }

/-- A write instruction in the Python engine. -/
def execute (v : PmpViews total) (w : PmpWrite total) : PmpViews total :=
  match w.reg n with
  | none => v
  | some r => v.writePmpCsr w.hart r w.val

/-- `rebuild_cache` of hart `h`. -/
def rebuildCache (v : PmpViews total) (h : Fin total) : PmpViews total :=
  { harts := Function.update v.harts h { v.harts h with cacheDirty := false }
    cfgBuf := fill v.cfgBuf (h * n) n (v.harts h).csrs.readCfg
    addrBuf := fill v.addrBuf (h * n) n (v.harts h).csrs.readAddr }

/-- What `check` and the marshalling do first. -/
def refresh (v : PmpViews total) (h : Fin total) : PmpViews total :=
  if (v.harts h).cacheDirty then v.rebuildCache n h else v

/-! ## A native round -/

/-- `_native_marshal_pmp`. -/
def marshal (v : PmpViews total) : PmpViews total := (List.finRange total).foldl (refresh n) v

/-- `csr_write` of a PMP register, on the slice of the hart. -/
def csrWrite (v : PmpViews total) (w : PmpWrite total) : PmpViews total :=
  match w.reg n with
  | none => v
  | some (.cfg group) =>
    let entryBase := group * 8
    { v with
      cfgBuf := fill v.cfgBuf (w.hart * n + entryBase) (min (n - entryBase) 8) (decodePmpcfg w.val) }
  | some (.addr k) => { v with addrBuf := Function.update v.addrBuf (w.hart * n + k) w.val }

/-- The slice of hart `h` holds what it held in the arrays of `snap`. -/
def SameSlice (snap v : PmpViews total) (h : Fin total) : Prop :=
  ∀ i < n, v.cfgBuf (h * n + i) = snap.cfgBuf (h * n + i) ∧ v.addrBuf (h * n + i) = snap.addrBuf (h * n + i)

instance (snap v : PmpViews total) (h : Fin total) : Decidable (SameSlice n snap v h) :=
  inferInstanceAs (Decidable (∀ i < n, _ ∧ _))

/-- `_native_unmarshal_pmp`, where `snap` has the arrays of the snapshot. -/
def unmarshal (snap v : PmpViews total) : PmpViews total :=
  if n = 0 then v
  else if ∀ j < n * total, v.cfgBuf j = snap.cfgBuf j ∧ v.addrBuf j = snap.addrBuf j then v
  else
    { v with
      harts := forEach (List.finRange total)
        (fun h p =>
          if SameSlice n snap v h then p
          else
            { csrs := p.csrs.syncFromFlat n (fun i => v.cfgBuf (h * n + i)) fun i => v.addrBuf (h * n + i)
              cacheDirty := false })
        v.harts }

/-- A round in which the harts execute the writes in this order. -/
def nativeRound (v : PmpViews total) (ws : List (PmpWrite total)) : PmpViews total :=
  let snap := v.marshal n
  unmarshal n snap (ws.foldl (csrWrite n) snap)

end PmpViews

/-! ## A run -/

/-- What happens to the registers: a write in the Python engine, a check there, or a round. -/
inductive PmpStep (total : Nat) where
  | python (w : PmpWrite total)
  | check (h : Fin total)
  | round (ws : List (PmpWrite total))

/-- The harts as they are, and as they would be had every write been one of the Python engine. -/
structure PmpBoard (total : Nat) where
  views : PmpViews total
  python : PmpViews total

namespace PmpBoard

variable {total : Nat} (n : Nat)

def step (s : PmpBoard total) : PmpStep total → PmpBoard total
  | .python w => ⟨s.views.execute n w, s.python.execute n w⟩
  | .check h => ⟨s.views.refresh n h, s.python⟩
  | .round ws => ⟨s.views.nativeRound n ws, ws.foldl (PmpViews.execute n) s.python⟩

/-- The arrays have just been bound: nothing is known of their content, and all slices are stale. -/
def bound (csrs : Fin total → PmpRegs) (cfgBuf : Nat → BitVec 8) (addrBuf : Nat → Word) : PmpBoard total :=
  let v : PmpViews total := ⟨fun h => ⟨csrs h, true⟩, cfgBuf, addrBuf⟩
  ⟨v, v⟩

/-- The slice of every hart, once rebuilt if it is stale, holds its registers entry by entry. -/
def Coherent (s : PmpBoard total) : Prop :=
  ∀ h, ∀ i < n,
    (s.views.refresh n h).cfgBuf (h * n + i) = (s.views.harts h).csrs.readCfg i ∧
    (s.views.refresh n h).addrBuf (h * n + i) = (s.views.harts h).csrs.readAddr i

/-- The registers are those of the Python engine. -/
def Mirrors (s : PmpBoard total) : Prop := ∀ h, (s.views.harts h).csrs = (s.python.harts h).csrs

end PmpBoard

/-! ## When a round is faithful -/

namespace PmpWrite

variable {total : Nat} (n : Nat)

/-- The last value written to `r`. -/
def lastTo (r : PmpReg) (ws : List (PmpWrite total)) : Option Word :=
  (ws.filterMap fun w => if w.reg n = some r then some w.val else none).getLast?

/-- The last value that hart `h` wrote to `r`. -/
def lastOf (h : Fin total) (r : PmpReg) (ws : List (PmpWrite total)) : Option Word :=
  lastTo n r (ws.filter fun w => w.hart = h)

end PmpWrite

open PmpWrite in
/-- On every hart the last write of the round to an entry leaves what the hart's own last write
leaves, or what was there if the hart wrote none, and no write changes a byte past the last entry. -/
def PmpViews.RoundMeets {total : Nat} (n : Nat) (v : PmpViews total) (ws : List (PmpWrite total)) : Prop :=
  ∀ h,
    let c := (v.harts h).csrs
    (∀ i,
      decodePmpcfg ((lastTo n (.cfg (i / 8)) ws).getD (c (.cfg (i / 8)))) i =
        if i < n then decodePmpcfg ((lastOf n h (.cfg (i / 8)) ws).getD (c (.cfg (i / 8)))) i
        else c.readCfg i) ∧
    ∀ k, (lastTo n (.addr k) ws).getD (c (.addr k)) = (lastOf n h (.addr k) ws).getD (c (.addr k))

/-- The condition of a step: what the Python engine executes meets it always. -/
def PmpBoard.Meets {total : Nat} (n : Nat) (s : PmpBoard total) : PmpStep total → Prop
  | .round ws => s.views.RoundMeets n ws
  | .python _ => True
  | .check _ => True

end Pyremu
