import Pyremu.Sittim.Runtime
import Pyremu.Lib.Run

/-!
# Module loads and module faults

The registry of modules, the loads that are unfinished on the supervisor's
stack, and the fault that abandons them all. A module's entry may request other
modules, so loads nest. Every image gets its own window of addresses, and two
ghosts record the windows given out and those in which a module has faulted.
-/

namespace Pyremu.Sittim

def MAX_MODULES : Nat := 32
def MODULE_SLOT_SIZE : Word := 0x200000
def ENCLAVE_MODULE_LOAD_VA_INIT : Word := 0xFFFFFFF000000000
def EXT_MODS_VAS_SIZE : Word := 0x4000000

/-- A slot of the registry. -/
inductive ModSlot where
  | empty
  | loading (va winSize : Word)
  | loadedModule (getter va winSize : Word)
  | failed (va winSize : Word)
  deriving DecidableEq, Repr

/-- `slot_window`. -/
def ModSlot.window : ModSlot → Option (Word × Word)
  | .empty => none
  | .loading va winSize => some (va, winSize)
  | .loadedModule _ va winSize => some (va, winSize)
  | .failed va winSize => some (va, winSize)

def ModSlot.isLoading : ModSlot → Bool
  | .loading _ _ => true
  | _ => false

abbrev Registry := Fin MAX_MODULES → ModSlot

/-! ## The registry -/

namespace Registry

variable (r : Registry)

def lookup (id : Fin MAX_MODULES) : Option Word :=
  match r id with
  | .loadedModule getter _ _ => some getter
  | _ => none

/-- The address lies in a window. -/
def inWindow (addr : Word) (w : Word × Word) : Bool := w.2 != 0 && decide (w.1 ≤ addr) && decide (addr - w.1 < w.2)

def ownerOfAddress (addr : Word) : Option (Fin MAX_MODULES) :=
  (List.finRange MAX_MODULES).find? fun id => (r id).window.any (inWindow addr)

def moduleOf (sepc stval : Word) : Option (Fin MAX_MODULES) := (r.ownerOfAddress sepc).or (r.ownerOfAddress stval)

def put (id : Fin MAX_MODULES) (slot : ModSlot) : Registry := Function.update r id slot

def beginLoad (id : Fin MAX_MODULES) : Registry × Bool :=
  match r id with
  | .empty | .failed _ _ => (r.put id (.loading 0 0), true)
  | _ => (r, false)

def noteImageWindow (id : Fin MAX_MODULES) (va winSize : Word) : Registry × Bool :=
  match r id with
  | .loading _ _ => (r.put id (.loading va winSize), true)
  | _ => (r, false)

def abortLoad (id : Fin MAX_MODULES) : Registry :=
  match r id with
  | .loading _ _ => r.put id .empty
  | _ => r

def markFailed (id : Fin MAX_MODULES) : Registry :=
  match r id with
  | .loadedModule _ va winSize => r.put id (.failed va winSize)
  | .failed va winSize => r.put id (.failed va winSize)
  | .loading _ _ => r.put id .empty
  | .empty => r.put id .empty

def commitLoad (id : Fin MAX_MODULES) (getter va winSize : Word) : Registry × Bool :=
  match r id with
  | .loading _ _ => (r.put id (.loadedModule getter va winSize), true)
  | _ => (r, false)

end Registry

/-! ## Loads -/

/-- An unfinished `load`, with the window once there is one. -/
structure LoadFrame where
  id : Fin MAX_MODULES
  va : Option Word

/-- The innermost load comes first. -/
structure Loads where
  reg : Registry
  loadVa : Word
  stack : List LoadFrame
  halted : Bool
  images : List Word
  faulted : List Word

/-- A request, the steps of the innermost load, and a fault in supervisor mode. -/
inductive LoadStep where
  | request (id : Nat)
  | openBuf
  | finish (getter : Word)
  | fail
  | fault (sepc stval : Word) (fromUser : Bool)

namespace Loads

variable (s : Loads)

/-- `load` up to the request to the host. -/
def request (id : Nat) : Loads :=
  if h : id < MAX_MODULES then
    match s.reg.lookup ⟨id, h⟩ with
    | some _ => s
    | none =>
      match s.reg.beginLoad ⟨id, h⟩ with
      | (_, false) => s
      | (reg, true) => { s with reg := reg, stack := ⟨⟨id, h⟩, none⟩ :: s.stack }
  else s

/-- The innermost load fails. -/
def fail : Loads :=
  match s.stack with
  | [] => s
  | f :: rest => { s with reg := s.reg.abortLoad f.id, stack := rest }

/-- `open_img_recv_buf`, when the partitions and the mappings succeed, and `note_image_window`. -/
def openBuf : Loads :=
  match s.stack with
  | ⟨id, none⟩ :: rest =>
    if 2 ^ 64 ≤ s.loadVa.toNat + MODULE_SLOT_SIZE.toNat ∨
        ENCLAVE_MODULE_LOAD_VA_INIT + EXT_MODS_VAS_SIZE < s.loadVa + MODULE_SLOT_SIZE then s.fail
    else
      let s' := { s with loadVa := s.loadVa + MODULE_SLOT_SIZE, images := s.loadVa :: s.images }
      match s.reg.noteImageWindow id s.loadVa MODULE_SLOT_SIZE with
      | (_, false) => s'.fail
      | (reg, true) => { s' with reg := reg, stack := ⟨id, some s.loadVa⟩ :: rest }
  | _ => s

/-- The entry and the getter of the innermost load have returned. -/
def finish (getter : Word) : Loads :=
  match s.stack with
  | ⟨id, some va⟩ :: rest => { s with reg := (s.reg.commitLoad id getter va MODULE_SLOT_SIZE).1, stack := rest }
  | _ => s

/-- The image that an address belongs to, whether it is registered or not. -/
def imageOf (addr : Word) : Option Word := s.images.find? fun va => Registry.inWindow addr (va, MODULE_SLOT_SIZE)

/-- The image that the fault is about. -/
def faultedImage (sepc stval : Word) : Option Word := (s.imageOf sepc).or (s.imageOf stval)

/-- The end of `trap_dispatch` and `deliver_module_fault`: the whole stack is abandoned. A fault that
belongs to no module, or did not begin in U mode, hangs the manager. -/
def fault (sepc stval : Word) (fromUser : Bool) : Loads :=
  match s.reg.moduleOf sepc stval with
  | some id =>
    if fromUser then
      { s with
        reg := s.reg.markFailed id
        stack := []
        faulted := (s.faultedImage sepc stval).toList ++ s.faulted }
    else { s with halted := true }
  | none => { s with halted := true }

def step (s : Loads) (a : LoadStep) : Loads :=
  if s.halted then s
  else
    match a with
    | .request id => s.request id
    | .openBuf => s.openBuf
    | .finish getter => s.finish getter
    | .fail => s.fail
    | .fault sepc stval fromUser => s.fault sepc stval fromUser

def init : Loads := ⟨fun _ => .empty, ENCLAVE_MODULE_LOAD_VA_INIT, [], false, [], []⟩

/-- A fault that is handed back to user mode. -/
def Delivered (s : Loads) (a : LoadStep) (id : Fin MAX_MODULES) : Prop :=
  s.halted = false ∧ ∃ sepc stval, a = .fault sepc stval true ∧ s.reg.moduleOf sepc stval = some id

/-- After a fault was handed back no slot is loading, so each module is registered or can be loaded. -/
def Recovers (s : Loads) (a : LoadStep) : Prop :=
  ∀ id, s.Delivered a id → ∀ id', ((s.step a).reg id').isLoading = false

/-- Only the faulting module itself is being loaded. -/
def OnlyOwnLoad (s : Loads) (a : LoadStep) : Prop := ∀ id, s.Delivered a id → ∀ f ∈ s.stack, f.id = id

/-- `lookup` gives no getter of an image that faulted. -/
def NoFaultedGetter (s : Loads) : Prop :=
  ∀ id getter, s.reg.lookup id = some getter →
    ∃ va winSize, s.reg id = .loadedModule getter va winSize ∧ va ∉ s.faulted

end Loads

/-- Without a slot that is loading, a request for a module that is not registered starts a load. -/
theorem Registry.beginLoad_of_idle {r : Registry} (h : ∀ id, (r id).isLoading = false) {id : Fin MAX_MODULES}
    (hid : r.lookup id = none) : (r.beginLoad id).2 = true := by
  have hidle := h id
  rw [lookup] at hid
  rw [beginLoad]
  cases hslot : r id with
  | empty => rfl
  | failed va winSize => rfl
  | loading va winSize =>
    rw [hslot] at hidle
    cases hidle
  | loadedModule getter va winSize =>
    rw [hslot] at hid
    cases hid

end Pyremu.Sittim
