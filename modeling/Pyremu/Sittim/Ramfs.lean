import Pyremu.Sittim.FdTable
import Mathlib.Data.List.DropRight

/-!
# The file system in memory

A tree of nodes in a table that is only ever filled, with the bytes of all files
in one arena whose used part only grows. Sibling lists run through the table;
a loop over one is given a number of turns, and `none` says they were not enough.
-/

namespace Pyremu.Sittim

abbrev Byte := BitVec 8

abbrev MAX_NODES : Nat := 128

def NAME_MAX : Nat := 64
def DATA_ARENA : Nat := 128 * 1024
def O_DIRECTORY : BitVec 32 := 0o200000
def AT_REMOVEDIR : BitVec 32 := 0x200

def SLASH : Byte := 0x2F
def DOT : Byte := 0x2E

abbrev NodeId := Fin MAX_NODES

instance neZero_nodes : NeZero MAX_NODES := ⟨by decide⟩

inductive VfsStatus where
  | ok
  | noEntry
  | existing
  | notDir
  | notEmpty
  | noMemory
  | noSpace
  | nameTooLong
  | invalid
  | isDir
  | busy
  deriving DecidableEq, Repr

inductive VfsKind where
  | dir
  | file
  deriving DecidableEq, Repr

/-- A node; the links are `none` for `NIL`. -/
structure RamfsNode where
  name : List Byte
  kind : VfsKind
  parent : Option NodeId
  firstChild : Option NodeId
  nextSibling : Option NodeId
  dataOff : Nat
  size : Nat
  mode : BitVec 32
  deriving DecidableEq, Repr

/-- All zero bytes, so the links name node 0. -/
def RamfsNode.zeroed : RamfsNode := ⟨[], .dir, some 0, some 0, some 0, 0, 0, 0⟩

structure VfsState where
  nodes : NodeId → RamfsNode
  data : Nat → Byte
  dataUsed : Nat
  nextNode : Nat

/-- What the last name of a path stands for. -/
inductive PathTarget where
  | child (dir : NodeId) (name : List Byte)
  | dir (node : NodeId) (name : List Byte)

/-! ## Bytes -/

/-- The bytes of `buf`, stored one after the other from `base`. -/
def storeBytes (data : Nat → Byte) (base : Nat) : List Byte → Nat → Byte
  | [] => data
  | b :: buf => storeBytes (Function.update data base b) (base + 1) buf

/-- The first `n` turns of the loop that copies from `src` to `dst`. -/
def copyBytes (data : Nat → Byte) (dst src : Nat) : Nat → Nat → Byte
  | 0 => data
  | n + 1 => Function.update (copyBytes data dst src n) (dst + n) (copyBytes data dst src n (src + n))

/-- The next name of a path and what follows it. -/
def nextName (path : List Byte) : Option (List Byte × List Byte) :=
  match path.dropWhile (· == SLASH) with
  | [] => none
  | b :: rest => some ((b :: rest).takeWhile (· != SLASH), (b :: rest).dropWhile (· != SLASH))

theorem nextName_length {path name rest : List Byte} (h : nextName path = some (name, rest)) :
    rest.length < path.length := by
  rw [nextName] at h
  have hdrop := List.length_dropWhile_le (fun b => b == SLASH) path
  split at h
  · cases h
  · rename_i b tail heq
    obtain ⟨_, rfl⟩ := Prod.mk.inj (Option.some.inj h)
    have hb : (b != SLASH) = true := by
      have hne : path.dropWhile (fun b => b == SLASH) ≠ [] := by
        rw [heq]
        exact List.cons_ne_nil _ _
      have hhead := List.head_dropWhile_not (fun b => b == SLASH) hne
      simp only [heq, List.head_cons] at hhead
      rw [bne, hhead]
      rfl
    rw [List.dropWhile_cons, if_pos hb]
    have htail := List.length_dropWhile_le (fun b => b != SLASH) tail
    rw [heq, List.length_cons] at hdrop
    omega

namespace VfsState

variable (s : VfsState)

def zeroed : VfsState := ⟨fun _ => .zeroed, fun _ => 0, 0, 0⟩

def setNode (n : NodeId) (node : RamfsNode) : VfsState := { s with nodes := Function.update s.nodes n node }

/-- `init`. -/
def initRoot : VfsState :=
  if s.nextNode = 0 then
    { s.setNode 0 { s.nodes 0 with
        kind := .dir, mode := 0o755, name := [SLASH], parent := none, firstChild := none, nextSibling := none } with
      nextNode := 1 }
  else s

/-! ## Nodes -/

def allocNode (kind : VfsKind) (mode : BitVec 32) : VfsState × Option NodeId :=
  if h : s.nextNode < MAX_NODES then
    ({ s.setNode ⟨s.nextNode, h⟩ { RamfsNode.zeroed with
        kind := kind, mode := mode, parent := none, firstChild := none, nextSibling := none } with
      nextNode := s.nextNode + 1 }, some ⟨s.nextNode, h⟩)
  else (s, none)

/-- The child is put before its siblings. -/
def linkChild (parent child : NodeId) (name : List Byte) : VfsState :=
  let s' := s.setNode child { s.nodes child with
    name := name, parent := some parent, nextSibling := (s.nodes parent).firstChild }
  s'.setNode parent { s'.nodes parent with firstChild := some child }

def createChild (parent : NodeId) (name : List Byte) (kind : VfsKind) (mode : BitVec 32) : VfsState × Option NodeId :=
  match s.allocNode kind mode with
  | (s', none) => (s', none)
  | (s', some child) => (s'.linkChild parent child name, some child)

def findChildLoop (name : List Byte) : Nat → Option NodeId → Option (Option NodeId)
  | _, none => some none
  | 0, some _ => none
  | turns + 1, some child =>
    if (s.nodes child).name = name then some (some child) else findChildLoop name turns (s.nodes child).nextSibling

def findChild (dir : NodeId) (name : List Byte) : Option NodeId :=
  (s.findChildLoop name MAX_NODES (s.nodes dir).firstChild).getD none

def removeChildLoop (parent target : NodeId) : Nat → Option NodeId → Option NodeId → Option VfsState
  | _, _, none => some s
  | 0, _, some _ => none
  | turns + 1, prev, some child =>
    if child ≠ target then removeChildLoop parent target turns (some child) (s.nodes child).nextSibling
    else
      match prev with
      | none => some (s.setNode parent { s.nodes parent with firstChild := (s.nodes child).nextSibling })
      | some p => some (s.setNode p { s.nodes p with nextSibling := (s.nodes child).nextSibling })

def removeChild (parent target : NodeId) : VfsState :=
  (s.removeChildLoop parent target MAX_NODES none (s.nodes parent).firstChild).getD s

def truncateNode (n : NodeId) (len : Nat) : VfsState :=
  if len < (s.nodes n).size then s.setNode n { s.nodes n with size := len } else s

/-! ## Paths -/

def resolveLoop (isCreate : Bool) (s : VfsState) (cur : NodeId) (path : List Byte) :
    VfsState × Except VfsStatus NodeId :=
  match h : nextName path with
  | none => (s, .ok cur)
  | some (name, rest) =>
    have := nextName_length h
    if (s.nodes cur).kind ≠ .dir then (s, .error .notDir)
    else if name = [DOT] then resolveLoop isCreate s cur rest
    else if name = [DOT, DOT] then resolveLoop isCreate s ((s.nodes cur).parent.getD cur) rest
    else if NAME_MAX ≤ name.length then (s, .error .nameTooLong)
    else
      match s.findChild cur name with
      | some found => resolveLoop isCreate s found rest
      | none =>
        if isCreate then
          match s.createChild cur name .dir 0o755 with
          | (s', none) => (s', .error .noMemory)
          | (s', some created) => resolveLoop isCreate s' created rest
        else (s, .error .noEntry)
termination_by path.length

def resolve (path : List Byte) (isCreate : Bool) : VfsState × Except VfsStatus NodeId :=
  resolveLoop isCreate s 0 path

/-- The path of the directory and the last name; an empty name when the path ends in a slash. -/
def splitPath (path : List Byte) : Except VfsStatus (List Byte × List Byte) :=
  let head := path.rdropWhile (· == SLASH)
  let name := head.rtakeWhile (· != SLASH)
  let before := head.rdropWhile (· != SLASH)
  if path = [] then .error .noEntry
  else if head = [] then .ok ([SLASH], [])
  else if name = [DOT] ∨ name = [DOT, DOT] then .ok (head, name)
  else if NAME_MAX ≤ name.length then .error .nameTooLong
  else if head.length < path.length then .ok (head, [])
  else .ok (if before.length ≤ 1 then [SLASH] else before.dropLast, name)

def asDir (node : NodeId) : Except VfsStatus NodeId :=
  if (s.nodes node).kind ≠ .dir then .error .notDir else .ok node

/-- The resolution creates nothing here, so the state stays as it is. -/
def splitTarget (path : List Byte) : Except VfsStatus PathTarget :=
  match splitPath path with
  | .error e => .error e
  | .ok (dirPath, name) =>
    match (s.resolve dirPath false).2 with
    | .error e => .error e
    | .ok node =>
      match s.asDir node with
      | .error e => .error e
      | .ok dir =>
        if name = [] ∨ name = [DOT] ∨ name = [DOT, DOT] then .ok (.dir dir name) else .ok (.child dir name)

def resolvePath (path : List Byte) : Except VfsStatus NodeId :=
  match s.splitTarget path with
  | .error e => .error e
  | .ok (.dir dir _) => .ok dir
  | .ok (.child dir name) =>
    match s.findChild dir name with
    | none => .error .noEntry
    | some node => .ok node

/-! ## File data -/

def readFile (n : NodeId) (offset len : Nat) : List Byte :=
  if (s.nodes n).size ≤ offset then []
  else
    (List.range (min ((s.nodes n).size - offset) len)).map fun i => s.data ((s.nodes n).dataOff + offset + i)

/-- The bytes are there already. -/
def overwrite (n : NodeId) (offset : Nat) (buf : List Byte) : VfsState :=
  { s with data := storeBytes s.data ((s.nodes n).dataOff + offset) buf }

/-- The file is the last in the arena. -/
def growInPlace (n : NodeId) (offset : Nat) (buf : List Byte) : VfsState :=
  { s.setNode n { s.nodes n with size := (offset + buf.length) % 2 ^ 32 } with
    data := storeBytes s.data ((s.nodes n).dataOff + offset) buf
    dataUsed := s.dataUsed + (offset + buf.length - (s.nodes n).size) }

/-- The file moves behind all others. -/
def relocate (n : NodeId) (offset : Nat) (buf : List Byte) : VfsState :=
  { s.setNode n { s.nodes n with size := (offset + buf.length) % 2 ^ 32, dataOff := s.dataUsed } with
    data := storeBytes (copyBytes s.data s.dataUsed (s.nodes n).dataOff (s.nodes n).size) (s.dataUsed + offset) buf
    dataUsed := s.dataUsed + (offset + buf.length) }

/-- Sums of `usize` wrap. -/
def writeFile (n : NodeId) (offset : Nat) (buf : List Byte) : VfsState × Except VfsStatus Nat :=
  if buf = [] then (s, .ok 0)
  else if 2 ^ 64 ≤ offset + buf.length then (s, .error .noSpace)
  else if offset + buf.length ≤ (s.nodes n).size then (s.overwrite n offset buf, .ok buf.length)
  else if (s.nodes n).dataOff + (s.nodes n).size = s.dataUsed ∧
      ((s.nodes n).dataOff + (offset + buf.length)) % 2 ^ 64 ≤ DATA_ARENA then
    (s.growInPlace n offset buf, .ok buf.length)
  else if (s.dataUsed + (offset + buf.length)) % 2 ^ 64 ≤ DATA_ARENA then
    (s.relocate n offset buf, .ok buf.length)
  else (s, .error .noSpace)

/-! ## Directory entries -/

structure Dirent where
  ino : Nat
  off : Nat
  reclen : Nat
  kind : VfsKind
  name : List Byte
  deriving DecidableEq, Repr

/-- `ino_of`. -/
def inoOf (n : NodeId) : Nat := n.val + 1

/-- The sibling `k` places on. -/
def nthSibling : Nat → Option NodeId → Option NodeId
  | 0, child => child
  | _ + 1, none => none
  | k + 1, some child => nthSibling k (s.nodes child).nextSibling

/-- The entry at a position: the directory, its parent, and then its children. -/
def entryAt (node : NodeId) (pos : Nat) : Option (Nat × VfsKind × List Byte) :=
  if pos = 0 then some (inoOf node, .dir, [DOT])
  else if pos = 1 then some (inoOf ((s.nodes node).parent.getD node), .dir, [DOT, DOT])
  else
    (s.nthSibling (pos - 2) (s.nodes node).firstChild).map fun child =>
      (inoOf child, (s.nodes child).kind, (s.nodes child).name)

/-- A multiple of eight. -/
def reclenOf (namelen : Nat) : Nat := (19 + namelen + 1 + 7) / 8 * 8

/-- The position, the bytes written and the entries after at most so many turns. -/
def getdentsLoop (node : NodeId) (count : Nat) :
    Nat → Nat → Nat → List Dirent → Option (Except VfsStatus (Nat × Nat × List Dirent))
  | 0, _, _, _ => none
  | turns + 1, pos, written, acc =>
    match s.entryAt node pos with
    | none => some (.ok (pos, written, acc))
    | some (ino, kind, name) =>
      if count < written + reclenOf name.length then
        some (if written = 0 then .error .invalid else .ok (pos, written, acc))
      else
        getdentsLoop node count turns (pos + 1) (written + reclenOf name.length)
          (acc ++ [⟨ino, pos + 1, reclenOf name.length, kind, name⟩])

/-! ## The interface -/

/-- `is_node_valid`. -/
def nodeOf (idx : BitVec 16) : Option NodeId := if h : idx.toNat < MAX_NODES then some ⟨idx.toNat, h⟩ else none

/-- The node that `inject_file` writes. -/
def injectTarget (path : List Byte) : VfsState × Option NodeId :=
  match splitPath path with
  | .error _ => (s, none)
  | .ok (dirPath, name) =>
    if name = [] ∨ name = [DOT] ∨ name = [DOT, DOT] then (s, none)
    else
      match s.resolve dirPath true with
      | (s', .error _) => (s', none)
      | (s', .ok dir) =>
        match s'.findChild dir name with
        | none => s'.createChild dir name .file 0o644
        | some node => (s', some node)

def injectFile (path data : List Byte) : VfsState × Bool :=
  match s.injectTarget path with
  | (s', none) => (s', false)
  | (s', some n) =>
    if (s'.nodes n).kind ≠ .file then (s', false)
    else
      match (s'.truncateNode n 0).writeFile n 0 data with
      | (s'', .ok _) => (s'', true)
      | (s'', .error _) => (s'', false)

def openNode (path : List Byte) (flags mode : BitVec 32) : VfsState × Except VfsStatus NodeId :=
  match s.splitTarget path with
  | .error e => (s, .error e)
  | .ok (.dir dir _) =>
    if flags &&& O_CREAT ≠ 0 ∧ flags &&& O_EXCL ≠ 0 then (s, .error .existing) else (s, .ok dir)
  | .ok (.child dir name) =>
    match s.findChild dir name with
    | none =>
      if flags &&& O_CREAT = 0 then (s, .error .noEntry)
      else
        match s.createChild dir name (if flags &&& O_DIRECTORY ≠ 0 then .dir else .file) mode with
        | (s', none) => (s', .error .noMemory)
        | (s', some created) => (s', .ok created)
    | some node =>
      if flags &&& O_CREAT ≠ 0 ∧ flags &&& O_EXCL ≠ 0 then (s, .error .existing) else (s, .ok node)

/-- `open` of a file for writing empties it. -/
def truncates (flags : BitVec 32) (node : RamfsNode) : Bool :=
  flags &&& O_TRUNC != 0 && modeWritable flags && decide (node.kind = .file)

/-- `open`. -/
def openPath (path : List Byte) (flags mode : BitVec 32) : VfsState × Except VfsStatus NodeId :=
  match s.openNode path flags mode with
  | (s', .error e) => (s', .error e)
  | (s', .ok node) =>
    if (s'.nodes node).kind = .dir ∧ modeWritable flags = true then (s', .error .isDir)
    else if (s'.nodes node).kind ≠ .dir ∧ flags &&& O_DIRECTORY ≠ 0 then (s', .error .notDir)
    else if truncates flags (s'.nodes node) then (s'.truncateNode node 0, .ok node)
    else (s', .ok node)

/-- `read`. -/
def readNode (idx : BitVec 16) (offset len : Nat) : Except VfsStatus (List Byte) :=
  match nodeOf idx with
  | none => .error .invalid
  | some n => if (s.nodes n).kind ≠ .file then .error .isDir else .ok (s.readFile n offset len)

/-- `write`. -/
def writeNode (idx : BitVec 16) (offset : Nat) (buf : List Byte) : VfsState × Except VfsStatus Nat :=
  match nodeOf idx with
  | none => (s, .error .invalid)
  | some n => if (s.nodes n).kind ≠ .file then (s, .error .isDir) else s.writeFile n offset buf

def truncate (idx : BitVec 16) (len : Nat) : VfsState × VfsStatus :=
  match nodeOf idx with
  | none => (s, .invalid)
  | some n => if (s.nodes n).kind ≠ .file then (s, .invalid) else (s.truncateNode n len, .ok)

def mkdir (path : List Byte) (mode : BitVec 32) : VfsState × VfsStatus :=
  match s.splitTarget path with
  | .error e => (s, e)
  | .ok (.dir _ _) => (s, .existing)
  | .ok (.child dir name) =>
    match s.findChild dir name with
    | some _ => (s, .existing)
    | none =>
      match s.createChild dir name .dir mode with
      | (s', none) => (s', .noMemory)
      | (s', some _) => (s', .ok)

/-- `unlink` of the node that the path stands for. -/
def unlinkNode (target : NodeId) (flags : BitVec 32) : VfsState × VfsStatus :=
  if (s.nodes target).kind = .dir ∧ flags &&& AT_REMOVEDIR = 0 then (s, .isDir)
  else if (s.nodes target).kind ≠ .dir ∧ flags &&& AT_REMOVEDIR ≠ 0 then (s, .notDir)
  else
    match (s.nodes target).parent with
    | none => (s, .busy)
    | some parent =>
      if (s.nodes target).kind = .dir ∧ (s.nodes target).firstChild ≠ none then (s, .notEmpty)
      else (s.removeChild parent target, .ok)

def unlink (path : List Byte) (flags : BitVec 32) : VfsState × VfsStatus :=
  match s.splitTarget path with
  | .error e => (s, e)
  | .ok (.child dir name) =>
    match s.findChild dir name with
    | none => (s, .noEntry)
    | some target => s.unlinkNode target flags
  | .ok (.dir node name) =>
    if name = [] then s.unlinkNode node flags
    else if flags &&& AT_REMOVEDIR = 0 then (s, .isDir)
    else if name = [DOT, DOT] then (s, .notEmpty)
    else (s, .invalid)

end VfsState

/-! ## Runs -/

inductive FsOp where
  | openPath (path : List Byte) (flags mode : BitVec 32)
  | readNode (idx : BitVec 16) (offset len : Nat)
  | writeNode (idx : BitVec 16) (offset : Nat) (buf : List Byte)
  | truncate (idx : BitVec 16) (len : Nat)
  | mkdir (path : List Byte) (mode : BitVec 32)
  | unlink (path : List Byte) (flags : BitVec 32)
  | injectFile (path data : List Byte)

def VfsState.step (s : VfsState) : FsOp → VfsState
  | .openPath path flags mode => (s.openPath path flags mode).1
  | .readNode _ _ _ => s
  | .writeNode idx offset buf => (s.writeNode idx offset buf).1
  | .truncate idx len => (s.truncate idx len).1
  | .mkdir path mode => (s.mkdir path mode).1
  | .unlink path flags => (s.unlink path flags).1
  | .injectFile path data => (s.injectFile path data).1

def VfsState.init : VfsState := VfsState.zeroed.initRoot

end Pyremu.Sittim
