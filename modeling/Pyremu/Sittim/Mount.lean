import Pyremu.Sittim.Ramfs

/-!
# Mounted file systems

A path goes to the file system whose mount point is its longest prefix, with
what follows the mount point. Two are mounted: the file system in memory at `/`
and the tree of the runtime itself at `/sys`. Opening goes through both layers
and ends in the table of descriptors.
-/

namespace Pyremu.Sittim

/-! ## The mount table -/

def MOUNTS_MAX : Nat := 8
def POINT_MAX : Nat := 32

structure Mount where
  point : List Byte
  fs : FileSystem
  deriving DecidableEq, Repr

/-- The taken slots of the table; `false` where the mount is refused. -/
def mount (mounts : List Mount) (point : List Byte) (fs : FileSystem) : List Mount × Bool :=
  if point = [] ∨ POINT_MAX < point.length then (mounts, false)
  else if MOUNTS_MAX ≤ mounts.length then (mounts, false)
  else (mounts ++ [⟨point, fs⟩], true)

/-- `/sys`. -/
def sysPoint : List Byte := [SLASH, 0x73, 0x79, 0x73]

/-- `mount_init`. -/
def mountInit : List Mount := (mount (mount [] [SLASH] .rootfs).1 sysPoint .sysfs).1

def covers (point path : List Byte) : Bool :=
  if point = [SLASH] then true
  else if path.head? ≠ some SLASH then false
  else point.isPrefixOf path && (decide (path.length = point.length) || decide (path[point.length]? = some SLASH))

def relative (point path : List Byte) : List Byte :=
  if point = [SLASH] then path
  else if path.length = point.length then [SLASH]
  else path.drop point.length

/-- `max_by_key` of the lengths, of several the last. -/
def longest (best : Option Mount) (item : Mount) : Option Mount :=
  match best with
  | none => some item
  | some b => if b.point.length ≤ item.point.length then some item else some b

/-- The mount that takes the path. -/
def mountOf (mounts : List Mount) (path : List Byte) : Option Mount :=
  (mounts.filter fun item => covers item.point path).foldl longest none

def ENOENT : Word := errno 2
def EBUSY : Word := errno 16
def EEXIST : Word := errno 17
def ENOTDIR : Word := errno 20
def EISDIR : Word := errno 21
def ENOSPC : Word := errno 28
def ENAMETOOLONG : Word := errno 36
def ENOTEMPTY : Word := errno 39

/-- `ops_of`, given what the module of the file system in memory answers. -/
def opsOf (rootOps : Except Word Unit) : FileSystem → Except Word Unit
  | .rootfs => rootOps
  | .sysfs => .ok ()

/-- `resolve` of the mount layer. -/
def mountResolve (mounts : List Mount) (rootOps : Except Word Unit) (path : List Byte) :
    Except Word (FileSystem × List Byte) :=
  match mountOf mounts path with
  | none => .error ENOENT
  | some best =>
    match opsOf rootOps best.fs with
    | .error e => .error e
    | .ok () => .ok (best.fs, relative best.point path)

/-! ## The tree of the runtime -/

namespace Sysfs

def NODES_MAX : Nat := 64
def NAME_MAX : Nat := 32
def ROOT : Nat := 0

/-- A directory; the root has no parent. -/
structure Node where
  parent : Option Nat
  name : List Byte
  deriving DecidableEq, Repr

def addNode (nodes : List Node) (parent : Option Nat) (name : List Byte) : List Node × Option Nat :=
  if NAME_MAX < name.length then (nodes, none)
  else if NODES_MAX ≤ nodes.length then (nodes, none)
  else (nodes ++ [⟨parent, name⟩], some nodes.length)

def devicesName : List Byte := [0x64, 0x65, 0x76, 0x69, 0x63, 0x65, 0x73]
def systemName : List Byte := [0x73, 0x79, 0x73, 0x74, 0x65, 0x6D]
def cpuName : List Byte := [0x63, 0x70, 0x75]
def cpu0Name : List Byte := [0x63, 0x70, 0x75, 0x30]

/-- `init`. -/
def init : List Node :=
  match addNode [] none [] with
  | (nodes, none) => nodes
  | (nodes, some _) =>
    match addNode nodes (some ROOT) devicesName with
    | (nodes, none) => nodes
    | (nodes, some devices) =>
      match addNode nodes (some devices) systemName with
      | (nodes, none) => nodes
      | (nodes, some system) =>
        match addNode nodes (some system) cpuName with
        | (nodes, none) => nodes
        | (nodes, some cpu) => (addNode nodes (some cpu) cpu0Name).1

variable (nodes : List Node)

def parentOf (node : Nat) : Nat :=
  match nodes[node]? with
  | some ⟨some parent, _⟩ => parent
  | _ => node

def childOf (node : Nat) (name : List Byte) : Option Nat :=
  nodes.findIdx? fun item => decide (item.parent = some node ∧ item.name = name)

/-- The loop of `lookup` over the parts of a path. -/
def lookupFrom (node : Nat) : List (List Byte) → Option Nat
  | [] => some node
  | part :: parts =>
    if part = [] ∨ part = [DOT] then lookupFrom node parts
    else if part = [DOT, DOT] then lookupFrom (parentOf nodes node) parts
    else
      match childOf nodes node part with
      | none => none
      | some child => lookupFrom child parts

def lookup (path : List Byte) : Option Nat := lookupFrom nodes ROOT (path.splitOn SLASH)

/-- `sysfs_open`. -/
def openPath (path : List Byte) (flags : BitVec 32) : Except VfsStatus Nat :=
  match lookup nodes path with
  | none => .error .noEntry
  | some node =>
    if modeWritable flags then .error .isDir
    else if flags &&& O_CREAT ≠ 0 then .error .invalid
    else .ok node

end Sysfs

/-! ## Opening -/

def PATH_MAX : Nat := 1024
def AT_FDCWD : Word := BitVec.ofInt 64 (-100)

/-- `read_path`: the bytes before the first zero byte, which lies within the buffer. -/
def readPath (mem : Word → Byte) (pathname dirfd : Word) : Except Word (List Byte) :=
  if pathname = 0 then .error EFAULT
  else
    match (List.range PATH_MAX).find? fun i => decide (mem (pathname + BitVec.ofNat 64 i) = 0) with
    | none => .error ENAMETOOLONG
    | some n =>
      let path := (List.range n).map fun i => mem (pathname + BitVec.ofNat 64 i)
      if dirfd ≠ AT_FDCWD ∧ path ≠ [] ∧ path.head? ≠ some SLASH then .error ENOTDIR else .ok path

def vfsErrno : VfsStatus → Word
  | .ok => 0
  | .noEntry => ENOENT
  | .existing => EEXIST
  | .notDir => ENOTDIR
  | .notEmpty => ENOTEMPTY
  | .noMemory => ENOMEM
  | .noSpace => ENOSPC
  | .nameTooLong => ENAMETOOLONG
  | .invalid => EINVAL
  | .isDir => EISDIR
  | .busy => EBUSY

/-- `open` of the file system. -/
def fsOpen (s : VfsState) (fs : FileSystem) (path : List Byte) (flags mode : BitVec 32) :
    VfsState × Except VfsStatus (BitVec 16) :=
  match fs with
  | .rootfs =>
    match s.openPath path flags mode with
    | (s', .ok node) => (s', .ok (BitVec.ofNat 16 node.val))
    | (s', .error e) => (s', .error e)
  | .sysfs =>
    match Sysfs.openPath Sysfs.init path flags with
    | .ok node => (s, .ok (BitVec.ofNat 16 node))
    | .error e => (s, .error e)

/-- A call of `openat`: the memory with the path, and what the module of the file system in memory answers. -/
structure OpenCall where
  rootOps : Except Word Unit
  mem : Word → Byte
  dirfd : Word
  pathname : Word
  flags : Word
  mode : Word

namespace OpenCall

/-- The file system of the path and the path in it. -/
def resolved (a : OpenCall) : Except Word (FileSystem × List Byte) :=
  match readPath a.mem a.pathname a.dirfd with
  | .error e => .error e
  | .ok path => mountResolve mountInit a.rootOps path

/-- The path, its mount and the `open` of its file system. -/
def opened (s : VfsState) (a : OpenCall) : VfsState × Except Word (FileSystem × BitVec 16) :=
  match a.resolved with
  | .error e => (s, .error e)
  | .ok (fs, sub) =>
    match fsOpen s fs sub (a.flags.setWidth 32) ((a.mode &&& 0o777).setWidth 32) with
    | (s', .error status) => (s', .error (vfsErrno status))
    | (s', .ok node) => (s', .ok (fs, node))

end OpenCall

/-- `openat_handler`, the answers of the other calls left as they are. -/
def openatHandler (s : VfsState) (f : Files) (ans : Answers) (a : OpenCall) :
    (VfsState × Files) × Except Word Word :=
  match a.opened s with
  | (s', opened) =>
    match f.openatHandler { ans with opened := opened } a.flags with
    | (f', r) => ((s', f'), r)

/-! ## Two mounts -/

theorem covers_root (path : List Byte) : covers [SLASH] path = true := if_pos rfl

/-- The tree of the runtime takes what its mount point covers, the file system in memory the rest. -/
theorem mountOf_init (path : List Byte) :
    mountOf mountInit path =
      some (if covers sysPoint path then ⟨sysPoint, .sysfs⟩ else ⟨[SLASH], .rootfs⟩) := by
  have hinit : mountInit = [⟨[SLASH], .rootfs⟩, ⟨sysPoint, .sysfs⟩] := by decide
  rw [mountOf, hinit, List.filter_cons, if_pos (covers_root path), List.filter_cons]
  cases covers sysPoint path with
  | false => rfl
  | true => rfl

end Pyremu.Sittim
