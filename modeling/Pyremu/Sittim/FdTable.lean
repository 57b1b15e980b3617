import Pyremu.Sittim.Runtime
import Pyremu.Lib.Run
import Pyremu.Lib.Tally

/-!
# Descriptors and open file descriptions

A descriptor names an open file description, and several descriptors may share
one, which counts them. What the file systems, the console and the protocol
stack answer to a call is an argument of the step. The stack's sockets are
kept with a ghost record of their openings and closings.
-/

namespace Pyremu.Sittim

def EBADF : Word := errno 9
def EMFILE : Word := errno 24
def ESPIPE : Word := errno 29
def EPROTONOSUPPORT : Word := errno 93
def EOPNOTSUPP : Word := errno 95
def EAFNOSUPPORT : Word := errno 97

abbrev MAX_FD : Nat := 64

abbrev UDP_SOCKETS : Nat := 8

/-- An index into either table. -/
abbrev FdIndex := Fin MAX_FD

def O_ACCMODE : BitVec 32 := 0o3
def O_RDONLY : BitVec 32 := 0o0
def O_WRONLY : BitVec 32 := 0o1
def O_CREAT : BitVec 32 := 0o100
def O_EXCL : BitVec 32 := 0o200
def O_NOCTTY : BitVec 32 := 0o400
def O_TRUNC : BitVec 32 := 0o1000
def O_APPEND : BitVec 32 := 0o2000
def O_NONBLOCK : BitVec 32 := 0o4000
def O_CLOEXEC : BitVec 32 := 0o2000000
def FD_FLAG_MASK : BitVec 32 := O_CLOEXEC
def OPEN_ONLY_FLAGS : BitVec 32 := O_CREAT ||| O_EXCL ||| O_NOCTTY ||| O_TRUNC ||| O_CLOEXEC
def SETFL_MASK : BitVec 32 := O_APPEND ||| O_NONBLOCK
def FD_CLOEXEC : Word := 1

def modeReadable (flags : BitVec 32) : Bool := flags &&& O_ACCMODE != O_WRONLY

def modeWritable (flags : BitVec 32) : Bool := flags &&& O_ACCMODE != O_RDONLY

inductive FileSystem where
  | rootfs
  | sysfs
  deriving DecidableEq, Repr

inductive FdTarget where
  | console
  | vfs (fs : FileSystem) (node : BitVec 16)
  | socket (index : Word)
  deriving DecidableEq, Repr

structure OpenFile where
  target : FdTarget
  offset : Word
  flags : BitVec 32
  refs : BitVec 16
  deriving DecidableEq, Repr

structure FdEntry where
  openFileIdx : FdIndex
  flags : BitVec 32
  deriving DecidableEq, Repr

structure Tables where
  fds : FdIndex → Option FdEntry
  openFiles : FdIndex → Option OpenFile

inductive FdRelease where
  | invalid
  | retained
  | released (target : FdTarget)

/-! ## The two tables -/

namespace Tables

variable (t : Tables)

def empty : Tables := ⟨fun _ => none, fun _ => none⟩

def fdIndex (fd : Word) : Option FdIndex := if h : fd.toNat < MAX_FD then some ⟨fd.toNat, h⟩ else none

def fdSlot (fd : Word) : Option FdEntry := (fdIndex fd).bind t.fds

def openFileOf (fd : Word) : Option (FdIndex × OpenFile) :=
  (t.fdSlot fd).bind fun entry => (t.openFiles entry.openFileIdx).map fun file => (entry.openFileIdx, file)

def fdEntry (fd : Word) : Option (FdTarget × BitVec 32) := (t.openFileOf fd).map fun p => (p.2.target, p.2.flags)

def fdOpenFileIdx (fd : Word) : Option FdIndex := (t.openFileOf fd).map Prod.fst

def setFd (index : FdIndex) (entry : Option FdEntry) : Tables := { t with fds := Function.update t.fds index entry }

def setOpenFile (index : FdIndex) (file : Option OpenFile) : Tables :=
  { t with openFiles := Function.update t.openFiles index file }

def storeOpenFile (index : FdIndex) (file : OpenFile) : Tables := t.setOpenFile index (some file)

def takeFdSlotFrom (start : Word) : Option Word :=
  ((List.finRange MAX_FD).find? fun index => (t.fds index).isNone && decide (start.toNat ≤ index.val)).map
    fun index => BitVec.ofNat 64 index.val

def takeFdSlot : Option Word := t.takeFdSlotFrom 0

def takeOpenFileSlot : Option FdIndex := (List.finRange MAX_FD).find? fun index => (t.openFiles index).isNone

def installFd (fd : Word) (target : FdTarget) (flags descFlags : BitVec 32) : Tables × Bool :=
  match fdIndex fd with
  | none => (t, false)
  | some index =>
    match t.takeOpenFileSlot with
    | none => (t, false)
    | some openFileIdx =>
      ((t.setOpenFile openFileIdx (some ⟨target, 0, flags, 1⟩)).setFd index
        (some ⟨openFileIdx, descFlags &&& FD_FLAG_MASK⟩), true)

/-- An error number is an `error`. -/
def allocFd (target : FdTarget) (flags descFlags : BitVec 32) : Tables × Except Word Word :=
  match t.takeFdSlot with
  | none => (t, .error EMFILE)
  | some fd =>
    match t.installFd fd target flags descFlags with
    | (_, false) => (t, .error EMFILE)
    | (t', true) => (t', .ok fd)

def dupAt (fd : Word) (openFileIdx : FdIndex) (openFile : OpenFile) (descFlags : BitVec 32) : Tables :=
  match fdIndex fd with
  | none => t
  | some index =>
    (t.setOpenFile openFileIdx (some { openFile with refs := openFile.refs + 1 })).setFd index
      (some ⟨openFileIdx, descFlags &&& FD_FLAG_MASK⟩)

def releaseOne (openFileIdx : FdIndex) : Tables × FdRelease :=
  match t.openFiles openFileIdx with
  | none => (t, .invalid)
  | some openFile =>
    if 0 < openFile.refs - 1 then
      (t.setOpenFile openFileIdx (some { openFile with refs := openFile.refs - 1 }), .retained)
    else (t.setOpenFile openFileIdx none, .released openFile.target)

def releaseReplaced (replaced : Option FdIndex) : Tables × FdRelease :=
  match replaced with
  | some openFileIdx => t.releaseOne openFileIdx
  | none => (t, .invalid)

def closeFd (fd : Word) : Tables × FdRelease :=
  match t.openFileOf fd with
  | none => (t, .invalid)
  | some (openFileIdx, _) =>
    match fdIndex fd with
    | none => (t, .invalid)
    | some index => (t.setFd index none).releaseOne openFileIdx

end Tables

/-! ## The calls -/

inductive SocketEvent where
  | opened (index : Word)
  | closed (index : Word)
  deriving DecidableEq, Repr

/-- The tables, whether the stack's operations are cached, the sockets in use and what has happened to them. -/
structure Files where
  tables : Tables
  netOps : Bool
  isUsed : Fin UDP_SOCKETS → Bool
  events : List SocketEvent

/-- What is answered from outside in the course of one call. -/
structure Answers where
  /-- The path, its mount and the `open` of its file system. -/
  opened : Except Word (FileSystem × BitVec 16)
  opsOf : FileSystem → Except Word Unit
  /-- The console, the stack or the file system reads or writes. -/
  io : Except Word Word
  nodeSize : Option Word
  acquireNetOps : Except Word Unit

inductive FdCall where
  | installConsole (fd : Word)
  | openat (flags : Word)
  | socket (domain sockType protocol : Word)
  | close (fd : Word)
  | dup (oldFd : Word)
  | dup3 (oldFd newFd flags : Word)
  | fcntl (fd cmd arg : Word)
  | read (fd : Word)
  | write (fd : Word)
  | lseek (fd offset whence : Word)

namespace Files

variable (s : Files) (ans : Answers)

def setTables (t : Tables) : Files := { s with tables := t }

/-- `acquire_net_ops`. -/
def acquireNetOps : Files × Except Word Unit :=
  if s.netOps then (s, .ok ())
  else
    match ans.acquireNetOps with
    | .ok () => ({ s with netOps := true }, .ok ())
    | .error e => (s, .error e)

/-- `open` of the stack, for `NET_NO_SLOT` nothing. -/
def netOpen : Files × Option Word :=
  match (List.finRange UDP_SOCKETS).find? fun index => !s.isUsed index with
  | none => (s, none)
  | some index =>
    ({ s with
        isUsed := Function.update s.isUsed index true
        events := .opened (BitVec.ofNat 64 index.val) :: s.events }, some (BitVec.ofNat 64 index.val))

/-- `close` of the stack. -/
def netClose (index : Word) : Files :=
  if h : index.toNat < UDP_SOCKETS then
    { s with isUsed := Function.update s.isUsed ⟨index.toNat, h⟩ false, events := .closed index :: s.events }
  else s

def closeSocket (index : Word) : Files :=
  match s.acquireNetOps ans with
  | (s', .ok ()) => s'.netClose index
  | (s', .error _) => s'

def releaseTarget (release : FdRelease) : Files :=
  match release with
  | .released (.socket index) => s.closeSocket ans index
  | _ => s

/-- One turn of the loop of `vfs_init`, which the runtime runs for the first three descriptors. -/
def installConsole (fd : Word) : Files :=
  match s.tables.fdSlot fd with
  | some _ => s
  | none => s.setTables (s.tables.installFd fd .console (if fd = 0 then O_RDONLY else O_WRONLY) 0).1

def openatHandler (flags : Word) : Files × Except Word Word :=
  match ans.opened with
  | .error e => (s, .error e)
  | .ok (fs, node) =>
    match s.tables.allocFd (.vfs fs node) (flags.setWidth 32 &&& ~~~OPEN_ONLY_FLAGS)
      (flags.setWidth 32 &&& FD_FLAG_MASK) with
    | (t, r) => (s.setTables t, r)

/-- `socket_handler` once the stack's operations are there. -/
def openSocketFd (sockType : Word) : Files × Except Word Word :=
  match s.netOpen with
  | (_, none) => (s, .error EMFILE)
  | (s', some index) =>
    match s'.tables.allocFd (.socket index) (if sockType &&& 0o4000 ≠ 0 then O_NONBLOCK else 0)
      ((sockType &&& 0o2000000).setWidth 32) with
    | (t, .error e) => ((s'.setTables t).netClose index, .error e)
    | (t, .ok fd) => (s'.setTables t, .ok fd)

def socketHandler (domain sockType protocol : Word) : Files × Except Word Word :=
  if domain ≠ 2 then (s, .error EAFNOSUPPORT)
  else if sockType &&& ~~~(0o4000 ||| 0o2000000) ≠ 2 then (s, .error EPROTONOSUPPORT)
  else if protocol ≠ 0 ∧ protocol ≠ 17 then (s, .error EPROTONOSUPPORT)
  else
    match s.acquireNetOps ans with
    | (s', .error e) => (s', .error e)
    | (s', .ok ()) => s'.openSocketFd sockType

def closeHandler (fd : Word) : Files × Except Word Word :=
  match s.tables.closeFd fd with
  | (t, .invalid) => (s.setTables t, .error EBADF)
  | (t, released) => ((s.setTables t).releaseTarget ans released, .ok 0)

def dupHandler (oldFd : Word) : Files × Except Word Word :=
  match s.tables.openFileOf oldFd with
  | none => (s, .error EBADF)
  | some (openFileIdx, openFile) =>
    match s.tables.takeFdSlot with
    | none => (s, .error EMFILE)
    | some newFd => (s.setTables (s.tables.dupAt newFd openFileIdx openFile 0), .ok newFd)

def dup3Handler (oldFd newFd flags : Word) : Files × Except Word Word :=
  if flags &&& ~~~(O_CLOEXEC.setWidth 64) ≠ 0 then (s, .error EINVAL)
  else if oldFd = newFd then (s, .error EINVAL)
  else if MAX_FD ≤ newFd.toNat then (s, .error EBADF)
  else
    match s.tables.openFileOf oldFd with
    | none => (s, .error EBADF)
    | some (openFileIdx, openFile) =>
      match (s.tables.dupAt newFd openFileIdx openFile (flags.setWidth 32)).releaseReplaced
        (s.tables.fdOpenFileIdx newFd) with
      | (t, released) => ((s.setTables t).releaseTarget ans released, .ok newFd)

/-- `F_DUPFD` and `F_DUPFD_CLOEXEC`. -/
def dupFd (fd arg : Word) (descFlags : BitVec 32) : Files × Except Word Word :=
  match s.tables.openFileOf fd with
  | none => (s, .error EBADF)
  | some (openFileIdx, openFile) =>
    if MAX_FD ≤ arg.toNat then (s, .error EINVAL)
    else
      match s.tables.takeFdSlotFrom arg with
      | none => (s, .error EMFILE)
      | some newFd => (s.setTables (s.tables.dupAt newFd openFileIdx openFile descFlags), .ok newFd)

/-- `F_GETFD` and `F_SETFD`. -/
def getFd (fd : Word) : Files × Except Word Word :=
  match s.tables.fdSlot fd with
  | none => (s, .error EBADF)
  | some entry => (s, .ok (if entry.flags &&& FD_FLAG_MASK ≠ 0 then FD_CLOEXEC else 0))

def setFdFlags (fd arg : Word) : Files × Except Word Word :=
  match Tables.fdIndex fd with
  | none => (s, .error EBADF)
  | some index =>
    match s.tables.fds index with
    | none => (s, .error EBADF)
    | some entry =>
      (s.setTables (s.tables.setFd index (some { entry with
        flags := if arg &&& FD_CLOEXEC ≠ 0 then entry.flags ||| O_CLOEXEC else entry.flags &&& ~~~O_CLOEXEC })), .ok 0)

/-- `F_GETFL` and `F_SETFL`. -/
def getFl (fd : Word) : Files × Except Word Word :=
  match s.tables.openFileOf fd with
  | none => (s, .error EBADF)
  | some (_, openFile) => (s, .ok (openFile.flags.setWidth 64))

def setFl (fd arg : Word) : Files × Except Word Word :=
  match s.tables.openFileOf fd with
  | none => (s, .error EBADF)
  | some (openFileIdx, openFile) =>
    (s.setTables (s.tables.storeOpenFile openFileIdx
      { openFile with flags := (openFile.flags &&& ~~~SETFL_MASK) ||| (arg.setWidth 32 &&& SETFL_MASK) }), .ok 0)

def fcntlHandler (fd cmd arg : Word) : Files × Except Word Word :=
  if cmd = 1 then s.getFd fd
  else if cmd = 2 then s.setFdFlags fd arg
  else if cmd = 3 then s.getFl fd
  else if cmd = 4 then s.setFl fd arg
  else if cmd = 0 then s.dupFd fd arg 0
  else if cmd = 1030 then s.dupFd fd arg O_CLOEXEC
  else (s, .error EINVAL)

/-- `fd_vfs_ops`. -/
def fdVfsOps (fd : Word) (notFileErr : Word) : Except Word (FdIndex × OpenFile) :=
  match s.tables.openFileOf fd with
  | none => .error EBADF
  | some (openFileIdx, openFile) =>
    match openFile.target with
    | .console | .socket _ => .error notFileErr
    | .vfs fs _ =>
      match ans.opsOf fs with
      | .error e => .error e
      | .ok () => .ok (openFileIdx, openFile)

/-- A description goes back with a new offset. -/
def writeBack (openFileIdx : FdIndex) (openFile : OpenFile) (offset : Word) : Files :=
  s.setTables (s.tables.storeOpenFile openFileIdx { openFile with offset := offset })

/-- The file part of `read_handler`. -/
def readFile (fd : Word) : Files × Except Word Word :=
  match s.fdVfsOps ans fd EOPNOTSUPP with
  | .error e => (s, .error e)
  | .ok (openFileIdx, openFile) =>
    if modeReadable openFile.flags then
      match ans.io with
      | .error e => (s, .error e)
      | .ok n => (s.writeBack openFileIdx openFile (openFile.offset + n), .ok n)
    else (s, .error EBADF)

def readHandler (fd : Word) : Files × Except Word Word :=
  match s.tables.fdEntry fd with
  | some (.console, flags) => if modeReadable flags then (s, ans.io) else (s, .error EBADF)
  | some (.socket _, _) => (s, ans.io)
  | _ => s.readFile ans fd

/-- The file part of `write_handler`. -/
def writeFile (fd : Word) : Files × Except Word Word :=
  match s.fdVfsOps ans fd EOPNOTSUPP with
  | .error e => (s, .error e)
  | .ok (openFileIdx, openFile) =>
    if modeWritable openFile.flags then
      match (if openFile.flags &&& O_APPEND ≠ 0 then ans.nodeSize else some openFile.offset) with
      | none => (s, .error EBADF)
      | some offset =>
        match ans.io with
        | .error e => (s, .error e)
        | .ok written => (s.writeBack openFileIdx openFile (offset + written), .ok written)
    else (s, .error EBADF)

def writeHandler (fd : Word) : Files × Except Word Word :=
  match s.tables.fdEntry fd with
  | some (.console, flags) => if modeWritable flags then (s, ans.io) else (s, .error EBADF)
  | some (.socket _, _) => (s, ans.io)
  | _ => s.writeFile ans fd

/-- The offset that `lseek` asks for; nothing for an unknown `whence`. -/
def newOffset (openFile : OpenFile) (size offset whence : Word) : Option Int :=
  if whence = 0 then some offset.toInt
  else if whence = 1 then some (openFile.offset.toInt + offset.toInt)
  else if whence = 2 then some (size.toInt + offset.toInt)
  else none

def lseekHandler (fd offset whence : Word) : Files × Except Word Word :=
  match s.fdVfsOps ans fd ESPIPE with
  | .error e => (s, .error e)
  | .ok (openFileIdx, openFile) =>
    match ans.nodeSize with
    | none => (s, .error EBADF)
    | some size =>
      match newOffset openFile size offset whence with
      | none => (s, .error EINVAL)
      | some newOff =>
        if newOff < 0 ∨ 2 ^ 63 - 1 < newOff then (s, .error EINVAL)
        else (s.writeBack openFileIdx openFile (BitVec.ofInt 64 newOff), .ok (BitVec.ofInt 64 newOff))

/-- One call, with what it returns. -/
def call (s : Files) (ans : Answers) : FdCall → Files × Except Word Word
  | .installConsole fd => (s.installConsole fd, .ok 0)
  | .openat flags => s.openatHandler ans flags
  | .socket domain sockType protocol => s.socketHandler ans domain sockType protocol
  | .close fd => s.closeHandler ans fd
  | .dup oldFd => s.dupHandler oldFd
  | .dup3 oldFd newFd flags => s.dup3Handler ans oldFd newFd flags
  | .fcntl fd cmd arg => s.fcntlHandler fd cmd arg
  | .read fd => s.readHandler ans fd
  | .write fd => s.writeHandler ans fd
  | .lseek fd offset whence => s.lseekHandler ans fd offset whence

def step (s : Files) (c : FdCall × Answers) : Files := (s.call c.2 c.1).1

def init : Files := ⟨.empty, false, fun _ => false, []⟩

end Files

end Pyremu.Sittim
