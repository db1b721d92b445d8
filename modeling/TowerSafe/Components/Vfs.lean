/-
This file embeds the mount points, the file table and the open directories of the virtual file
system (`vfs_mount.c`, `vfs_maps.c`, `vfs_files.c` and the calls of `vfs_fs.c` that open and close),
and keeps two accounts over whole runs. The references of a mount point are the files and
directories that are open on it, as long as no driver fails to close: a file or directory whose
close fails is gone, but its reference stays. The references of a file system type are its mount
points, as long as no driver fails to mount: the reference is taken before the driver is asked and
is not given back.

What the driver callbacks return is free in the model, and so are the results of the allocator,
which never hands out the address of a live object, and of the lock.
-/

import Mathlib
import TowerSafe.Library.Transition

namespace TowerSafe.Vfs

open Library List
open Option (any_some bind_some ite_none_left_eq_some ite_none_right_eq_some map_eq_some_iff
  mem_def some.inj)

/-! ### The objects -/

/-- A string, without its terminating zero. -/
abbrev CString := List Char

/-- The address of an object in the heap. -/
abbrev Address := BitVec 32

/-- Which of the callbacks of `struct MountOps` are set. -/
structure MountOps where
  mount : Bool
  umount : Bool
  umount2 : Bool
  deriving DecidableEq

/-- The callback that `umount` calls, or `umount2` when `second` is set. -/
def MountOps.unmounts (fsMops : MountOps) (second : Bool) : Bool :=
  if second then fsMops.umount2 else fsMops.umount

/-- Which of the callbacks of `struct FileOps` are set, of those that open and close. -/
structure FileOps where
  openFile : Bool
  closeFile : Bool
  opendir : Bool
  closedir : Bool
  deriving DecidableEq

/-- `struct FsMap`: a registered file system type. -/
structure FsMap where
  address : Address
  fsType : CString
  fsMops : MountOps
  fsFops : FileOps
  fsRefs : BitVec 32
  deriving DecidableEq

/-- `struct MountPoint`; `mFs` is the address of its file system type. -/
structure MountPoint where
  address : Address
  mFs : Address
  mPath : CString
  mRefs : BitVec 32
  mWriteEnable : Bool
  deriving DecidableEq

/-- The `FILE_STATUS_*` of a file. -/
inductive FileStatus where
  | notUsed
  | initing
  | ready
  | closing
  deriving DecidableEq

/-- An entry of the file table, `struct File`. -/
structure File where
  fStatus : FileStatus
  fFops : Option FileOps
  fMp : Option Address
  deriving DecidableEq

/-- What `VfsFilePut` leaves. -/
def File.unused : File :=
  ⟨.notUsed, none, none⟩

/-- `struct Dir`: an open directory. -/
structure Dir where
  address : Address
  dMp : Address
  deriving DecidableEq

/-- The globals: `g_fsMap`, `g_mountPoints`, `g_files` and `g_dirNum`, and the directories that are
open. -/
structure State where
  fsMaps : List FsMap
  mountPoints : List MountPoint
  files : List File
  dirs : List Dir
  dirNum : BitVec 32
  deriving DecidableEq

def minStartFd : Nat := 3

def configNfileDescriptors : Nat := 256

def nrOpenDefault : Nat := configNfileDescriptors - minStartFd

def maxOpenDirs : BitVec 32 := 10

def pathMax : Nat := 256

def securecStringMaxLen : Nat := 0x7fffffff

def losOk : Int := 0

/-- `LOS_NOK`, as an `int`. -/
def losNok : Int := -1

theorem losNok_ne_losOk : losNok ≠ losOk := by decide

def msRdonly : BitVec 32 := 1

def msRemount : BitVec 32 := 32

/-- `O_CREAT | O_WRONLY | O_RDWR`. -/
def writeFlags : BitVec 32 := 0o100 ||| 0o1 ||| 0o2

def mapToPosixRet (ret : Int) : Int :=
  if ret < 0 then -1 else ret

/-- Whether `strcpy_s` accepts a destination of a size, the source being shorter than it. -/
def strcpyS (destMax : Nat) : Bool :=
  0 < destMax && destMax ≤ securecStringMaxLen

/-! ### Paths -/

def vfsPathCheck (path : Option CString) (isFile : Bool) : Option CString :=
  path.filter fun path =>
    path ≠ [] ∧ path.length < pathMax ∧ ¬(isFile = true ∧ path.getLast? = some '/')

def vfsMountPathCheck (target : Option CString) : Option CString :=
  target.filter fun target => target.head? = some '/' ∧ target.length < pathMax

def atEnd : CString → Bool
  | [] => true
  | first :: _ => first = '/'

/-- Whether two paths have the same first component: the inner loop of `VfsMpFind`. -/
def sameComponent : CString → CString → Bool
  | first :: mPath, other :: target =>
      if first ≠ '/' ∧ other ≠ '/' then
        if first ≠ other then false else sameComponent mPath target
      else first = '/' && other = '/'
  | mPath, target => atEnd mPath && atEnd target

def skipSlashes (path : CString) : CString :=
  path.dropWhile fun first => first = '/'

namespace State

variable (st : State)

/-- `VfsMpFind`: the first mount point whose path has the same first component. -/
def vfsMpFind (path : CString) : Option MountPoint :=
  st.mountPoints.find? fun mp => sameComponent (skipSlashes mp.mPath) (skipSlashes path)

def vfsFsMapGet (fsType : Option CString) : Option FsMap :=
  st.fsMaps.find? fun fs => fsType = some fs.fsType

/-- The file system type of a mount point, `mp->mFs`. -/
def mFsOf (mp : MountPoint) : Option FsMap :=
  st.fsMaps.find? fun fs => fs.address = mp.mFs

def mpAt (address : Address) : Option MountPoint :=
  st.mountPoints.find? fun mp => mp.address = address

/-- Change the references of the mount point at an address. -/
def changeRefs (address : Address) (change : BitVec 32 → BitVec 32) : State :=
  { st with
    mountPoints := st.mountPoints.map fun mp =>
      if mp.address = address then { mp with mRefs := change mp.mRefs } else mp }

/-- Change the references of the file system type at an address. -/
def changeFsRefs (address : Address) (change : BitVec 32 → BitVec 32) : State :=
  { st with
    fsMaps := st.fsMaps.map fun fs =>
      if fs.address = address then { fs with fsRefs := change fs.fsRefs } else fs }

def mpDeleteFromList (mp : MountPoint) : State :=
  { st with mountPoints := st.mountPoints.eraseP fun one => one.address = mp.address }

def setFile (index : Nat) (file : File) : State :=
  { st with files := st.files.set index file }

/-- `VfsFileGet`: the index of the first entry that is not used. -/
def vfsFileGet : Option Nat :=
  st.files.findIdx? fun file => file.fStatus = .notUsed

/-- An address that no live object has. -/
def Fresh (address : Address) : Prop :=
  address ≠ 0 ∧ address ∉ st.fsMaps.map FsMap.address ∧
    address ∉ st.mountPoints.map MountPoint.address ∧ address ∉ st.dirs.map Dir.address

instance (address : Address) : Decidable (st.Fresh address) := by
  unfold Fresh
  infer_instance

/-! ### The calls -/

/-- `LOS_FsRegister` and `OsFsRegister`; `memory` is what the allocator gives for the type, and
`nameMemory` whether it gives room for the name. -/
def losFsRegister (fsType : CString) (fsMops : Option MountOps) (fsFops : Option FileOps)
    (memory : Option Address) (nameMemory : Bool) : State × Int :=
  if (st.vfsFsMapGet (some fsType)).isSome then (st, losNok)
  else
    match fsMops, fsFops, memory with
    | some fsMops, some fsFops, some address =>
        if nameMemory then
          ({ st with fsMaps := ⟨address, fsType, fsMops, fsFops, 0⟩ :: st.fsMaps }, losOk)
        else (st, losNok)
    | _, _, _ => (st, losNok)

/-- `VfsMountPointInit`. The mount point it makes is not on the list yet. -/
def vfsMountPointInit (source : Option CString) (target : CString) (fsType : Option CString)
    (mountflags : BitVec 32) (memory : Option Address) : State × Option MountPoint :=
  if (st.vfsMpFind target).isSome then (st, none)
  else
    match st.vfsFsMapGet fsType with
    | none => (st, none)
    | some mFs =>
        if mFs.fsMops.mount then
          match memory with
          | none => (st, none)
          | some address =>
              let mp : MountPoint :=
                ⟨address, mFs.address, target, 0, decide (mountflags &&& msRdonly = 0)⟩
              let st := st.changeFsRefs mFs.address (· + 1)
              if source.any fun source => !strcpyS (source.length + 1) then (st, none)
              else if !strcpyS (target.length + 1) then (st, none)
              else (st, some mp)
        else (st, none)

/-- `VfsRemount`: the driver is asked about the mount point again. -/
def vfsRemount (target : CString) (result : Int) : Int :=
  match st.vfsMpFind target with
  | none => losNok
  | some _ => result

def mount (source target fsType : Option CString) (mountflags : BitVec 32)
    (memory : Option Address) (result : Int) : State × Int :=
  match vfsMountPathCheck target with
  | none => (st, losNok)
  | some target =>
      if mountflags &&& msRemount ≠ 0 then (st, st.vfsRemount target result)
      else
        match st.vfsMountPointInit source target fsType mountflags memory with
        | (st, none) => (st, losNok)
        | (st, some mp) =>
            if result ≠ 0 then (st, losNok)
            else ({ st with mountPoints := mp :: st.mountPoints }, losOk)

/-- `umount`, or `umount2` when `second` is set, whose driver callback is another one. That
`umount2` with `MNT_FORCE` has the driver close the files of the mount point leaves the tables as
they are. -/
def umount (second : Bool) (target : Option CString) (result : Int) : State × Int :=
  match vfsMountPathCheck target with
  | none => (st, losNok)
  | some target =>
      match st.vfsMpFind target with
      | none => (st, losNok)
      | some mp =>
          if mp.mRefs ≠ 0 then (st, losNok)
          else
            match st.mFsOf mp with
            | none => (st, losNok)
            | some mFs =>
                if !mFs.fsMops.unmounts second then (st, losNok)
                else if result ≠ 0 then (st, losNok)
                else ((st.mpDeleteFromList mp).changeFsRefs mp.mFs (· - 1), losOk)

/-- `VfsOpen`; `memory` is whether the path can be copied. -/
def vfsOpen (path : Option CString) (flags : BitVec 32) (lock memory : Bool) (result : Int) :
    State × Int :=
  match vfsPathCheck path true with
  | none => (st, -1)
  | some path =>
      if !lock then (st, -1)
      else
        match st.vfsMpFind path with
        | none => (st, -1)
        | some mp =>
            match st.mFsOf mp with
            | none => (st, -1)
            | some mFs =>
                if !mFs.fsFops.openFile then (st, -1)
                else if mp.mWriteEnable = false ∧ flags &&& writeFlags ≠ 0 then (st, -1)
                else
                  match st.vfsFileGet with
                  | none => (st, -1)
                  | some index =>
                      if !memory then (st.setFile index .unused, losNok)
                      else if result = 0 then
                        ((st.setFile index ⟨.ready, some mFs.fsFops, some mp.address⟩).changeRefs
                          mp.address (· + 1), index + minStartFd)
                      else (st.setFile index .unused, -1)

/-- `VfsAttachFile`: the entry of a descriptor that is open. -/
def vfsAttachFile (fd : Int) (lock : Bool) : Option (Nat × File) :=
  if fd < minStartFd ∨ fd ≥ configNfileDescriptors then none
  else if !lock then none
  else
    match st.files[(fd - minStartFd).toNat]? with
    | none => none
    | some file =>
        if file.fMp = none ∨ file.fStatus ≠ .ready then none
        else some ((fd - minStartFd).toNat, file)

/-- What the close callback of a file returns, `LOS_NOK` when there is none. -/
def closeResult (file : File) (result : Int) : Int :=
  match file.fFops with
  | some fFops => if fFops.closeFile then result else losNok
  | none => losNok

/-- `VfsClose`. There is no next state if it uses a mount point that has been freed. -/
def vfsClose (fd : Int) (lock : Bool) (result : Int) : Option (State × Int) :=
  match st.vfsAttachFile fd lock with
  | none => some (st, losNok)
  | some (index, file) =>
      match file.fMp with
      | none => some (st.setFile index .unused, closeResult file result)
      | some address =>
          if closeResult file result = 0 then
            if (st.mpAt address).isSome then
              some ((st.changeRefs address (· - 1)).setFile index .unused, 0)
            else none
          else some (st.setFile index .unused, closeResult file result)

/-- `opendir`; `memory` is what the allocator gives for the directory. -/
def opendir (path : Option CString) (memory : Option Address) (lock : Bool) (result : Int) :
    State × Option Address :=
  match vfsPathCheck path false, memory with
  | some path, some address =>
      if !lock then (st, none)
      else if st.dirNum ≥ maxOpenDirs then (st, none)
      else
        match st.vfsMpFind path with
        | none => (st, none)
        | some mp =>
            match st.mFsOf mp with
            | none => (st, none)
            | some mFs =>
                if !mFs.fsFops.opendir then (st, none)
                else if result = 0 then
                  ({ st.changeRefs mp.address (· + 1) with
                    dirs := ⟨address, mp.address⟩ :: st.dirs
                    dirNum := st.dirNum + 1 }, some address)
                else (st, none)
  | _, _ => (st, none)

/-- What the close callback of a directory returns, `LOS_NOK` when there is none. -/
def closedirResult (mp : MountPoint) (result : Int) : Int :=
  match st.mFsOf mp with
  | some mFs => if mFs.fsFops.closedir then result else losNok
  | none => losNok

/-- `closedir` of an open directory. There is no next state if it uses a mount point that has been
freed. -/
def closedir (dir : Dir) (lock : Bool) (result : Int) : Option (State × Int) :=
  if !lock then some (st, losNok)
  else
    match st.mpAt dir.dMp with
    | none => none
    | some mp =>
        let ret := st.closedirResult mp result
        let st := { st with dirs := st.dirs.erase dir }
        if ret = 0 then
          some ({ st.changeRefs dir.dMp (· - 1) with dirNum := st.dirNum - 1 }, 0)
        else some (st, mapToPosixRet ret)

def dirAt (address : Address) : Option Dir :=
  st.dirs.find? fun dir => dir.address = address

def openFiles (address : Address) : Nat :=
  st.files.countP fun file => file.fStatus = .ready ∧ file.fMp = some address

/-- The directories that are open on the mount point at an address. -/
def openDirs (address : Address) : Nat :=
  st.dirs.countP fun dir => dir.dMp = address

def opened (address : Address) : Nat :=
  st.openFiles address + st.openDirs address

def mounted (address : Address) : Nat :=
  st.mountPoints.countP fun mp => mp.mFs = address

end State

/-! ### Runs -/

/-- A call, with what the driver, the lock and the allocator answer. -/
inductive Call where
  | register (fsType : CString) (fsMops : Option MountOps) (fsFops : Option FileOps)
      (memory : Option Address) (nameMemory : Bool)
  | mount (source target fsType : Option CString) (mountflags : BitVec 32)
      (memory : Option Address) (result : Int)
  | umount (second : Bool) (target : Option CString) (result : Int)
  | openFile (path : Option CString) (flags : BitVec 32) (lock memory : Bool) (result : Int)
  | closeFile (fd : Int) (lock : Bool) (result : Int)
  | opendir (path : Option CString) (memory : Option Address) (lock : Bool) (result : Int)
  | closedir (handle : Option Address) (lock : Bool) (result : Int)
  deriving DecidableEq

namespace State

variable (st : State)

/-- What a call does. A directory that is closed is `NULL` or an open one. -/
def step : Call → Option State
  | .register fsType fsMops fsFops memory nameMemory =>
      if memory.all fun address => st.Fresh address then
        some (st.losFsRegister fsType fsMops fsFops memory nameMemory).1
      else none
  | .mount source target fsType mountflags memory result =>
      if memory.all fun address => st.Fresh address then
        some (st.mount source target fsType mountflags memory result).1
      else none
  | .umount second target result => some (st.umount second target result).1
  | .openFile path flags lock memory result =>
      some (st.vfsOpen path flags lock memory result).1
  | .closeFile fd lock result => (st.vfsClose fd lock result).map Prod.fst
  | .opendir path memory lock result =>
      if memory.all fun address => st.Fresh address then
        some (st.opendir path memory lock result).1
      else none
  | .closedir none _ _ => some st
  | .closedir (some handle) lock result =>
      (st.dirAt handle).bind fun dir => (st.closedir dir lock result).map Prod.fst

/-- Every reference of a mount point is a file or a directory that is open on it, the open
directories are counted, and a mount point can be unmounted exactly while nothing is open on it. -/
structure RefsInOrder : Prop where
  refs : ∀ mp ∈ st.mountPoints, mp.mRefs.toNat = st.opened mp.address
  dirs : st.dirNum.toNat = st.dirs.length
  umount : ∀ second target path mp mFs result,
    vfsMountPathCheck target = some path → st.vfsMpFind path = some mp → st.mFsOf mp = some mFs →
    mFs.fsMops.unmounts second = true →
      ((st.umount second target result).2 = losOk ↔ result = 0 ∧ st.opened mp.address = 0)

/-- The references of a file system type are its mount points, and a mount that fails, of those
considered, leaves everything as it was. -/
structure MountsInOrder (considered : State → Call → Prop) : Prop where
  refs : ∀ fs ∈ st.fsMaps, fs.fsRefs.toNat = st.mounted fs.address
  atomic : ∀ source target fsType mountflags memory result,
    considered st (.mount source target fsType mountflags memory result) →
      (st.mount source target fsType mountflags memory result).2 ≠ losOk →
        (st.mount source target fsType mountflags memory result).1 = st

end State

/-- The driver of a file or a directory that is closed has a callback for it, and that succeeds. -/
def ClosesSucceed (st : State) : Call → Prop
  | .closeFile fd lock result =>
      match st.vfsAttachFile fd lock with
      | none => True
      | some (_, file) => file.fFops.any FileOps.closeFile = true ∧ result = 0
  | .closedir handle lock result =>
      match handle.bind st.dirAt with
      | none => True
      | some dir =>
          lock = true →
            ((st.mpAt dir.dMp).bind st.mFsOf).any (fun mFs => mFs.fsFops.closedir) = true ∧
              result = 0
  | _ => True

instance (st : State) (call : Call) : Decidable (ClosesSucceed st call) := by
  cases call with
  | closeFile fd lock result => unfold ClosesSucceed; dsimp only; split <;> infer_instance
  | closedir handle lock result => unfold ClosesSucceed; dsimp only; split <;> infer_instance
  | _ => exact .isTrue trivial

/-- A mount that is not a remount, whose path and type are right and whose mount point can be
allocated, has a source that can be copied and a driver that succeeds. -/
def DriverMounts (st : State) : Call → Prop
  | .mount source target fsType mountflags memory result =>
      match vfsMountPathCheck target with
      | none => True
      | some path =>
          mountflags &&& msRemount = 0 → (st.vfsMpFind path).isSome = false →
            (st.vfsFsMapGet fsType).any (fun mFs => mFs.fsMops.mount) = true →
              memory.isSome = true →
                source.any (fun source => !strcpyS (source.length + 1)) = false ∧ result = 0
  | _ => True

instance (st : State) (call : Call) : Decidable (DriverMounts st call) := by
  cases call with
  | mount source target fsType mountflags memory result =>
    unfold DriverMounts
    dsimp only
    split <;> infer_instance
  | _ => exact .isTrue trivial

def Initial (st : State) : Prop :=
  st = ⟨[], [], List.replicate nrOpenDefault .unused, [], 0⟩

/-! ### The references of the mount points -/

namespace State

variable {st next : State} {address other : Address}

/-- What every state of a run keeps. -/
structure Accounts (st : State) : Prop where
  distinct : (st.mountPoints.map MountPoint.address).Nodup
  listed : ∀ address, 0 < st.opened address → address ∈ st.mountPoints.map MountPoint.address
  refs : ∀ mp ∈ st.mountPoints, mp.mRefs = BitVec.ofNat 32 (st.opened mp.address)
  dirNum : st.dirNum = BitVec.ofNat 32 st.dirs.length
  dirs : st.dirs.length ≤ maxOpenDirs.toNat
  files : st.files.length = nrOpenDefault

theorem vfsMpFind_mem {path : CString} {mp : MountPoint} (found : st.vfsMpFind path = some mp) :
    mp ∈ st.mountPoints :=
  mem_of_find?_eq_some found

theorem mpAt_isSome : (st.mpAt address).isSome = true ↔
    address ∈ st.mountPoints.map MountPoint.address := by
  simp [mpAt, List.find?_isSome]

@[simp] theorem addresses_changeRefs (change : BitVec 32 → BitVec 32) :
    (st.changeRefs address change).mountPoints.map MountPoint.address =
      st.mountPoints.map MountPoint.address := by
  rw [changeRefs, map_map]
  refine map_congr_left fun mp _ => ?_
  dsimp only [Function.comp_apply]
  split <;> rfl

theorem openFiles_setFile {index : Nat} {file : File} (bound : index < st.files.length) :
    (st.setFile index file).openFiles address +
        (if st.files[index].fStatus = .ready ∧ st.files[index].fMp = some address then 1 else 0) =
      st.openFiles address +
        (if file.fStatus = .ready ∧ file.fMp = some address then 1 else 0) := by
  have counted : ∀ position : st.files[index].fStatus = .ready ∧
      st.files[index].fMp = some address, 0 < st.openFiles address := fun position =>
    countP_pos_iff.mpr ⟨_, getElem_mem bound, decide_eq_true position⟩
  simp only [openFiles, setFile, countP_set bound, decide_eq_true_eq] at counted ⊢
  split
  · have := counted ‹_›
    omega
  · omega

theorem Accounts.change {change : BitVec 32 → BitVec 32} (accounts : st.Accounts)
    (mountPoints : next.mountPoints = (st.changeRefs address change).mountPoints)
    (listed : address ∈ st.mountPoints.map MountPoint.address)
    (others : ∀ other, other ≠ address → next.opened other = st.opened other)
    (counted : change (BitVec.ofNat 32 (st.opened address)) = BitVec.ofNat 32 (next.opened address))
    (dirNum : next.dirNum = BitVec.ofNat 32 next.dirs.length)
    (dirs : next.dirs.length ≤ maxOpenDirs.toNat)
    (files : next.files.length = nrOpenDefault) : next.Accounts := by
  have addresses : next.mountPoints.map MountPoint.address =
      st.mountPoints.map MountPoint.address := by
    rw [mountPoints, addresses_changeRefs]
  refine ⟨addresses ▸ accounts.distinct, fun one positive => ?_, fun mp member => ?_, dirNum, dirs,
    files⟩
  · rw [addresses]
    by_cases same : one = address
    · exact same ▸ listed
    · exact accounts.listed one (others one same ▸ positive)
  · rw [mountPoints] at member
    obtain ⟨old, inside, rfl⟩ := mem_map.mp member
    by_cases same : old.address = address
    · rw [if_pos same]
      rw [accounts.refs old inside, same, counted]
    · rw [if_neg same, others _ same]
      exact accounts.refs old inside

theorem Accounts.putFile {index : Nat} (accounts : st.Accounts)
    (free : st.vfsFileGet = some index) : (st.setFile index .unused).Accounts := by
  obtain ⟨bound, unused, -⟩ := List.findIdx?_eq_some_iff_getElem.mp free
  rw [decide_eq_true_eq] at unused
  have same : ∀ address, (st.setFile index .unused).opened address = st.opened address := by
    intro address
    have count := @openFiles_setFile st address index .unused bound
    rw [if_neg (by simp [unused])] at count
    exact congrArg (· + st.openDirs address) count
  exact ⟨accounts.distinct, fun address positive => accounts.listed address (same address ▸ positive),
    fun mp member => (same mp.address).symm ▸ accounts.refs mp member, accounts.dirNum,
    accounts.dirs, (length_set ..).trans accounts.files⟩

theorem Accounts.vfsOpen (accounts : st.Accounts) (path : Option CString) (flags : BitVec 32)
    (lock memory : Bool) (result : Int) :
    (st.vfsOpen path flags lock memory result).1.Accounts := by
  rw [State.vfsOpen]
  split
  · exact accounts
  split
  · exact accounts
  split
  · exact accounts
  rename_i mp found
  split
  · exact accounts
  rename_i mFs _
  split
  · exact accounts
  split
  · exact accounts
  split
  · exact accounts
  rename_i index free
  split
  · exact accounts.putFile free
  split
  · obtain ⟨bound, unused, -⟩ := List.findIdx?_eq_some_iff_getElem.mp free
    rw [decide_eq_true_eq] at unused
    have count : ∀ address, (st.setFile index ⟨.ready, some mFs.fsFops, some mp.address⟩).opened
        address = st.opened address + if mp.address = address then 1 else 0 := by
      intro address
      have count := @openFiles_setFile st address index
        ⟨.ready, some mFs.fsFops, some mp.address⟩ bound
      rw [if_neg (by simp [unused])] at count
      simp only [opened, true_and, Option.some.injEq, Nat.add_zero] at count ⊢
      rw [count]
      exact Nat.add_right_comm ..
    refine @Accounts.change _ _ mp.address (· + 1) accounts rfl ?_ ?_ ?_ ?_ ?_ ?_
    · exact mem_map_of_mem (vfsMpFind_mem found)
    · intro other different
      exact (count other).trans (by simp [Ne.symm different])
    · refine Eq.trans ?_ (congrArg (BitVec.ofNat 32) (count mp.address)).symm
      simp [BitVec.ofNat_add]
    · exact accounts.dirNum
    · exact accounts.dirs
    · exact (length_set ..).trans accounts.files
  · exact accounts.putFile free

theorem of_vfsAttachFile {fd : Int} {lock : Bool} {index : Nat} {file : File}
    (attached : st.vfsAttachFile fd lock = some (index, file)) :
    st.files[index]? = some file ∧ file.fStatus = .ready := by
  rw [vfsAttachFile, ite_none_left_eq_some, ite_none_left_eq_some] at attached
  obtain ⟨-, -, attached⟩ := attached
  split at attached
  · exact absurd attached nofun
  rename_i one found
  rw [ite_none_left_eq_some, not_or, not_not] at attached
  obtain ⟨⟨-, ready⟩, entry⟩ := attached
  obtain ⟨rfl, rfl⟩ := Prod.ext_iff.mp (some.inj entry)
  exact ⟨found, ready⟩

section

variable (accounts : st.Accounts)
include accounts

theorem Accounts.vfsClose {fd : Int} {lock : Bool} {result ret : Int}
    (meets : ClosesSucceed st (.closeFile fd lock result))
    (closes : st.vfsClose fd lock result = some (next, ret)) : next.Accounts := by
  rw [State.vfsClose] at closes
  rw [ClosesSucceed] at meets
  split at closes
  · obtain ⟨rfl, -⟩ := Prod.ext_iff.mp (some.inj closes)
    exact accounts
  rename_i index file attached
  obtain ⟨found, ready⟩ := of_vfsAttachFile attached
  obtain ⟨bound, entry⟩ := List.getElem?_eq_some_iff.mp found
  rw [attached] at meets
  have succeeds : closeResult file result = 0 := by
    obtain ⟨callback, rfl⟩ := meets
    rw [closeResult]
    cases ops : file.fFops with
    | none => simp [ops] at callback
    | some fFops =>
      rw [ops, any_some] at callback
      dsimp only
      rw [if_pos callback]
  split at closes
  · rename_i absent
    rw [State.vfsAttachFile, ite_none_left_eq_some, ite_none_left_eq_some] at attached
    obtain ⟨-, -, attached⟩ := attached
    split at attached
    · exact absurd attached nofun
    rw [ite_none_left_eq_some, not_or] at attached
    obtain ⟨⟨present, -⟩, entry⟩ := attached
    obtain ⟨-, rfl⟩ := Prod.ext_iff.mp (some.inj entry)
    exact absurd absent present
  rename_i address mp
  rw [if_pos succeeds, ite_none_right_eq_some] at closes
  obtain ⟨mounted, closes⟩ := closes
  obtain ⟨rfl, -⟩ := Prod.ext_iff.mp (some.inj closes)
  have count : ∀ other, (st.setFile index .unused).opened other +
      (if address = other then 1 else 0) = st.opened other := by
    intro other
    have count := @openFiles_setFile st other index .unused bound
    rw [entry, @if_neg (File.unused.fStatus = _ ∧ _) _ (by simp [File.unused])] at count
    simp only [ready, mp, true_and, Option.some.injEq, Nat.add_zero] at count
    simp only [opened]
    rw [← count]
    exact Nat.add_right_comm ..
  refine @Accounts.change _ _ address (· - 1) accounts rfl (mpAt_isSome.mp mounted) ?_ ?_ ?_ ?_ ?_
  · intro other different
    have one := count other
    rw [if_neg (Ne.symm different)] at one
    exact one
  · have one := count address
    rw [if_pos rfl] at one
    rw [← one, BitVec.ofNat_add]
    exact BitVec.add_sub_cancel ..
  · exact accounts.dirNum
  · exact accounts.dirs
  · exact (length_set ..).trans accounts.files

theorem Accounts.opendir (path : Option CString)
    (memory : Option Address) (lock : Bool) (result : Int) :
    (st.opendir path memory lock result).1.Accounts := by
  rw [State.opendir.eq_def]
  split
  case h_2 => exact accounts
  split
  · exact accounts
  split
  · exact accounts
  rename_i room
  split
  · exact accounts
  rename_i mp found
  split
  · exact accounts
  split
  · exact accounts
  split
  case isFalse => exact accounts
  have fewer : st.dirs.length < maxOpenDirs.toNat := by
    have dirNum := accounts.dirNum
    have dirs := accounts.dirs
    rw [dirNum, ge_iff_le, BitVec.le_def, BitVec.toNat_ofNat] at room
    omega
  refine @Accounts.change _ _ mp.address (· + 1) accounts rfl ?_ ?_ ?_ ?_ fewer accounts.files
  · exact mem_map_of_mem (vfsMpFind_mem found)
  · intro other different
    simp only [opened, openDirs, countP_cons]
    rw [if_neg (by simpa using Ne.symm different)]
    rfl
  · simp only [opened, openDirs, countP_cons]
    exact (BitVec.ofNat_add _ 1).symm
  · rw [accounts.dirNum]
    exact (BitVec.ofNat_add ..).symm

theorem Accounts.closedir {handle : Address} {dir : Dir} {lock : Bool}
    {result ret : Int} (meets : ClosesSucceed st (.closedir (some handle) lock result))
    (found : st.dirAt handle = some dir)
    (closes : st.closedir dir lock result = some (next, ret)) : next.Accounts := by
  rw [State.closedir] at closes
  rw [ClosesSucceed, bind_some, found] at meets
  have member : dir ∈ st.dirs := mem_of_find?_eq_some found
  cases lock with
  | false =>
    obtain ⟨rfl, -⟩ := Prod.ext_iff.mp (some.inj closes)
    exact accounts
  | true =>
    rw [if_neg (by simp)] at closes
    obtain ⟨callback, rfl⟩ := meets rfl
    split at closes
    · exact absurd closes nofun
    rename_i mp looks
    rw [looks, bind_some] at callback
    have succeeds : st.closedirResult mp 0 = 0 := by
      rw [closedirResult]
      cases type : st.mFsOf mp with
      | none => simp [type] at callback
      | some mFs =>
        rw [type, any_some] at callback
        dsimp only
        rw [if_pos callback]
    rw [if_pos succeeds] at closes
    obtain ⟨rfl, -⟩ := Prod.ext_iff.mp (some.inj closes)
    have count : ∀ other, (st.dirs.erase dir).countP (fun dir => dir.dMp = other) +
        (if dir.dMp = other then 1 else 0) = st.openDirs other := by
      intro other
      rw [openDirs, (perm_cons_erase member).countP_eq, countP_cons]
      simp
    have length := length_erase_of_mem member
    have positive := length_pos_of_mem member
    refine @Accounts.change _ _ dir.dMp (· - 1) accounts rfl
      (mpAt_isSome.mp (Option.isSome_of_eq_some looks)) ?_ ?_ ?_ ?_ accounts.files
    · intro other different
      have one := count other
      rw [if_neg (Ne.symm different)] at one
      exact congrArg (st.openFiles other + ·) one
    · have one := count dir.dMp
      rw [if_pos rfl] at one
      rw [opened, ← one, ← Nat.add_assoc, BitVec.ofNat_add]
      exact BitVec.add_sub_cancel ..
    · show st.dirNum - 1 = BitVec.ofNat 32 (st.dirs.erase dir).length
      rw [accounts.dirNum, length, show st.dirs.length = st.dirs.length - 1 + 1 by omega,
        BitVec.ofNat_add]
      exact BitVec.add_sub_cancel ..
    · exact length ▸ (Nat.sub_le ..).trans accounts.dirs

theorem Accounts.cons {mp : MountPoint}
    (mountPoints : next.mountPoints = mp :: st.mountPoints) (files : next.files = st.files)
    (dirs : next.dirs = st.dirs) (dirNum : next.dirNum = st.dirNum)
    (fresh : mp.address ∉ st.mountPoints.map MountPoint.address) (zero : mp.mRefs = 0) :
    next.Accounts := by
  have same : next.opened = st.opened := by
    funext address
    rw [opened, openFiles, openDirs, files, dirs]
    rfl
  refine ⟨?_, fun address positive => ?_, fun one member => ?_, ?_, dirs ▸ accounts.dirs,
    files ▸ accounts.files⟩
  · rw [mountPoints]
    exact nodup_cons.mpr ⟨fresh, accounts.distinct⟩
  · rw [mountPoints]
    exact mem_cons_of_mem _ (accounts.listed address (same ▸ positive))
  · rw [mountPoints] at member
    rw [same]
    rcases mem_cons.mp member with rfl | old
    · have nothing : st.opened one.address = 0 :=
        Nat.eq_zero_of_not_pos fun positive => fresh (accounts.listed _ positive)
      rw [zero, nothing]
      rfl
    · exact accounts.refs one old
  · rw [dirNum, dirs]
    exact accounts.dirNum

theorem Accounts.congr (mountPoints : next.mountPoints = st.mountPoints)
    (files : next.files = st.files) (dirs : next.dirs = st.dirs)
    (dirNum : next.dirNum = st.dirNum) : next.Accounts := by
  obtain ⟨fsMaps, _, _, _, _⟩ := next
  obtain rfl := mountPoints
  obtain rfl := files
  obtain rfl := dirs
  obtain rfl := dirNum
  exact ⟨accounts.distinct, accounts.listed, accounts.refs, accounts.dirNum, accounts.dirs,
    accounts.files⟩

end

/-- What `VfsMountPointInit` does: at most a reference to the file system type changes, and a new
mount point has the address that the allocator gave. -/
theorem of_vfsMountPointInit {source : Option CString} {target : CString}
    {fsType : Option CString} {mountflags : BitVec 32} {memory : Option Address} :
    (∃ mFs, (st.vfsMountPointInit source target fsType mountflags memory).1 =
        st.changeFsRefs mFs (· + 1) ∧
      ∀ mp ∈ (st.vfsMountPointInit source target fsType mountflags memory).2,
        mp.mFs = mFs ∧ mFs ∈ st.fsMaps.map FsMap.address ∧ memory = some mp.address ∧
          mp.mRefs = 0) ∨
    st.vfsMountPointInit source target fsType mountflags memory = (st, none) := by
  rw [vfsMountPointInit]
  split
  · exact .inr rfl
  split
  · exact .inr rfl
  rename_i mFs found
  split
  case isFalse => exact .inr rfl
  split
  · exact .inr rfl
  refine .inl ⟨mFs.address, ?_⟩
  split
  · exact ⟨rfl, nofun⟩
  split
  · exact ⟨rfl, nofun⟩
  refine ⟨rfl, fun mp made => ?_⟩
  obtain rfl := some.inj (mem_def.mp made)
  exact ⟨rfl, mem_map_of_mem (mem_of_find?_eq_some found), rfl, rfl⟩

theorem Accounts.mount (accounts : st.Accounts) {memory : Option Address}
    (fresh : ∀ address ∈ memory, st.Fresh address) (source target fsType : Option CString)
    (mountflags : BitVec 32) (result : Int) :
    (st.mount source target fsType mountflags memory result).1.Accounts := by
  rw [State.mount]
  split
  · exact accounts
  rename_i path _
  split
  · exact accounts
  rcases @of_vfsMountPointInit st source path fsType mountflags memory with
    ⟨mFs, state, made⟩ | failed
  · split
    · rename_i state' none
      rw [none] at state
      obtain rfl : state' = _ := state
      exact accounts.congr rfl rfl rfl rfl
    · rename_i state' mp some
      rw [some] at state made
      obtain ⟨-, -, address, zero⟩ := made mp rfl
      obtain rfl : state' = _ := state
      split
      · exact accounts.congr rfl rfl rfl rfl
      · exact accounts.cons rfl rfl rfl rfl (fresh _ address).2.2.1 zero
  · rw [failed]
    exact accounts

theorem Accounts.refs_toNat (accounts : st.Accounts) {mp : MountPoint}
    (member : mp ∈ st.mountPoints) : mp.mRefs.toNat = st.opened mp.address := by
  have files : st.openFiles mp.address ≤ nrOpenDefault := accounts.files ▸ countP_le_length
  have dirs : st.openDirs mp.address ≤ maxOpenDirs.toNat :=
    countP_le_length.trans accounts.dirs
  rw [accounts.refs mp member, BitVec.toNat_ofNat, Nat.mod_eq_of_lt]
  simp only [nrOpenDefault, configNfileDescriptors, minStartFd, maxOpenDirs, BitVec.reduceToNat,
    opened] at *
  omega

theorem Accounts.umount (accounts : st.Accounts) (second : Bool) (target : Option CString)
    (result : Int) : (st.umount second target result).1.Accounts := by
  rw [State.umount]
  split
  · exact accounts
  split
  · exact accounts
  rename_i mp found
  split
  · exact accounts
  rename_i unreferenced
  split
  · exact accounts
  split
  · exact accounts
  split
  · exact accounts
  have member := vfsMpFind_mem found
  obtain ⟨one, front, back, -, same, split, erased⟩ :=
    exists_of_eraseP (p := fun one => one.address = mp.address) member (by simp)
  rw [decide_eq_true_eq] at same
  have nothing : ¬0 < st.opened mp.address := by
    rw [← accounts.refs_toNat member, not_not.mp unreferenced]
    exact Nat.lt_irrefl 0
  have sublist : List.Sublist (front ++ back) st.mountPoints := by
    rw [split]
    simp
  refine ⟨?_, fun address positive => ?_, fun other inside => ?_, accounts.dirNum, accounts.dirs,
    accounts.files⟩
  · show ((List.eraseP _ st.mountPoints).map _).Nodup
    rw [erased]
    exact accounts.distinct.sublist (sublist.map _)
  · have inside := accounts.listed address positive
    have different : address ≠ one.address := by
      rintro rfl
      exact nothing (same ▸ positive)
    show address ∈ (List.eraseP _ st.mountPoints).map _
    rw [split] at inside
    rw [erased]
    simpa [different] using inside
  · exact accounts.refs other (sublist.subset (erased ▸ inside))

theorem Accounts.register (accounts : st.Accounts) (fsType : CString) (fsMops : Option MountOps)
    (fsFops : Option FileOps) (memory : Option Address) (nameMemory : Bool) :
    (st.losFsRegister fsType fsMops fsFops memory nameMemory).1.Accounts := by
  rw [losFsRegister.eq_def]
  split
  · exact accounts
  split
  · split
    · exact accounts.congr rfl rfl rfl rfl
    · exact accounts
  · exact accounts

theorem fresh_of_all {memory : Option Address}
    (all : (memory.all fun address => st.Fresh address) = true) :
    ∀ address ∈ memory, st.Fresh address := by
  cases memory with
  | none => exact nofun
  | some one =>
    intro address given
    obtain rfl := some.inj (mem_def.mp given)
    exact of_decide_eq_true all

theorem Accounts.step {call : Call} (accounts : st.Accounts) (meets : ClosesSucceed st call)
    (result : st.step call = some next) : next.Accounts := by
  cases call with
  | register fsType fsMops fsFops memory nameMemory =>
    rw [State.step, ite_none_right_eq_some] at result
    exact some.inj result.2 ▸ accounts.register fsType fsMops fsFops memory nameMemory
  | mount source target fsType mountflags memory ret =>
    rw [State.step, ite_none_right_eq_some] at result
    exact some.inj result.2 ▸
      accounts.mount (fresh_of_all result.1) source target fsType mountflags ret
  | umount second target ret =>
    exact some.inj result ▸ accounts.umount second target ret
  | openFile path flags lock memory ret =>
    exact some.inj result ▸ accounts.vfsOpen path flags lock memory ret
  | closeFile fd lock ret =>
    obtain ⟨⟨next, _⟩, closes, rfl⟩ := map_eq_some_iff.mp result
    exact accounts.vfsClose meets closes
  | opendir path memory lock ret =>
    rw [State.step, ite_none_right_eq_some] at result
    exact some.inj result.2 ▸ accounts.opendir path memory lock ret
  | closedir handle lock ret =>
    cases handle with
    | none => exact some.inj result ▸ accounts
    | some handle =>
      obtain ⟨dir, found, result⟩ := Option.bind_eq_some_iff.mp result
      obtain ⟨⟨next, _⟩, closes, rfl⟩ := map_eq_some_iff.mp result
      exact accounts.closedir meets found closes

theorem Accounts.refsInOrder (accounts : st.Accounts) : st.RefsInOrder := by
  refine ⟨fun mp member => accounts.refs_toNat member, ?_, ?_⟩
  · have few := accounts.dirs
    rw [accounts.dirNum, BitVec.toNat_ofNat, Nat.mod_eq_of_lt]
    simp only [maxOpenDirs, BitVec.reduceToNat] at few
    omega
  · intro second target path mp mFs result checked found type callback
    have refs := accounts.refs_toNat (vfsMpFind_mem found)
    rw [State.umount, checked]
    dsimp only
    rw [found]
    dsimp only
    rw [type]
    dsimp only
    by_cases free : mp.mRefs = 0
    · rw [if_neg (not_not.mpr free), if_neg (by simp [callback])]
      have nothing : st.opened mp.address = 0 := by rw [← refs, free]; rfl
      by_cases succeeds : result = 0
      · rw [if_neg (not_not.mpr succeeds)]
        exact iff_of_true rfl ⟨succeeds, nothing⟩
      · rw [if_pos succeeds]
        exact iff_of_false losNok_ne_losOk fun both => succeeds both.1
    · rw [if_pos free]
      refine iff_of_false losNok_ne_losOk fun both => free ?_
      rw [both.2] at refs
      exact BitVec.eq_of_toNat_eq refs

end State

theorem Initial.accounts {st : State} (initial : Initial st) : st.Accounts := by
  obtain rfl := initial
  have nothing : ∀ address, State.opened
      ⟨[], [], List.replicate nrOpenDefault .unused, [], 0⟩ address = 0 := by
    simp [State.opened, State.openFiles, State.openDirs, countP_replicate, File.unused]
  refine ⟨nodup_nil, fun address positive => ?_, nofun, rfl, Nat.zero_le _, ?_⟩
  · rw [nothing address] at positive
    exact absurd positive (Nat.lt_irrefl 0)
  · rw [length_replicate]

/-- The references of the mount points are in order in every run in which closing succeeds. -/
theorem refs_in_order {st : State} (reached : Reachable State.step ClosesSucceed Initial st) :
    st.RefsInOrder := by
  have accounts : st.Accounts := reached.invariant (fun _ initial => initial.accounts)
      fun _ _ _ _ accounts meets result => accounts.step meets result
  exact accounts.refsInOrder

def bootState : State :=
  ⟨[], [], List.replicate nrOpenDefault .unused, [], 0⟩

/-- The driver of the sample runs. -/
def registerLittlefs : Call :=
  .register "littlefs".toList (some ⟨true, true, false⟩) (some ⟨true, true, true, true⟩)
    (some 0x1000) true

/-- A file system is mounted, a file and a directory are opened and closed on it, an open fails, and
it is unmounted. -/
def vfsRun : List Call :=
  [registerLittlefs,
    .mount none (some "/data".toList) (some "littlefs".toList) 0 (some 0x2000) 0,
    .openFile (some "/data/a".toList) 0x42 true true 0,
    .openFile (some "/data/b".toList) 0 true true (-5),
    .opendir (some "/data".toList) (some 0x3000) true 0,
    .umount false (some "/data".toList) 0, .closeFile 3 true 0,
    .closedir (some 0x3000) true 0, .closeFile 3 true 0, .umount false (some "/data".toList) 0]

theorem refs_in_order_sample : ∃ st,
    execute State.step (fun st call => decide (ClosesSucceed st call)) bootState vfsRun =
      some st ∧ st.RefsInOrder := by
  have runs : (execute State.step (fun st call => decide (ClosesSucceed st call)) bootState
      vfsRun).isSome = true := by decide +kernel
  obtain ⟨st, result⟩ := Option.isSome_iff_exists.mp runs
  exact ⟨st, result, refs_in_order
    (.of_execute (fun _ _ => of_decide_eq_true) _ (.start rfl) result)⟩

/-- A file whose driver fails to close it keeps its reference. -/
def failingClose : List Call :=
  [registerLittlefs,
    .mount none (some "/data".toList) (some "littlefs".toList) 0 (some 0x2000) 0,
    .openFile (some "/data/a".toList) 0 true true 0, .closeFile 3 true (-5)]

theorem refs_out_of_order : ¬∀ st,
    Reachable State.step (fun _ _ => True) Initial st → st.RefsInOrder := by
  intro all
  have runs : (execute State.step (fun _ _ => true) bootState failingClose).map (fun st =>
      st.mountPoints.all fun mp => mp.mRefs.toNat = st.opened mp.address) = some false := by
    decide +kernel
  obtain ⟨st, result, wrong⟩ := map_eq_some_iff.mp runs
  have order := all st
    (.of_execute (fun _ _ _ => trivial) _ (.start (rfl : Initial bootState)) result)
  refine absurd wrong (Bool.not_eq_false _ |>.mpr (List.all_eq_true.mpr fun mp member => ?_))
  exact decide_eq_true (order.refs mp member)

/-! ### The references of the file system types -/

namespace State

variable {st next : State} {address : Address}

/-- What every state of a run keeps of the file system types. -/
structure FsAccounts (st : State) : Prop where
  distinct : (st.mountPoints.map MountPoint.address).Nodup
  nonNull : ∀ mp ∈ st.mountPoints, mp.address ≠ 0
  registered : (st.fsMaps.map FsMap.address).Nodup
  types : ∀ mp ∈ st.mountPoints, mp.mFs ∈ st.fsMaps.map FsMap.address
  refs : ∀ fs ∈ st.fsMaps, fs.fsRefs = BitVec.ofNat 32 (st.mounted fs.address)

@[simp] theorem addresses_changeFsRefs (change : BitVec 32 → BitVec 32) :
    (st.changeFsRefs address change).fsMaps.map FsMap.address = st.fsMaps.map FsMap.address := by
  rw [changeFsRefs, map_map]
  refine map_congr_left fun fs _ => ?_
  dsimp only [Function.comp_apply]
  split <;> rfl

theorem mounted_eq : st.mounted address =
    (st.mountPoints.map MountPoint.mFs).countP fun mFs => mFs = address := by
  rw [countP_map]
  rfl

theorem types_changeRefs (change : BitVec 32 → BitVec 32) :
    (st.changeRefs address change).mountPoints.map MountPoint.mFs =
      st.mountPoints.map MountPoint.mFs := by
  rw [changeRefs, map_map]
  refine map_congr_left fun mp _ => ?_
  dsimp only [Function.comp_apply]
  split <;> rfl

theorem FsAccounts.mounted_lt (accounts : st.FsAccounts) : st.mounted address < 2 ^ 32 := by
  have nodup : ((0 :: st.mountPoints.map MountPoint.address).map BitVec.toFin).Nodup := by
    refine List.Nodup.map (fun _ _ => BitVec.eq_of_toFin_eq) (nodup_cons.mpr
      ⟨fun member => ?_, accounts.distinct⟩)
    obtain ⟨mp, inside, zero⟩ := mem_map.mp member
    exact accounts.nonNull mp inside zero
  have bound := nodup.length_le_card
  have few : st.mounted address ≤ st.mountPoints.length := countP_le_length
  rw [length_map, length_cons, length_map, Fintype.card_fin] at bound
  omega

/-- The files and the directories do not matter to the accounts of the types, and neither do the
references of the mount points. -/
theorem FsAccounts.congr (accounts : st.FsAccounts) (fsMaps : next.fsMaps = st.fsMaps)
    (addresses : next.mountPoints.map MountPoint.address = st.mountPoints.map MountPoint.address)
    (types : next.mountPoints.map MountPoint.mFs = st.mountPoints.map MountPoint.mFs) :
    next.FsAccounts := by
  refine ⟨addresses ▸ accounts.distinct, fun mp member => ?_, fsMaps ▸ accounts.registered,
    fun mp member => ?_, fun fs member => ?_⟩
  · have inside := mem_map_of_mem (f := MountPoint.address) member
    rw [addresses] at inside
    obtain ⟨old, inside, same⟩ := mem_map.mp inside
    exact same ▸ accounts.nonNull old inside
  · have inside := mem_map_of_mem (f := MountPoint.mFs) member
    rw [types] at inside
    obtain ⟨old, inside, same⟩ := mem_map.mp inside
    rw [fsMaps, ← same]
    exact accounts.types old inside
  · rw [fsMaps] at member
    rw [mounted_eq, types, ← mounted_eq]
    exact accounts.refs fs member

theorem FsAccounts.congrRefs (accounts : st.FsAccounts) (address : Address)
    (change : BitVec 32 → BitVec 32) (fsMaps : next.fsMaps = st.fsMaps)
    (mountPoints : next.mountPoints = (st.changeRefs address change).mountPoints) :
    next.FsAccounts :=
  accounts.congr fsMaps (mountPoints ▸ addresses_changeRefs change)
    (mountPoints ▸ types_changeRefs change)

theorem FsAccounts.change {change : BitVec 32 → BitVec 32} (accounts : st.FsAccounts)
    (fsMaps : next.fsMaps = (st.changeFsRefs address change).fsMaps)
    (distinct : (next.mountPoints.map MountPoint.address).Nodup)
    (nonNull : ∀ mp ∈ next.mountPoints, mp.address ≠ 0)
    (types : ∀ mp ∈ next.mountPoints, mp.mFs ∈ st.fsMaps.map FsMap.address)
    (others : ∀ other, other ≠ address → next.mounted other = st.mounted other)
    (counted : change (BitVec.ofNat 32 (st.mounted address)) =
      BitVec.ofNat 32 (next.mounted address)) : next.FsAccounts := by
  have addresses : next.fsMaps.map FsMap.address = st.fsMaps.map FsMap.address := by
    rw [fsMaps, addresses_changeFsRefs]
  refine ⟨distinct, nonNull, addresses ▸ accounts.registered, addresses ▸ types,
    fun fs member => ?_⟩
  rw [fsMaps] at member
  obtain ⟨old, inside, rfl⟩ := mem_map.mp member
  by_cases same : old.address = address
  · rw [if_pos same]
    rw [accounts.refs old inside, same, counted]
  · rw [if_neg same, others _ same]
    exact accounts.refs old inside

/-- What `mount` does when its driver succeeds, or is not asked: nothing, or a new mount point. -/
def Mounts (st : State) (memory : Option Address) (result : State × Int) : Prop :=
  result.1 = st ∨ ∃ mp : MountPoint,
    result = ({ st.changeFsRefs mp.mFs (· + 1) with mountPoints := mp :: st.mountPoints }, losOk) ∧
      mp.mFs ∈ st.fsMaps.map FsMap.address ∧ memory = some mp.address

/-- What `mount` does when its driver fails: the reference of the type stays. -/
def LosesReference (st : State) (result : State × Int) : Prop :=
  ∃ mFs ∈ st.fsMaps, result = (st.changeFsRefs mFs.address (· + 1), losNok)

theorem strcpyS_of_vfsMountPathCheck {target : Option CString} {path : CString}
    (checked : vfsMountPathCheck target = some path) : strcpyS (path.length + 1) = true := by
  obtain ⟨-, short⟩ := Option.filter_eq_some_iff.mp checked
  have short := (of_decide_eq_true short).2
  simp only [pathMax] at short
  rw [strcpyS, Bool.and_eq_true, decide_eq_true_eq, decide_eq_true_eq, securecStringMaxLen]
  omega

theorem mount_cases {source target fsType : Option CString} {mountflags : BitVec 32}
    {memory : Option Address} {result : Int} :
    DriverMounts st (.mount source target fsType mountflags memory result) ∧
        st.Mounts memory (st.mount source target fsType mountflags memory result) ∨
      ¬DriverMounts st (.mount source target fsType mountflags memory result) ∧
        st.LosesReference (st.mount source target fsType mountflags memory result) := by
  rw [DriverMounts.eq_def, State.mount]
  dsimp only
  cases checked : vfsMountPathCheck target with
  | none => exact .inl ⟨trivial, .inl rfl⟩
  | some path =>
    dsimp only
    by_cases remount : mountflags &&& msRemount = 0
    case neg =>
      rw [if_pos remount]
      exact .inl ⟨fun equal => absurd equal remount, .inl rfl⟩
    rw [if_neg (not_not.mpr remount), vfsMountPointInit]
    cases free : (st.vfsMpFind path).isSome with
    | true =>
      exact .inl ⟨fun _ => nofun, .inl rfl⟩
    | false =>
      rw [@if_neg (false = true) _ (by simp)]
      cases type : st.vfsFsMapGet fsType with
      | none => exact .inl ⟨fun _ _ => nofun, .inl rfl⟩
      | some mFs =>
        have member : mFs ∈ st.fsMaps := mem_of_find?_eq_some type
        dsimp only
        rw [any_some]
        cases callback : mFs.fsMops.mount with
        | false => exact .inl ⟨fun _ _ => nofun, .inl rfl⟩
        | true =>
          rw [if_pos rfl]
          cases memory with
          | none => exact .inl ⟨fun _ _ _ => nofun, .inl rfl⟩
          | some address =>
            dsimp only
            cases long : source.any fun source => !strcpyS (source.length + 1) with
            | true =>
              exact .inr ⟨fun all => absurd (all remount rfl rfl rfl).1 nofun, mFs, member, rfl⟩
            | false =>
              rw [@if_neg (false = true) _ (by simp),
                if_neg (by simp [strcpyS_of_vfsMountPathCheck checked])]
              dsimp only
              by_cases succeeds : result = 0
              · rw [if_neg (not_not.mpr succeeds)]
                exact .inl ⟨fun _ _ _ _ => ⟨rfl, succeeds⟩,
                  .inr ⟨⟨address, mFs.address, path, 0, _⟩, rfl, mem_map_of_mem member, rfl⟩⟩
              · rw [if_pos succeeds]
                exact .inr ⟨fun all => succeeds (all remount rfl rfl rfl).2, mFs, member, rfl⟩

section

variable (accounts : st.FsAccounts)
include accounts

theorem FsAccounts.cons {mp : MountPoint} (fresh : st.Fresh mp.address)
    (type : mp.mFs ∈ st.fsMaps.map FsMap.address) : State.FsAccounts
      { st.changeFsRefs mp.mFs (· + 1) with mountPoints := mp :: st.mountPoints } := by
  refine @FsAccounts.change _ _ mp.mFs (· + 1) accounts rfl ?_ ?_ ?_ ?_ ?_
  · exact nodup_cons.mpr ⟨fresh.2.2.1, accounts.distinct⟩
  · intro one member
    rcases mem_cons.mp member with rfl | old
    · exact fresh.1
    · exact accounts.nonNull one old
  · intro one member
    rcases mem_cons.mp member with rfl | old
    · exact type
    · exact accounts.types one old
  · intro other different
    exact (countP_cons ..).trans (by simp [Ne.symm different, mounted])
  · refine Eq.trans (BitVec.ofNat_add ..).symm (congrArg (BitVec.ofNat 32) ?_)
    exact ((countP_cons ..).trans (by simp [mounted])).symm

theorem FsAccounts.mount {source target fsType : Option CString}
    {mountflags : BitVec 32} {memory : Option Address} {result : Int}
    (fresh : ∀ address ∈ memory, st.Fresh address)
    (meets : DriverMounts st (.mount source target fsType mountflags memory result)) :
    (st.mount source target fsType mountflags memory result).1.FsAccounts := by
  rcases @mount_cases st source target fsType mountflags memory result with
    ⟨-, same | ⟨mp, mounts, type, address⟩⟩ | ⟨fails, -⟩
  · rw [same]
    exact accounts
  · rw [mounts]
    exact accounts.cons (fresh _ address) type
  · exact absurd meets fails

theorem FsAccounts.umount (second : Bool) (target : Option CString)
    (result : Int) : (st.umount second target result).1.FsAccounts := by
  rw [State.umount]
  split
  · exact accounts
  split
  · exact accounts
  rename_i mp found
  split
  · exact accounts
  split
  · exact accounts
  split
  · exact accounts
  split
  · exact accounts
  have member := vfsMpFind_mem found
  obtain ⟨one, front, back, -, same, split, erased⟩ :=
    exists_of_eraseP (p := fun one => one.address = mp.address) member (by simp)
  rw [decide_eq_true_eq] at same
  obtain rfl : one = mp := inj_on_of_nodup_map accounts.distinct (split ▸ by simp) member same
  have sublist : List.Sublist (front ++ back) st.mountPoints := by
    rw [split]
    simp
  have count : ∀ address, (front ++ back).countP (fun mp => mp.mFs = address) +
      (if one.mFs = address then 1 else 0) = st.mounted address := by
    intro address
    rw [mounted, split, countP_append, countP_append, countP_cons]
    simp only [decide_eq_true_eq]
    omega
  have points : (st.mpDeleteFromList one).mountPoints = front ++ back := erased
  refine @FsAccounts.change _ _ one.mFs (· - 1) accounts rfl ?_ ?_ ?_ ?_ ?_
  · show ((st.mpDeleteFromList one).mountPoints.map _).Nodup
    rw [points]
    exact accounts.distinct.sublist (sublist.map _)
  · exact fun other inside => accounts.nonNull other (sublist.subset (points ▸ inside))
  · exact fun other inside => accounts.types other (sublist.subset (points ▸ inside))
  · intro other different
    have one := count other
    rw [if_neg (Ne.symm different), ← points] at one
    exact one
  · have left := count one.mFs
    rw [if_pos rfl, ← points] at left
    rw [← left, BitVec.ofNat_add]
    exact BitVec.add_sub_cancel ..

theorem FsAccounts.register {memory : Option Address}
    (fresh : ∀ address ∈ memory, st.Fresh address) (fsType : CString)
    (fsMops : Option MountOps) (fsFops : Option FileOps) (nameMemory : Bool) :
    (st.losFsRegister fsType fsMops fsFops memory nameMemory).1.FsAccounts := by
  rw [losFsRegister.eq_def]
  split
  · exact accounts
  split
  case h_2 => exact accounts
  split
  case isFalse => exact accounts
  rename_i address _
  have absent := (fresh address rfl).2.1
  refine ⟨accounts.distinct, accounts.nonNull, ?_, fun mp member => ?_, fun fs member => ?_⟩
  · exact nodup_cons.mpr ⟨absent, accounts.registered⟩
  · exact mem_cons_of_mem _ (accounts.types mp member)
  · rcases mem_cons.mp member with rfl | old
    · have nothing : st.mounted address = 0 := countP_eq_zero.mpr fun mp member same =>
          absent (of_decide_eq_true same ▸ accounts.types mp member)
      exact (congrArg (BitVec.ofNat 32) nothing).symm
    · exact accounts.refs fs old

theorem FsAccounts.step {call : Call} (meets : DriverMounts st call)
    (result : st.step call = some next) : next.FsAccounts := by
  cases call with
  | register fsType fsMops fsFops memory nameMemory =>
    rw [State.step, ite_none_right_eq_some] at result
    exact some.inj result.2 ▸
      accounts.register (fresh_of_all result.1) fsType fsMops fsFops nameMemory
  | mount source target fsType mountflags memory ret =>
    rw [State.step, ite_none_right_eq_some] at result
    exact some.inj result.2 ▸ accounts.mount (fresh_of_all result.1) meets
  | umount second target ret =>
    exact some.inj result ▸ accounts.umount second target ret
  | openFile path flags lock memory ret =>
    obtain rfl := some.inj result
    rw [State.vfsOpen]
    repeat' split
    all_goals first
      | exact accounts
      | exact accounts.congr rfl rfl rfl
      | exact accounts.congrRefs _ (· + 1) rfl rfl
  | closeFile fd lock ret =>
    obtain ⟨⟨next, _⟩, closes, rfl⟩ := map_eq_some_iff.mp result
    rw [State.vfsClose] at closes
    split at closes
    · obtain ⟨rfl, -⟩ := Prod.ext_iff.mp (some.inj closes)
      exact accounts
    split at closes
    · obtain ⟨rfl, -⟩ := Prod.ext_iff.mp (some.inj closes)
      exact accounts.congr rfl rfl rfl
    split at closes
    · obtain ⟨-, closes⟩ := ite_none_right_eq_some.mp closes
      obtain ⟨rfl, -⟩ := Prod.ext_iff.mp (some.inj closes)
      exact accounts.congrRefs _ (· - 1) rfl rfl
    · obtain ⟨rfl, -⟩ := Prod.ext_iff.mp (some.inj closes)
      exact accounts.congr rfl rfl rfl
  | opendir path memory lock ret =>
    rw [State.step, ite_none_right_eq_some] at result
    obtain rfl := some.inj result.2
    rw [State.opendir.eq_def]
    repeat' split
    all_goals first
      | exact accounts
      | exact accounts.congrRefs _ (· + 1) rfl rfl
  | closedir handle lock ret =>
    cases handle with
    | none => exact some.inj result ▸ accounts
    | some handle =>
      obtain ⟨dir, -, result⟩ := Option.bind_eq_some_iff.mp result
      obtain ⟨⟨next, _⟩, closes, rfl⟩ := map_eq_some_iff.mp result
      rw [State.closedir] at closes
      split at closes
      · obtain ⟨rfl, -⟩ := Prod.ext_iff.mp (some.inj closes)
        exact accounts
      split at closes
      · exact absurd closes nofun
      dsimp only at closes
      split at closes
      · obtain ⟨rfl, -⟩ := Prod.ext_iff.mp (some.inj closes)
        exact accounts.congrRefs _ (· - 1) rfl rfl
      · obtain ⟨rfl, -⟩ := Prod.ext_iff.mp (some.inj closes)
        exact accounts.congr rfl rfl rfl

end

/-- A mount that fails leaves the state as it was if and only if it is not the driver that fails. -/
theorem mount_unchanged_iff {source target fsType : Option CString} {mountflags : BitVec 32}
    {memory : Option Address} {result : Int}
    (fails : (st.mount source target fsType mountflags memory result).2 ≠ losOk) :
    (st.mount source target fsType mountflags memory result).1 = st ↔
      DriverMounts st (.mount source target fsType mountflags memory result) := by
  rcases @mount_cases st source target fsType mountflags memory result with
    ⟨meets, same | ⟨mp, mounts, -⟩⟩ | ⟨misses, mFs, member, loses⟩
  · exact iff_of_true same meets
  · exact absurd (congrArg Prod.snd mounts) fails
  · refine iff_of_false (fun same => ?_) misses
    have maps : (st.changeFsRefs mFs.address (· + 1)).fsMaps = st.fsMaps := by
      rw [loses] at same
      exact congrArg fsMaps same
    have fixed := map_inj_left.mp (maps.trans (map_id _).symm) mFs member
    rw [if_pos rfl] at fixed
    have more : mFs.fsRefs + 1 = mFs.fsRefs := congrArg FsMap.fsRefs fixed
    bv_omega

end State

theorem Initial.fsAccounts {st : State} (initial : Initial st) : st.FsAccounts := by
  obtain rfl := initial
  exact ⟨nodup_nil, nofun, nodup_nil, nofun, nofun⟩

/-- The references of the types are in order in every run in which the drivers mount. -/
theorem mounts_in_order {st : State} (reached : Reachable State.step DriverMounts Initial st) :
    st.MountsInOrder DriverMounts := by
  have accounts : st.FsAccounts := reached.invariant (fun _ initial => initial.fsAccounts)
      fun _ _ _ _ accounts meets result => accounts.step meets result
  refine ⟨fun fs member => ?_, fun source target fsType mountflags memory result meets fails =>
    (State.mount_unchanged_iff fails).mpr meets⟩
  rw [accounts.refs fs member, BitVec.toNat_ofNat, Nat.mod_eq_of_lt accounts.mounted_lt]

/-- A mount of an unknown type and one of a target that is mounted fail, a close fails, and the file
system is unmounted and mounted again. -/
def mountRun : List Call :=
  [registerLittlefs,
    .mount none (some "/data".toList) (some "vfat".toList) 0 (some 0x2000) 0,
    .mount none (some "/data".toList) (some "littlefs".toList) 0 (some 0x2000) 0,
    .mount none (some "/data/b".toList) (some "littlefs".toList) 0 (some 0x3000) 0,
    .openFile (some "/data/a".toList) 0x42 true true 0, .umount false (some "/data".toList) 0,
    .closeFile 3 true 0, .umount false (some "/data".toList) 0,
    .mount none (some "/data".toList) (some "littlefs".toList) 1 (some 0x2000) 0]

theorem mounts_in_order_sample : ∃ st,
    execute State.step (fun st call => decide (DriverMounts st call)) bootState mountRun =
      some st ∧ st.MountsInOrder DriverMounts := by
  have runs : (execute State.step (fun st call => decide (DriverMounts st call)) bootState
      mountRun).isSome = true := by decide +kernel
  obtain ⟨st, result⟩ := Option.isSome_iff_exists.mp runs
  exact ⟨st, result, mounts_in_order
    (.of_execute (fun _ _ => of_decide_eq_true) _ (.start rfl) result)⟩

def failingMount : Call :=
  .mount none (some "/data".toList) (some "littlefs".toList) 0 (some 0x2000) (-5)

/-- A mount that fails in the driver keeps the reference of the type. -/
theorem mounts_out_of_order : ¬∀ st,
    Reachable State.step (fun _ _ => True) Initial st → st.MountsInOrder fun _ _ => True := by
  intro all
  have runs : (execute State.step (fun _ _ => true) bootState
      [registerLittlefs, failingMount]).map (fun st =>
        st.fsMaps.all fun fs => fs.fsRefs.toNat = st.mounted fs.address) = some false := by
    decide +kernel
  obtain ⟨st, result, wrong⟩ := map_eq_some_iff.mp runs
  have order := all st
    (.of_execute (fun _ _ _ => trivial) _ (.start (rfl : Initial bootState)) result)
  refine absurd wrong (Bool.not_eq_false _ |>.mpr (List.all_eq_true.mpr fun fs member => ?_))
  exact decide_eq_true (order.refs fs member)

end TowerSafe.Vfs
