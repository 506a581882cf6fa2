import Omoikane.Base.Bytes
import Omoikane.Base.Directories
import Omoikane.Js.StorageOrigin

/-!
# The origin private file system

The part of the storage manager behind `navigator.storage.getDirectory`.  It keeps
a tree of directories and files for each origin.  Where it has a path on the disk,
every change of a tree is followed by a save of all of them, and a save that fails
takes the change back.  An operation returns the state it leaves along with its
result, so that one that fails after it has changed something is seen to.
-/

namespace Omoikane.Js

open Base Base.Directories

structure OpfsFile where
  bytes : Bytes
  modified : Nat
deriving DecidableEq

abbrev OpfsEntry := Entry Text OpfsFile

abbrev OpfsDirectory := Directory Text OpfsFile

inductive OpfsError where
  | invalidName
  | notFound
  | typeMismatch
  | notEmpty
  | quotaExceeded
  | io
  | locked
deriving DecidableEq, Repr

/-- The trees of all origins, under the serialized origin. -/
abbrev OpfsTrees := Text → Option OpfsDirectory

/-- What is on the disk at the path of the trees and at the temporary path beside it. -/
structure OpfsDisk where
  saved : Option Bytes
  temporary : Option Bytes
deriving DecidableEq

/-- The fields of the storage manager's state that the file system uses, with the disk.
Of the map of locks only the keys matter here. -/
structure StorageState where
  quotaBytes : Nat
  opfsPath : Option Text
  opfs : OpfsTrees
  opfsLocks : List (StorageOrigin × List Text)
  disk : OpfsDisk

/-- Which step of a save goes wrong.  A write may stop after some of the bytes. -/
structure SaveFaults where
  toVec : Bool
  createDirAll : Bool
  write : Option Bytes
  rename : Bool

def SaveFaults.none : SaveFaults where
  toVec := false
  createDirAll := false
  write := Option.none
  rename := false

def validateOpfsName (name : Text) : Except OpfsError Unit :=
  if name.isEmpty || name == ['.'] || name == ['.', '.'] || name.contains '/' ||
      name.contains '\\' then .error .invalidName
  else .ok ()

/-- `opfs_directory`, and `opfs_directory_mut`: what is written through the reference that
the latter returns is put back with `replaceAt`. -/
def opfsDirectory : OpfsDirectory → List Text → Except OpfsError OpfsDirectory
  | directory, [] => .ok directory
  | directory, name :: path =>
    match directory.get name with
    | some (.directory next) => opfsDirectory next path
    | some _ => .error .typeMismatch
    | none => .error .notFound

mutual

/-- The usage so far, with that of an entry. -/
def opfsEntryUsage (usage : Nat) : OpfsEntry → Nat
  | .directory value => saturatingAdd usage (opfsDirectoryUsageFrom 0 value)
  | .file value => saturatingAdd usage value.bytes.length
termination_by structural entry => entry

/-- The fold over the entries of a directory. -/
def opfsDirectoryUsageFrom (usage : Nat) : List (Text × OpfsEntry) → Nat
  | [] => usage
  | (name, entry) :: entries =>
    opfsDirectoryUsageFrom (opfsEntryUsage (saturatingAdd usage name.utf8Len) entry) entries
termination_by structural entries => entries

end

def opfsDirectoryUsage (directory : OpfsDirectory) : Nat := opfsDirectoryUsageFrom 0 directory

/-- A directory with entries in it. -/
def isFilled : OpfsEntry → Bool
  | .directory value => !value.isEmpty
  | .file _ => false

namespace StorageState

def opfsPathHasLock (state : StorageState) (origin : StorageOrigin) (path : List Text) : Bool :=
  state.opfsLocks.any fun (lockOrigin, locked) =>
    lockOrigin == origin && decide (path.length ≤ locked.length) &&
      (path.zip locked).all fun (left, right) => left == right

section

-- `toVec` is what the trees are written as
variable (toVec : OpfsTrees → Bytes)

def saveOpfs (faults : SaveFaults) (disk : OpfsDisk) (opfs : OpfsTrees) : Bool × OpfsDisk :=
  if faults.toVec then (false, disk)
  else if faults.createDirAll then (false, disk)
  else
    match faults.write with
    | some partly => (false, { disk with temporary := some partly })
    | none =>
      if faults.rename then (false, { disk with temporary := some (toVec opfs) })
      else (true, { saved := some (toVec opfs), temporary := none })

def persistOpfsOrRestore (faults : SaveFaults) (state : StorageState) (old : OpfsTrees) :
    Except OpfsError Unit × StorageState :=
  match state.opfsPath with
  | none => (.ok (), state)
  | some _ =>
    match saveOpfs toVec faults state.disk state.opfs with
    | (false, disk) => (.error .io, { state with opfs := old, disk })
    | (true, disk) => (.ok (), { state with disk })

def opfsGetHandle (faults : SaveFaults) (state : StorageState) (origin : StorageOrigin)
    (parent : List Text) (name : Text) (directory create : Bool) :
    Except OpfsError Unit × StorageState :=
  match validateOpfsName name with
  | .error error => (.error error, state)
  | .ok () =>
    let old := state.opfs
    let key := origin.serialize
    let root := (state.opfs key).getD []
    let state := { state with opfs := Function.update state.opfs key (some root) }
    match opfsDirectory root parent with
    | .error error => (.error error, state)
    | .ok found =>
      match found.get name, directory with
      | some (.directory _), true => (.ok (), state)
      | some (.file _), false => (.ok (), state)
      | some _, _ => (.error .typeMismatch, state)
      | none, _ =>
        if !create then (.error .notFound, state)
        else
          let entry : OpfsEntry :=
            if directory then .directory [] else .file { bytes := [], modified := 0 }
          let root := replaceAt root parent (found.insert name entry)
          persistOpfsOrRestore toVec faults
            { state with opfs := Function.update state.opfs key (some root) } old

def opfsRoot (faults : SaveFaults) (state : StorageState) (origin : StorageOrigin) :
    Except OpfsError Unit × StorageState :=
  if (state.opfs origin.serialize).isSome then (.ok (), state)
  else
    let old := state.opfs
    persistOpfsOrRestore toVec faults
      { state with opfs := Function.update state.opfs origin.serialize (some []) } old

def opfsWrite (faults : SaveFaults) (state : StorageState) (origin : StorageOrigin)
    (path : List Text) (bytes : Bytes) (modified : Nat) : Except OpfsError Unit × StorageState :=
  let old := state.opfs
  let key := origin.serialize
  match state.opfs key with
  | none => (.error .notFound, state)
  | some root =>
    match path.getLast? with
    | none => (.error .typeMismatch, state)
    | some name =>
      match opfsDirectory root path.dropLast with
      | .error error => (.error error, state)
      | .ok found =>
        match found.get name with
        | some (.file _) =>
          let root := replaceAt root path.dropLast
            (found.insert name (.file { bytes, modified }))
          let state := { state with opfs := Function.update state.opfs key (some root) }
          if opfsDirectoryUsage root > state.quotaBytes then
            (.error .quotaExceeded, { state with opfs := old })
          else persistOpfsOrRestore toVec faults state old
        | some _ => (.error .typeMismatch, state)
        | none => (.error .notFound, state)

def opfsRemove (faults : SaveFaults) (state : StorageState) (origin : StorageOrigin)
    (parent : List Text) (name : Text) (recursive : Bool) :
    Except OpfsError Unit × StorageState :=
  match validateOpfsName name with
  | .error error => (.error error, state)
  | .ok () =>
    if state.opfsPathHasLock origin (parent ++ [name]) then (.error .locked, state)
    else
      let old := state.opfs
      let key := origin.serialize
      match state.opfs key with
      | none => (.error .notFound, state)
      | some root =>
        match opfsDirectory root parent with
        | .error error => (.error error, state)
        | .ok found =>
          match found.get name with
          | none => (.error .notFound, state)
          | some entry =>
            if !recursive && isFilled entry then (.error .notEmpty, state)
            else
              let root := replaceAt root parent (found.remove name)
              persistOpfsOrRestore toVec faults
                { state with opfs := Function.update state.opfs key (some root) } old

def opfsMoveFile (faults : SaveFaults) (state : StorageState) (origin : StorageOrigin)
    (source destinationParent : List Text) (destinationName : Text) :
    Except OpfsError Unit × StorageState :=
  match validateOpfsName destinationName with
  | .error error => (.error error, state)
  | .ok () =>
    if state.opfsPathHasLock origin source ||
        state.opfsPathHasLock origin (destinationParent ++ [destinationName]) then
      (.error .locked, state)
    else
      let old := state.opfs
      let key := origin.serialize
      match state.opfs key with
      | none => (.error .notFound, state)
      | some root =>
        match source.getLast? with
        | none => (.error .typeMismatch, state)
        | some sourceName =>
          match opfsDirectory root source.dropLast with
          | .error error => (.error error, state)
          | .ok found =>
            match found.get sourceName with
            | none => (.error .notFound, state)
            | some entry =>
              let root := replaceAt root source.dropLast (found.remove sourceName)
              let state :=
                { state with opfs := Function.update state.opfs key (some root) }
              match entry with
              | .directory _ => (.error .typeMismatch, { state with opfs := old })
              | .file file =>
                match opfsDirectory root destinationParent with
                -- an early return: the file is gone from its source
                | .error error => (.error error, state)
                | .ok destination =>
                  let root := replaceAt root destinationParent
                    (destination.insert destinationName (.file file))
                  persistOpfsOrRestore toVec faults
                    { state with
                      opfs := Function.update state.opfs key (some root) } old

end

end StorageState

/-- A call of one of the operations. -/
inductive OpfsCall where
  | getHandle (origin : StorageOrigin) (parent : List Text) (name : Text) (directory create : Bool)
  | root (origin : StorageOrigin)
  | write (origin : StorageOrigin) (path : List Text) (bytes : Bytes) (modified : Nat)
  | remove (origin : StorageOrigin) (parent : List Text) (name : Text) (recursive : Bool)
  | moveFile (origin : StorageOrigin) (source destinationParent : List Text)
      (destinationName : Text)

/-- What a call does, given what goes wrong with its save. -/
def StorageState.perform (toVec : OpfsTrees → Bytes) (faults : SaveFaults) (state : StorageState) :
    OpfsCall → Except OpfsError Unit × StorageState
  | .getHandle origin parent name directory create =>
    state.opfsGetHandle toVec faults origin parent name directory create
  | .root origin => state.opfsRoot toVec faults origin
  | .write origin path bytes modified => state.opfsWrite toVec faults origin path bytes modified
  | .remove origin parent name recursive =>
    state.opfsRemove toVec faults origin parent name recursive
  | .moveFile origin source destinationParent destinationName =>
    state.opfsMoveFile toVec faults origin source destinationParent destinationName

end Omoikane.Js
