import Omoikane.Js.Opfs

/-!
# Which operations of the file system are atomic

An operation is atomic where it leaves all trees as they were when it fails, and
a move that succeeds changes nothing but the source and the destination.  Writing
and removing are atomic.  Getting a handle is not in an origin without a tree, and
a move is not where there is no directory to move to or a directory in its place.
-/

namespace Omoikane.Js

open Base Base.Directories

namespace StorageState

variable {toVec : OpfsTrees → Bytes} {faults : SaveFaults} {state : StorageState}
  {origin : StorageOrigin} {source parent path : List Text} {name : Text} {error : OpfsError}

/-! ## What atomic means -/

/-- The trees are the same in memory and as last saved. -/
def Kept (before after : StorageState) : Prop :=
  after.opfs = before.opfs ∧ after.disk.saved = before.disk.saved

/-- A file moved from its source to its destination, and nothing else changed. -/
structure Moved (before after : OpfsTrees) (key : Text) (source destination : List Text) :
    Prop where
  others : ∀ other, other ≠ key → after other = before other
  moved : ∃ root root' file, before key = some root ∧ after key = some root' ∧
    nodeAt root source = some (.file file) ∧ nodeAt root' destination = some (.file file) ∧
    (source ≠ destination → nodeAt root' source = none) ∧
    (∀ path, path ≠ source → path ≠ destination → nodeAt root' path = nodeAt root path) ∧
    ∀ path, nodeAt root path = some .directory → nodeAt root' path = some .directory

/-- A failed call keeps the trees, and a move does what it says. -/
structure Atomic (toVec : OpfsTrees → Bytes) (state : StorageState) (call : OpfsCall)
    (outcome : Except OpfsError Unit × StorageState) : Prop where
  failed : ∀ error, outcome.1 = .error error → Kept state outcome.2
  moved : ∀ origin source destinationParent destinationName,
    call = .moveFile origin source destinationParent destinationName → outcome.1 = .ok () →
      Moved state.opfs outcome.2.opfs origin.serialize source
        (destinationParent ++ [destinationName]) ∧
      (state.opfsPath.isSome → outcome.2.disk.saved = some (toVec outcome.2.opfs))

/-- The move finds its file: the call is not refused before it takes the file out. -/
def Finds (state : StorageState) (origin : StorageOrigin) (source destinationParent : List Text)
    (destinationName : Text) (root : OpfsDirectory) (file : OpfsFile) : Prop :=
  validateOpfsName destinationName = .ok () ∧ state.opfsPathHasLock origin source = false ∧
    state.opfsPathHasLock origin (destinationParent ++ [destinationName]) = false ∧
    state.opfs origin.serialize = some root ∧ nodeAt root source = some (.file file)

/-- When a call is atomic.  The handle is of an origin with a tree, or one is made in the
root; a file that is moved goes into a directory, and not over one. -/
def Sheltered (state : StorageState) : OpfsCall → Prop
  | .getHandle origin parent name _ create =>
    validateOpfsName name = .ok () →
      (state.opfs origin.serialize).isSome ∨ (parent = [] ∧ create = true)
  | .moveFile origin source destinationParent destinationName => ∀ root file,
      state.Finds origin source destinationParent destinationName root file →
        nodeAt root destinationParent = some .directory ∧
          nodeAt root (destinationParent ++ [destinationName]) ≠ some .directory
  | _ => True

theorem Kept.rfl {state : StorageState} : Kept state state := ⟨Eq.refl _, Eq.refl _⟩

/-! ## Paths and saves -/

theorem opfsDirectory_eq_ok_iff {directory found : OpfsDirectory} :
    opfsDirectory directory path = .ok found ↔ directoryAt directory path = some found := by
  induction path generalizing directory with
  | nil => exact ⟨fun h => by cases h; rfl, fun h => by cases h; rfl⟩
  | cons name path ih =>
    rw [directoryAt_cons]
    unfold opfsDirectory
    cases directory.get name with
    | none => exact ⟨nofun, nofun⟩
    | some entry =>
      cases entry with
      | directory next => exact ih
      | file file => exact ⟨nofun, nofun⟩

/-- A reference is had where a directory stands. -/
theorem nodeAt_eq_directory_iff_ok {directory : OpfsDirectory} :
    nodeAt directory path = some .directory ↔ ∃ found, opfsDirectory directory path = .ok found := by
  simp only [nodeAt_eq_directory_iff, opfsDirectory_eq_ok_iff]

/-- The saved file changes when the last step of the save is done, and then to the trees. -/
theorem saveOpfs_saved (toVec : OpfsTrees → Bytes) (faults : SaveFaults) (disk : OpfsDisk)
    (opfs : OpfsTrees) :
    (saveOpfs toVec faults disk opfs).2.saved =
      if (saveOpfs toVec faults disk opfs).1 then some (toVec opfs) else disk.saved := by
  unfold saveOpfs
  by_cases htoVec : faults.toVec
  · rw [if_pos htoVec]
    rfl
  by_cases hcreate : faults.createDirAll
  · rw [if_neg htoVec, if_pos hcreate]
    rfl
  rw [if_neg htoVec, if_neg hcreate]
  cases faults.write with
  | some partly => rfl
  | none =>
    dsimp only
    by_cases hrename : faults.rename
    · rw [if_pos hrename]
      rfl
    · rw [if_neg hrename]
      rfl

/-- A save takes the change back, or keeps it. -/
theorem persistOpfsOrRestore_cases (toVec : OpfsTrees → Bytes) (faults : SaveFaults)
    (state : StorageState) (old : OpfsTrees) :
    (∃ disk, persistOpfsOrRestore toVec faults state old =
        (.error .io, { state with opfs := old, disk := disk }) ∧ disk.saved = state.disk.saved) ∨
      ∃ disk, persistOpfsOrRestore toVec faults state old = (.ok (), { state with disk := disk }) ∧
        (state.opfsPath.isSome → disk.saved = some (toVec state.opfs)) := by
  unfold persistOpfsOrRestore
  have hsaved := saveOpfs_saved toVec faults state.disk state.opfs
  split
  next hpath =>
    refine .inr ⟨state.disk, rfl, fun h => ?_⟩
    rw [hpath] at h
    cases h
  next =>
      split
      next disk hsave =>
        rw [hsave] at hsaved
        exact .inl ⟨disk, rfl, hsaved⟩
      next disk hsave =>
        rw [hsave] at hsaved
        exact .inr ⟨disk, rfl, fun _ => hsaved⟩

/-- With nothing that goes wrong the change is kept. -/
theorem persistOpfsOrRestore_none (toVec : OpfsTrees → Bytes) (state : StorageState)
    (old : OpfsTrees) :
    (persistOpfsOrRestore toVec .none state old).1 = .ok () ∧
      (persistOpfsOrRestore toVec .none state old).2.opfs = state.opfs := by
  unfold persistOpfsOrRestore
  cases state.opfsPath <;> exact ⟨rfl, rfl⟩

/-! ## Failed calls -/

/-- The outcome of a call that keeps the trees when it fails. -/
def FailsClean (before : StorageState) (outcome : Except OpfsError Unit × StorageState) : Prop :=
  ∀ error, outcome.1 = .error error → Kept before outcome.2

theorem failsClean_of_kept {before after : StorageState} {result : Except OpfsError Unit}
    (h : Kept before after) : FailsClean before (result, after) := fun _ _ => h

/-- What is left to a save that restores is clean. -/
theorem failsClean_persist (toVec : OpfsTrees → Bytes) (faults : SaveFaults)
    (state : StorageState) (opfs : OpfsTrees) :
    FailsClean state (persistOpfsOrRestore toVec faults { state with opfs := opfs } state.opfs) := by
  intro error herror
  rcases persistOpfsOrRestore_cases toVec faults { state with opfs := opfs } state.opfs with
    ⟨disk, heq, hsaved⟩ | ⟨disk, heq, _⟩
  · rw [heq]
    exact ⟨rfl, hsaved⟩
  · rw [heq] at herror
    cases herror

theorem failsClean_opfsRoot (toVec : OpfsTrees → Bytes) (faults : SaveFaults)
    (state : StorageState) (origin : StorageOrigin) :
    FailsClean state (state.opfsRoot toVec faults origin) := by
  unfold opfsRoot
  split
  · exact failsClean_of_kept .rfl
  · exact failsClean_persist _ _ _ _

theorem failsClean_opfsWrite (toVec : OpfsTrees → Bytes) (faults : SaveFaults)
    (state : StorageState) (origin : StorageOrigin) (path : List Text) (bytes : Bytes)
    (modified : Nat) : FailsClean state (state.opfsWrite toVec faults origin path bytes modified) := by
  unfold opfsWrite
  dsimp only
  split
  · exact failsClean_of_kept .rfl
  split
  · exact failsClean_of_kept .rfl
  split
  · exact failsClean_of_kept .rfl
  split
  · split
    · -- the quota is exceeded: the old trees are put back
      exact failsClean_of_kept ⟨rfl, rfl⟩
    · exact failsClean_persist _ _ _ _
  · exact failsClean_of_kept .rfl
  · exact failsClean_of_kept .rfl

theorem failsClean_opfsRemove (toVec : OpfsTrees → Bytes) (faults : SaveFaults)
    (state : StorageState) (origin : StorageOrigin) (parent : List Text) (name : Text)
    (recursive : Bool) :
    FailsClean state (state.opfsRemove toVec faults origin parent name recursive) := by
  unfold opfsRemove
  split
  · exact failsClean_of_kept .rfl
  split
  · exact failsClean_of_kept .rfl
  dsimp only
  split
  · exact failsClean_of_kept .rfl
  split
  · exact failsClean_of_kept .rfl
  split
  · exact failsClean_of_kept .rfl
  split
  · exact failsClean_of_kept .rfl
  · exact failsClean_persist _ _ _ _

/-! ## Handles -/

/-- The tree that a handle is looked up in: a new one where the origin has none. -/
theorem update_root_of_isSome {opfs : OpfsTrees} {key : Text} (h : (opfs key).isSome) :
    Function.update opfs key (some ((opfs key).getD [])) = opfs := by
  obtain ⟨root, hroot⟩ := Option.isSome_iff_exists.mp h
  rw [hroot]
  exact Function.update_eq_self_iff.mpr hroot.symm

theorem failsClean_opfsGetHandle (toVec : OpfsTrees → Bytes) (faults : SaveFaults)
    (state : StorageState) (origin : StorageOrigin) (parent : List Text) (name : Text)
    (directory create : Bool)
    (h : validateOpfsName name = .ok () →
      (state.opfs origin.serialize).isSome ∨ (parent = [] ∧ create = true)) :
    FailsClean state (state.opfsGetHandle toVec faults origin parent name directory create) := by
  unfold opfsGetHandle
  split
  next => exact failsClean_of_kept .rfl
  next hvalid =>
    dsimp only
    by_cases hroot : (state.opfs origin.serialize).isSome
    · rw [update_root_of_isSome hroot]
      split
      · exact failsClean_of_kept .rfl
      split
      · exact failsClean_of_kept .rfl
      · exact failsClean_of_kept .rfl
      · exact failsClean_of_kept .rfl
      · split
        · exact failsClean_of_kept .rfl
        · exact failsClean_persist _ _ _ _
    · -- a new entry of a new root
      obtain ⟨rfl, rfl⟩ := (h hvalid).resolve_left hroot
      rw [Option.not_isSome_iff_eq_none.mp hroot]
      exact failsClean_persist _ _ _ _

/-- In an origin without a tree a handle that is not made leaves a tree. -/
theorem not_failsClean_opfsGetHandle (toVec : OpfsTrees → Bytes) (faults : SaveFaults)
    (state : StorageState) {origin : StorageOrigin} {parent : List Text} {name : Text}
    (directory : Bool) {create : Bool} (hvalid : validateOpfsName name = .ok ())
    (hroot : ¬ (state.opfs origin.serialize).isSome) (hmade : ¬ (parent = [] ∧ create = true)) :
    ¬ FailsClean state (state.opfsGetHandle toVec faults origin parent name directory create) := by
  intro h
  have hnone := Option.not_isSome_iff_eq_none.mp hroot
  have houtcome : state.opfsGetHandle toVec faults origin parent name directory create =
      (.error .notFound,
        { state with opfs := Function.update state.opfs origin.serialize (some []) }) := by
    unfold opfsGetHandle
    rw [hvalid]
    dsimp only
    rw [hnone]
    cases parent with
    | cons first rest => rfl
    | nil =>
      cases create with
      | false => rfl
      | true => exact absurd ⟨rfl, rfl⟩ hmade
  rw [houtcome] at h
  have hsame := congrFun (h .notFound rfl).1 origin.serialize
  dsimp only at hsame
  rw [Function.update_self, hnone] at hsame
  cases hsame

/-! ## Moves -/

/-- The file that a move finds. -/
theorem Finds.entry {destinationParent : List Text} {destinationName : Text} {root : OpfsDirectory}
    {file : OpfsFile} (h : state.Finds origin source destinationParent destinationName root file) :
    ∃ name found, source.getLast? = some name ∧ source = source.dropLast ++ [name] ∧
      directoryAt root source.dropLast = some found ∧ found.get name = some (.file file) := by
  obtain ⟨_, _, _, _, hfile⟩ := h
  cases hlast : source.getLast? with
  | none =>
    rw [List.getLast?_eq_none_iff] at hlast
    subst hlast
    cases hfile
  | some name =>
    have hsource := List.dropLast_append_getLast? name hlast
    rw [← hsource] at hfile
    obtain ⟨found, hfound, hentry⟩ := nodeAt_concat_file_iff.mp hfile
    exact ⟨name, found, rfl, hsource.symm, hfound, hentry⟩

/-- A move that finds no file is refused with the trees as they were. -/
theorem opfsMoveFile_of_not_finds (toVec : OpfsTrees → Bytes) (faults : SaveFaults)
    {destinationParent : List Text} {destinationName : Text}
    (h : ∀ root file, ¬ state.Finds origin source destinationParent destinationName root file) :
    ∃ error, state.opfsMoveFile toVec faults origin source destinationParent destinationName =
      (.error error, state) := by
  unfold opfsMoveFile
  split
  next error hvalid => exact ⟨error, rfl⟩
  next hvalid =>
    split
    next => exact ⟨_, rfl⟩
    next hlocks =>
      dsimp only
      split
      next => exact ⟨_, rfl⟩
      next root hroot =>
        split
        next => exact ⟨_, rfl⟩
        next name hlast =>
          split
          next error _ => exact ⟨error, rfl⟩
          next found hfound =>
            split
            next => exact ⟨_, rfl⟩
            next entry hentry =>
              cases entry with
              | directory value => exact ⟨_, rfl⟩
              | file file =>
                rw [Bool.or_eq_true, not_or, Bool.not_eq_true, Bool.not_eq_true] at hlocks
                have hfile : nodeAt root (source.dropLast ++ [name]) = some (.file file) :=
                  nodeAt_concat_file_iff.mpr ⟨found, opfsDirectory_eq_ok_iff.mp hfound, hentry⟩
                rw [List.dropLast_append_getLast? name hlast] at hfile
                exact absurd ⟨hvalid, hlocks.1, hlocks.2, hroot, hfile⟩ (h root file)

/-- The tree without the file that is moved. -/
def withoutSource (root : OpfsDirectory) (source : List Text) : OpfsDirectory :=
  match source.getLast?, directoryAt root source.dropLast with
  | some name, some found => replaceAt root source.dropLast (found.remove name)
  | _, _ => root

/-- A move that finds its file takes it out and then looks for the destination. -/
theorem opfsMoveFile_of_finds {destinationParent : List Text} {destinationName : Text}
    {root : OpfsDirectory} {file : OpfsFile}
    (h : state.Finds origin source destinationParent destinationName root file) :
    state.opfsMoveFile toVec faults origin source destinationParent destinationName =
      match opfsDirectory (withoutSource root source) destinationParent with
      | .error error => (.error error, { state with
          opfs := Function.update state.opfs origin.serialize (some (withoutSource root source)) })
      | .ok destination => persistOpfsOrRestore toVec faults { state with
          opfs := Function.update (Function.update state.opfs origin.serialize
            (some (withoutSource root source))) origin.serialize
              (some (replaceAt (withoutSource root source) destinationParent
                (destination.insert destinationName (.file file)))) } state.opfs := by
  obtain ⟨name, found, hlast, _, hfound, hentry⟩ := h.entry
  obtain ⟨hvalid, hsource, hdestination, hroot, _⟩ := h
  unfold opfsMoveFile withoutSource
  rw [hvalid, hsource, hdestination]
  dsimp only
  rw [if_neg (by decide), hroot]
  dsimp only
  rw [hlast, opfsDirectory_eq_ok_iff.mpr hfound, hfound]
  cases hdest : opfsDirectory (replaceAt root source.dropLast (found.remove name)) destinationParent
  all_goals simp only [hentry, hdest]

/-- Without the source everything else stands. -/
theorem nodeAt_withoutSource {root : OpfsDirectory} {file : OpfsFile}
    (h : nodeAt root source = some (.file file)) (path : List Text) :
    nodeAt (withoutSource root source) path = if path = source then none else nodeAt root path := by
  unfold withoutSource
  cases hlast : source.getLast? with
  | none =>
    rw [List.getLast?_eq_none_iff] at hlast
    subst hlast
    cases h
  | some name =>
    have hsource := List.dropLast_append_getLast? name hlast
    have hentry := h
    rw [← hsource] at hentry
    obtain ⟨found, hfound, _⟩ := nodeAt_concat_file_iff.mp hentry
    rw [hfound]
    dsimp only
    rw [nodeAt_remove hfound, hsource]
    by_cases heq : path = source
    · rw [if_pos heq, if_pos (heq ▸ List.prefix_rfl)]
    · rw [if_neg heq]
      split
      next hfront => exact (nodeAt_below_file h hfront heq).symm
      next => rfl

/-- The tree after a move that finds a directory to move to. -/
def moveTree (root : OpfsDirectory) (source destinationParent : List Text) (destinationName : Text)
    (file : OpfsFile) (destination : OpfsDirectory) : OpfsDirectory :=
  replaceAt (withoutSource root source) destinationParent
    (destination.insert destinationName (.file file))

section

variable {destinationParent : List Text} {destinationName : Text} {root destination : OpfsDirectory}
  {file : OpfsFile}

/-- What stands in the tree after a move. -/
theorem nodeAt_moveTree (destinationName : Text) (hfile : nodeAt root source = some (.file file))
    (hdestination : opfsDirectory (withoutSource root source) destinationParent = .ok destination)
    (path : List Text) :
    nodeAt (moveTree root source destinationParent destinationName file destination) path =
      if path = destinationParent ++ [destinationName] then some (.file file)
      else if destinationParent ++ [destinationName] <+: path then none
      else if path = source then none else nodeAt root path := by
  unfold moveTree
  rw [nodeAt_insert_file (opfsDirectory_eq_ok_iff.mp hdestination), nodeAt_withoutSource hfile]

/-- The directory to move to is one of the tree before the move. -/
theorem opfsDirectory_withoutSource_iff (hfile : nodeAt root source = some (.file file)) :
    (∃ destination, opfsDirectory (withoutSource root source) destinationParent = .ok destination) ↔
      nodeAt root destinationParent = some .directory := by
  rw [← nodeAt_eq_directory_iff_ok, nodeAt_withoutSource hfile]
  split
  next heq =>
    rw [heq, hfile]
    exact iff_of_false (fun hnone => by cases hnone) fun hfile => by cases hfile
  next => rfl

/-- A move over no directory only moves the file. -/
theorem moved_moveTree {before after : OpfsTrees} {key : Text} (hbefore : before key = some root)
    (hafter : after = Function.update before key
      (some (moveTree root source destinationParent destinationName file destination)))
    (hfile : nodeAt root source = some (.file file))
    (hdestination : opfsDirectory (withoutSource root source) destinationParent = .ok destination)
    (hplace : nodeAt root (destinationParent ++ [destinationName]) ≠ some .directory) :
    Moved before after key source (destinationParent ++ [destinationName]) := by
  have htree := nodeAt_moveTree destinationName hfile hdestination
  have hbelow : ∀ path, destinationParent ++ [destinationName] <+: path →
      path ≠ destinationParent ++ [destinationName] → nodeAt root path = none := by
    intro path hfront hne
    cases hnode : nodeAt root (destinationParent ++ [destinationName]) with
    | none => exact nodeAt_below_none hnode hfront
    | some node =>
      cases node with
      | directory => exact absurd hnode hplace
      | file => exact nodeAt_below_file hnode hfront hne
  have helse : ∀ path, path ≠ source → path ≠ destinationParent ++ [destinationName] →
      nodeAt (moveTree root source destinationParent destinationName file destination) path =
        nodeAt root path := by
    intro path hsource hne
    rw [htree, if_neg hne, if_neg hsource]
    split
    next hfront => exact (hbelow path hfront hne).symm
    next => rfl
  constructor
  · intro other hother
    rw [hafter, Function.update_of_ne hother]
  · refine ⟨root, _, file, hbefore, by rw [hafter, Function.update_self], hfile, ?_, ?_, helse, ?_⟩
    · rw [htree, if_pos rfl]
    · intro hne
      rw [htree, if_neg hne]
      split
      · rfl
      · rw [if_pos rfl]
    · intro path hdirectory
      rw [helse path _ _, hdirectory]
      · rintro rfl
        rw [hfile] at hdirectory
        cases hdirectory
      · rintro rfl
        exact hplace hdirectory

end

theorem failsClean_opfsMoveFile (toVec : OpfsTrees → Bytes) (faults : SaveFaults)
    {destinationParent : List Text} {destinationName : Text}
    (h : ∀ root file, state.Finds origin source destinationParent destinationName root file →
      nodeAt root destinationParent = some .directory) :
    FailsClean state
      (state.opfsMoveFile toVec faults origin source destinationParent destinationName) := by
  by_cases hfinds : ∃ root file,
      state.Finds origin source destinationParent destinationName root file
  · obtain ⟨root, file, hfinds⟩ := hfinds
    obtain ⟨destination, hdestination⟩ :=
      (opfsDirectory_withoutSource_iff hfinds.2.2.2.2).mpr (h root file hfinds)
    rw [opfsMoveFile_of_finds hfinds, hdestination]
    exact failsClean_persist _ _ _ _
  · obtain ⟨error, heq⟩ := opfsMoveFile_of_not_finds toVec faults
      fun root file hfound => hfinds ⟨root, file, hfound⟩
    rw [heq]
    exact failsClean_of_kept .rfl

/-- With no directory to move to, the file is lost. -/
theorem not_failsClean_opfsMoveFile (toVec : OpfsTrees → Bytes) (faults : SaveFaults)
    {destinationParent : List Text} {destinationName : Text} {root : OpfsDirectory}
    {file : OpfsFile}
    (hfinds : state.Finds origin source destinationParent destinationName root file)
    (hdestination : nodeAt root destinationParent ≠ some .directory) :
    ¬ FailsClean state
      (state.opfsMoveFile toVec faults origin source destinationParent destinationName) := by
  have hroot := hfinds.2.2.2.1
  have hfile := hfinds.2.2.2.2
  intro h
  rw [opfsMoveFile_of_finds hfinds] at h
  split at h
  next error _ =>
    have hsame := congrFun (h error rfl).1 origin.serialize
    dsimp only at hsame
    rw [Function.update_self, hroot, Option.some.injEq] at hsame
    have hgone := nodeAt_withoutSource hfile source
    rw [hsame, if_pos rfl, hfile] at hgone
    cases hgone
  next destination hok =>
    exact hdestination ((opfsDirectory_withoutSource_iff hfile).mp ⟨destination, hok⟩)

/-- A move that succeeds has found its file and saved the tree with the file moved. -/
theorem opfsMoveFile_ok {destinationParent : List Text} {destinationName : Text}
    (h : (state.opfsMoveFile toVec faults origin source destinationParent destinationName).1 =
      .ok ()) :
    ∃ root file destination,
      state.Finds origin source destinationParent destinationName root file ∧
      opfsDirectory (withoutSource root source) destinationParent = .ok destination ∧
      (state.opfsMoveFile toVec faults origin source destinationParent destinationName).2.opfs =
        Function.update state.opfs origin.serialize
          (some (moveTree root source destinationParent destinationName file destination)) ∧
      (state.opfsPath.isSome →
        (state.opfsMoveFile toVec faults origin source destinationParent
            destinationName).2.disk.saved =
          some (toVec (state.opfsMoveFile toVec faults origin source destinationParent
            destinationName).2.opfs)) := by
  by_cases hfinds : ∃ root file,
      state.Finds origin source destinationParent destinationName root file
  · obtain ⟨root, file, hfinds⟩ := hfinds
    cases hdestination : opfsDirectory (withoutSource root source) destinationParent with
    | error error =>
      rw [opfsMoveFile_of_finds hfinds, hdestination] at h
      cases h
    | ok destination =>
      refine ⟨root, file, destination, hfinds, hdestination, ?_⟩
      rw [opfsMoveFile_of_finds hfinds, hdestination] at h ⊢
      dsimp only at h ⊢
      rw [Function.update_idem] at h ⊢
      generalize hchanged : { state with opfs := Function.update state.opfs origin.serialize (some
          (replaceAt (withoutSource root source) destinationParent
            (destination.insert destinationName (.file file)))) } = changed at h ⊢
      rcases persistOpfsOrRestore_cases toVec faults changed state.opfs with
        ⟨disk, heq, _⟩ | ⟨disk, heq, hsaved⟩
      · rw [heq] at h
        cases h
      · rw [heq]
        subst hchanged
        exact ⟨rfl, hsaved⟩
  · obtain ⟨error, heq⟩ := opfsMoveFile_of_not_finds toVec faults
      fun root file hfound => hfinds ⟨root, file, hfound⟩
    rw [heq] at h
    cases h

/-! ## The condition -/

/-- A call that is no move is atomic when it fails clean. -/
theorem atomic_of_failsClean {call : OpfsCall} {outcome : Except OpfsError Unit × StorageState}
    (h : FailsClean state outcome)
    (hcall : ∀ origin source destinationParent destinationName,
      call ≠ .moveFile origin source destinationParent destinationName) :
    Atomic toVec state call outcome where
  failed := h
  moved := fun _ _ _ _ heq _ => absurd heq (hcall _ _ _ _)

/-- A move into a directory and not over one is atomic. -/
theorem atomic_opfsMoveFile (toVec : OpfsTrees → Bytes) (faults : SaveFaults)
    {destinationParent : List Text} {destinationName : Text}
    (h : Sheltered state (.moveFile origin source destinationParent destinationName)) :
    Atomic toVec state (.moveFile origin source destinationParent destinationName)
      (state.opfsMoveFile toVec faults origin source destinationParent destinationName) where
  failed := failsClean_opfsMoveFile toVec faults fun root file hfinds => (h root file hfinds).1
  moved := by
    rintro _ _ _ _ ⟨⟩ hok
    obtain ⟨root, file, destination, hfinds, hdestination, hopfs, hsaved⟩ := opfsMoveFile_ok hok
    exact ⟨moved_moveTree hfinds.2.2.2.1 hopfs hfinds.2.2.2.2 hdestination (h root file hfinds).2,
      hsaved⟩

/-- A move that is atomic whatever goes wrong goes into a directory and not over one. -/
theorem sheltered_of_atomic {destinationParent : List Text} {destinationName : Text}
    (h : Atomic toVec state (.moveFile origin source destinationParent destinationName)
      (state.opfsMoveFile toVec .none origin source destinationParent destinationName)) :
    Sheltered state (.moveFile origin source destinationParent destinationName) := by
  intro root file hfinds
  have hroot := hfinds.2.2.2.1
  have hfile := hfinds.2.2.2.2
  have hparent : nodeAt root destinationParent = some .directory := by
    by_contra hno
    exact not_failsClean_opfsMoveFile toVec .none hfinds hno h.failed
  refine ⟨hparent, fun hdirectory => ?_⟩
  obtain ⟨destination, hdestination⟩ := (opfsDirectory_withoutSource_iff hfile).mpr hparent
  have hok : (state.opfsMoveFile toVec .none origin source destinationParent
      destinationName).1 = .ok () := by
    rw [opfsMoveFile_of_finds hfinds, hdestination]
    exact (persistOpfsOrRestore_none toVec _ _).1
  obtain ⟨root₁, _, _, hbefore, hafter, _, hmoved, _, _, hkept⟩ :=
    (h.moved origin source destinationParent destinationName rfl hok).1.moved
  rw [hroot, Option.some.injEq] at hbefore
  subst hbefore
  -- the directory at the destination is gone
  rw [hkept _ hdirectory] at hmoved
  cases hmoved

/-- Whatever goes wrong with its save, a call is atomic exactly where it is sheltered. -/
theorem perform_atomic_iff (toVec : OpfsTrees → Bytes) (state : StorageState) (call : OpfsCall) :
    (∀ faults, Atomic toVec state call (state.perform toVec faults call)) ↔
      Sheltered state call := by
  cases call with
  | getHandle origin parent name directory create =>
    constructor
    · intro h hvalid
      by_contra hno
      rw [not_or] at hno
      exact not_failsClean_opfsGetHandle toVec .none state directory hvalid hno.1 hno.2
        (h .none).failed
    · intro h faults
      exact atomic_of_failsClean (failsClean_opfsGetHandle toVec faults state origin parent name
        directory create h) nofun
  | root origin =>
    exact ⟨fun _ => trivial,
      fun _ faults => atomic_of_failsClean (failsClean_opfsRoot toVec faults state origin) nofun⟩
  | write origin path bytes modified =>
    exact ⟨fun _ => trivial, fun _ faults => atomic_of_failsClean
      (failsClean_opfsWrite toVec faults state origin path bytes modified) nofun⟩
  | remove origin parent name recursive =>
    exact ⟨fun _ => trivial, fun _ faults => atomic_of_failsClean
      (failsClean_opfsRemove toVec faults state origin parent name recursive) nofun⟩
  | moveFile origin source destinationParent destinationName =>
    exact ⟨fun h => sheltered_of_atomic (h .none), fun h faults => atomic_opfsMoveFile toVec faults h⟩

/-- One file, in the root of one origin. -/
def oneFile : StorageState where
  quotaBytes := 1024
  opfsPath := none
  opfs := Function.update (fun _ => none) (StorageOrigin.serialize ⟨['a'], ['b'], 1⟩)
    (some [(['f'], .file { bytes := [1], modified := 2 })])
  opfsLocks := []
  disk := { saved := none, temporary := none }

/-- The file is moved to a directory that is not there. -/
theorem not_perform_atomic :
    ¬ Atomic (fun _ => []) oneFile (.moveFile ⟨['a'], ['b'], 1⟩ [['f']] [['d']] ['f'])
      (oneFile.perform (fun _ => []) .none (.moveFile ⟨['a'], ['b'], 1⟩ [['f']] [['d']] ['f'])) := by
  intro h
  have hopfs : oneFile.opfs (StorageOrigin.serialize ⟨['a'], ['b'], 1⟩) =
      some [(['f'], .file { bytes := [1], modified := 2 })] := by
    unfold oneFile
    dsimp only
    rw [Function.update_self]
  have hfinds : oneFile.Finds ⟨['a'], ['b'], 1⟩ [['f']] [['d']] ['f']
      [(['f'], .file { bytes := [1], modified := 2 })] { bytes := [1], modified := 2 } :=
    ⟨rfl, rfl, rfl, hopfs, rfl⟩
  exact not_failsClean_opfsMoveFile (fun _ => []) .none hfinds nofun h.failed

end StorageState

end Omoikane.Js
