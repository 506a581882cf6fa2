import Omoikane.Base.Run
import Omoikane.Js.OpfsAtomic

/-!
# The quota of the file system

The usage of a tree is the sum of the lengths of its names and files.  A write that
would bring it above the quota is refused.  A handle that is made adds its name to
the usage and a move may lengthen one, and neither is checked: the usage stays
within the quota in a run whose calls of these fit (`Fits`).
-/

namespace Omoikane.Js

open Base Base.Directories

/-! ## Sizes -/

mutual

/-- The size of an entry, without its name. -/
def opfsEntrySize : OpfsEntry → Nat
  | .directory value => opfsDirectorySize value
  | .file value => value.bytes.length
termination_by structural entry => entry

/-- The usage of a directory, as it is before the counter stops. -/
def opfsDirectorySize : List (Text × OpfsEntry) → Nat
  | [] => 0
  | (name, entry) :: entries => name.utf8Len + opfsEntrySize entry + opfsDirectorySize entries
termination_by structural entries => entries

end

mutual

theorem opfsEntryUsage_eq : ∀ (entry : OpfsEntry) {usage : Nat}, usage ≤ u64Max →
    opfsEntryUsage usage entry = min (usage + opfsEntrySize entry) u64Max
  | .directory value, usage, h => by
    rw [opfsEntryUsage, opfsEntrySize, opfsDirectoryUsageFrom_eq value (Nat.zero_le _),
      saturatingAdd]
    omega
  | .file value, usage, h => by
    rw [opfsEntryUsage, opfsEntrySize, saturatingAdd]

theorem opfsDirectoryUsageFrom_eq : ∀ (entries : List (Text × OpfsEntry)) {usage : Nat},
    usage ≤ u64Max →
      opfsDirectoryUsageFrom usage entries = min (usage + opfsDirectorySize entries) u64Max
  | [], usage, h => by
    rw [opfsDirectoryUsageFrom, opfsDirectorySize]
    omega
  | (name, entry) :: entries, usage, h => by
    rw [opfsDirectoryUsageFrom, opfsDirectorySize, opfsEntryUsage_eq entry (saturatingAdd_le _ _),
      opfsDirectoryUsageFrom_eq entries (Nat.min_le_right _ _), saturatingAdd]
    omega

end

theorem opfsDirectoryUsage_eq (directory : OpfsDirectory) :
    opfsDirectoryUsage directory = min (opfsDirectorySize directory) u64Max := by
  rw [opfsDirectoryUsage, opfsDirectoryUsageFrom_eq directory (Nat.zero_le _), Nat.zero_add]

section

variable {directory found : OpfsDirectory} {name : Text} {entry : OpfsEntry} {path : List Text}

theorem opfsDirectorySize_append (xs ys : OpfsDirectory) :
    opfsDirectorySize (xs ++ ys) = opfsDirectorySize xs + opfsDirectorySize ys := by
  induction xs with
  | nil => simp [opfsDirectorySize]
  | cons entry xs ih => simp [opfsDirectorySize, ih, Nat.add_assoc]

theorem opfsDirectorySize_remove_le (directory : OpfsDirectory) (name : Text) :
    opfsDirectorySize (directory.remove name) ≤ opfsDirectorySize directory := by
  unfold Table.remove
  induction directory with
  | nil => simp
  | cons entry directory ih =>
    rw [List.filter_cons]
    split <;> simp only [opfsDirectorySize] <;> omega

/-- An entry that is removed frees its name and its size. -/
theorem opfsDirectorySize_remove (h : directory.get name = some entry) :
    opfsDirectorySize (directory.remove name) + name.utf8Len + opfsEntrySize entry ≤
      opfsDirectorySize directory := by
  induction directory with
  | nil => cases h
  | cons first directory ih =>
    rw [Table.get_cons] at h
    split at h
    next heq =>
      obtain rfl := Option.some.inj h
      have hrest := opfsDirectorySize_remove_le directory name
      have hremove : Table.remove (first :: directory) name = Table.remove directory name :=
        List.filter_cons_of_neg (by simpa using heq)
      rw [hremove, ← heq, opfsDirectorySize]
      rw [← heq] at hrest
      omega
    next hne =>
      have hremove : Table.remove (first :: directory) name =
          first :: Table.remove directory name :=
        List.filter_cons_of_pos (by simpa using hne)
      have hrest := ih h
      rw [hremove, opfsDirectorySize, opfsDirectorySize]
      omega

theorem opfsDirectorySize_insert (directory : OpfsDirectory) (name : Text) (entry : OpfsEntry) :
    opfsDirectorySize (directory.insert name entry) =
      opfsDirectorySize (directory.remove name) + name.utf8Len + opfsEntrySize entry := by
  rw [Table.insert, opfsDirectorySize_append]
  simp [opfsDirectorySize, Nat.add_assoc]

/-- A directory that is written anew changes the size by the difference. -/
theorem opfsDirectorySize_replaceAt (h : directoryAt directory path = some found)
    (written : OpfsDirectory) :
    opfsDirectorySize (replaceAt directory path written) + opfsDirectorySize found ≤
      opfsDirectorySize directory + opfsDirectorySize written := by
  induction path generalizing directory with
  | nil =>
    cases h
    exact Nat.le_of_eq (Nat.add_comm _ _)
  | cons name path ih =>
    unfold directoryAt at h
    unfold replaceAt
    split at h
    next below hbelow =>
      have hrest := ih h
      have hremove := opfsDirectorySize_remove hbelow
      rw [opfsEntrySize] at hremove
      rw [opfsDirectorySize_insert, opfsEntrySize]
      omega
    next => cases h

end

namespace StorageState

variable {toVec : OpfsTrees → Bytes} {faults : SaveFaults} {state : StorageState}
  {origin : StorageOrigin} {limit : Nat} {opfs old : OpfsTrees} {root : OpfsDirectory}

/-- The usage of an origin. -/
def opfsUsage (state : StorageState) (origin : StorageOrigin) : Nat :=
  opfsDirectoryUsage ((state.opfs origin.serialize).getD [])

/-- No tree is above a limit. -/
def Within (limit : Nat) (opfs : OpfsTrees) : Prop :=
  ∀ key root, opfs key = some root → opfsDirectoryUsage root ≤ limit

/-- What a call adds without a check stays within a limit: the name of an entry that is
made, and what the name of a file that is moved to a free place grows by. -/
def Fits (limit : Nat) (state : StorageState) : OpfsCall → Prop
  | .getHandle origin parent name _ create =>
    validateOpfsName name = .ok () → create = true → ∀ found,
      opfsDirectory ((state.opfs origin.serialize).getD []) parent = .ok found →
        found.get name = none → state.opfsUsage origin + name.utf8Len ≤ limit
  | .moveFile origin source destinationParent destinationName => ∀ root file,
      state.Finds origin source destinationParent destinationName root file →
        nodeAt root destinationParent = some .directory →
          nodeAt root (destinationParent ++ [destinationName]) = none →
            state.opfsUsage origin + destinationName.utf8Len ≤
              limit + ((source.getLast?).map Text.utf8Len).getD 0
  | _ => True

/-! ## Trees within a limit -/

theorem Within.update (h : Within limit opfs) (hroot : opfsDirectoryUsage root ≤ limit)
    (key : Text) : Within limit (Function.update opfs key (some root)) := by
  intro other root' hroot'
  rw [Function.update_apply] at hroot'
  split at hroot'
  next =>
    obtain rfl := Option.some.inj hroot'
    exact hroot
  next => exact h other root' hroot'

theorem Within.getD (h : Within limit opfs) (key : Text) :
    opfsDirectoryUsage ((opfs key).getD []) ≤ limit := by
  cases hroot : opfs key with
  | none => exact Nat.zero_le _
  | some root => exact h key root hroot

theorem Within.persist (h : Within limit state.opfs) (hold : Within limit old) :
    Within limit (persistOpfsOrRestore toVec faults state old).2.opfs := by
  rcases persistOpfsOrRestore_cases toVec faults state old with ⟨disk, heq, -⟩ | ⟨disk, heq, -⟩
  · rw [heq]
    exact hold
  · rw [heq]
    exact h

/-- A tree whose size grows by no more than fits. -/
theorem usage_le_of_size {root' : OpfsDirectory} (grown freed : Nat)
    (hsize : opfsDirectorySize root' + freed ≤ opfsDirectorySize root + grown)
    (hwithin : opfsDirectoryUsage root ≤ limit)
    (hfits : opfsDirectoryUsage root + grown ≤ limit + freed) :
    opfsDirectoryUsage root' ≤ limit := by
  rw [opfsDirectoryUsage_eq] at *
  omega

/-! ## The calls -/

theorem within_opfsGetHandle (h : Within limit state.opfs) {parent : List Text} {name : Text}
    {directory create : Bool}
    (hfits : Fits limit state (.getHandle origin parent name directory create)) :
    Within limit (state.opfsGetHandle toVec faults origin parent name directory create).2.opfs := by
  have hroot := h.update (h.getD origin.serialize) origin.serialize
  unfold opfsGetHandle
  split
  next => exact h
  next hvalid =>
    dsimp only
    split
    next => exact hroot
    next found hfound =>
      split
      next => exact hroot
      next => exact hroot
      next => exact hroot
      next hnone =>
        cases create with
        | false => exact hroot
        | true =>
          rw [Bool.not_true, if_neg Bool.false_ne_true]
          refine Within.persist (hroot.update ?_ _) h
          have hsize : ∀ entry : OpfsEntry, opfsEntrySize entry = 0 →
              opfsDirectorySize (replaceAt ((state.opfs origin.serialize).getD []) parent
                (found.insert name entry)) + 0 ≤
              opfsDirectorySize ((state.opfs origin.serialize).getD []) + name.utf8Len := by
            intro entry hempty
            have hreplace := opfsDirectorySize_replaceAt (opfsDirectory_eq_ok_iff.mp hfound)
              (found.insert name entry)
            have hremove := opfsDirectorySize_remove_le found name
            rw [opfsDirectorySize_insert, hempty] at hreplace
            omega
          refine usage_le_of_size name.utf8Len 0 (hsize _ ?_) (h.getD _)
            (hfits hvalid rfl found hfound hnone)
          split <;> rfl

theorem within_opfsRoot (h : Within limit state.opfs) :
    Within limit (state.opfsRoot toVec faults origin).2.opfs := by
  unfold opfsRoot
  split
  next => exact h
  next => exact Within.persist (h.update (Nat.zero_le _) _) h

theorem within_opfsRemove (h : Within limit state.opfs) (parent : List Text) (name : Text)
    (recursive : Bool) :
    Within limit (state.opfsRemove toVec faults origin parent name recursive).2.opfs := by
  unfold opfsRemove
  split
  next => exact h
  split
  next => exact h
  dsimp only
  split
  next => exact h
  next root hroot =>
    split
    next => exact h
    next found hfound =>
      split
      next => exact h
      next entry hentry =>
        split
        next => exact h
        next =>
          refine Within.persist (h.update ?_ _) h
          have hreplace := opfsDirectorySize_replaceAt (opfsDirectory_eq_ok_iff.mp hfound)
            (found.remove name)
          have hremove := opfsDirectorySize_remove_le found name
          refine usage_le_of_size 0 0 ?_ (h _ root hroot) (h _ root hroot)
          omega

theorem within_opfsWrite (h : Within state.quotaBytes state.opfs) (path : List Text) (bytes : Bytes)
    (modified : Nat) :
    Within state.quotaBytes (state.opfsWrite toVec faults origin path bytes modified).2.opfs := by
  unfold opfsWrite
  dsimp only
  split
  next => exact h
  split
  next => exact h
  split
  next => exact h
  split
  next =>
    split
    next => exact h
    next hquota => exact Within.persist (h.update (Nat.le_of_not_gt hquota) _) h
  next => exact h
  next => exact h

/-- The tree without the file that is moved. -/
theorem opfsDirectorySize_withoutSource {source destinationParent : List Text}
    {destinationName : Text} {file : OpfsFile}
    (h : state.Finds origin source destinationParent destinationName root file) :
    opfsDirectorySize (withoutSource root source) + ((source.getLast?).map Text.utf8Len).getD 0 +
      file.bytes.length ≤ opfsDirectorySize root := by
  obtain ⟨name, found, hlast, -, hfound, hentry⟩ := h.entry
  have hremove := opfsDirectorySize_remove hentry
  have hreplace := opfsDirectorySize_replaceAt hfound (found.remove name)
  rw [opfsEntrySize] at hremove
  rw [withoutSource, hlast, hfound]
  show opfsDirectorySize (replaceAt root source.dropLast (found.remove name)) + name.utf8Len + _ ≤ _
  omega

theorem within_opfsMoveFile (h : Within limit state.opfs) {source destinationParent : List Text}
    {destinationName : Text}
    (hfits : Fits limit state (.moveFile origin source destinationParent destinationName)) :
    Within limit
      (state.opfsMoveFile toVec faults origin source destinationParent destinationName).2.opfs := by
  by_cases hfinds : ∃ root file,
      state.Finds origin source destinationParent destinationName root file
  · obtain ⟨root, file, hfinds⟩ := hfinds
    have hsize := opfsDirectorySize_withoutSource hfinds
    have hfits := hfits root file hfinds
    rw [opfsMoveFile_of_finds hfinds]
    obtain ⟨-, -, -, hroot, hfile⟩ := hfinds
    rw [opfsUsage, hroot, Option.getD_some] at hfits
    have hrootWithin := h _ root hroot
    have hwithout : opfsDirectoryUsage (withoutSource root source) ≤ limit :=
      usage_le_of_size 0 0 (by omega) hrootWithin hrootWithin
    have hmid := h.update hwithout origin.serialize
    split
    next => exact hmid
    next destination hdestination =>
      refine Within.persist (hmid.update ?_ _) h
      have hplace := (opfsDirectory_withoutSource_iff hfile).mp ⟨destination, hdestination⟩
      have hreplace := opfsDirectorySize_replaceAt (opfsDirectory_eq_ok_iff.mp hdestination)
        (destination.insert destinationName (.file file))
      rw [opfsDirectorySize_insert, opfsEntrySize] at hreplace
      cases hnode : destination.get destinationName with
      | some entry =>
        -- the entry that is replaced frees the name
        have hremove := opfsDirectorySize_remove hnode
        refine usage_le_of_size 0 0 ?_ hrootWithin hrootWithin
        omega
      | none =>
        have hremove := opfsDirectorySize_remove_le destination destinationName
        have hfree : nodeAt (withoutSource root source)
            (destinationParent ++ [destinationName]) = none := by
          rw [nodeAt_append (opfsDirectory_eq_ok_iff.mp hdestination), nodeAt_cons_none hnode]
        rw [nodeAt_withoutSource hfile] at hfree
        split at hfree
        next hsame =>
          -- the file goes back to where it was
          have hname : ((source.getLast?).map Text.utf8Len).getD 0 = destinationName.utf8Len := by
            rw [← hsame, List.getLast?_concat]
            rfl
          rw [hname] at hsize
          refine usage_le_of_size 0 0 ?_ hrootWithin hrootWithin
          omega
        next =>
          refine usage_le_of_size destinationName.utf8Len
            (((source.getLast?).map Text.utf8Len).getD 0) ?_ hrootWithin (hfits hplace hfree)
          omega
  · obtain ⟨error, heq⟩ := @opfsMoveFile_of_not_finds _ _ source toVec faults _ _
      (fun root file hf => hfinds ⟨root, file, hf⟩)
    rw [heq]
    exact h

/-- A call other than a write that fits. -/
theorem within_perform (h : Within limit state.opfs) {call : OpfsCall}
    (hwrite : ∀ origin path bytes modified, call ≠ .write origin path bytes modified)
    (hfits : Fits limit state call) : Within limit (state.perform toVec faults call).2.opfs := by
  cases call with
  | getHandle origin parent name directory create => exact within_opfsGetHandle h hfits
  | root origin => exact within_opfsRoot h
  | write origin path bytes modified => exact absurd rfl (hwrite origin path bytes modified)
  | remove origin parent name recursive => exact within_opfsRemove h parent name recursive
  | moveFile origin source destinationParent destinationName => exact within_opfsMoveFile h hfits

theorem persistOpfsOrRestore_quotaBytes :
    (persistOpfsOrRestore toVec faults state old).2.quotaBytes = state.quotaBytes := by
  rcases persistOpfsOrRestore_cases toVec faults state old with ⟨disk, heq, -⟩ | ⟨disk, heq, -⟩ <;>
    rw [heq]

/-- No call changes the quota. -/
theorem perform_quotaBytes (toVec : OpfsTrees → Bytes) (faults : SaveFaults) (state : StorageState)
    (call : OpfsCall) : (state.perform toVec faults call).2.quotaBytes = state.quotaBytes := by
  cases call with
  | getHandle origin parent name directory create =>
    show (state.opfsGetHandle toVec faults origin parent name directory create).2.quotaBytes = _
    unfold opfsGetHandle
    dsimp only
    repeat' split
    all_goals first | rfl | exact persistOpfsOrRestore_quotaBytes
  | root origin =>
    show (state.opfsRoot toVec faults origin).2.quotaBytes = _
    unfold opfsRoot
    split
    next => rfl
    next => exact persistOpfsOrRestore_quotaBytes
  | write origin path bytes modified =>
    show (state.opfsWrite toVec faults origin path bytes modified).2.quotaBytes = _
    unfold opfsWrite
    dsimp only
    repeat' split
    all_goals first | rfl | exact persistOpfsOrRestore_quotaBytes
  | remove origin parent name recursive =>
    show (state.opfsRemove toVec faults origin parent name recursive).2.quotaBytes = _
    unfold opfsRemove
    dsimp only
    repeat' split
    all_goals first | rfl | exact persistOpfsOrRestore_quotaBytes
  | moveFile origin source destinationParent destinationName =>
    show (state.opfsMoveFile toVec faults origin source destinationParent
      destinationName).2.quotaBytes = _
    unfold opfsMoveFile
    dsimp only
    repeat' split
    all_goals first | rfl | exact persistOpfsOrRestore_quotaBytes

/-! ## Refused calls -/

/-- The same state, with a quota that nothing exceeds. -/
def unlimited (state : StorageState) : StorageState := { state with quotaBytes := u64Max }

theorem Fits.unlimited {call : OpfsCall} (h : Fits limit state call) :
    Fits limit state.unlimited call := by
  cases call <;> exact h

/-- A write that would leave a tree above the quota is refused. -/
theorem opfsWrite_refused (h : Within state.quotaBytes state.opfs) {path : List Text}
    {bytes : Bytes} {modified : Nat}
    (hover : ¬ Within state.quotaBytes
      (state.unlimited.opfsWrite toVec faults origin path bytes modified).2.opfs) :
    state.opfsWrite toVec faults origin path bytes modified = (.error .quotaExceeded, state) := by
  unfold opfsWrite unlimited at hover
  unfold opfsWrite
  dsimp only at *
  cases hroot : state.opfs origin.serialize with
  | none =>
    rw [hroot] at hover
    exact absurd h hover
  | some root =>
    rw [hroot] at hover
    dsimp only at *
    cases hlast : path.getLast? with
    | none =>
      rw [hlast] at hover
      exact absurd h hover
    | some name =>
      rw [hlast] at hover
      dsimp only at *
      cases hfound : opfsDirectory root path.dropLast with
      | error error =>
        rw [hfound] at hover
        exact absurd h hover
      | ok found =>
        rw [hfound] at hover
        dsimp only at *
        split at hover
        next file hfile =>
          have hmax : ¬ opfsDirectoryUsage (replaceAt root path.dropLast
              (found.insert name (.file { bytes, modified }))) > u64Max := by
            rw [opfsDirectoryUsage_eq]
            omega
          rw [if_neg hmax] at hover
          by_cases hquota : opfsDirectoryUsage (replaceAt root path.dropLast
              (found.insert name (.file { bytes, modified }))) > state.quotaBytes
          · rw [if_pos hquota]
          · exact absurd (Within.persist (h.update (Nat.le_of_not_gt hquota) _) h) hover
        next => exact absurd h hover
        next => exact absurd h hover

/-- What a call does for the quota: no origin is above it afterwards, and a call that
would bring one above it is refused and changes nothing. -/
structure Metered (toVec : OpfsTrees → Bytes) (faults : SaveFaults) (state : StorageState)
    (call : OpfsCall) : Prop where
  within : ∀ origin, (state.perform toVec faults call).2.opfsUsage origin ≤ state.quotaBytes
  refused : (∃ origin, state.quotaBytes <
      (state.unlimited.perform toVec faults call).2.opfsUsage origin) →
    (state.perform toVec faults call).1 = .error .quotaExceeded ∧
      (state.perform toVec faults call).2.opfs = state.opfs

theorem within_step (h : Within state.quotaBytes state.opfs) {call : OpfsCall}
    (hfits : Fits state.quotaBytes state call) :
    Within state.quotaBytes (state.perform toVec faults call).2.opfs := by
  cases call with
  | write origin path bytes modified => exact within_opfsWrite h path bytes modified
  | _ => exact within_perform h nofun hfits

theorem metered_of_fits (h : Within state.quotaBytes state.opfs) {call : OpfsCall}
    (hfits : Fits state.quotaBytes state call) : Metered toVec faults state call where
  within origin := (within_step h hfits).getD _
  refused := by
    rintro ⟨origin, hover⟩
    have hnot : ¬ Within state.quotaBytes (state.unlimited.perform toVec faults call).2.opfs :=
      fun hwithin => Nat.not_lt.mpr (hwithin.getD _) hover
    cases call with
    | write origin path bytes modified =>
      have hrefused := opfsWrite_refused h hnot
      exact ⟨congrArg Prod.fst hrefused, congrArg (fun outcome => outcome.2.opfs) hrefused⟩
    | _ =>
      have hunlimited : Within state.quotaBytes state.unlimited.opfs := h
      exact absurd (within_perform hunlimited (by nofun) hfits.unlimited) hnot

/-! ## Runs -/

/-- The state after a call, given what goes wrong with its save. -/
def after (toVec : OpfsTrees → Bytes) (state : StorageState) (call : SaveFaults × OpfsCall) :
    StorageState := (state.perform toVec call.1 call.2).2

/-- Along a run from empty storage whose calls fit, the quota is kept. -/
theorem run_metered (toVec : OpfsTrees → Bytes) {state : StorageState}
    (hempty : ∀ key, state.opfs key = none) (calls : List (SaveFaults × OpfsCall))
    (hfits : Run.Along (after toVec)
      (fun state call => Fits state.quotaBytes state call.2) state calls) :
    Run.Along (after toVec) (fun state call => Metered toVec call.1 state call.2) state calls ∧
      ∀ origin, (Run.run (after toVec) state calls).opfsUsage origin ≤ state.quotaBytes := by
  have hwithin : Within state.quotaBytes state.opfs := fun key root hroot => by
    rw [hempty key] at hroot
    cases hroot
  clear hempty
  induction calls generalizing state with
  | nil => exact ⟨trivial, fun origin => hwithin.getD _⟩
  | cons call calls ih =>
    have hquota := perform_quotaBytes toVec call.1 state call.2
    have hstep : Within (after toVec state call).quotaBytes (after toVec state call).opfs := by
      rw [after, hquota]
      exact within_step hwithin hfits.1
    obtain ⟨halong, hrun⟩ := ih hfits.2 hstep
    refine ⟨⟨metered_of_fits hwithin hfits.1, halong⟩, fun origin => ?_⟩
    rw [after, hquota] at hrun
    exact hrun origin

/-- Nothing is stored yet. -/
def emptyStorage (quotaBytes : Nat) : StorageState where
  quotaBytes := quotaBytes
  opfsPath := none
  opfs := fun _ => none
  opfsLocks := []
  disk := { saved := none, temporary := none }

/-- A handle of a file is made and the file is written. -/
def fileWritten : List (SaveFaults × OpfsCall) :=
  [(.none, .getHandle ⟨['a'], ['b'], 1⟩ [] ['f'] false true),
    (.none, .write ⟨['a'], ['b'], 1⟩ [['f']] [1, 2] 3)]

theorem run_metered_fileWritten :
    Run.Along (after fun _ => [])
        (fun state call => Fits state.quotaBytes state call.2) (emptyStorage 2) fileWritten ∧
      Run.Along (after fun _ => [])
        (fun state call => Metered (fun _ => []) call.1 state call.2) (emptyStorage 2) fileWritten := by
  have hfits : Run.Along (after fun _ => [])
      (fun state call => Fits state.quotaBytes state call.2) (emptyStorage 2) fileWritten := by
    refine ⟨fun _ _ found _ _ => ?_, trivial, trivial⟩
    show 0 + Text.utf8Len ['f'] ≤ 2
    decide
  exact ⟨hfits, (run_metered (fun _ => []) (fun _ => rfl) fileWritten hfits).1⟩

/-- A handle whose name is longer than the quota is made. -/
theorem handle_above_quota :
    ¬ Metered (fun _ => []) .none (emptyStorage 1)
      (.getHandle ⟨['a'], ['b'], 1⟩ [] ['f', 'g'] true true) := by
  intro h
  have hwithin := h.within ⟨['a'], ['b'], 1⟩
  have hopfs : ((emptyStorage 1).perform (fun _ => []) .none
      (.getHandle ⟨['a'], ['b'], 1⟩ [] ['f', 'g'] true true)).2.opfs =
      Function.update (Function.update (fun _ => none) (StorageOrigin.serialize ⟨['a'], ['b'], 1⟩)
        (some [])) (StorageOrigin.serialize ⟨['a'], ['b'], 1⟩)
        (some [(['f', 'g'], .directory [])]) := rfl
  rw [opfsUsage, hopfs, Function.update_self] at hwithin
  revert hwithin
  decide

end StorageState

end Omoikane.Js
