import Omoikane.Base.Table

/-!
# Directories

A tree of named entries, each a directory or a file.  A path is the list of the
names that lead to an entry.  A tree is seen through `nodeAt`, which says what
stands at each path; the lemmas say what an edit of one directory does to that.
-/

namespace Base

namespace Directories

inductive Entry (ν φ : Type) where
  | directory (entries : List (ν × Entry ν φ))
  | file (file : φ)

/-- The entries of a directory. -/
abbrev Directory (ν φ : Type) := Table ν (Entry ν φ)

/-- What stands at a path, without what is below it. -/
inductive Node (φ : Type) where
  | directory
  | file (file : φ)
deriving DecidableEq

variable {ν φ : Type} [DecidableEq ν]

/-- The directory at a path. -/
def directoryAt : Directory ν φ → List ν → Option (Directory ν φ)
  | directory, [] => some directory
  | directory, name :: path =>
    match directory.get name with
    | some (.directory below) => directoryAt below path
    | _ => none

/-- What stands at a path. -/
def nodeAt : Directory ν φ → List ν → Option (Node φ)
  | _, [] => some .directory
  | directory, name :: path =>
    match directory.get name with
    | some (.directory below) => nodeAt below path
    | some (.file file) => if path = [] then some (.file file) else none
    | none => none

/-- The directory at a path is written anew. -/
def replaceAt : Directory ν φ → List ν → Directory ν φ → Directory ν φ
  | _, [], written => written
  | directory, name :: path, written =>
    match directory.get name with
    | some (.directory below) => directory.insert name (.directory (replaceAt below path written))
    | _ => directory

variable {directory found written : Directory ν φ} {parent path path' : List ν} {name : ν} {file : φ}

theorem nodeAt_cons (directory : Directory ν φ) (name : ν) (path : List ν) :
    nodeAt directory (name :: path) =
      match directory.get name with
      | some (.directory below) => nodeAt below path
      | some (.file file) => if path = [] then some (.file file) else none
      | none => none := rfl

theorem directoryAt_cons (directory : Directory ν φ) (name : ν) (path : List ν) :
    directoryAt directory (name :: path) =
      match directory.get name with
      | some (.directory below) => directoryAt below path
      | _ => none := rfl

theorem nodeAt_cons_directory {below : Directory ν φ}
    (h : directory.get name = some (.directory below)) (path : List ν) :
    nodeAt directory (name :: path) = nodeAt below path := by rw [nodeAt_cons, h]

theorem nodeAt_cons_none (h : directory.get name = none) (path : List ν) :
    nodeAt directory (name :: path) = none := by rw [nodeAt_cons, h]

theorem nodeAt_cons_file (h : directory.get name = some (.file file)) (path : List ν) :
    nodeAt directory (name :: path) = if path = [] then some (.file file) else none := by
  rw [nodeAt_cons, h]

theorem nodeAt_cons_congr (h : written.get name = directory.get name) (path : List ν) :
    nodeAt written (name :: path) = nodeAt directory (name :: path) := by
  rw [nodeAt_cons, nodeAt_cons, h]

/-- A directory is found where one stands. -/
theorem nodeAt_eq_directory_iff :
    nodeAt directory path = some .directory ↔ ∃ found, directoryAt directory path = some found := by
  induction path generalizing directory with
  | nil => exact ⟨fun _ => ⟨directory, rfl⟩, fun _ => rfl⟩
  | cons name path ih =>
    rw [nodeAt_cons, directoryAt_cons]
    cases directory.get name with
    | none => exact ⟨nofun, nofun⟩
    | some entry =>
      cases entry with
      | directory below => exact ih
      | file file =>
        refine ⟨fun h => ?_, nofun⟩
        dsimp only at h
        split at h <;> cases h

/-- What stands below a directory. -/
theorem nodeAt_append (h : directoryAt directory path = some found) (rest : List ν) :
    nodeAt directory (path ++ rest) = nodeAt found rest := by
  induction path generalizing directory with
  | nil =>
    cases h
    rfl
  | cons name path ih =>
    unfold directoryAt at h
    split at h
    next below hbelow =>
      rw [List.cons_append, nodeAt_cons_directory hbelow]
      exact ih h
    next => cases h

/-- Nothing stands below a file. -/
theorem nodeAt_below_file (h : nodeAt directory path = some (.file file)) (hfront : path <+: path')
    (hne : path' ≠ path) : nodeAt directory path' = none := by
  obtain ⟨rest, rfl⟩ := hfront
  have hrest : rest ≠ [] := by
    rintro rfl
    exact hne (List.append_nil path)
  induction path generalizing directory with
  | nil => cases h
  | cons name path ih =>
    rw [List.cons_append, nodeAt_cons]
    rw [nodeAt_cons] at h
    split at h
    · exact ih h fun heq => hrest (List.self_eq_append_right.mp heq.symm)
    · exact if_neg fun heq => hrest (List.append_eq_nil_iff.mp heq).2
    · rfl

/-- Nothing stands below nothing. -/
theorem nodeAt_below_none (h : nodeAt directory path = none) (hfront : path <+: path') :
    nodeAt directory path' = none := by
  obtain ⟨rest, rfl⟩ := hfront
  induction path generalizing directory with
  | nil => cases h
  | cons name path ih =>
    rw [List.cons_append, nodeAt_cons]
    rw [nodeAt_cons] at h
    split at h
    · exact ih h
    · split at h
      next => cases h
      next hne => exact if_neg fun heq => hne (List.append_eq_nil_iff.mp heq).1
    · rfl

/-! ## What an edit changes -/

/-- Below a directory that is written stands what was written. -/
theorem nodeAt_replaceAt_append (h : directoryAt directory path = some found)
    (written : Directory ν φ) (rest : List ν) :
    nodeAt (replaceAt directory path written) (path ++ rest) = nodeAt written rest := by
  induction path generalizing directory with
  | nil => rfl
  | cons name path ih =>
    unfold directoryAt at h
    unfold replaceAt
    split at h
    next below hbelow =>
      rw [List.cons_append, nodeAt_cons_directory (Table.get_insert_self ..)]
      exact ih h
    next => cases h

/-- Elsewhere nothing changes. -/
theorem nodeAt_replaceAt_elsewhere (directory : Directory ν φ) (written : Directory ν φ)
    (h : ¬ path <+: path') :
    nodeAt (replaceAt directory path written) path' = nodeAt directory path' := by
  induction path generalizing directory path' with
  | nil => exact absurd List.nil_prefix h
  | cons name path ih =>
    unfold replaceAt
    split
    next below hbelow =>
      cases path' with
      | nil => rfl
      | cons other path' =>
        by_cases hname : other = name
        · subst hname
          rw [nodeAt_cons_directory (Table.get_insert_self ..), nodeAt_cons_directory hbelow]
          exact ih below fun hfront => h (List.cons_prefix_cons.mpr ⟨rfl, hfront⟩)
        · exact nodeAt_cons_congr (Table.get_insert_of_ne _ hname _) path'
    next => rfl

/-- An entry of a directory is at the directory's path with its name. -/
theorem nodeAt_concat_file_iff :
    nodeAt directory (path ++ [name]) = some (.file file) ↔
      ∃ found, directoryAt directory path = some found ∧ found.get name = some (.file file) := by
  constructor
  · intro h
    have hdirectory : nodeAt directory path = some .directory := by
      cases hnode : nodeAt directory path with
      | none => exact absurd (nodeAt_below_none hnode (List.prefix_append path [name])) (by rw [h]; nofun)
      | some node =>
        cases node with
        | directory => rfl
        | file file' =>
          have hbelow := nodeAt_below_file hnode (List.prefix_append path [name]) (by simp)
          rw [hbelow] at h
          cases h
    obtain ⟨found, hfound⟩ := nodeAt_eq_directory_iff.mp hdirectory
    rw [nodeAt_append hfound, nodeAt_cons] at h
    refine ⟨found, hfound, ?_⟩
    split at h
    · cases h
    next file' hfile =>
      rw [if_pos rfl] at h
      cases h
      exact hfile
    · cases h
  · rintro ⟨found, hfound, hfile⟩
    rw [nodeAt_append hfound, nodeAt_cons_file hfile, if_pos rfl]

/-- A file is put into a directory. -/
theorem nodeAt_insert_file (h : directoryAt directory parent = some found) (name : ν) (file : φ)
    (path : List ν) :
    nodeAt (replaceAt directory parent (found.insert name (.file file))) path =
      if path = parent ++ [name] then some (.file file)
      else if parent ++ [name] <+: path then none
      else nodeAt directory path := by
  by_cases hparent : parent <+: path
  · obtain ⟨rest, rfl⟩ := hparent
    simp only [nodeAt_replaceAt_append h, nodeAt_append h, List.append_right_inj,
      List.prefix_append_right_inj]
    cases rest with
    | nil => rw [if_neg (by simp), if_neg (by simp)]; rfl
    | cons other rest =>
      by_cases hname : other = name
      · subst hname
        rw [nodeAt_cons_file (Table.get_insert_self ..),
          if_pos (List.cons_prefix_cons.mpr ⟨rfl, List.nil_prefix⟩)]
        simp only [List.cons.injEq, true_and]
      · rw [nodeAt_cons_congr (Table.get_insert_of_ne _ hname _),
          if_neg fun heq => hname (List.cons.inj heq).1,
          if_neg fun hfront => hname (List.cons_prefix_cons.mp hfront).1.symm]
  · have hlonger : ¬ parent ++ [name] <+: path := fun hfront =>
      hparent ((List.prefix_append parent [name]).trans hfront)
    have hne : path ≠ parent ++ [name] := by
      rintro rfl
      exact hparent (List.prefix_append parent [name])
    rw [nodeAt_replaceAt_elsewhere _ _ hparent, if_neg hne, if_neg hlonger]

/-- An entry is taken out of a directory. -/
theorem nodeAt_remove (h : directoryAt directory parent = some found) (name : ν) (path : List ν) :
    nodeAt (replaceAt directory parent (found.remove name)) path =
      if parent ++ [name] <+: path then none else nodeAt directory path := by
  by_cases hparent : parent <+: path
  · obtain ⟨rest, rfl⟩ := hparent
    simp only [nodeAt_replaceAt_append h, nodeAt_append h, List.prefix_append_right_inj]
    cases rest with
    | nil => rw [if_neg (by simp)]; rfl
    | cons other rest =>
      by_cases hname : other = name
      · subst hname
        rw [nodeAt_cons_none (Table.get_remove_self ..),
          if_pos (List.cons_prefix_cons.mpr ⟨rfl, List.nil_prefix⟩)]
      · rw [nodeAt_cons_congr (Table.get_remove_of_ne _ hname),
          if_neg fun hfront => hname (List.cons_prefix_cons.mp hfront).1.symm]
  · have hlonger : ¬ parent ++ [name] <+: path := fun hfront =>
      hparent ((List.prefix_append parent [name]).trans hfront)
    rw [nodeAt_replaceAt_elsewhere _ _ hparent, if_neg hlonger]

end Directories

end Base
