import Omoikane.Base.Assignments
import Omoikane.Base.Bytes
import Omoikane.Jit.StackMap

/-!
# Registers after generated code

Generated code of the arithmetic tier leaves the registers of the interpreter alone.  It returns a payload and
a tag for each register: 0 for a register it has not written, 1 for a number, 2 for a boolean, and 3 for an
alias, whose payload is the register that has the value.  The registers are then written in one of two ways,
by a recipe (`reconstructDeopt`) or directly (`completedWriteBack`).  Both are the parallel assignment of what
the registers denote (`denoted`).
-/

namespace Omoikane.Jit

open Base Assignments

/-! ## Recipes -/

/-- How a location becomes a value of the interpreter. -/
inductive DeoptValueRepresentation where
  | tagged
  | safeInteger
  | boolean
  | nativeTagged
deriving DecidableEq, Repr

/-- What is read from the frame of generated code. -/
inductive DeoptSourceValue (V : Type) where
  | tagged (value : V)
  | safeInteger (value : Int)
  | boolean (value : Bool)
  | nativeTagged (value : Int) (isBoolean : Bool)
  | preserve
deriving DecidableEq, Repr

inductive DeoptMaterializationError where
  | missingSource (source : ValueLocation)
  | representationMismatch (source : ValueLocation)
  | destinationOutOfBounds (register : Nat)
deriving DecidableEq, Repr

/-- One register of the interpreter and where its value is. -/
structure DeoptMaterialization where
  destination : Nat
  source : ValueLocation
  representation : DeoptValueRepresentation
deriving DecidableEq, Repr

structure DeoptRecipe where
  bytecodeOffset : Nat
  materializations : List DeoptMaterialization
deriving DecidableEq, Repr

/-- Values of the interpreter: `JsValue::from` of a number and of a boolean. -/
structure JsValues (V : Type) where
  ofNumber : Int → V
  ofBoolean : Bool → V

section Registers

variable {V : Type} (js : JsValues V)

/-- The value that is written for what was read; `none` leaves the register. -/
def DeoptMaterialization.value (operation : DeoptMaterialization) :
    DeoptSourceValue V → Except DeoptMaterializationError (Option V)
  | .preserve => .ok none
  | source =>
    match operation.representation, source with
    | .tagged, .tagged value | .nativeTagged, .tagged value => .ok (some value)
    | .safeInteger, .safeInteger value => .ok (some (js.ofNumber value))
    | .boolean, .boolean value => .ok (some (js.ofBoolean value))
    | .nativeTagged, .nativeTagged value isBoolean =>
      .ok (some (if isBoolean then js.ofBoolean (value ≠ 0) else js.ofNumber value))
    | _, _ => .error (.representationMismatch operation.source)

/-- Writes the destinations one after the other. -/
def materialize (read : ValueLocation → Option (DeoptSourceValue V)) :
    List DeoptMaterialization → List V → Except DeoptMaterializationError (List V)
  | [], destinations => .ok destinations
  | operation :: operations, destinations =>
    if destinations.length ≤ operation.destination then .error (.destinationOutOfBounds operation.destination)
    else
      match read operation.source with
      | none => .error (.missingSource operation.source)
      | some source => do
        match ← operation.value js source with
        | none => materialize read operations destinations
        | some value => materialize read operations (destinations.set operation.destination value)

/-! ## Exits -/

/-- Code of the arithmetic tier: the registers of its function, the program counters it may leave at, and
whether it reads or writes properties. -/
structure ArithmeticCode where
  registerCount : Nat
  recipePcs : List Nat
  hasProperties : Bool
deriving DecidableEq, Repr

/-- The recipe of a program counter: every register from its own place in the frame. -/
def ArithmeticCode.deoptRecipe (code : ArithmeticCode) (pc : Nat) : Option DeoptRecipe :=
  if pc ∈ code.recipePcs then
    some {
      bytecodeOffset := pc
      materializations := (List.range code.registerCount).map fun register =>
        { destination := register, source := .frameRegister register, representation := .nativeTagged } }
  else none

/-- An exit of generated code: the payloads and tags of the frame, which has a place for each register. -/
structure Exit where
  values : List (Option Int)
  writeKinds : List Nat
deriving DecidableEq, Repr

/-- An `i64` as `usize`. -/
def asUsize (value : Int) : Nat := if 0 ≤ value then value.toNat else (value + 2 ^ 64).toNat

/-- What a recipe reads at a location; `none` where the code panics. -/
def Exit.source (exit : Exit) (registers : List V) : ValueLocation → Option (DeoptSourceValue V)
  | .frameRegister source => do
    let value ← exit.values[source]?
    match ← exit.writeKinds[source]? with
    | 0 => some .preserve
    | 1 => value.map fun value => .nativeTagged value false
    | 2 => value.map fun value => .nativeTagged value true
    | 3 => do
      let value ← value
      let shared ← registers[asUsize value]?
      return .tagged shared
    | _ => none
  | _ => none

/-- `reconstruct_deopt`: the registers and the program counter behind it; `none` where it panics. -/
def reconstructDeopt (code : ArithmeticCode) (registers : List V) (exit : Exit) (pc : Nat) : Option (List V × Nat) := do
  let recipe ← code.deoptRecipe pc
  match materialize js (exit.source registers) recipe.materializations registers with
  | .error _ => none
  | .ok reconstructed => some (assign (reconstructed.zipIdx.map Prod.swap) registers, recipe.bytecodeOffset)

/-- The tags of the registers, with their numbers. -/
def Exit.entries (exit : Exit) (registerCount : Nat) : List (Nat × Option Int × Nat) :=
  ((exit.values.zip exit.writeKinds).take registerCount).zipIdx.map Prod.swap

/-- `snapshot_completed_aliases`: the aliases with what they are to get. -/
def snapshotCompletedAliases (registers : List V) :
    List (Nat × Option Int × Nat) → Option (List (Nat × V))
  | [] => some []
  | (index, value, kind) :: entries =>
    if kind ≠ 3 then snapshotCompletedAliases registers entries
    else do
      let value ← value
      let source ← registers[asUsize value]?
      let aliases ← snapshotCompletedAliases registers entries
      return (index, source) :: aliases

/-- The scalar that is written for a tag: nothing for `some none`, and a panic for `none`. -/
def scalarOf : Option Int × Nat → Option (Option V)
  | (some value, 1) => some (some (js.ofNumber value))
  | (some value, 2) => some (some (js.ofBoolean (value ≠ 0)))
  | (some _, 3) | (_, 0) => some none
  | _ => none

/-- Writes the numbers and booleans. -/
def writeScalars : List (Nat × Option Int × Nat) → List V → Option (List V)
  | [], registers => some registers
  | (index, tag) :: entries, registers => do
    match ← scalarOf js tag with
    | none => writeScalars entries registers
    | some value => writeScalars entries (registers.set index value)

/-- Code without properties has no aliases, and the tags are not looked at for them. -/
def completedAliases (hasProperties : Bool) (registers : List V) (entries : List (Nat × Option Int × Nat)) :
    Option (List (Nat × V)) :=
  if hasProperties then snapshotCompletedAliases registers entries else some []

/-- Writes tagged registers, the aliases last; `none` where the code panics. -/
def writeBack (hasProperties : Bool) (registers : List V) (entries : List (Nat × Option Int × Nat)) :
    Option (List V) := do
  let aliases ← completedAliases hasProperties registers entries
  let written ← writeScalars js entries registers
  return assign aliases written

/-- The registers behind a completed loop. -/
def completedWriteBack (code : ArithmeticCode) (registers : List V) (exit : Exit) : Option (List V) :=
  writeBack js code.hasProperties registers (exit.entries code.registerCount)

/-! ## What registers denote -/

/-- A tag that generated code writes.  Aliases come from the objects of properties. -/
def IsTag (code : ArithmeticCode) : Option Int × Nat → Prop
  | (value, kind) => kind = 0 ∨ ((kind = 1 ∨ kind = 2) ∧ value.isSome = true) ∨
      (kind = 3 ∧ code.hasProperties = true ∧ ∃ source < code.registerCount, value = some (source : Int))

/-- The exits of generated code, at a frame of the interpreter. -/
structure IsExit (code : ArithmeticCode) (registers : List V) (exit : Exit) : Prop where
  frame : registers.length = code.registerCount
  lengths : exit.values.length = exit.writeKinds.length
  room : code.registerCount ≤ exit.values.length
  tags : ∀ tag ∈ (exit.values.zip exit.writeKinds).take code.registerCount, IsTag code tag

/-- What is written for a tag, with aliases read from the registers at the entry. -/
def tagValue (registers : List V) : Option Int × Nat → Option V
  | (some value, 1) => some (js.ofNumber value)
  | (some value, 2) => some (js.ofBoolean (value ≠ 0))
  | (some value, 3) => registers[asUsize value]?
  | _ => none

/-- The value of a register at an exit. -/
def denoted (registers : List V) (exit : Exit) (register : Nat) : Option V :=
  ((exit.values.zip exit.writeKinds)[register]?.bind (tagValue js registers)).or registers[register]?

/-- The assignment to a tagged register. -/
def writeOf (registers : List V) (entry : Nat × Option Int × Nat) : Option (Nat × V) :=
  (tagValue js registers entry.2).map fun value => (entry.1, value)

/-! ## Completed loops -/

theorem asUsize_natCast (n : Nat) : asUsize (n : Int) = n := by
  rw [asUsize, if_pos (Int.natCast_nonneg n), Int.toNat_natCast]

/-- The part of an assignment that `writeScalars` makes. -/
def scalarWrite (entry : Nat × Option Int × Nat) : Option (Nat × V) :=
  (scalarOf js entry.2).join.map fun value => (entry.1, value)

/-- The part of an assignment that is an alias. -/
def aliasWrite (registers : List V) (entry : Nat × Option Int × Nat) : Option (Nat × V) :=
  if entry.2.2 = 3 then writeOf js registers entry else none

variable {js} {code : ArithmeticCode} {registers : List V}

theorem scalarOf_isSome {tag : Option Int × Nat} (h : IsTag code tag) : ∃ scalar, scalarOf js tag = some scalar := by
  obtain ⟨value, kind⟩ := tag
  rcases h with rfl | ⟨hkind, hsome⟩ | ⟨rfl, -, source, -, rfl⟩
  · exact ⟨none, by cases value <;> rfl⟩
  · obtain ⟨value, rfl⟩ := Option.isSome_iff_exists.mp hsome
    rcases hkind with rfl | rfl
    · exact ⟨_, rfl⟩
    · exact ⟨_, rfl⟩
  · exact ⟨none, rfl⟩

theorem writeScalars_eq : ∀ {entries : List (Nat × Option Int × Nat)} (registers : List V),
    (∀ entry ∈ entries, IsTag code entry.2) →
    writeScalars js entries registers = some (assign (entries.filterMap (scalarWrite js)) registers)
  | [], _, _ => rfl
  | entry :: entries, registers, h => by
    obtain ⟨scalar, hscalar⟩ := @scalarOf_isSome _ js _ _ (h entry List.mem_cons_self)
    have hrest := fun registers => writeScalars_eq registers fun other hother => h other (List.mem_cons_of_mem _ hother)
    rw [writeScalars, hscalar]
    cases scalar with
    | none =>
      rw [List.filterMap_cons_none (by rw [scalarWrite, hscalar]; rfl)]
      exact hrest registers
    | some value =>
      rw [List.filterMap_cons_some (by rw [scalarWrite, hscalar]; rfl), assign_cons]
      exact hrest _

theorem snapshotCompletedAliases_eq (hframe : registers.length = code.registerCount) :
    ∀ {entries : List (Nat × Option Int × Nat)}, (∀ entry ∈ entries, IsTag code entry.2) →
    snapshotCompletedAliases registers entries = some (entries.filterMap (aliasWrite js registers))
  | [], _ => rfl
  | (index, value, kind) :: entries, h => by
    have hrest := snapshotCompletedAliases_eq hframe fun other hother => h other (List.mem_cons_of_mem _ hother)
    rw [snapshotCompletedAliases]
    by_cases hkind : kind = 3
    · subst hkind
      obtain hzero | ⟨hone | htwo, -⟩ | ⟨-, -, source, hsource, rfl⟩ := h _ List.mem_cons_self
      · cases hzero
      · cases hone
      · cases htwo
      · have hread : registers[asUsize (source : Int)]? = some registers[source] := by
          rw [asUsize_natCast]
          exact List.getElem?_eq_getElem _
        have hwrite : aliasWrite js registers (index, some (source : Int), 3) =
            some (index, registers[source]) := by
          rw [aliasWrite, if_pos rfl, writeOf, tagValue, hread]
          rfl
        rw [if_neg (fun hne => hne rfl), hrest, List.filterMap_cons_some hwrite, Option.bind_eq_bind,
          Option.bind_some, hread]
        rfl
    · have hwrite : aliasWrite js registers (index, value, kind) = none := if_neg hkind
      rw [if_pos hkind, List.filterMap_cons_none hwrite]
      exact hrest

/-- A tag is written as a scalar or as an alias, and not as both. -/
theorem writeOf_eq {entry : Nat × Option Int × Nat} (h : IsTag code entry.2) :
    writeOf js registers entry = (scalarWrite js entry).or (aliasWrite js registers entry) ∧
      (scalarWrite js entry = none ∨ aliasWrite js registers entry = none) := by
  obtain ⟨index, value, kind⟩ := entry
  rcases h with rfl | ⟨rfl | rfl, hsome⟩ | ⟨rfl, -, source, -, rfl⟩
  · cases value with
    | none => exact ⟨rfl, .inl rfl⟩
    | some value => exact ⟨rfl, .inl rfl⟩
  · obtain ⟨value, rfl⟩ := Option.isSome_iff_exists.mp hsome
    exact ⟨rfl, .inr rfl⟩
  · obtain ⟨value, rfl⟩ := Option.isSome_iff_exists.mp hsome
    exact ⟨rfl, .inr rfl⟩
  · exact ⟨rfl, .inl rfl⟩

/-- Tagged registers are written like a parallel assignment. -/
theorem writeBack_eq (hframe : registers.length = code.registerCount) {entries : List (Nat × Option Int × Nat)}
    (htags : ∀ entry ∈ entries, IsTag code entry.2) (hdistinct : (entries.map Prod.fst).Nodup) :
    writeBack js code.hasProperties registers entries =
      some (assign (entries.filterMap (writeOf js registers)) registers) := by
  have haliases : completedAliases code.hasProperties registers entries =
      some (entries.filterMap (aliasWrite js registers)) := by
    rw [completedAliases]
    split
    next => exact snapshotCompletedAliases_eq hframe htags
    next hnone =>
      refine congrArg some (List.filterMap_eq_nil_iff.mpr fun entry hentry => if_neg fun hkind => hnone ?_).symm
      rcases htags entry hentry with hzero | ⟨hone | htwo, -⟩ | ⟨-, hsome, -⟩
      · exact absurd (hzero.symm.trans hkind) (by decide)
      · exact absurd (hone.symm.trans hkind) (by decide)
      · exact absurd (htwo.symm.trans hkind) (by decide)
      · exact hsome
  have hwrites : entries.filterMap (writeOf js registers) =
      entries.filterMap fun entry => (scalarWrite js entry).or (aliasWrite js registers entry) :=
    List.filterMap_congr fun entry hentry => (writeOf_eq (htags entry hentry)).1
  have hperm := @filterMap_append_perm _ _ (scalarWrite js) (aliasWrite js registers) entries
    fun entry hentry => (writeOf_eq (htags entry hentry)).2
  rw [← hwrites] at hperm
  have hnodup : ((entries.filterMap (writeOf js registers)).map Prod.fst).Nodup := by
    refine nodup_filterMap hdistinct fun entry write hwrite => ?_
    obtain ⟨value, -, rfl⟩ := Option.map_eq_some_iff.mp hwrite
    rfl
  rw [writeBack, haliases, writeScalars_eq registers htags, ← assign_perm hperm, assign_append]
  · rfl
  · exact (hperm.map Prod.fst).nodup_iff.mpr hnodup

/-! ## Recipes -/

/-- The recipe of a register. -/
def recipeOf (register : Nat) : DeoptMaterialization where
  destination := register
  source := .frameRegister register
  representation := .nativeTagged

/-- What a recipe writes for a tagged register. -/
theorem value_source {exit : Exit} (hframe : registers.length = code.registerCount)
    {entry : Nat × Option Int × Nat} (htag : IsTag code entry.2)
    (hentry : (exit.values.zip exit.writeKinds)[entry.1]? = some entry.2) :
    ∃ source, exit.source registers (.frameRegister entry.1) = some source ∧
      (recipeOf entry.1).value js source = .ok (tagValue js registers entry.2) := by
  obtain ⟨index, value, kind⟩ := entry
  obtain ⟨hvalue, hkind⟩ := List.getElem?_zip_eq_some.mp hentry
  rw [Exit.source]
  dsimp only at hvalue hkind ⊢
  rw [hvalue, hkind]
  rcases htag with rfl | ⟨rfl | rfl, hsome⟩ | ⟨rfl, -, source, hsource, rfl⟩
  · refine ⟨.preserve, rfl, ?_⟩
    cases value with
    | none => rfl
    | some value => rfl
  · obtain ⟨value, rfl⟩ := Option.isSome_iff_exists.mp hsome
    exact ⟨.nativeTagged value false, rfl, rfl⟩
  · obtain ⟨value, rfl⟩ := Option.isSome_iff_exists.mp hsome
    exact ⟨.nativeTagged value true, rfl, rfl⟩
  · rw [← hframe] at hsource
    have hshared : registers[asUsize (source : Int)]? = some registers[source] := by
      rw [asUsize_natCast, List.getElem?_eq_getElem hsource]
    refine ⟨.tagged registers[source], ?_, ?_⟩
    · show (registers[asUsize (source : Int)]?.bind fun shared => some (DeoptSourceValue.tagged shared)) = _
      rw [hshared]
      rfl
    · rw [tagValue, hshared]
      rfl

/-- Recipes of registers are applied like a parallel assignment. -/
theorem materialize_eq {exit : Exit} (hframe : registers.length = code.registerCount) :
    ∀ {entries : List (Nat × Option Int × Nat)} {destinations : List V},
    (∀ entry ∈ entries, IsTag code entry.2 ∧ (exit.values.zip exit.writeKinds)[entry.1]? = some entry.2 ∧
      entry.1 < destinations.length) →
    materialize js (exit.source registers) (entries.map fun entry => recipeOf entry.1) destinations =
      .ok (assign (entries.filterMap (writeOf js registers)) destinations)
  | [], _, _ => rfl
  | entry :: entries, destinations, h => by
    obtain ⟨htag, hentry, hplace⟩ := h entry List.mem_cons_self
    obtain ⟨source, hsource, hvalue⟩ := @value_source _ js _ _ _ hframe entry htag hentry
    have hrest := fun value => @materialize_eq exit hframe entries (destinations.set entry.1 value)
      fun other hother => by
        obtain ⟨htag, hentry, hplace⟩ := h other (List.mem_cons_of_mem entry hother)
        exact ⟨htag, hentry, by rw [List.length_set]; exact hplace⟩
    have hinside : ¬ destinations.length ≤ (recipeOf entry.1).destination := Nat.not_le.mpr hplace
    have hread : exit.source registers (recipeOf entry.1).source = some source := hsource
    rw [List.map_cons, materialize, if_neg hinside, hread]
    dsimp only
    rw [hvalue, ok_bind]
    cases hwritten : tagValue js registers entry.2 with
    | none =>
      rw [List.filterMap_cons_none (by rw [writeOf, hwritten]; rfl)]
      exact materialize_eq hframe fun other hother => h other (List.mem_cons_of_mem entry hother)
    | some value =>
      rw [List.filterMap_cons_some (by rw [writeOf, hwritten]; rfl), assign_cons]
      exact hrest value

/-! ## Exits -/

theorem zipIdx_swap_keys {α : Type} (l : List α) : (l.zipIdx.map Prod.swap).map Prod.fst = List.range l.length := by
  rw [List.map_map, List.range_eq_range']
  exact List.zipIdx_map_snd 0 l

/-- Writing all registers of a frame leaves what was written. -/
theorem assign_zipIdx {written registers : List V} (h : written.length = registers.length) :
    assign (written.zipIdx.map Prod.swap) registers = written := by
  have hnodup : ((written.zipIdx.map Prod.swap).map Prod.fst).Nodup := by
    rw [zipIdx_swap_keys]
    exact List.nodup_range
  refine List.ext_getElem? fun register => ?_
  rcases Nat.lt_or_ge register written.length with hlt | hge
  · rw [List.getElem?_eq_getElem hlt]
    refine getElem?_assign hnodup (List.mem_map.mpr ⟨(written[register], register), ?_, rfl⟩) (h ▸ hlt)
    exact List.mk_mem_zipIdx_iff_getElem?.mpr (List.getElem?_eq_getElem hlt)
  · rw [List.getElem?_eq_none (by rw [length_assign, ← h]; exact hge), List.getElem?_eq_none hge]

namespace IsExit

variable {exit : Exit}

theorem entries_keys (h : IsExit code registers exit) :
    (exit.entries code.registerCount).map Prod.fst = List.range code.registerCount := by
  have hlengths := h.lengths
  have hroom := h.room
  rw [Exit.entries, zipIdx_swap_keys, List.length_take, List.length_zip]
  congr 1
  omega

theorem entry_spec (h : IsExit code registers exit) {entry : Nat × Option Int × Nat}
    (hentry : entry ∈ exit.entries code.registerCount) :
    IsTag code entry.2 ∧ (exit.values.zip exit.writeKinds)[entry.1]? = some entry.2 ∧ entry.1 < registers.length := by
  have hkey : entry.1 < code.registerCount := by
    rw [← List.mem_range, ← h.entries_keys]
    exact List.mem_map_of_mem hentry
  obtain ⟨⟨tag, index⟩, hindexed, rfl⟩ := List.mem_map.mp hentry
  have hget := List.mk_mem_zipIdx_iff_getElem?.mp hindexed
  refine ⟨h.tags tag (List.mem_of_getElem? hget), ?_, h.frame ▸ hkey⟩
  have hinside : index < code.registerCount := hkey
  rw [List.getElem?_take_of_lt hinside] at hget
  exact hget

theorem exists_entry (h : IsExit code registers exit) {register : Nat} (hregister : register < registers.length) :
    ∃ tag, (register, tag) ∈ exit.entries code.registerCount ∧
      (exit.values.zip exit.writeKinds)[register]? = some tag := by
  have hmem : register ∈ (exit.entries code.registerCount).map Prod.fst := by
    rw [h.entries_keys, List.mem_range, ← h.frame]
    exact hregister
  obtain ⟨⟨index, tag⟩, hentry, rfl⟩ := List.mem_map.mp hmem
  exact ⟨tag, hentry, (h.entry_spec hentry).2.1⟩

end IsExit

variable (js) in
/-- At an exit every register gets what it denotes, in whatever order the registers are written: when the loop is
completed, and through the recipe of the program counter. -/
theorem exit_restores {exit : Exit} {pc : Nat} (h : IsExit code registers exit) (hpc : pc ∈ code.recipePcs) :
    ∃ result, completedWriteBack js code registers exit = some result ∧
      reconstructDeopt js code registers exit pc = some (result, pc) ∧ result.length = registers.length ∧
      (∀ register < registers.length, result[register]? = denoted js registers exit register) ∧
      ∀ entries, entries.Perm (exit.entries code.registerCount) →
        writeBack js code.hasProperties registers entries = some result ∧
          materialize js (exit.source registers) (entries.map fun entry => recipeOf entry.1) registers = .ok result := by
  have hdistinct : ((exit.entries code.registerCount).map Prod.fst).Nodup := by
    rw [h.entries_keys]
    exact List.nodup_range
  have hwrites {entry : Nat × Option Int × Nat} {write : Nat × V} (hwrite : writeOf js registers entry = some write) :
      write.1 = entry.1 := by
    obtain ⟨value, -, rfl⟩ := Option.map_eq_some_iff.mp hwrite
    rfl
  have hnodup := nodup_filterMap hdistinct fun entry write (hwrite : writeOf js registers entry = some write) =>
    hwrites hwrite
  have hordered : ∀ entries, entries.Perm (exit.entries code.registerCount) →
      writeBack js code.hasProperties registers entries =
          some (assign ((exit.entries code.registerCount).filterMap (writeOf js registers)) registers) ∧
        materialize js (exit.source registers) (entries.map fun entry => recipeOf entry.1) registers =
          .ok (assign ((exit.entries code.registerCount).filterMap (writeOf js registers)) registers) := by
    intro entries hperm
    have hentries {entry : Nat × Option Int × Nat} (hentry : entry ∈ entries) := h.entry_spec (hperm.mem_iff.mp hentry)
    rw [assign_perm (hperm.symm.filterMap (writeOf js registers)) hnodup]
    refine ⟨writeBack_eq h.frame (fun entry hentry => (hentries hentry).1) ?_,
      materialize_eq h.frame fun entry hentry => hentries hentry⟩
    exact (hperm.map Prod.fst).nodup_iff.mpr hdistinct
  obtain ⟨hcompleted, hmaterialized⟩ := hordered _ (List.Perm.refl _)
  refine ⟨_, hcompleted, ?_, length_assign _ _, fun register hregister => ?_, hordered⟩
  · have hrecipes : (List.range code.registerCount).map recipeOf =
        (exit.entries code.registerCount).map fun entry => recipeOf entry.1 := by
      rw [← h.entries_keys, List.map_map]
      rfl
    rw [reconstructDeopt, ArithmeticCode.deoptRecipe, if_pos hpc]
    show (match materialize js (exit.source registers) ((List.range code.registerCount).map recipeOf) registers with
      | .error _ => none
      | .ok reconstructed => some (assign (reconstructed.zipIdx.map Prod.swap) registers, pc)) = _
    rw [hrecipes, hmaterialized]
    exact congrArg (fun registers => some (registers, pc)) (assign_zipIdx (length_assign _ _))
  · obtain ⟨tag, hentry, htag⟩ := h.exists_entry hregister
    rw [denoted, htag, Option.bind_some]
    cases hvalue : tagValue js registers tag with
    | none =>
      rw [Option.none_or]
      refine getElem?_assign_of_not_mem _ fun hmem => ?_
      obtain ⟨write, hwrite, heq⟩ := List.mem_map.mp hmem
      obtain ⟨entry, hother, hsome⟩ := List.mem_filterMap.mp hwrite
      have hsame := (h.entry_spec hother).2.1
      rw [← hwrites hsome, heq, htag, Option.some_inj] at hsame
      rw [writeOf, ← hsame, hvalue] at hsome
      cases hsome
    | some value =>
      rw [Option.some_or]
      refine getElem?_assign hnodup (List.mem_filterMap.mpr ⟨(register, tag), hentry, ?_⟩) hregister
      rw [writeOf, hvalue]
      rfl

end Registers

/-- Two registers are swapped by aliases, and a third gets a number. -/
theorem exit_restores_swapped :
    let js : JsValues Int := { ofNumber := id, ofBoolean := fun b => if b then 1 else 0 }
    let code : ArithmeticCode := { registerCount := 3, recipePcs := [12], hasProperties := true }
    let exit : Exit := { values := [some 1, some 0, some 7], writeKinds := [3, 3, 1] }
    completedWriteBack js code [10, 20, 30] exit = some [20, 10, 7] ∧
      reconstructDeopt js code [10, 20, 30] exit 12 = some ([20, 10, 7], 12) := by
  intro js code exit
  have hexit : IsExit code ([10, 20, 30] : List Int) exit := by
    refine ⟨rfl, rfl, Nat.le_refl _, ?_⟩
    show ∀ tag ∈ [(some (1 : Int), 3), (some 0, 3), (some 7, 1)], IsTag code tag
    rw [List.forall_mem_cons, List.forall_mem_cons, List.forall_mem_singleton]
    exact ⟨.inr (.inr ⟨rfl, rfl, 1, by decide, rfl⟩), .inr (.inr ⟨rfl, rfl, 0, by decide, rfl⟩),
      .inr (.inl ⟨.inl rfl, rfl⟩)⟩
  obtain ⟨result, hcompleted, hrestored, -⟩ :=
    @exit_restores _ js code _ exit 12 hexit (by decide)
  obtain rfl : [20, 10, 7] = result := Option.some_inj.mp hcompleted
  exact ⟨hcompleted, hrestored⟩

end Omoikane.Jit
