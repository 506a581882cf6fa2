import Omoikane.Base.Run
import Omoikane.Jit.StackMap

/-!
# The table of installed code

The installed pieces of code lie one after the other (`Installed`), a piece that
conflicts with one of them is rejected (`install_eq_ok_iff`), and an address
resolves to the safepoint of the piece that owns it (`lookup_iff`).
-/

namespace Omoikane.Jit

open Base

/-! ## Descriptors -/

/-- Validated safepoints are in order and inside the code. -/
theorem FrameLayout.validate_ok {layout : FrameLayout} {safepoints : List Safepoint}
    {previous : Option Nat} (h : layout.validate previous safepoints = .ok ()) :
    safepoints.Pairwise (fun a b => a.machineOffset < b.machineOffset) ∧
      ∀ safepoint ∈ safepoints, safepoint.machineOffset < layout.codeSize.toNat ∧
        ∀ offset ∈ previous, offset < safepoint.machineOffset := by
  induction safepoints generalizing previous with
  | nil => exact ⟨.nil, nofun⟩
  | cons safepoint safepoints ih =>
    unfold validate at h
    split at h
    · cases h
    next hbound =>
      split at h
      · cases h
      next horder =>
        split at h
        · cases h
        · obtain ⟨hpairwise, hrest⟩ := ih h
          have hprevious : ∀ offset ∈ previous, offset < safepoint.machineOffset := by
            rintro offset rfl
            simpa using horder
          refine ⟨List.pairwise_cons.mpr ⟨fun other hm => (hrest other hm).2 _ rfl, hpairwise⟩, ?_⟩
          intro other hm
          rcases List.mem_cons.mp hm with rfl | hm
          · exact ⟨Nat.lt_of_not_le hbound, hprevious⟩
          · refine ⟨(hrest other hm).1, fun offset hoffset => ?_⟩
            exact Nat.lt_trans (hprevious offset hoffset) ((hrest other hm).2 _ rfl)

namespace JitFrameDescriptor

variable {descriptor : JitFrameDescriptor}

theorem codeSize_pos : 0 < descriptor.codeSize := by
  refine Nat.pos_of_ne_zero fun h => descriptor.nonempty ?_
  exact UInt32.toNat.inj h

theorem codeSize_lt : descriptor.codeSize < 2 ^ 32 := descriptor.layout.codeSize.toNat_lt

theorem lt_codeSize {safepoint : Safepoint} (h : safepoint ∈ descriptor.safepoints) :
    safepoint.machineOffset < descriptor.codeSize :=
  ((FrameLayout.validate_ok descriptor.valid).2 safepoint h).1

/-- The safepoint at an offset. -/
theorem lookup_iff {offset : Nat} {safepoint : Safepoint} :
    descriptor.lookup offset = some safepoint ↔
      safepoint ∈ descriptor.safepoints ∧ safepoint.machineOffset = offset := by
  have hpairwise := (FrameLayout.validate_ok descriptor.valid).1
  unfold lookup
  generalize descriptor.safepoints = safepoints at hpairwise ⊢
  induction safepoints with
  | nil => exact ⟨nofun, nofun⟩
  | cons first safepoints ih =>
    obtain ⟨hfirst, hrest⟩ := List.pairwise_cons.mp hpairwise
    rw [List.find?_cons]
    by_cases hoffset : first.machineOffset = offset
    · rw [decide_eq_true hoffset]
      constructor
      · intro hsome
        cases hsome
        exact ⟨List.mem_cons_self .., hoffset⟩
      · rintro ⟨hm, hsame⟩
        rcases List.mem_cons.mp hm with rfl | hm
        · rfl
        · have hlt := hfirst safepoint hm
          rw [hoffset, hsame] at hlt
          exact absurd hlt (Nat.lt_irrefl _)
    · rw [decide_eq_false hoffset]
      refine (ih hrest).trans ⟨fun h => ⟨List.mem_cons_of_mem _ h.1, h.2⟩, ?_⟩
      rintro ⟨hm, hsame⟩
      rcases List.mem_cons.mp hm with rfl | hm
      · exact absurd hsame hoffset
      · exact ⟨hm, hsame⟩

end JitFrameDescriptor

/-! ## Installed code -/

theorem InstalledDescriptor.codeStart_lt (entry : InstalledDescriptor) :
    entry.codeStart < entry.codeEnd := Nat.lt_add_of_pos_right entry.descriptor.codeSize_pos

namespace JitPcTable

/-- The invariant of the table. -/
structure Installed (table : JitPcTable) : Prop where
  ordered : Ranges.Ordered InstalledDescriptor.codeStart InstalledDescriptor.codeEnd table
  bounded : ∀ entry ∈ table, entry.codeEnd < 2 ^ 64
  ids : table.Pairwise fun a b => a.descriptor.id ≠ b.descriptor.id

/-- A piece of code that cannot be installed. -/
def Conflicts (table : JitPcTable) (codeStart : Nat) (descriptor : JitFrameDescriptor) : Prop :=
  (∃ entry ∈ table, entry.descriptor.id = descriptor.id) ∨
    2 ^ 64 ≤ codeStart + descriptor.codeSize ∨
    ∃ entry ∈ table, codeStart < entry.codeEnd ∧ entry.codeStart < codeStart + descriptor.codeSize

variable {table next : JitPcTable} {codeStart : Nat} {descriptor : JitFrameDescriptor}

theorem Installed.nil : Installed [] := ⟨.nil, nofun, .nil⟩

theorem Installed.overlaps_iff (h : Installed table) {codeEnd : Nat} :
    table.any (overlaps codeStart codeEnd) = true ↔
      ∃ entry ∈ table, codeStart < entry.codeEnd ∧ entry.codeStart < codeEnd := by
  rw [List.any_eq_true]
  refine exists_congr fun entry => and_congr_right fun hm => ?_
  have hbounded := Nat.not_le.mpr (h.bounded entry hm)
  simp only [overlaps, Bool.or_eq_true, Bool.and_eq_true, decide_eq_true_eq]
  exact or_iff_right hbounded

/-- A piece of code is installed unless it conflicts. -/
theorem Installed.install_error_iff (h : Installed table) :
    (∃ error, install table codeStart descriptor = .error error) ↔
      Conflicts table codeStart descriptor := by
  unfold install Conflicts
  split
  next hid =>
    rw [List.any_eq_true] at hid
    obtain ⟨entry, hm, hsame⟩ := hid
    exact ⟨fun _ => Or.inl ⟨entry, hm, of_decide_eq_true hsame⟩, fun _ => ⟨_, rfl⟩⟩
  next hid =>
    have hfresh : ¬ ∃ entry ∈ table, entry.descriptor.id = descriptor.id := by
      rintro ⟨entry, hm, hsame⟩
      exact hid (List.any_eq_true.mpr ⟨entry, hm, decide_eq_true hsame⟩)
    split
    next hend => exact ⟨fun _ => Or.inr (Or.inl hend), fun _ => ⟨_, rfl⟩⟩
    next hend =>
      split
      next hoverlaps =>
        exact ⟨fun _ => Or.inr (Or.inr (h.overlaps_iff.mp hoverlaps)), fun _ => ⟨_, rfl⟩⟩
      next hoverlaps =>
        refine ⟨nofun, fun hconflict => ?_⟩
        rcases hconflict with hid | hbig | hoverlap
        · exact absurd hid hfresh
        · exact absurd hbig hend
        · exact absurd (h.overlaps_iff.mpr hoverlap) hoverlaps

/-- The table after a piece of code was installed. -/
theorem Installed.install_ok (h : Installed table)
    (hok : install table codeStart descriptor = .ok next) :
    Installed next ∧ ∀ entry, entry ∈ next ↔ entry ∈ table ∨ entry = ⟨codeStart, descriptor⟩ := by
  have hconflict : ¬ Conflicts table codeStart descriptor := by
    rw [← h.install_error_iff, hok]
    exact nofun
  unfold install at hok
  split at hok
  · cases hok
  split at hok
  · cases hok
  split at hok
  · cases hok
  cases hok
  obtain ⟨hids, hrest⟩ := not_or.mp hconflict
  obtain ⟨hend, hoverlaps⟩ := not_or.mp hrest
  have hperm := List.mergeSort_perm (table ++ [(⟨codeStart, descriptor⟩ : InstalledDescriptor)])
    fun a b => a.codeStart ≤ b.codeStart
  have hmem : ∀ entry, entry ∈ (table ++ [(⟨codeStart, descriptor⟩ : InstalledDescriptor)]).mergeSort
      (fun a b => a.codeStart ≤ b.codeStart) ↔ entry ∈ table ∨ entry = ⟨codeStart, descriptor⟩ := by
    intro entry
    rw [hperm.mem_iff, List.mem_append, List.mem_singleton]
  have hapart : (table ++ [(⟨codeStart, descriptor⟩ : InstalledDescriptor)]).Pairwise
      (Ranges.Apart InstalledDescriptor.codeStart InstalledDescriptor.codeEnd) := by
    refine List.pairwise_append.mpr ⟨h.ordered.imp Or.inl, List.pairwise_singleton .., ?_⟩
    intro entry hm other hother
    rw [List.mem_singleton.mp hother]
    rcases Nat.lt_or_ge codeStart entry.codeEnd with hlt | hge
    · exact Or.inr (Nat.le_of_not_lt fun hstart => hoverlaps ⟨entry, hm, hlt, hstart⟩)
    · exact Or.inl hge
  refine ⟨⟨Ranges.ordered_mergeSort (fun entry _ => entry.codeStart_lt) hapart, ?_, ?_⟩, hmem⟩
  · intro entry hm
    rcases (hmem entry).mp hm with hm | rfl
    · exact h.bounded entry hm
    · exact Nat.lt_of_not_le hend
  · refine (hperm.pairwise_iff fun hne => Ne.symm hne).mpr ?_
    refine List.pairwise_append.mpr ⟨h.ids, List.pairwise_singleton .., ?_⟩
    intro entry hm other hother
    rw [List.mem_singleton.mp hother]
    exact fun hsame => hids ⟨entry, hm, hsame⟩

/-- An address resolves to the safepoint of the piece of code that owns it. -/
theorem Installed.lookup_iff (h : Installed table) {machinePc : Nat} {found : JitPcLookup} :
    lookup table machinePc = some found ↔
      ∃ entry ∈ table, entry.codeStart ≤ machinePc ∧ machinePc < entry.codeEnd ∧
        found.descriptor = entry.descriptor ∧ found.safepoint ∈ entry.descriptor.safepoints ∧
        entry.codeStart + found.safepoint.machineOffset = machinePc := by
  have hbefore : ∀ entry, Ranges.before InstalledDescriptor.codeStart machinePc table = some entry ∧
      machinePc < entry.codeEnd ↔
        entry ∈ table ∧ entry.codeStart ≤ machinePc ∧ machinePc < entry.codeEnd :=
    fun _ => Ranges.before_iff h.ordered fun entry _ => entry.codeStart_lt
  unfold lookup
  constructor
  · split
    · exact nofun
    next entry hentry =>
      dsimp only
      split
      · exact nofun
      · split
        · exact nofun
        next safepoint hsafepoint =>
          intro hfound
          cases hfound
          obtain ⟨hm, hoffset⟩ := JitFrameDescriptor.lookup_iff.mp hsafepoint
          have hlt := JitFrameDescriptor.lt_codeSize hm
          have hle : entry.codeStart ≤ machinePc := by
            rw [Ranges.before_eq] at hentry
            exact of_decide_eq_true
              (List.all_eq_true.mp List.all_takeWhile entry (List.mem_of_getLast? hentry))
          have hstop : machinePc < entry.codeEnd := by
            unfold InstalledDescriptor.codeEnd
            omega
          obtain ⟨hmem, -, -⟩ := (hbefore entry).mp ⟨hentry, hstop⟩
          have hpc : entry.codeStart + safepoint.machineOffset = machinePc := by omega
          exact ⟨entry, hmem, hle, hstop, rfl, hm, hpc⟩
  · rintro ⟨entry, hmem, hle, hstop, hdescriptor, hm, hoffset⟩
    obtain ⟨hentry, -⟩ := (hbefore entry).mpr ⟨hmem, hle, hstop⟩
    have hsize := entry.descriptor.codeSize_lt
    have hlt := JitFrameDescriptor.lt_codeSize hm
    have hsmall : ¬ 2 ^ 32 ≤ machinePc - entry.codeStart := by omega
    have hlookup : entry.descriptor.lookup (machinePc - entry.codeStart) = some found.safepoint :=
      JitFrameDescriptor.lookup_iff.mpr ⟨hm, by omega⟩
    rw [hentry]
    dsimp only
    rw [if_neg hsmall, hlookup]
    dsimp only
    rw [← hdescriptor]

/-! ## Runs -/

/-- The table after an installation, which changes nothing where it is rejected. -/
def step (table : JitPcTable) (code : Nat × JitFrameDescriptor) : JitPcTable :=
  match install table code.1 code.2 with
  | .ok next => next
  | .error _ => table

theorem Installed.step (h : Installed table) (code : Nat × JitFrameDescriptor) :
    Installed (step table code) := by
  unfold JitPcTable.step
  split
  next hok => exact (h.install_ok hok).1
  · exact h

/-- A piece of code that conflicts changes nothing. -/
theorem Installed.step_of_conflicts (h : Installed table) {code : Nat × JitFrameDescriptor}
    (hconflict : Conflicts table code.1 code.2) : JitPcTable.step table code = table := by
  obtain ⟨error, herror⟩ := h.install_error_iff.mpr hconflict
  unfold JitPcTable.step
  rw [herror]

/-- The installed pieces of code are in order after any installations. -/
theorem installed_run (codes : List (Nat × JitFrameDescriptor)) :
    Installed (Run.run JitPcTable.step [] codes) :=
  Run.invariant (I := Installed) (fun _ code h => h.step code) codes .nil

end JitPcTable

end Omoikane.Jit
