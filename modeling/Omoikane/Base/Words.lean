import Omoikane.Base.Text

/-!
# Words

The pieces of a text between separators, and its words, which are the pieces between white space that
are not empty.  `IsWord` says what a word is without splitting.  Occurrences of one text in another are
prefixes, suffixes and infixes of lists.
-/

namespace Base

namespace Text

variable {p : Char → Bool} {s piece pattern : Text}

/-- A text stands in another between separators, or at an end. -/
def Between (p : Char → Bool) (piece s : Text) : Prop :=
  ∃ before after, s = before ++ (piece ++ after) ∧ (∀ c ∈ before.getLast?, p c = true) ∧
    ∀ c ∈ after.head?, p c = true

theorem Between.self (p : Char → Bool) (s : Text) : Between p s s :=
  ⟨[], [], by simp, by simp, by simp⟩

/-- More text may stand in front of a separator. -/
theorem Between.prepend (h : Between p piece s) {c : Char} (hc : p c = true) (front : Text) :
    Between p piece (front ++ c :: s) := by
  obtain ⟨before, after, rfl, hbefore, hafter⟩ := h
  refine ⟨front ++ c :: before, after, by simp, fun d hd => ?_, hafter⟩
  rw [List.getLast?_append, List.getLast?_cons, Option.mem_def] at hd
  cases hlast : before.getLast? with
  | none =>
    rw [hlast] at hd
    rw [← Option.some.inj hd]
    exact hc
  | some last =>
    rw [hlast] at hd
    exact hbefore d (by rw [hlast]; exact hd)

/-- The pieces of a split are what stands between separators. -/
theorem mem_splitOnP : piece ∈ s.splitOnP p ↔ (∀ c ∈ piece, p c = false) ∧ Between p piece s := by
  constructor
  · intro hmem
    induction hlength : s.length using Nat.strong_induction_on generalizing s with
    | _ length ih =>
      cases hfind : s.find? p with
      | some c =>
        obtain ⟨hc, front, rest, rfl, hfront⟩ := List.find?_eq_some_iff_append.mp hfind
        have hnone : ∀ d ∈ front, p d = false := fun d hd => by simpa using hfront d hd
        rw [List.splitOnP_append_cons_of_forall_mem hnone c hc, List.mem_cons] at hmem
        rcases hmem with rfl | hmem
        · exact ⟨hnone, [], c :: rest, by simp, by simp, by simpa using hc⟩
        · obtain ⟨hpiece, hbetween⟩ := ih rest.length (by simp at hlength; omega) hmem rfl
          exact ⟨hpiece, hbetween.prepend hc front⟩
      | none =>
        have hnone : ∀ c ∈ s, p c = false := fun c hc =>
          Bool.eq_false_iff.mpr (List.find?_eq_none.mp hfind c hc)
        rw [List.splitOnP_eq_singleton hnone, List.mem_singleton] at hmem
        subst hmem
        exact ⟨hnone, .self p piece⟩
  · rintro ⟨hpiece, before, after, rfl, hbefore, hafter⟩
    have hrest : piece ∈ (piece ++ after).splitOnP p := by
      cases after with
      | nil => rw [List.append_nil, List.splitOnP_eq_singleton hpiece]; exact List.mem_singleton_self _
      | cons c after =>
        rw [List.splitOnP_append_cons _ _ (hafter c rfl), List.splitOnP_eq_singleton hpiece]
        exact List.mem_cons_self
    rcases List.eq_nil_or_concat before with rfl | ⟨front, c, rfl⟩
    · exact hrest
    · rw [List.concat_eq_append, List.append_assoc, List.singleton_append,
        List.splitOnP_append_cons _ _ (hbefore c (by simp))]
      exact List.mem_append_right _ hrest

/-- A word of a text: it has no white space, is not empty, and stands between white space. -/
structure IsWord (word s : Text) : Prop where
  ne_nil : word ≠ []
  solid : ∀ c ∈ word, isAsciiWhitespace c = false
  between : Between isAsciiWhitespace word s

theorem mem_splitAsciiWhitespace : piece ∈ splitAsciiWhitespace s ↔ IsWord piece s := by
  rw [splitAsciiWhitespace, List.mem_filter, mem_splitOnP]
  constructor
  · rintro ⟨⟨hsolid, hbetween⟩, hne⟩
    exact ⟨by rintro rfl; simp at hne, hsolid, hbetween⟩
  · rintro ⟨hne, hsolid, hbetween⟩
    refine ⟨⟨hsolid, hbetween⟩, ?_⟩
    cases piece with
    | nil => exact absurd rfl hne
    | cons => rfl

/-! ## White space in a text -/

/-- The text is white space. -/
def IsBlank (s : Text) : Prop := ∀ c ∈ s, isAsciiWhitespace c = true

/-- The text has no white space. -/
def IsSolid (s : Text) : Prop := ∀ c ∈ s, isAsciiWhitespace c = false

instance (s : Text) : Decidable (IsSolid s) := inferInstanceAs (Decidable (∀ c ∈ s, _))

theorem IsBlank.not_mem {c : Char} (h : IsBlank s) (hc : isAsciiWhitespace c = false) : c ∉ s :=
  fun hmem => by
    rw [h c hmem] at hc
    cases hc

/-- The text without its white space. -/
def squeeze (s : Text) : Text := s.filter fun c => !isAsciiWhitespace c

theorem isSolid_squeeze (s : Text) : IsSolid (squeeze s) := fun _ hc => by
  simpa using (List.mem_filter.mp hc).2

theorem IsSolid.squeeze_eq (h : IsSolid s) : squeeze s = s :=
  List.filter_eq_self.mpr fun c hc => by rw [h c hc]; rfl

@[simp] theorem IsBlank.squeeze_eq (h : IsBlank s) : squeeze s = [] :=
  List.filter_eq_nil_iff.mpr fun c hc => by rw [h c hc]; decide

@[simp] theorem squeeze_append (s piece : Text) :
    squeeze (s ++ piece) = squeeze s ++ squeeze piece := List.filter_append ..

theorem squeeze_cons {c : Char} (hc : isAsciiWhitespace c = false) (s : Text) :
    squeeze (c :: s) = c :: squeeze s := List.filter_cons_of_pos (by rw [hc]; rfl)

/-- A text that is both is empty. -/
theorem IsBlank.eq_nil (h : IsBlank s) (hsolid : IsSolid s) : s = [] := by
  cases s with
  | nil => rfl
  | cons c s => exact absurd List.mem_cons_self (h.not_mem (hsolid c List.mem_cons_self))

theorem isAsciiWhitespace_toLower (c : Char) :
    isAsciiWhitespace c.toLower = isAsciiWhitespace c := by
  rw [Bool.eq_iff_iff]
  simp only [isAsciiWhitespace, Bool.or_eq_true, beq_iff_eq, Char.toLower]
  split
  next h =>
    have hle := UInt32.le_iff_toNat_le.mp h.1
    have hge := UInt32.le_iff_toNat_le.mp h.2
    simp only [Char.ext_iff, UInt32.ext_iff, UInt32.toNat_add]
    simp at hle hge ⊢
    omega
  next => rfl

theorem isWhitespace_toLower (c : Char) : isWhitespace c.toLower = isWhitespace c := by
  rw [Bool.eq_iff_iff]
  simp only [isWhitespace, Bool.or_eq_true, Bool.and_eq_true, decide_eq_true_eq, beq_iff_eq,
    Char.toLower, Char.toNat]
  split
  next h =>
    have hle := UInt32.le_iff_toNat_le.mp h.1
    have hge := UInt32.le_iff_toNat_le.mp h.2
    simp only [UInt32.toNat_add]
    simp at hle hge ⊢
    omega
  next => rfl

/-- White space does not depend on the case. -/
theorem squeeze_toAsciiLowercase (s : Text) :
    squeeze (toAsciiLowercase s) = toAsciiLowercase (squeeze s) := by
  rw [squeeze, toAsciiLowercase, List.filter_map, toAsciiLowercase, squeeze]
  congr 2
  funext c
  rw [Function.comp_apply, isAsciiWhitespace_toLower]

/-! ## Occurrences -/

theorem startsWith_iff : startsWith s pattern = true ↔ pattern <+: s := List.isPrefixOf_iff_prefix

theorem endsWith_iff : endsWith s pattern = true ↔ pattern <:+ s := List.isSuffixOf_iff_suffix

/-- A text is found in another if it occurs in it. -/
theorem isSome_splitOnceText : (splitOnceText pattern s).isSome = true ↔ pattern <:+: s := by
  induction s with
  | nil =>
    rw [splitOnceText, List.infix_nil]
    split <;> simp_all
  | cons c s ih =>
    rw [splitOnceText, List.infix_cons_iff, ← ih, stripPrefix, ← startsWith_iff]
    cases startsWith (c :: s) pattern <;> simp

end Text

end Base
