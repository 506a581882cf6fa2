import Omoikane.Http.HpackRoundTrip

/-!
# Header blocks from a server

*Outcomes.*  Each part of the decoder gives a value, an overflow, or
`InvalidHeader`.  An `Outcome` says for which bytes it gives which, in terms of
the format alone.

*Integers.*  Nine groups fill the type but for one bit, so an integer overflows
when its tenth group sets that bit against a carry, or when an eleventh group
follows (`TooLong`).

*Blocks.*  A block makes the decoder overflow exactly when, after some fields, an
integer is too long, or a string ends past the type (`Overflows`).  On every
other block it reads fields up to the end of the block, or rejects it
(`decodeHeaderBlock_total_iff`).
-/

namespace Omoikane.Http

open Base

/-! ## Outcomes -/

/-- A result is a value that is `Good`, an overflow when `Bad`, or `InvalidHeader`. -/
structure Outcome {α : Type} (result : Except Http2Error α) (Good : α → Prop) (Bad : Prop) :
    Prop where
  ok : ∀ a, result = .ok a ↔ Good a
  overflow : result = .error .overflow ↔ Bad
  error : ∀ error, result = .error error → error = .overflow ∨ error = .http .invalidHeader

section

variable {α β : Type} {result : Except Http2Error α} {Good Good' : α → Prop} {Bad Bad' : Prop}

/-- An outcome from what the good and the bad bytes give, when all others are rejected. -/
theorem Outcome.of_cases (hok : ∀ a, Good a → result = .ok a)
    (hoverflow : Bad → result = .error .overflow)
    (hcases : (∃ a, Good a) ∨ Bad ∨ result = .error (.http .invalidHeader)) :
    Outcome result Good Bad := by
  refine ⟨fun a => ⟨fun h => ?_, hok a⟩, ⟨fun h => ?_, hoverflow⟩, fun error h => ?_⟩
  · rcases hcases with ⟨b, hb⟩ | hb | hb
    · rw [hok b hb] at h
      cases h
      exact hb
    · rw [hoverflow hb] at h
      cases h
    · rw [hb] at h
      cases h
  · rcases hcases with ⟨b, hb⟩ | hb | hb
    · rw [hok b hb] at h
      cases h
    · exact hb
    · rw [hb] at h
      cases h
  · rcases hcases with ⟨b, hb⟩ | hb | hb
    · rw [hok b hb] at h
      cases h
    · rw [hoverflow hb] at h
      cases h
      exact .inl rfl
    · rw [hb] at h
      cases h
      exact .inr rfl

theorem Outcome.congr (h : Outcome result Good Bad) (hgood : ∀ a, Good a ↔ Good' a)
    (hbad : Bad ↔ Bad') : Outcome result Good' Bad' :=
  ⟨fun a => (h.ok a).trans (hgood a), h.overflow.trans hbad, h.error⟩

theorem Outcome.invalid :
    Outcome (.error (.http .invalidHeader) : Except Http2Error α) (fun _ => False) False :=
  .of_cases (fun _ h => h.elim) (fun h => h.elim) (.inr (.inr rfl))

theorem Outcome.pure (a : α) : Outcome (.ok a) (fun b => b = a) False :=
  .of_cases (fun _ h => by rw [h]) (fun h => h.elim) (.inl ⟨a, rfl⟩)

/-- One part after another. -/
theorem Outcome.bind {f : α → Except Http2Error β} (h : Outcome result Good Bad)
    (Next : α → β → Prop) (Fails : α → Prop)
    (hf : ∀ a, Good a → Outcome (f a) (Next a) (Fails a)) :
    Outcome (result >>= f) (fun b => ∃ a, Good a ∧ Next a b) (Bad ∨ ∃ a, Good a ∧ Fails a) := by
  refine .of_cases ?_ ?_ ?_
  · rintro b ⟨a, ha, hb⟩
    rw [(h.ok a).mpr ha, ok_bind]
    exact ((hf a ha).ok b).mpr hb
  · rintro (hbad | ⟨a, ha, hfails⟩)
    · rw [h.overflow.mpr hbad]
      rfl
    · rw [(h.ok a).mpr ha, ok_bind]
      exact (hf a ha).overflow.mpr hfails
  · cases hresult : result with
    | error error =>
      rcases h.error error hresult with rfl | rfl
      · exact .inr (.inl (.inl (h.overflow.mp hresult)))
      · exact .inr (.inr rfl)
    | ok a =>
      have ha := (h.ok a).mp hresult
      cases hnext : f a with
      | ok b => exact .inl ⟨b, a, ha, ((hf a ha).ok b).mp hnext⟩
      | error error =>
        rcases (hf a ha).error error hnext with rfl | rfl
        · exact .inr (.inl (.inr ⟨a, ha, (hf a ha).overflow.mp hnext⟩))
        · exact .inr (.inr (by rw [ok_bind, hnext]))

end

/-! ## Integers -/

/-- The value of a group of seven bits at a place; bits past the type are lost. -/
def groupAt (m : Nat) (byte : UInt8) : Nat := byte.toNat % 128 * 2 ^ m % 2 ^ 64

/-- The value of groups from a place on. -/
def placed : Nat → Bytes → Nat
  | _, [] => 0
  | m, byte :: groups => groupAt m byte + placed (m + 7) groups

/-- All bytes have the mark that more groups follow. -/
def Marked (groups : Bytes) : Prop := ∀ byte ∈ groups, 128 ≤ byte.toNat

/-- An integer goes on after a full prefix: marked groups and one without the mark. -/
structure GroupsAt (start : Nat) (groups : Bytes) (value consumed : Nat) : Prop where
  groups : ∃ marks last rest, groups = marks ++ last :: rest ∧ Marked marks ∧ last.toNat < 128 ∧
    marks.length ≤ 9 ∧ value = start + placed 0 (marks ++ [last]) ∧ consumed = marks.length + 1
  value_le : value ≤ usizeMax

/-- Nine marked groups, and a tenth that does not fit or has another one after it. -/
def TooLong (start : Nat) (groups : Bytes) : Prop :=
  ∃ nine tenth rest, groups = nine ++ tenth :: rest ∧ Marked nine ∧ nine.length = 9 ∧
    (usizeMax < start + placed 0 (nine ++ [tenth]) ∨ 128 ≤ tenth.toNat ∧ rest ≠ [])

/-- The integer in front of the bytes: its value and the bytes it takes. -/
inductive IntegerAt (prefixBits : Nat) : Bytes → Nat × Nat → Prop where
  | short {first : UInt8} (groups : Bytes) (h : first.toNat % 2 ^ prefixBits < 2 ^ prefixBits - 1) :
      IntegerAt prefixBits (first :: groups) (first.toNat % 2 ^ prefixBits, 1)
  | long {first : UInt8} {groups : Bytes} {value consumed : Nat}
      (hfull : first.toNat % 2 ^ prefixBits = 2 ^ prefixBits - 1)
      (h : GroupsAt (2 ^ prefixBits - 1) groups value consumed) :
      IntegerAt prefixBits (first :: groups) (value, consumed + 1)

/-- The integer in front of the bytes is too long. -/
inductive IntegerOverflows (prefixBits : Nat) : Bytes → Prop where
  | long {first : UInt8} {groups : Bytes}
      (hfull : first.toNat % 2 ^ prefixBits = 2 ^ prefixBits - 1)
      (h : TooLong (2 ^ prefixBits - 1) groups) : IntegerOverflows prefixBits (first :: groups)

/-- One turn of the loop. -/
theorem decodeContinuation_cons (byte : UInt8) (input : Bytes) (value m : Nat) :
    decodeContinuation (byte :: input) value m =
      if 64 ≤ m then .error .overflow
      else if usizeMax < value + groupAt m byte then .error .overflow
      else if byte.toNat < 128 then .ok (value + groupAt m byte, 1)
      else (decodeContinuation input (value + groupAt m byte) (m + 7)).map
        fun p => (p.1, p.2 + 1) := by
  rw [decodeContinuation]
  dsimp only
  by_cases hlow : byte.toNat < 128
  · rw [if_pos ((toNat_and_0x80 byte).mpr hlow), if_pos hlow]
    rfl
  · rw [if_neg fun h => hlow ((toNat_and_0x80 byte).mp h), if_neg hlow]
    rfl

theorem placed_append (groups more : Bytes) (m : Nat) :
    placed m (groups ++ more) = placed m groups + placed (m + 7 * groups.length) more := by
  induction groups generalizing m with
  | nil => simp [placed]
  | cons byte groups ih =>
    have hplace : m + 7 + 7 * groups.length = m + 7 * (groups.length + 1) := by omega
    simp only [List.cons_append, placed, ih, List.length_cons, hplace, Nat.add_assoc]

/-- Groups fill the bits up to the place after them. -/
theorem placed_lt (groups : Bytes) (m : Nat) :
    placed m groups + 2 ^ m ≤ 2 ^ (m + 7 * groups.length) := by
  induction groups generalizing m with
  | nil => simp [placed]
  | cons byte groups ih =>
    have hgroup : groupAt m byte ≤ 127 * 2 ^ m :=
      Nat.le_trans (Nat.mod_le _ _) (Nat.mul_le_mul_right _ (by omega))
    have hrest := ih (m + 7)
    rw [Nat.pow_add] at hrest
    rw [placed, List.length_cons, show m + 7 * (groups.length + 1) = m + 7 + 7 * groups.length
      by omega]
    omega

/-- Marked groups that have a place are passed over. -/
theorem decodeContinuation_marks (rest : Bytes) (marks : Bytes) (value m : Nat)
    (hmarked : Marked marks) (hplace : m + 7 * marks.length ≤ 70)
    (hfit : value + placed m marks ≤ usizeMax) :
    decodeContinuation (marks ++ rest) value m =
      (decodeContinuation rest (value + placed m marks) (m + 7 * marks.length)).map
        fun p => (p.1, p.2 + marks.length) := by
  induction marks generalizing value m with
  | nil =>
    simp only [List.nil_append, placed, Nat.add_zero, List.length_nil, Nat.mul_zero]
    cases decodeContinuation rest value m <;> rfl
  | cons byte marks ih =>
    have hbyte : ¬ byte.toNat < 128 := Nat.not_lt_of_le (hmarked byte (List.mem_cons_self ..))
    rw [List.length_cons] at hplace
    rw [placed] at hfit
    have hrest := ih (value + groupAt m byte) (m + 7)
      (fun other ho => hmarked other (List.mem_cons_of_mem _ ho)) (by omega) (by omega)
    rw [List.cons_append, decodeContinuation_cons, if_neg (by omega), if_neg (by omega),
      if_neg hbyte, hrest, placed, List.length_cons,
      show m + 7 * (marks.length + 1) = m + 7 + 7 * marks.length by omega, Nat.add_assoc]
    cases decodeContinuation rest (value + (groupAt m byte + placed (m + 7) marks))
      (m + 7 + 7 * marks.length) <;> rfl

/-- What follows nine marked groups. -/
theorem decodeContinuation_nine {start : Nat} (hstart : start < 256) {nine : Bytes}
    (hmarked : Marked nine) (hlength : nine.length = 9) (rest : Bytes) :
    decodeContinuation (nine ++ rest) start 0 =
      (decodeContinuation rest (start + placed 0 nine) 63).map fun p => (p.1, p.2 + 9) := by
  have hfill := placed_lt nine 0
  rw [hlength] at hfill
  have hskip := decodeContinuation_marks rest nine start 0 hmarked (by omega)
    (by unfold usizeMax; omega)
  rw [hskip, hlength]

/-- An integer that is too long overflows. -/
theorem TooLong.overflow {start : Nat} (hstart : start < 256) {groups : Bytes}
    (h : TooLong start groups) : decodeContinuation groups start 0 = .error .overflow := by
  obtain ⟨nine, tenth, rest, rfl, hmarked, hlength, htenth⟩ := h
  rw [decodeContinuation_nine hstart hmarked hlength]
  rw [placed_append, hlength] at htenth
  change usizeMax < start + (placed 0 nine + (groupAt 63 tenth + 0)) ∨ _ at htenth
  rw [decodeContinuation_cons, if_neg (by decide)]
  by_cases hfits : usizeMax < start + placed 0 nine + groupAt 63 tenth
  · rw [if_pos hfits]
    rfl
  · rcases htenth with hover | ⟨hmark, hmore⟩
    · exact absurd hover (by omega)
    · obtain ⟨eleventh, rest, rfl⟩ := List.exists_cons_of_ne_nil hmore
      rw [if_neg hfits, if_neg (by omega), decodeContinuation_cons, if_pos (by decide)]
      rfl

/-- Groups with a last one are read. -/
theorem GroupsAt.decode {start : Nat} {groups : Bytes}
    {value consumed : Nat} (h : GroupsAt start groups value consumed) :
    decodeContinuation groups start 0 = .ok (value, consumed) := by
  obtain ⟨⟨marks, last, rest, rfl, hmarked, hlast, hlength, rfl, rfl⟩, hfit⟩ := h
  rw [placed_append] at hfit ⊢
  have hlastAt : placed (0 + 7 * marks.length) [last] = groupAt (0 + 7 * marks.length) last :=
    Nat.add_zero _
  rw [hlastAt] at hfit ⊢
  rw [decodeContinuation_marks _ marks start 0 hmarked (by omega) (by omega),
    decodeContinuation_cons, if_neg (by omega), if_neg (by omega), if_pos hlast]
  simp only [Except.map, Nat.add_assoc, Nat.add_comm 1]

/-- Other groups have no end. -/
theorem groups_cases {start : Nat} (hstart : start < 256) (groups : Bytes) :
    (∃ p : Nat × Nat, GroupsAt start groups p.1 p.2) ∨ TooLong start groups ∨
      decodeContinuation groups start 0 = .error (.http .invalidHeader) := by
  obtain ⟨marks, rest, hgroups, hmarked, hrest⟩ : ∃ marks rest, groups = marks ++ rest ∧
      Marked marks ∧ ∀ last more, rest = last :: more → last.toNat < 128 := by
    refine ⟨groups.takeWhile (128 ≤ ·.toNat), groups.dropWhile (128 ≤ ·.toNat),
      List.takeWhile_append_dropWhile.symm, ?_, ?_⟩
    · intro byte hbyte
      have hall := List.all_takeWhile (p := (128 ≤ ·.toNat)) (l := groups)
      simpa using List.all_eq_true.mp hall byte hbyte
    · intro last more hlast
      have hhead := List.head?_dropWhile_not (128 ≤ ·.toNat) groups
      rw [hlast] at hhead
      simpa using hhead
  subst hgroups
  have hfill := placed_lt marks 0
  by_cases hlong : 10 ≤ marks.length
  · obtain ⟨nine, tenth, more, rfl, hnine⟩ : ∃ nine tenth more, marks = nine ++ tenth :: more ∧
        nine.length = 9 :=
      ⟨marks.take 9, marks[9], marks.drop 10, by simp, by simp; omega⟩
    have hten : Marked nine := fun byte hbyte => hmarked byte (List.mem_append_left _ hbyte)
    have htenth : 128 ≤ tenth.toNat := hmarked tenth (by simp)
    by_cases hover : usizeMax < start + placed 0 (nine ++ [tenth])
    · exact .inr (.inl ⟨nine, tenth, more ++ rest, by simp, hten, hnine, .inl hover⟩)
    · by_cases hmore : more ++ rest = []
      · obtain ⟨rfl, rfl⟩ := List.append_eq_nil_iff.mp hmore
        refine .inr (.inr ?_)
        rw [decodeContinuation_marks [] (nine ++ [tenth]) start 0 hmarked (by simp [hnine])
          (by omega)]
        rfl
      · exact .inr (.inl ⟨nine, tenth, more ++ rest, by simp, hten, hnine, .inr ⟨htenth, hmore⟩⟩)
  · match rest, hrest with
    | [], _ =>
      have hpow : 2 ^ (0 + 7 * marks.length) ≤ 2 ^ 63 :=
        Nat.pow_le_pow_right (by decide) (by omega)
      refine .inr (.inr ?_)
      rw [decodeContinuation_marks [] marks start 0 hmarked (by omega)
        (by unfold usizeMax; omega)]
      rfl
    | last :: more, hrest =>
      by_cases hover : usizeMax < start + placed 0 (marks ++ [last])
      · -- only a tenth group can be too much
        have hnine : marks.length = 9 := by
          refine Classical.byContradiction fun hne => ?_
          have hall := placed_lt (marks ++ [last]) 0
          have hpow : 2 ^ (0 + 7 * (marks ++ [last]).length) ≤ 2 ^ 63 := by
            refine Nat.pow_le_pow_right (by decide) ?_
            simp
            omega
          unfold usizeMax at hover
          omega
        exact .inr (.inl ⟨marks, last, more, rfl, hmarked, hnine, .inl hover⟩)
      · exact .inl ⟨(start + placed 0 (marks ++ [last]), marks.length + 1),
          ⟨marks, last, more, rfl, hmarked, hrest last more rfl, by omega, rfl, rfl⟩, by omega⟩

/-- The outcome of an integer. -/
theorem decodeInteger_outcome {prefixBits : Nat} (hbits : prefixBits ≤ 8) (input : Bytes) :
    Outcome (decodeInteger input prefixBits) (IntegerAt prefixBits input)
      (IntegerOverflows prefixBits input) := by
  have hpos : 0 < 2 ^ prefixBits := Nat.two_pow_pos prefixBits
  have hle : 2 ^ prefixBits ≤ 2 ^ 8 := Nat.pow_le_pow_right (by decide) hbits
  have hstart : 2 ^ prefixBits - 1 < 256 := by omega
  match input with
  | [] =>
    exact Outcome.invalid.congr (fun _ => ⟨fun h => h.elim, fun h => by cases h⟩)
      ⟨fun h => h.elim, fun h => by cases h⟩
  | first :: groups =>
    have hmod : first.toNat % 2 ^ prefixBits < 2 ^ prefixBits := Nat.mod_lt _ hpos
    by_cases hshort : first.toNat % 2 ^ prefixBits < 2 ^ prefixBits - 1
    · have hdecode : decodeInteger (first :: groups) prefixBits =
          .ok (first.toNat % 2 ^ prefixBits, 1) := if_pos hshort
      rw [hdecode]
      refine (Outcome.pure _).congr (fun p => ⟨?_, ?_⟩) ⟨fun h => h.elim, ?_⟩
      · rintro rfl
        exact .short groups hshort
      · intro h
        cases h with
        | short => rfl
        | long hfull => omega
      · intro h
        cases h with
        | long hfull => omega
    · have hfull : first.toNat % 2 ^ prefixBits = 2 ^ prefixBits - 1 := by omega
      have hdecode : decodeInteger (first :: groups) prefixBits =
          (decodeContinuation groups (2 ^ prefixBits - 1) 0).map fun p => (p.1, p.2 + 1) := by
        rw [← hfull]
        exact if_neg hshort
      rw [hdecode]
      refine .of_cases ?_ ?_ ?_
      · intro p h
        cases h with
        | short => omega
        | long _ h =>
          rw [h.decode]
          rfl
      · intro h
        cases h with
        | long _ h =>
          rw [h.overflow hstart]
          rfl
      · rcases groups_cases hstart groups with ⟨p, h⟩ | h | h
        · exact .inl ⟨_, .long hfull h⟩
        · exact .inr (.inl (.long hfull h))
        · rw [h]
          exact .inr (.inr rfl)

/-! ## Fields -/

/-- The string at a cursor and the cursor after it. -/
def StringAt (block : Bytes) (cursor : Nat) (p : Text × Nat) : Prop :=
  ∃ first length consumed bytes, block[cursor]? = some first ∧ first.toNat < 128 ∧
    IntegerAt 7 (block.drop cursor) (length, consumed) ∧ cursor + consumed + length ≤ usizeMax ∧
    block.slice (cursor + consumed) length = some bytes ∧ Utf8.decode bytes = some p.1 ∧
    p.2 = cursor + consumed + length

/-- The length of the string at a cursor is too long, or its end is. -/
def StringOverflows (block : Bytes) (cursor : Nat) : Prop :=
  ∃ first, block[cursor]? = some first ∧ first.toNat < 128 ∧
    (IntegerOverflows 7 (block.drop cursor) ∨
      ∃ length consumed, IntegerAt 7 (block.drop cursor) (length, consumed) ∧
        usizeMax < cursor + consumed + length)

/-- The name with an index, or the name at the cursor for index zero. -/
def NameAt (block : Bytes) (cursor nameIndex : Nat) (p : Text × Nat) : Prop :=
  if nameIndex = 0 then StringAt block cursor p
  else indexedName nameIndex = .ok p.1 ∧ p.2 = cursor

/-- The first byte of a literal field. -/
def IsLiteral (first : UInt8) : Prop :=
  first.toNat < 128 ∧ (first &&& 0x40 = 0x40 || first &&& 0x10 = 0x10 || first = 0)

/-- The bits of the name index in the first byte of a literal field. -/
def namePrefix (first : UInt8) : Nat := if first &&& 0x40 = 0x40 then 6 else 4

/-- The field at a cursor, with its first byte, and the cursor after it. -/
inductive FieldAt (block : Bytes) (cursor : Nat) (first : UInt8) : (Text × Text) × Nat → Prop where
  | indexed {index consumed : Nat} {field : Text × Text} (hfirst : 128 ≤ first.toNat)
      (hindex : IntegerAt 7 (block.drop cursor) (index, consumed))
      (hfield : indexedHeader index = .ok field) :
      FieldAt block cursor first (field, cursor + consumed)
  | literal {nameIndex consumed middle next : Nat} {name value : Text} (hfirst : IsLiteral first)
      (hindex : IntegerAt (namePrefix first) (block.drop cursor) (nameIndex, consumed))
      (hname : NameAt block (cursor + consumed) nameIndex (name, middle))
      (hvalue : StringAt block middle (value, next)) :
      FieldAt block cursor first ((name, value), next)

/-- An integer of the field at a cursor is too long, or the end of a string of it. -/
inductive FieldOverflows (block : Bytes) (cursor : Nat) (first : UInt8) : Prop where
  | indexed (hfirst : 128 ≤ first.toNat) (hindex : IntegerOverflows 7 (block.drop cursor))
  | nameIndex (hfirst : IsLiteral first)
      (hindex : IntegerOverflows (namePrefix first) (block.drop cursor))
  | name (hfirst : IsLiteral first) (consumed : Nat)
      (hindex : IntegerAt (namePrefix first) (block.drop cursor) (0, consumed))
      (hname : StringOverflows block (cursor + consumed))
  | value (hfirst : IsLiteral first) (nameIndex consumed middle : Nat) (name : Text)
      (hindex : IntegerAt (namePrefix first) (block.drop cursor) (nameIndex, consumed))
      (hname : NameAt block (cursor + consumed) nameIndex (name, middle))
      (hvalue : StringOverflows block middle)

/-- The outcome of a string. -/
theorem decodeString_outcome (block : Bytes) (cursor : Nat) :
    Outcome (decodeString block cursor) (StringAt block cursor) (StringOverflows block cursor) := by
  unfold decodeString
  cases hfirst : block[cursor]? with
  | none =>
    refine Outcome.invalid.congr (fun p => ⟨fun h => h.elim, ?_⟩) ⟨fun h => h.elim, ?_⟩
    · rintro ⟨first, -, -, -, h, -⟩
      rw [hfirst] at h
      cases h
    · rintro ⟨first, h, -⟩
      rw [hfirst] at h
      cases h
  | some first =>
    dsimp only
    by_cases hhuffman : first &&& 0x80 = 0
    · rw [if_neg (not_not_intro hhuffman)]
      have hlow := (toNat_and_0x80 first).mp hhuffman
      refine (Outcome.bind (decodeInteger_outcome (by decide) (block.drop cursor))
        (fun a p => ∃ bytes, cursor + a.2 + a.1 ≤ usizeMax ∧
          block.slice (cursor + a.2) a.1 = some bytes ∧ Utf8.decode bytes = some p.1 ∧
          p.2 = cursor + a.2 + a.1)
        (fun a => usizeMax < cursor + a.2 + a.1) ?_).congr ?_ ?_
      · rintro ⟨length, consumed⟩ -
        dsimp only
        by_cases hover : usizeMax < cursor + consumed + length
        · rw [if_pos hover]
          exact .of_cases (fun p ⟨_, hle, _⟩ => absurd hle (Nat.not_le_of_lt hover))
            (fun _ => rfl) (.inr (.inl hover))
        · rw [if_neg hover]
          cases hslice : block.slice (cursor + consumed) length with
          | none =>
            refine Outcome.invalid.congr (fun p => ⟨fun h => h.elim, ?_⟩)
              ⟨fun h => h.elim, fun h => absurd h hover⟩
            rintro ⟨bytes, -, h, -⟩
            cases h
          | some bytes =>
            dsimp only
            cases hutf : Utf8.decode bytes with
            | none =>
              refine Outcome.invalid.congr (fun p => ⟨fun h => h.elim, ?_⟩)
                ⟨fun h => h.elim, fun h => absurd h hover⟩
              rintro ⟨bytes, -, ⟨⟩, h, -⟩
              rw [hutf] at h
              cases h
            | some value =>
              refine (Outcome.pure _).congr (fun p => ⟨?_, ?_⟩)
                ⟨fun h => h.elim, fun h => absurd h hover⟩
              · rintro rfl
                exact ⟨bytes, Nat.le_of_not_lt hover, rfl, hutf, rfl⟩
              · rintro ⟨bytes, -, ⟨⟩, h, hnext⟩
                rw [hutf] at h
                cases h
                exact Prod.ext rfl hnext
      · intro p
        constructor
        · rintro ⟨⟨length, consumed⟩, hinteger, bytes, h⟩
          exact ⟨first, length, consumed, bytes, hfirst, hlow, hinteger, h⟩
        · rintro ⟨_, length, consumed, bytes, -, -, hinteger, h⟩
          exact ⟨(length, consumed), hinteger, bytes, h⟩
      · constructor
        · rintro (h | ⟨⟨length, consumed⟩, hinteger, h⟩)
          · exact ⟨first, hfirst, hlow, .inl h⟩
          · exact ⟨first, hfirst, hlow, .inr ⟨length, consumed, hinteger, h⟩⟩
        · rintro ⟨_, -, -, h | ⟨length, consumed, hinteger, h⟩⟩
          · exact .inl h
          · exact .inr ⟨(length, consumed), hinteger, h⟩
    · rw [if_pos hhuffman]
      have hhigh : ∀ other, block[cursor]? = some other → ¬ other.toNat < 128 := by
        intro other hother hlow
        rw [hfirst] at hother
        cases hother
        exact hhuffman ((toNat_and_0x80 first).mpr hlow)
      refine Outcome.invalid.congr (fun p => ⟨fun h => h.elim, ?_⟩) ⟨fun h => h.elim, ?_⟩
      · rintro ⟨other, _, _, _, hother, hlow, -⟩
        exact hhigh other (hfirst ▸ hother) hlow
      · rintro ⟨other, hother, hlow, -⟩
        exact hhigh other (hfirst ▸ hother) hlow

/-- The outcome of a name. -/
theorem decodeName_outcome (block : Bytes) (cursor nameIndex : Nat) :
    Outcome (decodeName block cursor nameIndex) (NameAt block cursor nameIndex)
      (nameIndex = 0 ∧ StringOverflows block cursor) := by
  unfold decodeName NameAt
  by_cases hzero : nameIndex = 0
  · simp only [if_pos hzero]
    exact (decodeString_outcome block cursor).congr (fun _ => Iff.rfl) ⟨fun h => ⟨hzero, h⟩, And.right⟩
  · simp only [if_neg hzero]
    have hinvalid : ∀ error, indexedName nameIndex = .error error →
        error = .http .invalidHeader := by
      intro error h
      unfold indexedName at h
      split at h <;> cases h
      rfl
    refine .of_cases ?_ (fun h => absurd h.1 hzero) ?_
    · rintro ⟨name, next⟩ ⟨hname, hnext⟩
      rw [hname, show next = cursor from hnext]
      rfl
    · cases hname : indexedName nameIndex with
      | ok name => exact .inl ⟨(name, cursor), rfl, rfl⟩
      | error error =>
        rw [hinvalid error hname]
        exact .inr (.inr rfl)

/-- The outcome of an entry of the static table. -/
theorem indexedHeader_outcome (index : Nat) :
    Outcome (indexedHeader index) (fun field => indexedHeader index = .ok field) False := by
  refine .of_cases (fun _ h => h) (fun h => h.elim) ?_
  cases h : indexedHeader index with
  | ok field => exact .inl ⟨field, rfl⟩
  | error error =>
    unfold indexedHeader at h
    split at h <;> cases h
    exact .inr (.inr rfl)

/-- The outcome of a field. -/
theorem decodeField_outcome (block : Bytes) (cursor : Nat) (first : UInt8) :
    Outcome (decodeField block cursor first) (FieldAt block cursor first)
      (FieldOverflows block cursor first) := by
  unfold decodeField
  by_cases hlow : first &&& 0x80 = 0
  · have hfirst := (toNat_and_0x80 first).mp hlow
    rw [if_neg (not_not_intro hlow)]
    by_cases hliteral : (first &&& 0x40 = 0x40 || first &&& 0x10 = 0x10 || first = 0) = true
    · have hbits : namePrefix first ≤ 8 := by
        unfold namePrefix
        split <;> decide
      rw [if_pos hliteral]
      refine (Outcome.bind (decodeInteger_outcome hbits (block.drop cursor)) _ _
        fun a _ => Outcome.bind (decodeName_outcome block (cursor + a.2) a.1) _ _
          fun b _ => Outcome.bind (decodeString_outcome block b.2) _ _
            fun c _ => Outcome.pure ((b.1, c.1), c.2)).congr ?_ ?_
      · intro p
        constructor
        · rintro ⟨⟨nameIndex, consumed⟩, hindex, ⟨name, middle⟩, hname, ⟨value, next⟩, hvalue, rfl⟩
          exact .literal ⟨hfirst, hliteral⟩ hindex hname hvalue
        · intro h
          cases h with
          | indexed hhigh => omega
          | literal _ hindex hname hvalue =>
            exact ⟨(_, _), hindex, (_, _), hname, (_, _), hvalue, rfl⟩
      · constructor
        · rintro (h | ⟨⟨nameIndex, consumed⟩, hindex, ⟨rfl, h⟩ | ⟨⟨name, middle⟩, hname, h | ⟨-, -, h⟩⟩⟩)
          · exact .nameIndex ⟨hfirst, hliteral⟩ h
          · exact .name ⟨hfirst, hliteral⟩ consumed hindex h
          · exact .value ⟨hfirst, hliteral⟩ nameIndex consumed middle name hindex hname h
          · exact h.elim
        · intro h
          cases h with
          | indexed hhigh => omega
          | nameIndex _ h => exact .inl h
          | name _ consumed hindex h => exact .inr ⟨(_, _), hindex, .inl ⟨rfl, h⟩⟩
          | value _ nameIndex consumed middle name hindex hname h =>
            exact .inr ⟨(_, _), hindex, .inr ⟨(_, _), hname, .inl h⟩⟩
    · rw [if_neg hliteral]
      refine Outcome.invalid.congr (fun p => ⟨fun h => h.elim, fun h => ?_⟩)
        ⟨fun h => h.elim, fun h => ?_⟩
      · cases h with
        | indexed hhigh => omega
        | literal h => exact hliteral h.2
      · cases h with
        | indexed hhigh => omega
        | nameIndex h => exact hliteral h.2
        | name h => exact hliteral h.2
        | value h => exact hliteral h.2
  · have hfirst : 128 ≤ first.toNat := Nat.le_of_not_lt fun h => hlow ((toNat_and_0x80 first).mpr h)
    have hnot : ¬ IsLiteral first := fun h => Nat.not_lt_of_le hfirst h.1
    rw [if_pos hlow]
    refine (Outcome.bind (decodeInteger_outcome (by decide) (block.drop cursor)) _ _
      fun a _ => Outcome.bind (indexedHeader_outcome a.1) _ _
        fun field _ => Outcome.pure (field, cursor + a.2)).congr ?_ ?_
    · intro p
      constructor
      · rintro ⟨⟨index, consumed⟩, hindex, field, hfield, rfl⟩
        exact .indexed hfirst hindex hfield
      · intro h
        cases h with
        | indexed _ hindex hfield => exact ⟨(_, _), hindex, _, hfield, rfl⟩
        | literal h => exact absurd h hnot
    · constructor
      · rintro (h | ⟨⟨index, consumed⟩, hindex, h | ⟨-, -, h⟩⟩)
        · exact .indexed hfirst h
        · exact h.elim
        · exact h.elim
      · intro h
        cases h with
        | indexed _ h => exact .inl h
        | nameIndex h => exact absurd h hnot
        | name h => exact absurd h hnot
        | value h => exact absurd h hnot

/-! ## Blocks -/

/-- The fields from a cursor on; the last one ends with the block. -/
inductive FieldsAt (block : Bytes) : Nat → List (Text × Text) → Prop where
  | done : FieldsAt block block.length []
  | field {cursor next : Nat} {first : UInt8} {field : Text × Text} {fields : List (Text × Text)}
      (hfirst : block[cursor]? = some first) (hfield : FieldAt block cursor first (field, next))
      (more : FieldsAt block next fields) : FieldsAt block cursor (field :: fields)

/-- After some fields, a field has an integer or the end of a string that overflows. -/
inductive Overflows (block : Bytes) : Nat → Prop where
  | here {cursor : Nat} {first : UInt8} (hfirst : block[cursor]? = some first)
      (h : FieldOverflows block cursor first) : Overflows block cursor
  | later {cursor next : Nat} {first : UInt8} {field : Text × Text}
      (hfirst : block[cursor]? = some first) (hfield : FieldAt block cursor first (field, next))
      (more : Overflows block next) : Overflows block cursor

theorem IntegerAt.consumed_le {prefixBits : Nat} {input : Bytes} {p : Nat × Nat}
    (h : IntegerAt prefixBits input p) : p.2 ≤ input.length := by
  cases h with
  | short => simp
  | long _ h =>
    obtain ⟨⟨marks, last, rest, rfl, -, -, -, -, rfl⟩, -⟩ := h
    simp

theorem StringAt.next_le {block : Bytes} {cursor : Nat} {p : Text × Nat}
    (h : StringAt block cursor p) : p.2 ≤ block.length := by
  obtain ⟨-, length, consumed, bytes, -, -, -, -, hslice, -, hnext⟩ := h
  rw [hnext]
  exact Bytes.slice_length_le hslice

/-- A field ends within the block. -/
theorem FieldAt.next_le {block : Bytes} {cursor : Nat} {first : UInt8} {p : (Text × Text) × Nat}
    (h : FieldAt block cursor first p) (hcursor : cursor ≤ block.length) : p.2 ≤ block.length := by
  cases h with
  | indexed _ hindex =>
    have hle := hindex.consumed_le
    rw [List.length_drop] at hle
    show cursor + _ ≤ block.length
    dsimp only at hle
    omega
  | literal _ _ _ hvalue => exact hvalue.next_le

theorem decodeFields_error {block : Bytes} {cursor : Nat} {first : UInt8} {error : Http2Error}
    (hfirst : block[cursor]? = some first) (hfield : decodeField block cursor first = .error error) :
    decodeFields block cursor = .error error := by
  rw [decodeFields]
  split
  next hnone =>
    rw [hfirst] at hnone
    cases hnone
  next hsome =>
    rw [hfirst] at hsome
    cases hsome
    split
    next herror =>
      rw [hfield] at herror
      cases herror
      rfl
    next hok =>
      rw [hfield] at hok
      cases hok

/-- The outcome of the fields from a cursor on, by the bytes after it. -/
theorem decodeFields_outcome (block : Bytes) (cursor : Nat) (hcursor : cursor ≤ block.length) :
    Outcome (decodeFields block cursor) (FieldsAt block cursor) (Overflows block cursor) := by
  cases hfirst : block[cursor]? with
  | none =>
    have hend : cursor = block.length :=
      Nat.le_antisymm hcursor (List.getElem?_eq_none_iff.mp hfirst)
    subst hend
    rw [decodeFields_end (Nat.le_refl _)]
    refine (Outcome.pure _).congr (fun fields => ⟨?_, ?_⟩) ⟨fun h => h.elim, ?_⟩
    · rintro rfl
      exact .done
    · intro h
      cases h with
      | done => rfl
      | field h =>
        rw [hfirst] at h
        cases h
    · intro h
      cases h with
      | here h =>
        rw [hfirst] at h
        cases h
      | later h =>
        rw [hfirst] at h
        cases h
  | some first =>
    have hlt : cursor < block.length := (List.getElem?_eq_some_iff.mp hfirst).1
    have hout := decodeField_outcome block cursor first
    have hsame : ∀ {other}, block[cursor]? = some other → other = first := by
      intro other hother
      rw [hfirst] at hother
      exact (Option.some.inj hother).symm
    -- the outcome after a field
    have hrest : ∀ field next, decodeField block cursor first = .ok (field, next) →
        Outcome (decodeFields block next) (FieldsAt block next) (Overflows block next) := by
      intro field next hfield
      have hnext : cursor < next := decodeField_lt hfield
      exact decodeFields_outcome block next (((hout.ok _).mp hfield).next_le hcursor)
    refine .of_cases ?_ ?_ ?_
    · intro fields h
      cases h with
      | done => omega
      | field hother hfield more =>
        obtain rfl := hsame hother
        have hdecode := (hout.ok _).mpr hfield
        rw [decodeFields_field hfirst hdecode, ((hrest _ _ hdecode).ok _).mpr more]
        rfl
    · intro h
      cases h with
      | here hother h =>
        obtain rfl := hsame hother
        exact decodeFields_error hfirst (hout.overflow.mpr h)
      | later hother hfield more =>
        obtain rfl := hsame hother
        have hdecode := (hout.ok _).mpr hfield
        rw [decodeFields_field hfirst hdecode, (hrest _ _ hdecode).overflow.mpr more]
        rfl
    · cases hdecode : decodeField block cursor first with
      | error error =>
        rcases hout.error error hdecode with rfl | rfl
        · exact .inr (.inl (.here hfirst (hout.overflow.mp hdecode)))
        · exact .inr (.inr (decodeFields_error hfirst hdecode))
      | ok p =>
        obtain ⟨field, next⟩ := p
        have hfield := (hout.ok _).mp hdecode
        cases hmore : decodeFields block next with
        | ok fields =>
          exact .inl ⟨field :: fields, .field hfirst hfield
            (((hrest field next hdecode).ok fields).mp hmore)⟩
        | error error =>
          rcases (hrest field next hdecode).error error hmore with rfl | rfl
          · exact .inr (.inl (.later hfirst hfield
              ((hrest field next hdecode).overflow.mp hmore)))
          · refine .inr (.inr ?_)
            rw [decodeFields_field hfirst hdecode, hmore]
            rfl
termination_by block.length - cursor

/-- The decoder reads the fields of a block up to its end or rejects the block,
and stays within its machine types, exactly when no integer of the block is too
long and no string ends past the type. -/
theorem decodeHeaderBlock_total_iff (block : Bytes) :
    (decodeHeaderBlock block = .error (.http .invalidHeader) ∨
      ∃ fields, decodeHeaderBlock block = .ok fields ∧ FieldsAt block 0 fields) ↔
    ¬ Overflows block 0 := by
  have hout := decodeFields_outcome block 0 (Nat.zero_le _)
  constructor
  · rintro (h | ⟨fields, h, -⟩) hoverflows
    · rw [decodeHeaderBlock, hout.overflow.mpr hoverflows] at h
      cases h
    · rw [decodeHeaderBlock, hout.overflow.mpr hoverflows] at h
      cases h
  · intro hno
    cases h : decodeFields block 0 with
    | ok fields => exact .inr ⟨fields, h, (hout.ok fields).mp h⟩
    | error error =>
      rcases hout.error error h with rfl | rfl
      · exact absurd (hout.overflow.mp h) hno
      · exact .inl h

/-- An index of eleven groups. -/
def elevenGroups : Bytes := 0xff :: (List.replicate 10 0x80 ++ [0x00])

/-- The eleventh group would be shifted by seventy bits. -/
theorem decodeHeaderBlock_elevenGroups :
    ¬ ∀ block, decodeHeaderBlock block = .error (.http .invalidHeader) ∨
      ∃ fields, decodeHeaderBlock block = .ok fields ∧ FieldsAt block 0 fields := by
  intro h
  have hlong : TooLong (2 ^ 7 - 1) (List.replicate 10 0x80 ++ [0x00]) :=
    ⟨List.replicate 9 0x80, 0x80, [0x00], rfl,
      fun byte hbyte => by rw [List.eq_of_mem_replicate hbyte]; decide, rfl,
      .inr ⟨by decide, List.cons_ne_nil _ _⟩⟩
  have hoverflows : Overflows elevenGroups 0 :=
    .here rfl (.indexed (by decide) (.long (by decide) hlong))
  have hdecode := (decodeFields_outcome elevenGroups 0 (Nat.zero_le _)).overflow.mpr hoverflows
  rcases h elevenGroups with hinvalid | ⟨fields, hok, -⟩
  · rw [decodeHeaderBlock, hdecode] at hinvalid
    cases hinvalid
  · rw [decodeHeaderBlock, hdecode] at hok
    cases hok

end Omoikane.Http
