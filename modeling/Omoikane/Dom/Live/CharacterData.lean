import Omoikane.Base.Numerals
import Omoikane.Base.Run
import Omoikane.Dom.Live.Attributes

/-!
# Character data

A text node keeps its data as a text, and its exact units as soon as a surrogate stood alone in them.
The number of surrogates that stand alone is counted along.  Appending decodes what is appended only,
and repairs the seam where it completes a pair.

`History` is what was written: the units since the last setter, and the number of writes.  A node
`Shows` a history if its three fields are functions of it.  Every call keeps this or panics, and it
panics just if the history does not allow it: a count would exceed 32 bits or the revision 64
(`run_shows`).
-/

namespace Omoikane.Dom.Live

open Base
open Utf16 (CodePoint)

/-! ## Nodes -/

/-- `Text`, with the revision of its node. -/
structure TextNode where
  data : Text
  utf16 : Option (List UInt16)
  unpairedSurrogates : Nat
  cdataSection : Bool
  mutationRevision : Nat
deriving DecidableEq, Repr

def replacementCharacter : Char := Char.ofNat 0xfffd

/-- `decode_utf16_lossy_with_unpaired_count`; `none` is a panic, here and below. -/
def decodeUtf16LossyWithUnpairedCount (units : List UInt16) : Option (Text × Nat) :=
  (Utf16.decode units).foldlM (fun (data, unpaired) point =>
    match point with
    | .scalar value => some (data ++ [value], unpaired)
    | .surrogate _ => do
      let unpaired ← checkedAddU32 unpaired 1
      return (data ++ [replacementCharacter], unpaired)) ([], 0)

namespace TextNode

/-- `new` and `new_cdata_section`. -/
def new (data : Text) (cdataSection : Bool) : TextNode where
  data
  utf16 := none
  unpairedSurrogates := 0
  cdataSection
  mutationRevision := 0

def bumpMutationRevision (node : TextNode) : Option TextNode :=
  if node.mutationRevision + 1 < 2 ^ 64 then
    some { node with mutationRevision := node.mutationRevision + 1 }
  else none

def setData (data : Text) (node : TextNode) : Option TextNode := do
  let node ← node.bumpMutationRevision
  return { node with data, utf16 := none, unpairedSurrogates := 0 }

def setDataOwned (data : DomString) (node : TextNode) : Option TextNode := do
  let (value, exact, unpaired) ← match data with
    | .scalar value => some (value, none, 0)
    | .utf16 units => (decodeUtf16LossyWithUnpairedCount units).map fun (value, unpaired) =>
      (value, if unpaired ≠ 0 then some units else none, unpaired)
  let node ← node.bumpMutationRevision
  return { node with data := value, utf16 := exact, unpairedSurrogates := unpaired }

def setDataUtf16 (units : List UInt16) (node : TextNode) : Option TextNode := do
  let node ← node.bumpMutationRevision
  let (value, unpaired) ← decodeUtf16LossyWithUnpairedCount units
  return { node with
    data := value
    unpairedSurrogates := unpaired
    utf16 := if unpaired ≠ 0 then some units else none }

def appendTextData (suffix : Text) (node : TextNode) : Option TextNode := do
  let node ← node.bumpMutationRevision
  return { node with
    data := node.data ++ suffix
    utf16 := node.utf16.map (· ++ Utf16.encodeText suffix) }

/-- `data_utf16`. -/
def dataUtf16 (node : TextNode) : List UInt16 :=
  node.utf16.getD (Utf16.encodeText node.data)

/-- The branch of `append_text_utf16` for a suffix in which no surrogate stands alone. -/
def appendScalars (suffix : List UInt16) (decodedSuffix : Option (Text × Nat)) (node : TextNode) :
    Option TextNode :=
  decodedSuffix.map fun (suffixData, _) => { node with
    data := node.data ++ suffixData
    utf16 := node.utf16.map (· ++ suffix) }

/-- The branch of `append_text_utf16` for a suffix that completes the pair of `high` and `low`.  The
debug assertions are tested too. -/
def joinBoundaryPair (high low : UInt16) (exact : List UInt16) (suffixUnpaired : Nat)
    (decodedSuffix : Option (Text × Nat)) (node : TextNode) : Option TextNode :=
  if node.unpairedSurrogates = 0 ∨ suffixUnpaired = 0 ∨
      node.data.getLast? ≠ some replacementCharacter then none
  else
    let joined := node.data.dropLast ++ [Utf16.pair high low]
    let data := match decodedSuffix with
      | some (suffixData, _) =>
        (Text.stripPrefix suffixData [replacementCharacter]).map (joined ++ ·)
      | none => some joined
    data.bind fun data =>
      (checkedAddU32 (node.unpairedSurrogates - 1) (suffixUnpaired - 1)).map fun unpaired =>
        { node with data, unpairedSurrogates := unpaired, utf16 := some exact }

/-- The branch of `append_text_utf16` for a suffix with a surrogate that stands alone. -/
def appendApart (exact : List UInt16) (suffixUnpaired : Nat) (decodedSuffix : Option (Text × Nat))
    (node : TextNode) : Option TextNode :=
  let data := match decodedSuffix with
    | some (suffixData, _) => node.data ++ suffixData
    | none => node.data ++ [replacementCharacter]
  (checkedAddU32 node.unpairedSurrogates suffixUnpaired).map fun unpaired =>
    { node with data, unpairedSurrogates := unpaired, utf16 := some exact }

/-- `decoded_suffix` of `append_text_utf16`: a single surrogate is not decoded. -/
def decodeSuffix (suffix : List UInt16) : Option (Option (Text × Nat)) :=
  let singleSurrogate := match suffix with
    | [unit] => Utf16.isHigh unit || Utf16.isLow unit
    | _ => false
  if singleSurrogate then some none
  else (decodeUtf16LossyWithUnpairedCount suffix).map some

/-- `suffix_unpaired`. -/
def suffixUnpaired : Option (Text × Nat) → Nat
  | some (_, count) => count
  | none => 1

def appendTextUtf16 (suffix : List UInt16) (node : TextNode) : Option TextNode :=
  if suffix.isEmpty then some node
  else do
    let decodedSuffix ← decodeSuffix suffix
    let node ← node.bumpMutationRevision
    if suffixUnpaired decodedSuffix = 0 then appendScalars suffix decodedSuffix node
    else
      let previousHigh := (node.utf16.bind List.getLast?).filter Utf16.isHigh
      match previousHigh, suffix.head?.filter Utf16.isLow with
      | some high, some low =>
        joinBoundaryPair high low (node.dataUtf16 ++ suffix) (suffixUnpaired decodedSuffix)
          decodedSuffix node
      | _, _ =>
        appendApart (node.dataUtf16 ++ suffix) (suffixUnpaired decodedSuffix) decodedSuffix node

end TextNode

/-- The calls that write the data of a text node. -/
inductive TextCall where
  | setData (data : Text)
  | setDataOwned (data : DomString)
  | setDataUtf16 (units : List UInt16)
  | appendTextData (suffix : Text)
  | appendTextUtf16 (suffix : List UInt16)
deriving DecidableEq, Repr

def TextCall.perform : TextCall → TextNode → Option TextNode
  | .setData data => TextNode.setData data
  | .setDataOwned data => TextNode.setDataOwned data
  | .setDataUtf16 units => TextNode.setDataUtf16 units
  | .appendTextData suffix => TextNode.appendTextData suffix
  | .appendTextUtf16 suffix => TextNode.appendTextUtf16 suffix

/-- Calls one after the other. -/
def TextNode.run (node : TextNode) (calls : List TextCall) : Option TextNode :=
  calls.foldlM (fun node call => call.perform node) node

/-! ## Surrogates that stand alone -/

def isUnpaired : CodePoint → Bool
  | .scalar _ => false
  | .surrogate _ => true

/-- The number of surrogates in some units that stand alone. -/
def unpairedSurrogates (units : List UInt16) : Nat := (Utf16.decode units).countP isUnpaired

variable {us vs suffix : List UInt16} {s : Text} {high low unit : UInt16}

theorem unpairedSurrogates_append (h : ∀ u ∈ vs.head?, Utf16.isLow u = true → ¬ Utf16.EndsHigh us) :
    unpairedSurrogates (us ++ vs) = unpairedSurrogates us + unpairedSurrogates vs := by
  rw [unpairedSurrogates, Utf16.decode_append h, List.countP_append]
  rfl

theorem fromUtf16Lossy_append (h : ∀ u ∈ vs.head?, Utf16.isLow u = true → ¬ Utf16.EndsHigh us) :
    fromUtf16Lossy (us ++ vs) = fromUtf16Lossy us ++ fromUtf16Lossy vs := by
  rw [fromUtf16Lossy, Utf16.decode_append h, List.map_append]
  rfl

theorem countP_map_scalar (s : Text) : (s.map CodePoint.scalar).countP isUnpaired = 0 := by
  rw [List.countP_eq_zero]
  intro point hpoint
  obtain ⟨c, -, rfl⟩ := List.mem_map.mp hpoint
  exact Bool.false_ne_true

@[simp] theorem unpairedSurrogates_encodeText (s : Text) :
    unpairedSurrogates (Utf16.encodeText s) = 0 := by
  rw [unpairedSurrogates, Utf16.decode_encodeText, countP_map_scalar]

@[simp] theorem fromUtf16Lossy_encodeText (s : Text) : fromUtf16Lossy (Utf16.encodeText s) = s := by
  rw [fromUtf16Lossy, Utf16.decode_encodeText, List.map_map]
  exact List.map_id s

theorem unpairedSurrogates_append_encodeText (us : List UInt16) (s : Text) :
    unpairedSurrogates (us ++ Utf16.encodeText s) = unpairedSurrogates us := by
  rw [unpairedSurrogates, Utf16.decode_append_encodeText, List.countP_append, countP_map_scalar]
  rfl

theorem fromUtf16Lossy_append_encodeText (us : List UInt16) (s : Text) :
    fromUtf16Lossy (us ++ Utf16.encodeText s) = fromUtf16Lossy us ++ s := by
  rw [fromUtf16Lossy, Utf16.decode_append_encodeText, List.map_append, List.map_map]
  exact congrArg (fromUtf16Lossy us ++ ·) (List.map_id s)

/-- Units in which no surrogate stands alone are the encoding of a text. -/
theorem encodeText_fromUtf16Lossy (h : unpairedSurrogates us = 0) :
    Utf16.encodeText (fromUtf16Lossy us) = us := by
  have hscalars : (Utf16.decode us).map CodePoint.units =
      (fromUtf16Lossy us).map Utf16.unitsOf := by
    rw [fromUtf16Lossy, List.map_map]
    refine List.map_congr_left fun point hpoint => ?_
    cases point with
    | scalar c => rfl
    | surrogate u => exact absurd rfl (List.countP_eq_zero.mp h _ hpoint)
  calc Utf16.encodeText (fromUtf16Lossy us)
      = ((fromUtf16Lossy us).map Utf16.unitsOf).flatten := List.flatMap_def
    _ = Utf16.encode (Utf16.decode us) := by rw [← hscalars, Utf16.encode, List.flatMap_def]
    _ = us := Utf16.encode_decode us

/-- A single surrogate. -/
theorem decode_singleton (h : Utf16.isHigh unit = true ∨ Utf16.isLow unit = true) :
    Utf16.decode [unit] = [.surrogate unit] := by
  rcases h with hhigh | hlow
  · rw [Utf16.decode, Utf16.decodeFrom, if_pos hhigh]
    rfl
  · rw [Utf16.decode_low_cons hlow, Utf16.decode_nil]

theorem fromUtf16Lossy_singleton (h : Utf16.isHigh unit = true ∨ Utf16.isLow unit = true) :
    fromUtf16Lossy [unit] = [replacementCharacter] := by
  rw [fromUtf16Lossy, decode_singleton h]
  rfl

theorem unpairedSurrogates_singleton (h : Utf16.isHigh unit = true ∨ Utf16.isLow unit = true) :
    unpairedSurrogates [unit] = 1 := by
  rw [unpairedSurrogates, decode_singleton h]
  rfl

/-! ### Seams -/

/-- What decoding the units in front of a seam and behind it finds of a pair that stands across it. -/
theorem seam (hhigh : Utf16.isHigh high = true) (hlow : Utf16.isLow low = true)
    (us vs : List UInt16) :
    Utf16.decode (us ++ [high]) = Utf16.decode us ++ [.surrogate high] ∧
      Utf16.decode (low :: vs) = .surrogate low :: Utf16.decode vs ∧
      Utf16.decode (us ++ [high] ++ low :: vs) =
        Utf16.decode us ++ .scalar (Utf16.pair high low) :: Utf16.decode vs := by
  have hapart (rest : List UInt16) : ∀ u ∈ (high :: rest).head?, Utf16.isLow u = true →
      ¬ Utf16.EndsHigh us := by
    rintro u ⟨⟩ hu
    rw [Utf16.isLow_of_isHigh hhigh] at hu
    cases hu
  refine ⟨?_, Utf16.decode_low_cons hlow vs, ?_⟩
  · rw [Utf16.decode_append (hapart []), decode_singleton (.inl hhigh)]
  · rw [List.append_assoc, List.singleton_append, Utf16.decode_append (hapart _),
      Utf16.decode_pair_cons hhigh hlow]

/-- The count over a seam. -/
theorem unpairedSurrogates_seam (hhigh : Utf16.isHigh high = true) (hlow : Utf16.isLow low = true) :
    unpairedSurrogates (us ++ [high]) = unpairedSurrogates us + 1 ∧
      unpairedSurrogates (low :: vs) = unpairedSurrogates vs + 1 ∧
      unpairedSurrogates (us ++ [high] ++ low :: vs) =
        unpairedSurrogates us + unpairedSurrogates vs := by
  obtain ⟨hfront, hback, hwhole⟩ := seam hhigh hlow us vs
  simp only [unpairedSurrogates, hfront, hback, hwhole]
  simp [isUnpaired, List.countP_append, List.countP_cons]

/-- The text over a seam. -/
theorem fromUtf16Lossy_seam (hhigh : Utf16.isHigh high = true) (hlow : Utf16.isLow low = true) :
    fromUtf16Lossy (us ++ [high]) = fromUtf16Lossy us ++ [replacementCharacter] ∧
      fromUtf16Lossy (low :: vs) = replacementCharacter :: fromUtf16Lossy vs ∧
      fromUtf16Lossy (us ++ [high] ++ low :: vs) =
        fromUtf16Lossy us ++ [Utf16.pair high low] ++ fromUtf16Lossy vs := by
  obtain ⟨hfront, hback, hwhole⟩ := seam hhigh hlow us vs
  simp only [fromUtf16Lossy, hfront, hback, hwhole]
  simp [replacementCharacter]

/-! ## Decoding -/

/-- The decoder counts what stands alone as long as 32 bits can. -/
theorem foldlM_decode (points : List CodePoint) : ∀ (data : Text) (unpaired : Nat),
    unpaired < 2 ^ 32 →
    points.foldlM (fun (p : Text × Nat) point =>
        match point with
        | .scalar value => some (p.1 ++ [value], p.2)
        | .surrogate _ => (checkedAddU32 p.2 1).bind fun unpaired =>
          some (p.1 ++ [replacementCharacter], unpaired)) (data, unpaired) =
      if unpaired + points.countP isUnpaired < 2 ^ 32 then
        some (data ++ points.map fun
          | .scalar c => c
          | .surrogate _ => Char.ofNat 0xfffd, unpaired + points.countP isUnpaired)
      else none := by
  induction points with
  | nil =>
    intro data unpaired h
    rw [List.foldlM_nil, if_pos (by simpa using h)]
    simp
  | cons point points ih =>
    intro data unpaired h
    rw [List.foldlM_cons]
    cases point with
    | scalar c =>
      rw [Option.bind_eq_bind, Option.bind_some, ih _ _ h]
      simp [isUnpaired]
    | surrogate u =>
      have hcount : (CodePoint.surrogate u :: points).countP isUnpaired =
          points.countP isUnpaired + 1 := List.countP_cons_of_pos rfl
      dsimp only
      rw [checkedAddU32]
      split
      next hlt =>
        rw [Option.bind_some, Option.bind_eq_bind, Option.bind_some, ih _ _ hlt, hcount,
          Nat.add_right_comm, Nat.add_assoc]
        simp [replacementCharacter]
      next hlt =>
        rw [if_neg (by omega)]
        rfl

theorem decodeUtf16Lossy_eq (units : List UInt16) :
    decodeUtf16LossyWithUnpairedCount units =
      if unpairedSurrogates units < 2 ^ 32 then
        some (fromUtf16Lossy units, unpairedSurrogates units)
      else none := by
  have h := foldlM_decode (Utf16.decode units) [] 0 (by decide)
  rw [Nat.zero_add, List.nil_append] at h
  exact h

/-! ## What was written -/

/-- What was written to a node: the units since the last setter, and how often. -/
structure History where
  units : List UInt16
  revision : Nat

/-- The units of a string. -/
def DomString.units : DomString → List UInt16
  | .scalar value => Utf16.encodeText value
  | .utf16 units => units

/-- The units after a call. -/
def TextCall.write : TextCall → List UInt16 → List UInt16
  | .setData data, _ => Utf16.encodeText data
  | .setDataOwned data, _ => data.units
  | .setDataUtf16 units, _ => units
  | .appendTextData suffix, units => units ++ Utf16.encodeText suffix
  | .appendTextUtf16 suffix, units => units ++ suffix

/-- The history after a call; appending no units is no write. -/
def History.record (history : History) (call : TextCall) : History where
  units := call.write history.units
  revision := if call = .appendTextUtf16 [] then history.revision else history.revision + 1

/-- The surrogates that stand alone in what is passed and in the whole are not too many to count, and
neither are the writes. -/
def History.Allows (history : History) (call : TextCall) : Prop :=
  call = .appendTextUtf16 [] ∨ history.revision + 1 < 2 ^ 64 ∧
    match call with
    | .setData _ | .appendTextData _ => True
    | .setDataOwned data => unpairedSurrogates data.units < 2 ^ 32
    | .setDataUtf16 units => unpairedSurrogates units < 2 ^ 32
    | .appendTextUtf16 suffix => unpairedSurrogates suffix < 2 ^ 32 ∧
        unpairedSurrogates (history.units ++ suffix) < 2 ^ 32

namespace TextNode

/-- The fields of a node are functions of what was written. -/
structure Shows (node : TextNode) (history : History) : Prop where
  dataUtf16 : node.dataUtf16 = history.units
  data : node.data = fromUtf16Lossy history.units
  unpairedSurrogates : node.unpairedSurrogates = Live.unpairedSurrogates history.units
  fits : Live.unpairedSurrogates history.units < 2 ^ 32
  mutationRevision : node.mutationRevision = history.revision

variable {node : TextNode} {history : History}

/-- A node without exact units has the encoding of its text. -/
theorem Shows.units_eq (h : node.Shows history) (hnone : node.utf16 = none) :
    history.units = Utf16.encodeText node.data := by
  rw [← h.dataUtf16, TextNode.dataUtf16, hnone]
  rfl

/-- The units behind which a low surrogate completes a pair are kept exactly. -/
theorem Shows.previousHigh (h : node.Shows history) :
    (node.utf16.bind List.getLast?).filter Utf16.isHigh =
      history.units.getLast?.filter Utf16.isHigh := by
  cases hexact : node.utf16 with
  | some units =>
    rw [← h.dataUtf16, TextNode.dataUtf16, hexact]
    rfl
  | none =>
    rw [h.units_eq hexact, Option.bind_none, Option.filter_none, eq_comm,
      Option.filter_eq_none_iff]
    intro u hu hhigh
    by_cases hempty : node.data = []
    · rw [hempty] at hu
      cases hu
    · exact Utf16.not_endsHigh_encodeText hempty [] ⟨u, hu, hhigh⟩

/-- Appending a text keeps the seam. -/
theorem Shows.append_encodeText (h : node.Shows history) (s : Text) :
    Shows { node with data := node.data ++ s, utf16 := node.utf16.map (· ++ Utf16.encodeText s) }
      { history with units := history.units ++ Utf16.encodeText s } where
  dataUtf16 := by
    rw [← h.dataUtf16, TextNode.dataUtf16, TextNode.dataUtf16]
    cases node.utf16 with
    | some units => rfl
    | none => exact List.flatMap_append
  data := by rw [fromUtf16Lossy_append_encodeText, ← h.data]
  unpairedSurrogates := by rw [unpairedSurrogates_append_encodeText, ← h.unpairedSurrogates]
  fits := by
    rw [unpairedSurrogates_append_encodeText]
    exact h.fits
  mutationRevision := h.mutationRevision

/-- A decoded string shows the units that it came from. -/
theorem shows_decoded (node : TextNode) {units : List UInt16}
    (hfits : Live.unpairedSurrogates units < 2 ^ 32) :
    Shows { node with
      data := fromUtf16Lossy units
      unpairedSurrogates := Live.unpairedSurrogates units
      utf16 := if Live.unpairedSurrogates units ≠ 0 then some units else none }
      ⟨units, node.mutationRevision⟩ where
  dataUtf16 := by
    rw [TextNode.dataUtf16]
    by_cases hzero : Live.unpairedSurrogates units = 0
    · rw [if_neg (by simpa using hzero)]
      exact encodeText_fromUtf16Lossy hzero
    · rw [if_pos hzero]
      rfl
  data := rfl
  unpairedSurrogates := rfl
  fits := hfits
  mutationRevision := rfl

/-! ## Appending -/

/-- What the suffix was decoded to.  A single surrogate is not decoded. -/
def Decoded (suffix : List UInt16) (decodedSuffix : Option (Text × Nat)) : Prop :=
  decodedSuffix = some (fromUtf16Lossy suffix, Live.unpairedSurrogates suffix) ∨
    decodedSuffix = none ∧ ∃ unit, suffix = [unit] ∧
      (Utf16.isHigh unit = true ∨ Utf16.isLow unit = true)

/-- The branch that appends scalar values. -/
theorem Shows.appendScalars {d : Option (Text × Nat)} (h : node.Shows history)
    (hd : d = some (fromUtf16Lossy suffix, Live.unpairedSurrogates suffix))
    (hzero : Live.unpairedSurrogates suffix = 0) :
    ∃ node', node.appendScalars suffix d = some node' ∧
      node'.Shows { history with units := history.units ++ suffix } := by
  subst hd
  refine ⟨_, rfl, ?_⟩
  have hsuffix := h.append_encodeText (fromUtf16Lossy suffix)
  rw [encodeText_fromUtf16Lossy hzero] at hsuffix
  exact hsuffix

/-- The branch that appends behind a seam that no pair stands across. -/
theorem Shows.appendApart {d : Option (Text × Nat)} (h : node.Shows history) (hd : Decoded suffix d)
    (hseam : ∀ u ∈ suffix.head?, Utf16.isLow u = true → ¬ Utf16.EndsHigh history.units) :
    node.appendApart (node.dataUtf16 ++ suffix) (Live.unpairedSurrogates suffix) d =
      if Live.unpairedSurrogates (history.units ++ suffix) < 2 ^ 32 then
        some { node with
          data := fromUtf16Lossy (history.units ++ suffix)
          unpairedSurrogates := Live.unpairedSurrogates (history.units ++ suffix)
          utf16 := some (history.units ++ suffix) }
      else none := by
  rw [TextNode.appendApart.eq_def, h.unpairedSurrogates, h.dataUtf16, map_checkedAddU32,
    unpairedSurrogates_append hseam, fromUtf16Lossy_append hseam, ← h.data]
  rcases hd with rfl | ⟨rfl, unit, rfl, hunit⟩
  · rfl
  · rw [fromUtf16Lossy_singleton hunit]

/-- The branch that completes a pair. -/
theorem Shows.joinBoundaryPair {d : Option (Text × Nat)} (h : node.Shows history)
    (hhigh : Utf16.isHigh high = true) (hlow : Utf16.isLow low = true)
    (hunits : history.units = us ++ [high]) (hd : Decoded (low :: vs) d) :
    node.joinBoundaryPair high low (node.dataUtf16 ++ low :: vs)
        (Live.unpairedSurrogates (low :: vs)) d =
      if Live.unpairedSurrogates (history.units ++ low :: vs) < 2 ^ 32 then
        some { node with
          data := fromUtf16Lossy (history.units ++ low :: vs)
          unpairedSurrogates := Live.unpairedSurrogates (history.units ++ low :: vs)
          utf16 := some (history.units ++ low :: vs) }
      else none := by
  obtain ⟨hfront, hback, hwhole⟩ := @unpairedSurrogates_seam us vs _ _ hhigh hlow
  obtain ⟨hfront', hback', hwhole'⟩ := @fromUtf16Lossy_seam us vs _ _ hhigh hlow
  have hcount := h.unpairedSurrogates
  have hdata := h.data
  rw [hunits] at hcount hdata
  rw [hfront] at hcount
  rw [hfront'] at hdata
  have hassert : ¬ (node.unpairedSurrogates = 0 ∨ Live.unpairedSurrogates (low :: vs) = 0 ∨
      node.data.getLast? ≠ some replacementCharacter) := by
    rw [hcount, hback, hdata, List.getLast?_concat]
    simp
  have hsum : node.unpairedSurrogates - 1 + (Live.unpairedSurrogates (low :: vs) - 1) =
      Live.unpairedSurrogates (us ++ [high] ++ low :: vs) := by omega
  rw [TextNode.joinBoundaryPair.eq_def, if_neg hassert]
  simp only [map_checkedAddU32]
  rw [hsum, hunits, hwhole', hdata, List.dropLast_concat, ← hunits, h.dataUtf16]
  rcases hd with rfl | ⟨rfl, unit, heq, -⟩
  · rw [hback']
    rfl
  · obtain ⟨rfl, rfl⟩ := List.cons_eq_cons.mp heq
    simp [fromUtf16Lossy]

/-! ## Calls -/

theorem Shows.bumpMutationRevision (h : node.Shows history) :
    node.bumpMutationRevision = if history.revision + 1 < 2 ^ 64 then
      some { node with mutationRevision := node.mutationRevision + 1 } else none := by
  rw [TextNode.bumpMutationRevision, h.mutationRevision]

theorem Shows.bumped (h : node.Shows history) :
    Shows { node with mutationRevision := node.mutationRevision + 1 }
      { history with revision := history.revision + 1 } :=
  ⟨h.dataUtf16, h.data, h.unpairedSurrogates, h.fits, congrArg (· + 1) h.mutationRevision⟩

/-- The result of a call that is allowed shows the history, and the others panic. -/
def Follows (result : Option TextNode) (allowed : Prop) (history : History) : Prop :=
  (allowed → ∃ node, result = some node ∧ node.Shows history) ∧ (¬ allowed → result = none)

/-- The revision is counted before a step that depends on what may be counted. -/
theorem Shows.follows_bump (h : node.Shows history) {next : TextNode → Option TextNode}
    {allowed : Prop} {after : History}
    (hnext : Follows (next { node with mutationRevision := node.mutationRevision + 1 }) allowed after) :
    Follows (node.bumpMutationRevision.bind next) (history.revision + 1 < 2 ^ 64 ∧ allowed) after := by
  rw [h.bumpMutationRevision]
  by_cases hlt : history.revision + 1 < 2 ^ 64
  · rw [if_pos hlt, Option.bind_some]
    simpa only [Follows, hlt, true_and] using hnext
  · rw [if_neg hlt]
    exact ⟨fun hallowed => absurd hallowed.1 hlt, fun _ => rfl⟩

/-- What is never too much. -/
theorem follows_some {after : History} (h : node.Shows after) : Follows (some node) True after :=
  ⟨fun _ => ⟨node, rfl, h⟩, fun hnot => absurd trivial hnot⟩

/-- A result that depends on a count. -/
theorem follows_ite {allowed : Prop} [Decidable allowed] {after : History}
    (h : allowed → node.Shows after) :
    Follows (if allowed then some node else none) allowed after :=
  ⟨fun hallowed => ⟨node, if_pos hallowed, h hallowed⟩, fun hnot => if_neg hnot⟩

theorem Shows.setData (h : node.Shows history) (data : Text) :
    Follows (node.setData data) (history.revision + 1 < 2 ^ 64 ∧ True)
      (history.record (.setData data)) := by
  have hzero := unpairedSurrogates_encodeText data
  refine h.follows_bump (follows_some ⟨rfl, ?_, hzero.symm, ?_, h.bumped.mutationRevision⟩)
  · exact (fromUtf16Lossy_encodeText data).symm
  · exact lt_of_eq_of_lt hzero (by decide)

theorem Shows.setDataUtf16 (h : node.Shows history) (units : List UInt16) :
    Follows (node.setDataUtf16 units)
      (history.revision + 1 < 2 ^ 64 ∧ Live.unpairedSurrogates units < 2 ^ 32)
      (history.record (.setDataUtf16 units)) := by
  refine h.follows_bump ?_
  rw [decodeUtf16Lossy_eq]
  by_cases hlt : Live.unpairedSurrogates units < 2 ^ 32
  · rw [if_pos hlt]
    have hshows := shows_decoded { node with mutationRevision := node.mutationRevision + 1 } hlt
    exact ⟨fun _ => ⟨_, rfl, h.mutationRevision ▸ hshows⟩, absurd hlt⟩
  · rw [if_neg hlt]
    exact ⟨fun h => absurd h hlt, fun _ => rfl⟩

theorem Shows.setDataOwned (h : node.Shows history) (data : DomString) :
    Follows (node.setDataOwned data)
      (history.revision + 1 < 2 ^ 64 ∧ Live.unpairedSurrogates data.units < 2 ^ 32)
      (history.record (.setDataOwned data)) := by
  cases data with
  | scalar value =>
    have hset := h.setData value
    have hzero : Live.unpairedSurrogates (DomString.scalar value).units < 2 ^ 32 := by
      rw [DomString.units, unpairedSurrogates_encodeText]
      decide
    simp only [hzero]
    exact hset
  | utf16 units =>
    have hset := h.setDataUtf16 units
    rw [TextNode.setDataUtf16] at hset
    rw [TextNode.setDataOwned]
    -- the units are decoded before the revision is counted
    cases hdecode : decodeUtf16LossyWithUnpairedCount units with
    | some decoded =>
      rw [hdecode] at hset
      exact hset
    | none =>
      rw [hdecode] at hset
      refine ⟨fun hallowed => ?_, fun _ => rfl⟩
      obtain ⟨node', hsome, -⟩ := hset.1 hallowed
      cases hbump : node.bumpMutationRevision <;> rw [hbump] at hsome <;> cases hsome

theorem Shows.appendTextData (h : node.Shows history) (suffix : Text) :
    Follows (node.appendTextData suffix) (history.revision + 1 < 2 ^ 64 ∧ True)
      (history.record (.appendTextData suffix)) :=
  h.follows_bump (follows_some (h.bumped.append_encodeText suffix))

/-- A suffix is decoded unless there is too much to count. -/
theorem decodeSuffix_eq (suffix : List UInt16) :
    ∃ d, Decoded suffix d ∧ suffixUnpaired d = Live.unpairedSurrogates suffix ∧
      decodeSuffix suffix = if Live.unpairedSurrogates suffix < 2 ^ 32 then some d else none := by
  have hdecoded (hmap : decodeSuffix suffix =
      (decodeUtf16LossyWithUnpairedCount suffix).map some) : ∃ d, Decoded suffix d ∧
        suffixUnpaired d = Live.unpairedSurrogates suffix ∧
        decodeSuffix suffix =
          if Live.unpairedSurrogates suffix < 2 ^ 32 then some d else none := by
    refine ⟨some (fromUtf16Lossy suffix, Live.unpairedSurrogates suffix), .inl rfl, rfl, ?_⟩
    rw [hmap, decodeUtf16Lossy_eq]
    split <;> rfl
  rcases suffix with _ | ⟨unit, _ | ⟨next, rest⟩⟩
  · exact hdecoded rfl
  · by_cases hunit : Utf16.isHigh unit = true ∨ Utf16.isLow unit = true
    · refine ⟨none, .inr ⟨rfl, unit, rfl, hunit⟩, (unpairedSurrogates_singleton hunit).symm, ?_⟩
      rw [unpairedSurrogates_singleton hunit, decodeSuffix, if_pos (by simpa using hunit)]
      rfl
    · exact hdecoded (by rw [decodeSuffix, if_neg (by simpa using hunit)])
  · exact hdecoded rfl

/-- A node with more units. -/
theorem Shows.extended (h : node.Shows history)
    (hfits : Live.unpairedSurrogates (history.units ++ suffix) < 2 ^ 32) :
    Shows { node with
      data := fromUtf16Lossy (history.units ++ suffix)
      unpairedSurrogates := Live.unpairedSurrogates (history.units ++ suffix)
      utf16 := some (history.units ++ suffix) }
      { history with units := history.units ++ suffix } :=
  ⟨rfl, rfl, rfl, hfits, h.mutationRevision⟩

/-- What is appended behind the revision. -/
theorem Shows.append (h : node.Shows history) {d : Option (Text × Nat)} (hd : Decoded suffix d)
    (hcount : suffixUnpaired d = Live.unpairedSurrogates suffix) :
    Follows (if suffixUnpaired d = 0 then node.appendScalars suffix d
      else
        match (node.utf16.bind List.getLast?).filter Utf16.isHigh,
          suffix.head?.filter Utf16.isLow with
        | some high, some low =>
          node.joinBoundaryPair high low (node.dataUtf16 ++ suffix) (suffixUnpaired d) d
        | _, _ => node.appendApart (node.dataUtf16 ++ suffix) (suffixUnpaired d) d)
      (Live.unpairedSurrogates (history.units ++ suffix) < 2 ^ 32)
      { history with units := history.units ++ suffix } := by
  rw [hcount, h.previousHigh]
  split
  next hzero =>
    have hseam : Live.unpairedSurrogates (history.units ++ suffix) < 2 ^ 32 := by
      rw [← encodeText_fromUtf16Lossy hzero, unpairedSurrogates_append_encodeText]
      exact h.fits
    refine ⟨fun _ => h.appendScalars ?_ hzero, absurd hseam⟩
    rcases hd with hd | ⟨-, unit, rfl, hunit⟩
    · exact hd
    · rw [unpairedSurrogates_singleton hunit] at hzero
      cases hzero
  next hpositive =>
    split
    next high low hprevious hfirst =>
      obtain ⟨hlast, hhigh⟩ := Option.filter_eq_some_iff.mp hprevious
      obtain ⟨hhead, hlow⟩ := Option.filter_eq_some_iff.mp hfirst
      obtain ⟨us, hunits⟩ := List.getLast?_eq_some_iff.mp hlast
      obtain ⟨vs, rfl⟩ := List.head?_eq_some_iff.mp hhead
      rw [h.joinBoundaryPair hhigh hlow hunits hd]
      exact follows_ite h.extended
    next hapart =>
      rw [h.appendApart hd]
      · exact follows_ite h.extended
      · rintro u hu hlow ⟨high, hlast, hhigh⟩
        exact hapart high u (Option.filter_eq_some_iff.mpr ⟨hlast, hhigh⟩)
          (Option.filter_eq_some_iff.mpr ⟨hu, hlow⟩)

theorem Shows.appendTextUtf16 (h : node.Shows history) (hne : suffix ≠ []) :
    Follows (node.appendTextUtf16 suffix)
      (history.revision + 1 < 2 ^ 64 ∧ Live.unpairedSurrogates suffix < 2 ^ 32 ∧
        Live.unpairedSurrogates (history.units ++ suffix) < 2 ^ 32)
      (history.record (.appendTextUtf16 suffix)) := by
  obtain ⟨d, hd, hcount, hsuffix⟩ := decodeSuffix_eq suffix
  have hrecord : history.record (.appendTextUtf16 suffix) =
      ⟨history.units ++ suffix, history.revision + 1⟩ := by
    rw [History.record, if_neg (by simpa using hne)]
    rfl
  rw [hrecord, TextNode.appendTextUtf16, if_neg (by simpa using hne), hsuffix]
  by_cases hlt : Live.unpairedSurrogates suffix < 2 ^ 32
  · rw [if_pos hlt]
    simp only [hlt, true_and]
    exact h.follows_bump (h.bumped.append hd hcount)
  · rw [if_neg hlt]
    exact ⟨fun hallowed => absurd hallowed.2.1 hlt, fun _ => rfl⟩

/-- A call shows the longer history, or it panics because that is too long. -/
theorem Shows.perform (h : node.Shows history) (call : TextCall) :
    Follows (call.perform node) (history.Allows call) (history.record call) := by
  by_cases hempty : call = .appendTextUtf16 []
  · subst hempty
    refine ⟨fun _ => ⟨node, rfl, ?_⟩, fun hnot => absurd (.inl rfl) hnot⟩
    rw [History.record, if_pos rfl, TextCall.write, List.append_nil]
    exact h
  · simp only [History.Allows, hempty, false_or]
    cases call with
    | setData data => exact h.setData data
    | setDataOwned data => exact h.setDataOwned data
    | setDataUtf16 units => exact h.setDataUtf16 units
    | appendTextData suffix => exact h.appendTextData suffix
    | appendTextUtf16 suffix => exact h.appendTextUtf16 (by rintro rfl; exact hempty rfl)

/-! ## Runs -/

theorem new_shows (data : Text) (cdataSection : Bool) :
    (new data cdataSection).Shows ⟨Utf16.encodeText data, 0⟩ where
  dataUtf16 := rfl
  data := (fromUtf16Lossy_encodeText data).symm
  unpairedSurrogates := (unpairedSurrogates_encodeText data).symm
  fits := lt_of_eq_of_lt (unpairedSurrogates_encodeText data) (by decide)
  mutationRevision := rfl

/-- A run of calls shows what was written, or a call that the history before it does not allow panics. -/
theorem Shows.run (calls : List TextCall) : ∀ {node : TextNode} {history : History},
    node.Shows history → Follows (node.run calls)
      (Run.Along History.record History.Allows history calls)
      (Run.run History.record history calls) := by
  induction calls with
  | nil => exact fun h => follows_some h
  | cons call calls ih =>
    intro node history h
    rw [TextNode.run, List.foldlM_cons]
    obtain ⟨hallowed, hpanic⟩ := h.perform call
    by_cases hcall : history.Allows call
    · obtain ⟨node', hsome, hshows⟩ := hallowed hcall
      obtain ⟨hrest, hpanic'⟩ := ih hshows
      rw [hsome]
      exact ⟨fun halong => hrest halong.2, fun hnot => hpanic' fun hrest => hnot ⟨hcall, hrest⟩⟩
    · rw [hpanic hcall]
      exact ⟨fun halong => absurd halong.1 hcall, fun _ => rfl⟩

end TextNode

/-- The units written to a node since the last setter. -/
def written (data : Text) (calls : List TextCall) : List UInt16 :=
  calls.foldl (fun units call => call.write units) (Utf16.encodeText data)

theorem run_record_units (calls : List TextCall) : ∀ history : History,
    (Run.run History.record history calls).units =
      calls.foldl (fun units call => call.write units) history.units := by
  induction calls with
  | nil => exact fun _ => rfl
  | cons call calls ih => exact fun history => ih (history.record call)

/-- Calls that may all be counted leave the units that were written, the text that they decode to, and
the number of surrogates that stand alone in them; others panic. -/
theorem characterData_exact (data : Text) (cdataSection : Bool) (calls : List TextCall) :
    (Run.Along History.record History.Allows ⟨Utf16.encodeText data, 0⟩ calls →
      ∃ node, (TextNode.new data cdataSection).run calls = some node ∧
        node.dataUtf16 = written data calls ∧ node.data = fromUtf16Lossy (written data calls) ∧
        node.unpairedSurrogates = unpairedSurrogates (written data calls)) ∧
    (¬ Run.Along History.record History.Allows ⟨Utf16.encodeText data, 0⟩ calls →
      (TextNode.new data cdataSection).run calls = none) := by
  obtain ⟨hallowed, hpanic⟩ := (TextNode.new_shows data cdataSection).run calls
  refine ⟨fun halong => ?_, hpanic⟩
  obtain ⟨node, hsome, hshows⟩ := hallowed halong
  have hunits : _ = written data calls := run_record_units calls ⟨Utf16.encodeText data, 0⟩
  rw [← hunits]
  exact ⟨node, hsome, hshows.dataUtf16, hshows.data, hshows.unpairedSurrogates⟩

theorem unpairedSurrogates_replicate (h : Utf16.isHigh high = true) (n : Nat) :
    unpairedSurrogates (List.replicate n high) = n := by
  induction n with
  | zero => rfl
  | succ n ih =>
    rw [List.replicate_succ, ← List.singleton_append, unpairedSurrogates_append, ih,
      unpairedSurrogates_singleton (.inl h), Nat.add_comm]
    intro u hu hlow
    have hmem := List.eq_of_mem_replicate (List.mem_of_mem_head? hu)
    rw [hmem, Utf16.isLow_of_isHigh h] at hlow
    cases hlow

/-- More surrogates that stand alone than 32 bits can count cannot be written. -/
theorem characterData_uncounted :
    ¬ ∃ node, (TextNode.new [] false).run [.setDataUtf16 (List.replicate (2 ^ 32) 0xd800)] =
      some node := by
  rintro ⟨node, hsome⟩
  have hpanic := ((TextNode.new_shows [] false).run
    [.setDataUtf16 (List.replicate (2 ^ 32) 0xd800)]).2
  rw [hpanic] at hsome
  · cases hsome
  · rintro ⟨hempty | ⟨-, hlt⟩, -⟩
    · cases hempty
    · dsimp only at hlt
      rw [unpairedSurrogates_replicate rfl] at hlt
      exact Nat.lt_irrefl _ hlt

end Omoikane.Dom.Live
