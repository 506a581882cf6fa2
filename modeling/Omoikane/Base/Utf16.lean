import Omoikane.Base.Text

/-!
# UTF-16

A text in UTF-16 is a list of 16-bit units.  Not every list of units is the
encoding of a text: a surrogate may stand alone.  A code point is therefore a
scalar value or a single surrogate, and every list of units decodes to a list of
code points (`decode`).

Two adjacent surrogates that form a pair are never decoded apart, so a list of
code points is decoded back from its encoding exactly when it is `Settled`: no
high surrogate stands directly in front of a low one.
-/

namespace Base

namespace Utf16

/-! ## Units -/

def isHigh (u : UInt16) : Bool := 0xd800 ≤ u.toNat && u.toNat ≤ 0xdbff

def isLow (u : UInt16) : Bool := 0xdc00 ≤ u.toNat && u.toNat ≤ 0xdfff

theorem isHigh_iff {u : UInt16} : isHigh u = true ↔ 0xd800 ≤ u.toNat ∧ u.toNat ≤ 0xdbff := by
  simp [isHigh]

theorem isLow_iff {u : UInt16} : isLow u = true ↔ 0xdc00 ≤ u.toNat ∧ u.toNat ≤ 0xdfff := by
  simp [isLow]

theorem isLow_of_isHigh {u : UInt16} (h : isHigh u = true) : isLow u = false := by
  rw [isHigh_iff] at h
  rw [Bool.eq_false_iff, ne_eq, isLow_iff]
  omega

/-- The scalar value of a surrogate pair. -/
def pair (high low : UInt16) : Char :=
  Char.ofNat (0x10000 + (high.toNat - 0xd800) * 1024 + (low.toNat - 0xdc00))

/-- `encode_utf16` of one scalar value. -/
def unitsOf (c : Char) : List UInt16 :=
  if c.toNat < 0x10000 then [UInt16.ofNat c.toNat]
  else [UInt16.ofNat (0xd800 + (c.toNat - 0x10000) / 1024),
    UInt16.ofNat (0xdc00 + (c.toNat - 0x10000) % 1024)]

/-- `encode_utf16`. -/
def encodeText (s : Text) : List UInt16 := s.flatMap unitsOf

theorem toNat_ofNat {n : Nat} (h : n < 0x10000) : (UInt16.ofNat n).toNat = n := by
  simp only [UInt16.toNat_ofNat']
  exact Nat.mod_eq_of_lt h

theorem toNat_range (c : Char) :
    c.toNat < 0xd800 ∨ (0xdfff < c.toNat ∧ c.toNat < 0x110000) := c.valid

theorem char_ofNat_toNat (c : Char) : Char.ofNat c.toNat = c := by
  have hvalid : c.toNat.isValidChar := c.valid
  apply Char.ext
  rw [Char.ofNat, dif_pos hvalid]
  apply UInt32.toNat_inj.mp
  rfl

/-- A scalar value is one unit that is no surrogate, or a surrogate pair. -/
theorem unitsOf_cases (c : Char) :
    (∃ u, unitsOf c = [u] ∧ isHigh u = false ∧ isLow u = false ∧ Char.ofNat u.toNat = c) ∨
      ∃ high low, unitsOf c = [high, low] ∧ isHigh high = true ∧ isLow low = true ∧
        pair high low = c := by
  have hrange := toNat_range c
  unfold unitsOf
  split
  next hsmall =>
    refine .inl ⟨UInt16.ofNat c.toNat, rfl, ?_, ?_, ?_⟩
    · rw [Bool.eq_false_iff, ne_eq, isHigh_iff, toNat_ofNat hsmall]
      omega
    · rw [Bool.eq_false_iff, ne_eq, isLow_iff, toNat_ofNat hsmall]
      omega
    · rw [toNat_ofNat hsmall, char_ofNat_toNat]
  next hlarge =>
    have hhigh : 0xd800 + (c.toNat - 0x10000) / 1024 < 0x10000 := by omega
    have hlow : 0xdc00 + (c.toNat - 0x10000) % 1024 < 0x10000 := by omega
    refine .inr ⟨_, _, rfl, ?_, ?_, ?_⟩
    · rw [isHigh_iff, toNat_ofNat hhigh]
      omega
    · rw [isLow_iff, toNat_ofNat hlow]
      omega
    · have hsum : 0x10000 + (0xd800 + (c.toNat - 0x10000) / 1024 - 0xd800) * 1024 +
          (0xdc00 + (c.toNat - 0x10000) % 1024 - 0xdc00) = c.toNat := by omega
      rw [pair, toNat_ofNat hhigh, toNat_ofNat hlow, hsum, char_ofNat_toNat]

/-! ## Code points -/

/-- A scalar value, or a surrogate that stands alone. -/
inductive CodePoint
  | scalar (c : Char)
  | surrogate (unit : UInt16)
deriving DecidableEq, Repr

namespace CodePoint

/-- The units of a code point. -/
def units : CodePoint → List UInt16
  | scalar c => unitsOf c
  | surrogate u => [u]

def isHigh : CodePoint → Bool
  | scalar _ => false
  | surrogate u => Utf16.isHigh u

def isLow : CodePoint → Bool
  | scalar _ => false
  | surrogate u => Utf16.isLow u

/-- What is kept as a surrogate is one. -/
def Proper : CodePoint → Prop
  | scalar _ => True
  | surrogate u => Utf16.isHigh u = true ∨ Utf16.isLow u = true

/-- The code point of a unit that is no high surrogate. -/
def single (u : UInt16) : CodePoint :=
  if Utf16.isLow u then surrogate u else scalar (Char.ofNat u.toNat)

end CodePoint

/-- The units of a list of code points. -/
def encode (points : List CodePoint) : List UInt16 := points.flatMap CodePoint.units

@[simp] theorem encode_nil : encode [] = [] := rfl

theorem encode_map_scalar (s : Text) : encode (s.map .scalar) = encodeText s := by
  simp [encode, encodeText, List.flatMap_map, CodePoint.units]

/-! ## Decoding -/

/-- Decodes the units behind a high surrogate that is still open. -/
def decodeFrom : Option UInt16 → List UInt16 → List CodePoint
  | none, [] => []
  | some high, [] => [.surrogate high]
  | none, u :: us => if isHigh u then decodeFrom (some u) us else .single u :: decodeFrom none us
  | some high, u :: us =>
    if isLow u then .scalar (pair high u) :: decodeFrom none us
    else .surrogate high ::
      if isHigh u then decodeFrom (some u) us else .single u :: decodeFrom none us

/-- The code points of a list of units. -/
def decode (units : List UInt16) : List CodePoint := decodeFrom none units

@[simp] theorem decode_nil : decode [] = [] := rfl

/-- An open high surrogate that is not completed stands alone. -/
theorem decodeFrom_some {high : UInt16} {us : List UInt16}
    (h : ∀ u rest, us = u :: rest → isLow u = false) :
    decodeFrom (some high) us = .surrogate high :: decodeFrom none us := by
  cases us with
  | nil => rfl
  | cons u rest => simp [decodeFrom, h u rest rfl]

/-- The units of a scalar value are decoded to it. -/
theorem decodeFrom_unitsOf (c : Char) (us : List UInt16) :
    decodeFrom none (unitsOf c ++ us) = .scalar c :: decodeFrom none us := by
  obtain ⟨u, hu, hhigh, hlow, hc⟩ | ⟨high, low, hu, hhigh, hlow, hc⟩ := unitsOf_cases c
  · simp [hu, decodeFrom, hhigh, CodePoint.single, hlow, hc]
  · simp [hu, decodeFrom, hhigh, hlow, hc]

theorem decodeFrom_encodeText (s : Text) (us : List UInt16) :
    decodeFrom none (encodeText s ++ us) = s.map .scalar ++ decodeFrom none us := by
  induction s with
  | nil => rfl
  | cons c s ih =>
    rw [encodeText, List.flatMap_cons, List.append_assoc, decodeFrom_unitsOf]
    exact congrArg (CodePoint.scalar c :: ·) ih

/-- A text does not begin with a low surrogate. -/
theorem isLow_of_encodeText {s : Text} (hs : s ≠ []) {us rest : List UInt16} {u : UInt16}
    (h : encodeText s ++ us = u :: rest) : isLow u = false := by
  cases s with
  | nil => exact absurd rfl hs
  | cons c s =>
    rw [encodeText, List.flatMap_cons, List.append_assoc] at h
    obtain ⟨v, hv, _, hlow, _⟩ | ⟨high, low, hv, hhigh, _, _⟩ := unitsOf_cases c
    · rw [hv, List.singleton_append, List.cons.injEq] at h
      rw [← h.1, hlow]
    · rw [hv, List.cons_append, List.cons.injEq] at h
      rw [← h.1, isLow_of_isHigh hhigh]

/-! ## Settled lists of code points -/

/-- `q` may follow `p` without forming a pair with it. -/
def Apart (p q : CodePoint) : Prop := ¬ (p.isHigh = true ∧ q.isLow = true)

/-- Proper code points, no two neighbours of which form a surrogate pair. -/
structure Settled (points : List CodePoint) : Prop where
  proper : ∀ p ∈ points, p.Proper
  apart : points.IsChain Apart

theorem Settled.nil : Settled [] := ⟨by simp, .nil⟩

theorem Settled.cons {p : CodePoint} {points : List CodePoint} (hp : p.Proper)
    (h : Settled points) (hhead : ∀ q ∈ points.head?, Apart p q) : Settled (p :: points) := by
  refine ⟨?_, List.isChain_cons.mpr ⟨hhead, h.apart⟩⟩
  intro q hq
  rcases List.mem_cons.mp hq with rfl | hq
  · exact hp
  · exact h.proper q hq

theorem Settled.head {p : CodePoint} {points : List CodePoint} (h : Settled (p :: points)) :
    ∀ q ∈ points.head?, Apart p q :=
  (List.isChain_cons.mp h.apart).1

theorem Settled.left {ps qs : List CodePoint} (h : Settled (ps ++ qs)) : Settled ps :=
  ⟨fun p hp => h.proper p (List.mem_append_left _ hp), h.apart.left_of_append⟩

theorem Settled.right {ps qs : List CodePoint} (h : Settled (ps ++ qs)) : Settled qs :=
  ⟨fun p hp => h.proper p (List.mem_append_right _ hp), h.apart.right_of_append⟩

theorem proper_single {u : UInt16} : (CodePoint.single u).Proper := by
  unfold CodePoint.single
  split
  next h => exact .inr h
  next => trivial

theorem isHigh_single {u : UInt16} : (CodePoint.single u).isHigh = false := by
  unfold CodePoint.single
  split
  next h =>
    have hn : isHigh u ≠ true := fun hh => by rw [isLow_of_isHigh hh] at h; cases h
    exact Bool.eq_false_iff.mpr hn
  next => rfl

theorem isLow_single {u : UInt16} (h : isLow u = false) : (CodePoint.single u).isLow = false := by
  simp [CodePoint.single, h, CodePoint.isLow]

/-- With a high surrogate open, the first code point is no low surrogate. -/
theorem head_decodeFrom_some {high : UInt16} (hhigh : isHigh high = true) (us : List UInt16) :
    ∀ q ∈ (decodeFrom (some high) us).head?, q.isLow = false := by
  intro q hq
  have hlow : isLow high = false := isLow_of_isHigh hhigh
  cases us with
  | nil =>
    rw [decodeFrom, List.head?_cons, Option.mem_def, Option.some.injEq] at hq
    rw [← hq]
    exact hlow
  | cons u rest =>
    rw [decodeFrom] at hq
    split at hq
    all_goals
      rw [List.head?_cons, Option.mem_def, Option.some.injEq] at hq
      rw [← hq]
    · rfl
    · exact hlow

theorem settled_decodeFrom (us : List UInt16) :
    Settled (decodeFrom none us) ∧
      ∀ high, isHigh high = true → Settled (decodeFrom (some high) us) := by
  induction us with
  | nil =>
    refine ⟨.nil, ?_⟩
    intro high hhigh
    exact .cons (.inl hhigh) .nil (by simp)
  | cons u us ih =>
    obtain ⟨hnone, hsome⟩ := ih
    have hsingle : Settled (.single u :: decodeFrom none us) := by
      refine .cons proper_single hnone ?_
      intro q _ hq
      rw [isHigh_single] at hq
      exact absurd hq.1 (by decide)
    have hstart : Settled (if isHigh u then decodeFrom (some u) us
        else .single u :: decodeFrom none us) := by
      split
      next hu => exact hsome u hu
      next => exact hsingle
    refine ⟨by rw [decodeFrom]; exact hstart, ?_⟩
    intro high hhigh
    rw [decodeFrom]
    split
    next hlow =>
      refine .cons trivial hnone ?_
      intro q _ hq
      exact absurd hq.1 (by simp [CodePoint.isHigh])
    next hlow =>
      refine .cons (.inl hhigh) hstart ?_
      intro q hq hpair
      split at hq
      next hu =>
        rw [head_decodeFrom_some hu us q hq] at hpair
        exact absurd hpair.2 (by decide)
      next =>
        rw [List.head?_cons, Option.mem_def, Option.some.injEq] at hq
        rw [← hq, isLow_single (Bool.eq_false_iff.mpr hlow)] at hpair
        exact absurd hpair.2 (by decide)

/-- What is decoded is settled. -/
theorem settled_decode (us : List UInt16) : Settled (decode us) := (settled_decodeFrom us).1

/-! ## Decoding what was appended -/

/-- The units end in a high surrogate. -/
def EndsHigh (us : List UInt16) : Prop := ∃ u ∈ us.getLast?, isHigh u = true

/-- One more code point is decoded as itself, unless it completes a pair. -/
theorem decodeFrom_append_units {p : CodePoint} (hp : p.Proper) : ∀ (us : List UInt16)
    (pending : Option UInt16), (∀ h ∈ pending, isHigh h = true) →
    (p.isLow = true → ¬ EndsHigh (pending.toList ++ us)) →
    decodeFrom pending (us ++ p.units) = decodeFrom pending us ++ [p] := by
  intro us
  induction us with
  | nil =>
    intro pending hpending hend
    have hlast : ∀ h, pending = some h → p.isLow = false := by
      rintro h rfl
      refine Bool.eq_false_iff.mpr fun hlow => hend hlow ⟨h, rfl, hpending h rfl⟩
    cases p with
    | scalar c =>
      have hnone : decodeFrom none (unitsOf c) = [.scalar c] := by
        have := decodeFrom_unitsOf c []
        rwa [List.append_nil] at this
      cases pending with
      | none => exact hnone
      | some h =>
        show decodeFrom (some h) (unitsOf c) = [.surrogate h, .scalar c]
        rw [decodeFrom_some, hnone]
        intro u rest hu
        have hencoded : encodeText [c] ++ [] = u :: rest := by
          rw [← hu, encodeText, List.flatMap_cons, List.flatMap_nil, List.append_nil,
            List.append_nil]
        exact isLow_of_encodeText (List.cons_ne_nil c []) hencoded
    | surrogate u =>
      have hsingle : decodeFrom none [u] = [.surrogate u] := by
        rcases hp with hhigh | hlow
        · simp [decodeFrom, hhigh]
        · have hhigh : isHigh u = false := by
            refine Bool.eq_false_iff.mpr fun hh => ?_
            rw [isLow_of_isHigh hh] at hlow
            cases hlow
          simp [decodeFrom, hhigh, CodePoint.single, hlow]
      cases pending with
      | none => exact hsingle
      | some h =>
        show decodeFrom (some h) [u] = [.surrogate h, .surrogate u]
        rw [decodeFrom_some, hsingle]
        intro v rest hv
        rw [List.cons.injEq] at hv
        rw [← hv.1]
        exact hlast h rfl
  | cons u us ih =>
    intro pending hpending hend
    have hrest : p.isLow = true → ¬ EndsHigh us := by
      rintro hlow ⟨v, hv, hhigh⟩
      refine hend hlow ⟨v, ?_, hhigh⟩
      have hne : us ≠ [] := by rintro rfl; cases hv
      rw [List.getLast?_append, List.getLast?_cons]
      rw [Option.mem_def] at hv
      simp [hv]
    have hnone := ih none (by simp) (by simpa using hrest)
    have hstart : (if isHigh u then decodeFrom (some u) (us ++ p.units)
          else .single u :: decodeFrom none (us ++ p.units)) =
        (if isHigh u then decodeFrom (some u) us else .single u :: decodeFrom none us) ++ [p] := by
      split
      next hu =>
        refine ih (some u) (by simpa using hu) ?_
        intro hlow hends
        refine hend hlow ?_
        obtain ⟨v, hv, hhigh⟩ := hends
        refine ⟨v, ?_, hhigh⟩
        rw [List.getLast?_append]
        simpa using Option.mem_def.mp hv
      next => rw [hnone, List.cons_append]
    cases pending with
    | none => rw [List.cons_append, decodeFrom, decodeFrom, hstart]
    | some h =>
      rw [List.cons_append, decodeFrom, decodeFrom, hstart, hnone]
      split <;> rfl

/-- A text behind some units is decoded as itself. -/
theorem decode_append_encodeText (us : List UInt16) (s : Text) :
    decode (us ++ encodeText s) = decode us ++ s.map .scalar := by
  induction s generalizing us with
  | nil => simp [encodeText]
  | cons c s ih =>
    have hc : decode (us ++ unitsOf c) = decode us ++ [.scalar c] :=
      decodeFrom_append_units (p := .scalar c) trivial us none (by simp) (by simp [CodePoint.isLow])
    rw [encodeText, List.flatMap_cons, ← List.append_assoc]
    have hrest := ih (us ++ unitsOf c)
    rw [encodeText] at hrest
    rw [hrest, hc, List.append_assoc]
    rfl

/-- A text does not end in a high surrogate. -/
theorem not_endsHigh_encodeText {s : Text} (hs : s ≠ []) (us : List UInt16) :
    ¬ EndsHigh (us ++ encodeText s) := by
  rintro ⟨u, hu, hhigh⟩
  obtain ⟨front, c, rfl⟩ := List.eq_nil_or_concat s |>.resolve_left hs
  rw [encodeText, List.concat_eq_append, List.flatMap_append, List.flatMap_cons, List.flatMap_nil,
    List.append_nil, ← List.append_assoc] at hu
  obtain ⟨v, hv, hnot, _, _⟩ | ⟨high, low, hv, _, hlow, _⟩ := unitsOf_cases c
  · rw [hv, List.getLast?_append, List.getLast?_singleton, Option.some_or, Option.mem_def,
      Option.some.injEq] at hu
    rw [← hu, hnot] at hhigh
    cases hhigh
  · rw [hv, List.getLast?_append, Option.mem_def] at hu
    have hlast : low = u := Option.some.inj hu
    rw [← hlast] at hhigh
    rw [isLow_of_isHigh hhigh] at hlow
    cases hlow

theorem decode_append_units {us : List UInt16} {p : CodePoint} (hp : p.Proper)
    (h : p.isLow = true → ¬ EndsHigh us) : decode (us ++ p.units) = decode us ++ [p] :=
  decodeFrom_append_units hp us none (by simp) (by simpa using h)

/-- Units are decoded apart unless a pair stands across the seam. -/
theorem decodeFrom_append {vs : List UInt16} : ∀ (us : List UInt16) (pending : Option UInt16),
    (∀ u ∈ vs.head?, isLow u = true → ¬ EndsHigh (pending.toList ++ us)) →
    (∀ h ∈ pending, isHigh h = true) →
    decodeFrom pending (us ++ vs) = decodeFrom pending us ++ decodeFrom none vs := by
  intro us
  induction us with
  | nil =>
    intro pending hseam hpending
    cases pending with
    | none => rfl
    | some h =>
      rw [List.nil_append, decodeFrom_some]
      · rfl
      · rintro u rest rfl
        exact Bool.eq_false_iff.mpr fun hlow => hseam u rfl hlow ⟨h, rfl, hpending h rfl⟩
  | cons u us ih =>
    intro pending hseam hpending
    have hrest : ∀ v ∈ vs.head?, isLow v = true → ¬ EndsHigh (u :: us) := by
      rintro v hv hlow ⟨w, hw, hhigh⟩
      refine hseam v hv hlow ⟨w, ?_, hhigh⟩
      rw [List.getLast?_append, Option.mem_def, Option.mem_def.mp hw, Option.some_or]
    have hnone := ih none (fun v hv hlow hends => hrest v hv hlow (by
      obtain ⟨w, hw, hhigh⟩ := hends
      refine ⟨w, ?_, hhigh⟩
      rw [Option.toList_none, List.nil_append, Option.mem_def] at hw
      rw [List.getLast?_cons, hw]
      rfl)) (by simp)
    have hstart : (if isHigh u then decodeFrom (some u) (us ++ vs)
          else .single u :: decodeFrom none (us ++ vs)) =
        (if isHigh u then decodeFrom (some u) us else .single u :: decodeFrom none us) ++
          decodeFrom none vs := by
      split
      next hu => exact ih (some u) hrest (by simpa using hu)
      next => rw [hnone, List.cons_append]
    cases pending with
    | none => rw [List.cons_append, decodeFrom, decodeFrom, hstart]
    | some h =>
      rw [List.cons_append, decodeFrom, decodeFrom, hstart, hnone]
      split <;> rfl

theorem decode_append {us vs : List UInt16}
    (h : ∀ u ∈ vs.head?, isLow u = true → ¬ EndsHigh us) :
    decode (us ++ vs) = decode us ++ decode vs :=
  decodeFrom_append us none (by simpa using h) (by simp)

/-- A low surrogate in front is decoded alone. -/
theorem decode_low_cons {low : UInt16} (hlow : isLow low = true) (vs : List UInt16) :
    decode (low :: vs) = .surrogate low :: decode vs := by
  have hhigh : ¬ isHigh low = true := fun h => by
    rw [isLow_of_isHigh h] at hlow
    cases hlow
  rw [decode, decodeFrom, if_neg hhigh, CodePoint.single, if_pos hlow, decode]

/-- A high surrogate and a low one behind it are decoded to one scalar value. -/
theorem decode_pair_cons {high low : UInt16} (hhigh : isHigh high = true) (hlow : isLow low = true)
    (vs : List UInt16) : decode (high :: low :: vs) = .scalar (pair high low) :: decode vs := by
  rw [decode, decodeFrom, if_pos hhigh, decodeFrom, if_pos hlow, decode]

/-- Every unit is decoded to something. -/
theorem decode_eq_nil {us : List UInt16} : decode us = [] ↔ us = [] := by
  have hsome : ∀ (high : UInt16) (rest : List UInt16), decodeFrom (some high) rest ≠ [] := by
    intro high rest
    cases rest with
    | nil => exact List.cons_ne_nil _ _
    | cons u rest =>
      rw [decodeFrom]
      split <;> exact List.cons_ne_nil _ _
  refine ⟨fun h => ?_, fun h => by rw [h]; rfl⟩
  cases us with
  | nil => rfl
  | cons u rest =>
    rw [decode, decodeFrom] at h
    split at h
    next => exact absurd h (hsome u rest)
    next => cases h

/-- There are no more code points than units. -/
theorem length_decodeFrom_le (us : List UInt16) : ∀ pending : Option UInt16,
    (decodeFrom pending us).length ≤ pending.toList.length + us.length := by
  induction us with
  | nil =>
    intro pending
    cases pending <;> exact Nat.le_refl _
  | cons u us ih =>
    have hsome := ih (some u)
    have hnone := ih none
    intro pending
    simp only [Option.toList_some, Option.toList_none, List.length_cons, List.length_nil] at *
    cases pending with
    | none =>
      rw [decodeFrom]
      split <;> simp only [List.length_cons, Option.toList_none, List.length_nil] <;> omega
    | some high =>
      rw [decodeFrom]
      repeat' split
      all_goals
        simp only [List.length_cons, Option.toList_some, List.length_nil]
        omega

theorem decode_encodeText (s : Text) : decode (encodeText s) = s.map .scalar := by
  have h := decodeFrom_encodeText s []
  rwa [List.append_nil, decodeFrom, List.append_nil] at h

/-! ## Encoding what was decoded -/

theorem toNat_charOfNat {n : Nat} (h : n < 0xd800 ∨ (0xdfff < n ∧ n < 0x110000)) :
    (Char.ofNat n).toNat = n := by
  rw [Char.ofNat, dif_pos (show n.isValidChar from h)]
  rfl

theorem ofNat_toNat (u : UInt16) : UInt16.ofNat u.toNat = u := UInt16.ofNat_toNat

/-- A pair is encoded to its surrogates. -/
theorem unitsOf_pair {high low : UInt16} (hhigh : isHigh high = true) (hlow : isLow low = true) :
    unitsOf (pair high low) = [high, low] := by
  rw [isHigh_iff] at hhigh
  rw [isLow_iff] at hlow
  have hvalue : (pair high low).toNat =
      0x10000 + (high.toNat - 0xd800) * 1024 + (low.toNat - 0xdc00) :=
    toNat_charOfNat (.inr (by omega))
  have hfirst : 0xd800 + ((pair high low).toNat - 0x10000) / 1024 = high.toNat := by omega
  have hsecond : 0xdc00 + ((pair high low).toNat - 0x10000) % 1024 = low.toNat := by omega
  rw [unitsOf, if_neg (by omega), hfirst, hsecond, ofNat_toNat, ofNat_toNat]

theorem units_single {u : UInt16} (h : isHigh u = false) : (CodePoint.single u).units = [u] := by
  rw [CodePoint.single]
  split
  next => rfl
  next hlow =>
    rw [Bool.eq_false_iff, ne_eq, isHigh_iff] at h
    rw [isLow_iff] at hlow
    have hlt : u.toNat < 0x10000 := u.toNat_lt
    have hvalue : (Char.ofNat u.toNat).toNat = u.toNat := toNat_charOfNat (by omega)
    rw [CodePoint.units, unitsOf, hvalue, if_pos hlt, ofNat_toNat]

/-- Decoding loses nothing. -/
theorem encode_decodeFrom (us : List UInt16) : ∀ pending : Option UInt16,
    (∀ h ∈ pending, isHigh h = true) → encode (decodeFrom pending us) = pending.toList ++ us := by
  induction us with
  | nil => intro pending _; cases pending <;> rfl
  | cons u us ih =>
    have hstart : encode (if isHigh u then decodeFrom (some u) us
        else .single u :: decodeFrom none us) = u :: us := by
      split
      next hu => exact ih (some u) (by simpa using hu)
      next hu =>
        rw [encode, List.flatMap_cons, units_single (Bool.eq_false_iff.mpr hu)]
        exact congrArg (u :: ·) (ih none (by simp))
    intro pending hpending
    cases pending with
    | none => rw [decodeFrom, hstart]; rfl
    | some h =>
      rw [decodeFrom]
      split
      next hlow =>
        rw [encode, List.flatMap_cons, CodePoint.units, unitsOf_pair (hpending h rfl) hlow]
        exact congrArg (fun rest => h :: u :: rest) (ih none (by simp))
      next =>
        rw [encode, List.flatMap_cons]
        exact congrArg (h :: ·) hstart

theorem encode_decode (us : List UInt16) : encode (decode us) = us :=
  encode_decodeFrom us none (by simp)

end Utf16

end Base
