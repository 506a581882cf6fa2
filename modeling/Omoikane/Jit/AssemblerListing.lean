import Omoikane.Jit.Aarch64

/-!
# What assembled code does

A listing keeps what the calls of an assembler ask for: the instructions in their order, and the place of each
label that was handed out.  Literals are labels of the assembler as well, so its numbers of labels are not
those of the listing; `Follows` relates the two.  In the code that `finish` returns every displacement leads
to the place that the listing names, every literal stands in the pool once, and no other bit of an
instruction differs from what was asked for.
-/

namespace Omoikane.Jit.Aarch64

open Base

/-! ## Listings -/

/-- An instruction of a listing.  A label is the number of labels handed out before it. -/
inductive Item where
  | instruction (word : BitVec 32)
  | branch (label : Nat)
  | conditional (label : Nat) (condition : UInt8)
  | literal (register : UInt8) (value : BitVec 64)
deriving DecidableEq, Repr

namespace Item

/-- The word of an instruction with a displacement of zero. -/
def word : Item → BitVec 32
  | .instruction word => word
  | .branch _ => 0x14000000#32
  | .conditional _ condition => 0x54000000#32 ||| BitVec.ofNat 32 condition.toNat
  | .literal register _ => 0x58000000#32 ||| BitVec.ofNat 32 register.toNat

def relocation : Item → Option Relocation
  | .instruction _ => none
  | .branch _ => some .branch
  | .conditional _ _ => some .conditional
  | .literal _ _ => some .literal

/-- The pool with the value that an instruction loads. -/
def addValue (pool : List (BitVec 64)) : Item → List (BitVec 64)
  | .literal _ value => if value ∈ pool then pool else pool ++ [value]
  | _ => pool

end Item

/-- What the caller of an assembler asks for. -/
inductive Call where
  | instruction (word : BitVec 32)
  | label
  | bind (label : Nat)
  | branch (label : Nat)
  | branchCondition (label : Nat) (condition : UInt8)
  | literalU64 (register : UInt8) (value : BitVec 64)
deriving DecidableEq, Repr

structure Listing where
  items : List Item
  places : List (Option Nat)
deriving DecidableEq, Repr

namespace Listing

/-- The listing after a call.  A call that fails leaves it as it is, and labels are only those handed out. -/
def perform (listing : Listing) : Call → Listing
  | .instruction word => { listing with items := listing.items ++ [.instruction word] }
  | .label => { listing with places := listing.places ++ [none] }
  | .bind label =>
    if listing.places[label]? = some none then
      { listing with places := listing.places.set label (some (listing.items.length * 4)) }
    else listing
  | .branch label =>
    if label < listing.places.length then { listing with items := listing.items ++ [.branch label] } else listing
  | .branchCondition label condition =>
    if label < listing.places.length ∧ condition < 14 then
      { listing with items := listing.items ++ [.conditional label condition] }
    else listing
  | .literalU64 register value =>
    if register ≤ 30 ∧ register ≠ 18 then { listing with items := listing.items ++ [.literal register value] }
    else listing

def run (calls : List Call) : Listing := calls.foldl perform { items := [], places := [] }

/-- The loaded values, in the order of their first loads. -/
def pool (listing : Listing) : List (BitVec 64) := listing.items.foldl Item.addValue []

/-- Where the pool starts: the first multiple of eight behind the instructions. -/
def poolStart (listing : Listing) : Nat :=
  if listing.pool ≠ [] ∧ listing.items.length * 4 % 8 ≠ 0 then listing.items.length * 4 + 4
  else listing.items.length * 4

/-- The position that an instruction refers to. -/
def target (listing : Listing) : Item → Option Nat
  | .instruction _ => none
  | .branch label | .conditional label _ => listing.places[label]?.join
  | .literal _ value => some (listing.poolStart + listing.pool.idxOf value * 8)

end Listing

/-! ## Calls of an assembler -/

/-- An assembler, and the labels that its caller holds. -/
structure Session where
  assembler : Assembler
  handed : List Label

namespace Session

/-- One call.  Where it fails, by an error or by the assertion, the assembler is as before. -/
def perform (session : Session) : Call → Session
  | .instruction word => { session with assembler := session.assembler.instruction word }
  | .label =>
    let (label, assembler) := session.assembler.label
    { assembler, handed := session.handed ++ [label] }
  | .bind label =>
    match session.handed[label]? with
    | none => session
    | some label =>
      match session.assembler.bind label with
      | .error _ => session
      | .ok assembler => { session with assembler }
  | .branch label =>
    match session.handed[label]? with
    | none => session
    | some label => { session with assembler := session.assembler.branch label }
  | .branchCondition label condition =>
    match session.handed[label]? with
    | none => session
    | some label =>
      match session.assembler.branchCondition label condition with
      | none => session
      | some assembler => { session with assembler }
  | .literalU64 register value =>
    match session.assembler.literalU64 register value with
    | .error _ => session
    | .ok assembler => { session with assembler }

def run (calls : List Call) : Session :=
  calls.foldl perform { assembler := Assembler.default, handed := [] }

end Session

/-! ## Assemblers follow listings -/

theorem getElem?_concat_eq_some {α : Type} {l : List α} {a b : α} {i : Nat} :
    (l ++ [a])[i]? = some b ↔ l[i]? = some b ∨ i = l.length ∧ a = b := by
  rcases Nat.lt_trichotomy i l.length with h | rfl | h
  · rw [List.getElem?_append_left h]
    exact ⟨.inl, fun hor => hor.elim id fun heq => absurd heq.1 (Nat.ne_of_lt h)⟩
  · rw [List.getElem?_concat_length, List.getElem?_eq_none (Nat.le_refl _)]
    simp
  · rw [List.getElem?_eq_none (by rw [List.length_append, List.length_singleton]; omega),
      List.getElem?_eq_none (Nat.le_of_lt h)]
    exact ⟨fun h => (nomatch h), fun hor => hor.elim (fun h => (nomatch h)) fun heq => absurd heq.1 (Nat.ne_of_gt h)⟩

/-- The labels that the caller holds have the places of the listing, and those of literals have none yet. -/
structure Tables (assembler : Assembler) (handed : List Label) (places : List (Option Nat)) : Prop where
  length : handed.length = places.length
  place : ∀ (k : Nat) (label : Label), handed[k]? = some label → assembler.labels[label.index]? = places[k]?
  distinct : (handed ++ assembler.literals.map Prod.snd).Nodup
  waiting : ∀ literal ∈ assembler.literals, assembler.labels[literal.2.index]? = some none

namespace Tables

variable {assembler : Assembler} {handed : List Label} {places : List (Option Nat)}

theorem lt_of_mem (h : Tables assembler handed places) {label : Label}
    (hlabel : label ∈ handed ++ assembler.literals.map Prod.snd) : label.index < assembler.labels.length := by
  rcases List.mem_append.mp hlabel with hlabel | hlabel
  · obtain ⟨k, hk⟩ := List.mem_iff_getElem?.mp hlabel
    have hlt : k < places.length := h.length ▸ (List.getElem?_eq_some_iff.mp hk).1
    have hplace := h.place k label hk
    rw [List.getElem?_eq_getElem hlt] at hplace
    exact (List.getElem?_eq_some_iff.mp hplace).1
  · obtain ⟨literal, hliteral, rfl⟩ := List.mem_map.mp hlabel
    exact (List.getElem?_eq_some_iff.mp (h.waiting literal hliteral)).1

/-- The next label is a new one. -/
theorem not_mem_next (h : Tables assembler handed places) :
    (⟨assembler.labels.length⟩ : Label) ∉ handed ++ assembler.literals.map Prod.snd :=
  fun hmem => Nat.lt_irrefl _ (h.lt_of_mem hmem)

theorem label (h : Tables assembler handed places) :
    Tables assembler.label.2 (handed ++ [assembler.label.1]) (places ++ [none]) where
  length := by rw [List.length_append, List.length_append, h.length]; rfl
  place k label hk := by
    rcases getElem?_concat_eq_some.mp hk with hk | ⟨rfl, rfl⟩
    · have hlt := h.lt_of_mem (List.mem_append_left _ (List.mem_of_getElem? hk))
      have hplace : k < places.length := h.length ▸ (List.getElem?_eq_some_iff.mp hk).1
      rw [List.getElem?_append_left hplace, ← h.place k label hk]
      exact List.getElem?_append_left hlt
    · rw [h.length, List.getElem?_concat_length]
      exact List.getElem?_concat_length
  distinct := by
    have hnew := h.not_mem_next
    have hperm : (handed ++ [assembler.label.1] ++ assembler.literals.map Prod.snd).Perm
        (assembler.label.1 :: (handed ++ assembler.literals.map Prod.snd)) := by
      rw [List.append_assoc]
      exact List.perm_middle
    exact hperm.nodup_iff.mpr (List.nodup_cons.mpr ⟨hnew, h.distinct⟩)
  waiting literal hliteral := by
    have hwaiting := h.waiting literal hliteral
    have hlt := (List.getElem?_eq_some_iff.mp hwaiting).1
    rw [← hwaiting]
    exact List.getElem?_append_left hlt

/-- A label that the caller holds is bound. -/
theorem bind (h : Tables assembler handed places) {k : Nat} {label : Label} (hk : handed[k]? = some label)
    (position : Nat) :
    Tables { assembler with labels := assembler.labels.set label.index (some position) } handed
      (places.set k (some position)) where
  length := by rw [List.length_set, h.length]
  place j other hj := by
    have hlabels := h.lt_of_mem (List.mem_append_left _ (List.mem_of_getElem? hk))
    have hplaces : k < places.length := h.length ▸ (List.getElem?_eq_some_iff.mp hk).1
    rw [List.getElem?_set, List.getElem?_set, if_pos hlabels, if_pos hplaces]
    by_cases heq : k = j
    · subst heq
      rw [hk] at hj
      cases hj
      rw [if_pos rfl, if_pos rfl]
    · have hne : label.index ≠ other.index := fun hindex => heq <| by
        have hsame : label = other := by cases label; cases other; exact congrArg Label.mk hindex
        have hnodup := (List.nodup_append.mp h.distinct).1
        exact (List.getElem?_inj (List.getElem?_eq_some_iff.mp hk).1 hnodup).mp (by rw [hk, hj, hsame])
      rw [if_neg hne, if_neg heq]
      exact h.place j other hj
  distinct := h.distinct
  waiting literal hliteral := by
    have hne : label.index ≠ literal.2.index := fun hindex => by
      have hsame : label = literal.2 := by
        cases label; cases hlabel : literal.2; rw [hlabel] at hindex; exact congrArg Label.mk hindex
      have hdisjoint := (List.nodup_append.mp h.distinct).2.2
      exact hdisjoint label (List.mem_of_getElem? hk) literal.2 (List.mem_map_of_mem hliteral) hsame
    rw [List.getElem?_set_ne hne]
    exact h.waiting literal hliteral

/-- The literals after a load of a value. -/
def withLiteral (literals : List (BitVec 64 × Label)) (value : BitVec 64) (label : Label) :
    List (BitVec 64 × Label) :=
  if value ∈ literals.map Prod.fst then literals else literals ++ [(value, label)]

/-- A value that has no label yet takes the next one. -/
theorem literalLabel_eq (assembler : Assembler) (value : BitVec 64) :
    (assembler.literalLabel value).2 =
        { assembler with
          labels := if value ∈ assembler.literals.map Prod.fst then assembler.labels
            else assembler.labels ++ [none]
          literals := withLiteral assembler.literals value ⟨assembler.labels.length⟩ } ∧
      (value, (assembler.literalLabel value).1) ∈ withLiteral assembler.literals value ⟨assembler.labels.length⟩ := by
  rw [Assembler.literalLabel]
  cases hfind : assembler.literals.find? fun literal => literal.1 == value with
  | none =>
    have hnot : value ∉ assembler.literals.map Prod.fst := by
      intro hmem
      obtain ⟨literal, hliteral, heq⟩ := List.mem_map.mp hmem
      exact List.find?_eq_none.mp hfind literal hliteral (beq_iff_eq.mpr heq)
    rw [withLiteral, if_neg hnot, if_neg hnot]
    exact ⟨rfl, List.mem_append_right _ (List.mem_singleton.mpr rfl)⟩
  | some literal =>
    have hmem := List.mem_of_find?_eq_some hfind
    have hfound := List.find?_some hfind
    have hvalue : literal.1 = value := beq_iff_eq.mp hfound
    have hmap : value ∈ assembler.literals.map Prod.fst := hvalue ▸ List.mem_map_of_mem hmem
    rw [withLiteral, if_pos hmap, if_pos hmap, ← hvalue]
    exact ⟨rfl, hmem⟩

theorem literalLabel (h : Tables assembler handed places) (value : BitVec 64) :
    Tables (assembler.literalLabel value).2 handed places := by
  rw [(literalLabel_eq assembler value).1, withLiteral]
  by_cases hmem : value ∈ assembler.literals.map Prod.fst
  · rw [if_pos hmem, if_pos hmem]
    exact h
  rw [if_neg hmem, if_neg hmem]
  have hkept {label : Label} (hlabel : label ∈ handed ++ assembler.literals.map Prod.snd) :
      (assembler.labels ++ [none])[label.index]? = assembler.labels[label.index]? :=
    List.getElem?_append_left (h.lt_of_mem hlabel)
  refine ⟨h.length, fun k label hk => ?_, ?_, fun literal hliteral => ?_⟩
  · rw [← h.place k label hk]
    exact hkept (List.mem_append_left _ (List.mem_of_getElem? hk))
  · dsimp only
    rw [List.map_append, ← List.append_assoc]
    rw [List.map_singleton, ← List.concat_eq_append]
    exact List.Nodup.concat h.not_mem_next h.distinct
  · rcases List.mem_append.mp hliteral with hliteral | hnew
    · rw [← h.waiting literal hliteral]
      exact hkept (List.mem_append_right _ (List.mem_map_of_mem hliteral))
    · obtain rfl := List.mem_singleton.mp hnew
      exact List.getElem?_concat_length

end Tables

/-- The label of an instruction of the listing. -/
def Refers (handed : List Label) (literals : List (BitVec 64 × Label)) (label : Label) : Item → Prop
  | .instruction _ => False
  | .branch k | .conditional k _ => handed[k]? = some label
  | .literal _ value => (value, label) ∈ literals

/-- The words are those of the listing, and each reference has one fixup. -/
structure Emitted (words : List (BitVec 32)) (fixups : List Fixup) (handed : List Label)
    (literals : List (BitVec 64 × Label)) (items : List Item) : Prop where
  words : words = items.map Item.word
  sound : ∀ fixup ∈ fixups, ∃ item, items[fixup.instruction]? = some item ∧
    item.relocation = some fixup.kind ∧ Refers handed literals fixup.target item
  complete : ∀ (i : Nat) (item : Item), items[i]? = some item → item.relocation ≠ none →
    i ∈ fixups.map Fixup.instruction
  once : (fixups.map Fixup.instruction).Nodup

namespace Emitted

variable {words : List (BitVec 32)} {fixups : List Fixup} {handed handed' : List Label}
variable {literals literals' : List (BitVec 64 × Label)} {items : List Item}

theorem refers_mono (hhanded : handed <+: handed') (hliterals : literals ⊆ literals') {label : Label} {item : Item}
    (h : Refers handed literals label item) : Refers handed' literals' label item := by
  have hkept {k : Nat} (hk : handed[k]? = some label) : handed'[k]? = some label := by
    obtain ⟨rest, rfl⟩ := hhanded
    rw [List.getElem?_append_left (List.getElem?_eq_some_iff.mp hk).1, hk]
  cases item with
  | instruction word => exact h
  | branch k => exact hkept h
  | conditional k condition => exact hkept h
  | literal register value => exact hliterals h

theorem mono (h : Emitted words fixups handed literals items) (hhanded : handed <+: handed')
    (hliterals : literals ⊆ literals') : Emitted words fixups handed' literals' items where
  words := h.words
  sound fixup hfixup := by
    obtain ⟨item, hitem, hkind, hrefers⟩ := h.sound fixup hfixup
    exact ⟨item, hitem, hkind, refers_mono hhanded hliterals hrefers⟩
  complete := h.complete
  once := h.once

theorem instruction (h : Emitted words fixups handed literals items) (word : BitVec 32) :
    Emitted (words ++ [word]) fixups handed literals (items ++ [.instruction word]) where
  words := by rw [h.words, List.map_append]; rfl
  sound fixup hfixup := by
    obtain ⟨item, hitem, hkind, hrefers⟩ := h.sound fixup hfixup
    exact ⟨item, getElem?_concat_eq_some.mpr (.inl hitem), hkind, hrefers⟩
  complete i item hitem hkind := by
    rcases getElem?_concat_eq_some.mp hitem with hitem | ⟨-, rfl⟩
    · exact h.complete i item hitem hkind
    · exact absurd rfl hkind
  once := h.once

theorem relocate (h : Emitted words fixups handed literals items) {item : Item} {label : Label} {kind : Relocation}
    (hkind : item.relocation = some kind) (hrefers : Refers handed literals label item) :
    Emitted (words ++ [item.word]) (fixups ++ [{ instruction := words.length, target := label, kind }]) handed
      literals (items ++ [item]) := by
  have hlength : words.length = items.length := by rw [h.words, List.length_map]
  refine ⟨by rw [h.words, List.map_append]; rfl, fun fixup hfixup => ?_, fun i other hother hsome => ?_, ?_⟩
  · rcases List.mem_append.mp hfixup with hfixup | hnew
    · obtain ⟨other, hother, hrest⟩ := h.sound fixup hfixup
      exact ⟨other, getElem?_concat_eq_some.mpr (.inl hother), hrest⟩
    · obtain rfl := List.mem_singleton.mp hnew
      exact ⟨item, getElem?_concat_eq_some.mpr (.inr ⟨hlength, rfl⟩), hkind, hrefers⟩
  · rw [List.map_append]
    rcases getElem?_concat_eq_some.mp hother with hother | ⟨rfl, rfl⟩
    · exact List.mem_append_left _ (h.complete i other hother hsome)
    · exact List.mem_append_right _ (List.mem_singleton.mpr hlength.symm)
  · rw [List.map_append, List.map_singleton, ← List.concat_eq_append]
    refine List.Nodup.concat (fun hmem => ?_) h.once
    obtain ⟨fixup, hfixup, heq⟩ := List.mem_map.mp hmem
    obtain ⟨other, hother, -⟩ := h.sound fixup hfixup
    have hlt := (List.getElem?_eq_some_iff.mp hother).1
    rw [heq, hlength] at hlt
    exact Nat.lt_irrefl _ hlt

end Emitted

structure Follows (session : Session) (listing : Listing) : Prop where
  tables : Tables session.assembler session.handed listing.places
  emitted : Emitted session.assembler.words session.assembler.fixups session.handed session.assembler.literals
    listing.items
  values : session.assembler.literals.map Prod.fst = listing.pool

namespace Follows

variable {session : Session} {listing : Listing}

theorem length_words (h : Follows session listing) : session.assembler.words.length = listing.items.length := by
  rw [h.emitted.words, List.length_map]

/-- An instruction that loads nothing. -/
theorem pool_concat {items : List Item} {places : List (Option Nat)} {item : Item}
    (hitem : ∀ pool, item.addValue pool = pool) :
    Listing.pool { items := items ++ [item], places } = Listing.pool { items, places } := by
  rw [Listing.pool, Listing.pool, List.foldl_append]
  exact hitem _

/-- A reference is emitted, with the tables as they are. -/
theorem relocate (h : Follows session listing) {item : Item} {label : Label} {kind : Relocation}
    (hkind : item.relocation = some kind)
    (hrefers : Refers session.handed session.assembler.literals label item)
    (hitem : ∀ pool, item.addValue pool = pool) :
    Follows { session with assembler := session.assembler.relocate item.word label kind }
      { listing with items := listing.items ++ [item] } :=
  ⟨⟨h.tables.length, h.tables.place, h.tables.distinct, h.tables.waiting⟩, h.emitted.relocate hkind hrefers,
    h.values.trans (pool_concat hitem).symm⟩

/-- A label is held by the caller when the listing has a place for it. -/
theorem handed_eq_none_iff (h : Follows session listing) (k : Nat) :
    session.handed[k]? = none ↔ ¬ k < listing.places.length := by
  rw [List.getElem?_eq_none_iff, h.tables.length, Nat.not_lt]

theorem bind (h : Follows session listing) (k : Nat) :
    Follows (session.perform (.bind k)) (listing.perform (.bind k)) := by
  rw [Session.perform, Listing.perform]
  cases hk : session.handed[k]? with
  | none =>
    have hplaces := Nat.le_of_not_lt ((h.handed_eq_none_iff k).mp hk)
    rw [List.getElem?_eq_none hplaces, if_neg fun h => nomatch h]
    exact h
  | some label =>
    have hplace := h.tables.place k label hk
    dsimp only
    rw [Assembler.bind, hplace]
    match hlisted : listing.places[k]? with
    | none =>
      rw [if_neg fun h => nomatch h]
      exact h
    | some (some position) =>
      rw [if_neg fun h => nomatch h]
      exact h
    | some none =>
      rw [if_pos rfl]
      dsimp only
      rw [Assembler.position, h.length_words]
      exact ⟨h.tables.bind hk _, h.emitted, h.values⟩

theorem literalU64 (h : Follows session listing) (register : UInt8) (value : BitVec 64) :
    Follows (session.perform (.literalU64 register value)) (listing.perform (.literalU64 register value)) := by
  rw [Session.perform, Listing.perform, Assembler.literalU64, checkRegister]
  by_cases hregister : register > 30 ∨ register = 18
  · rw [if_pos hregister, if_neg fun hand => hregister.elim (fun hgt => UInt8.not_le.mpr hgt hand.1) hand.2]
    exact h
  have hallowed : register ≤ 30 ∧ register ≠ 18 :=
    ⟨UInt8.not_lt.mp fun hgt => hregister (.inl hgt), fun heq => hregister (.inr heq)⟩
  rw [if_neg hregister, if_pos hallowed]
  obtain ⟨hlabel, hmem⟩ := Tables.literalLabel_eq session.assembler value
  have htables := h.tables.literalLabel value
  have hkept : session.assembler.literals ⊆
      Tables.withLiteral session.assembler.literals value ⟨session.assembler.labels.length⟩ := by
    rw [Tables.withLiteral]
    split
    · exact List.Subset.refl _
    · exact List.subset_append_left _ _
  have hvalues : (Tables.withLiteral session.assembler.literals value ⟨session.assembler.labels.length⟩).map Prod.fst =
      Item.addValue listing.pool (.literal register value) := by
    rw [Tables.withLiteral, Item.addValue, ← h.values]
    split
    · rfl
    · rw [List.map_append]
      rfl
  have hpool : Listing.pool { listing with items := listing.items ++ [.literal register value] } =
      Item.addValue listing.pool (.literal register value) := by
    rw [Listing.pool, Listing.pool, List.foldl_append]
    rfl
  have hemitted := (h.emitted.mono (List.prefix_refl _) hkept).relocate
    (rfl : (Item.literal register value).relocation = some .literal) hmem
  rw [hlabel] at htables
  simp only [ok_bind, pure, Except.pure, hlabel, Assembler.relocate, Assembler.instruction]
  exact ⟨⟨htables.length, htables.place, htables.distinct, htables.waiting⟩, hemitted, hvalues.trans hpool.symm⟩

theorem perform (h : Follows session listing) (call : Call) : Follows (session.perform call) (listing.perform call) := by
  cases call with
  | instruction word =>
    exact ⟨⟨h.tables.length, h.tables.place, h.tables.distinct, h.tables.waiting⟩, h.emitted.instruction word,
      h.values.trans (pool_concat fun _ => rfl).symm⟩
  | label =>
    refine ⟨h.tables.label, ?_, h.values⟩
    exact h.emitted.mono (List.prefix_append _ _) (List.Subset.refl _)
  | bind label => exact h.bind label
  | branch k =>
    rw [Session.perform, Listing.perform]
    cases hk : session.handed[k]? with
    | none =>
      rw [if_neg ((h.handed_eq_none_iff k).mp hk)]
      exact h
    | some label =>
      have hlt : k < listing.places.length := h.tables.length ▸ (List.getElem?_eq_some_iff.mp hk).1
      rw [if_pos hlt]
      exact @relocate _ _ h (.branch k) label .branch rfl hk fun _ => rfl
  | branchCondition k condition =>
    rw [Session.perform, Listing.perform]
    cases hk : session.handed[k]? with
    | none =>
      rw [if_neg fun hand => (h.handed_eq_none_iff k).mp hk hand.1]
      exact h
    | some label =>
      have hlt : k < listing.places.length := h.tables.length ▸ (List.getElem?_eq_some_iff.mp hk).1
      dsimp only
      rw [Assembler.branchCondition]
      by_cases hcondition : condition < 14
      · rw [if_pos hcondition, if_pos ⟨hlt, hcondition⟩]
        exact @relocate _ _ h (.conditional k condition) label .conditional rfl hk fun _ => rfl
      · rw [if_neg hcondition, if_neg fun hand => hcondition hand.2]
        exact h
  | literalU64 register value => exact h.literalU64 register value

theorem run (calls : List Call) : Follows (Session.run calls) (Listing.run calls) := by
  have hstart : Follows { assembler := Assembler.default, handed := [] } { items := [], places := [] } := by
    refine ⟨⟨rfl, fun k label hk => (nomatch hk), List.nodup_nil, fun literal hliteral => (nomatch hliteral)⟩,
      ⟨rfl, fun fixup hfixup => (nomatch hfixup), fun i item hitem => (nomatch hitem), List.nodup_nil⟩, rfl⟩
  suffices ∀ session listing, Follows session listing →
      Follows (calls.foldl Session.perform session) (calls.foldl Listing.perform listing) from this _ _ hstart
  induction calls with
  | nil => exact fun session listing h => h
  | cons call calls ih => exact fun session listing h => ih _ _ (h.perform call)

end Follows

/-! ## Displacements -/

/-- A displacement is in reach of an instruction. -/
def InReach (kind : Relocation) (bytes : Int) : Prop :=
  -(2 ^ (kind.bits - 1) : Nat) * 4 ≤ bytes ∧ bytes < (2 ^ (kind.bits - 1) : Nat) * 4

theorem displacement_eq_ok {bytes : Int} {kind : Relocation} {field : BitVec 32}
    (h : displacement bytes kind.bits = .ok field) :
    ∃ n : Int, bytes = 4 * n ∧ -(2 ^ (kind.bits - 1) : Nat) ≤ n ∧ n < (2 ^ (kind.bits - 1) : Nat) ∧
      (field.toNat : Int) = n % (2 ^ kind.bits : Nat) := by
  rw [displacement] at h
  split at h
  next => cases h
  next haligned =>
  dsimp only at h
  split at h
  next => cases h
  next hrange =>
  split at h
  next hfit =>
    obtain ⟨hlow, hhigh⟩ := not_not.mp hrange
    cases h
    refine ⟨bytes.tdiv 4, ?_, hlow, hhigh, ?_⟩
    · have hdiv := Int.mul_tdiv_add_tmod bytes 4
      rw [not_not.mp haligned, Int.add_zero] at hdiv
      exact hdiv.symm
    · rw [BitVec.toNat_setWidth, Nat.mod_eq_of_lt hfit]
      exact BitFields.toNat_ofInt_and_ones (Nat.le_trans (Nat.le_add_left _ _) (Nat.le_trans kind.fits (by decide))) _
  next => cases h

theorem signedImmediate_or {word field : BitVec 32} {kind : Relocation} {n : Int}
    (hclear : BitFields.IsClear word kind.shift kind.bits) (hlow : -(2 ^ (kind.bits - 1) : Nat) ≤ n)
    (hhigh : n < (2 ^ (kind.bits - 1) : Nat)) (hfield : (field.toNat : Int) = n % (2 ^ kind.bits : Nat)) :
    signedImmediate (word ||| field <<< kind.shift) kind.bits kind.shift = n := by
  have hlt : field.toNat < 2 ^ kind.bits := by
    have hmod := Int.emod_lt_of_pos n (by exact_mod_cast Nat.two_pow_pos _ : (0 : Int) < (2 ^ kind.bits : Nat))
    omega
  rw [signedImmediate, BitFields.field_or hclear hlt kind.fits]
  refine BitFields.signedLow_ofInt kind.bits_pos ?_ ?_ hlow hhigh
  · have hfits := kind.fits
    omega
  · rw [BitVec.toNat_setWidth_of_le (by omega), hfield]

theorem signedImmediate_bounds (word : BitVec 32) (kind : Relocation) :
    -(2 ^ (kind.bits - 1) : Nat) ≤ signedImmediate word kind.bits kind.shift ∧
      signedImmediate word kind.bits kind.shift < (2 ^ (kind.bits - 1) : Nat) := by
  have hfits := kind.fits
  refine BitFields.signedLow_bounds kind.bits_pos (by omega) ?_
  rw [BitVec.toNat_setWidth_of_le (by omega)]
  exact BitFields.field_lt word kind.shift (by omega)

/-- The fields of an instruction beside its displacement fit below it. -/
def Item.IsEncodable : Item → Prop
  | .instruction _ | .branch _ => True
  | .conditional _ condition => condition < 14
  | .literal register _ => register ≤ 30

theorem isClear_word {item : Item} {kind : Relocation} (hkind : item.relocation = some kind)
    (hitem : item.IsEncodable) : BitFields.IsClear item.word kind.shift kind.bits := by
  have hsmall {n : UInt8} (hn : n ≤ 31) : (BitVec.ofNat 32 n.toNat).toNat < 2 ^ 5 := by
    have hle : n.toNat ≤ 31 := UInt8.le_iff_toNat_le.mp hn
    rw [BitVec.toNat_ofNat]
    omega
  cases item with
  | instruction word => cases hkind
  | branch k =>
    cases hkind
    exact (by decide : BitFields.IsClear 0x14000000#32 0 26)
  | conditional k condition =>
    cases hkind
    have hclear : BitFields.IsClear 0x54000000#32 5 19 := by decide
    have hlt : condition.toNat < 14 := UInt8.lt_iff_toNat_lt.mp hitem
    refine hclear.or (hsmall (UInt8.le_iff_toNat_le.mpr ?_))
    exact Nat.le_trans (Nat.le_of_lt hlt) (by decide)
  | literal register value =>
    cases hkind
    have hclear : BitFields.IsClear 0x58000000#32 5 19 := by decide
    have hle : register.toNat ≤ 30 := UInt8.le_iff_toNat_le.mp hitem
    exact hclear.or (hsmall (UInt8.le_iff_toNat_le.mpr (Nat.le_trans hle (by decide))))

theorem Listing.isEncodable (calls : List Call) : ∀ item ∈ (Listing.run calls).items, item.IsEncodable := by
  suffices ∀ listing : Listing, (∀ item ∈ listing.items, item.IsEncodable) →
      ∀ item ∈ (calls.foldl Listing.perform listing).items, item.IsEncodable from
    this _ fun item hitem => nomatch hitem
  induction calls with
  | nil => exact fun listing h => h
  | cons call calls ih =>
    refine fun listing h => ih _ ?_
    have hconcat {item : Item} (hitem : item.IsEncodable) :
        ∀ other ∈ listing.items ++ [item], other.IsEncodable := by
      intro other hother
      rcases List.mem_append.mp hother with hother | hother
      · exact h other hother
      · exact List.mem_singleton.mp hother ▸ hitem
    cases call with
    | instruction word => exact hconcat trivial
    | label => exact h
    | bind k =>
      rw [Listing.perform]
      split
      · exact h
      · exact h
    | branch k =>
      rw [Listing.perform]
      split
      · exact hconcat trivial
      · exact h
    | branchCondition k condition =>
      rw [Listing.perform]
      split
      next hallowed => exact hconcat hallowed.2
      next => exact h
    | literalU64 register value =>
      rw [Listing.perform]
      split
      next hallowed => exact hconcat hallowed.1
      next => exact h

/-! ## The pool -/

/-- The two words of a literal. -/
def literalWords (literal : BitVec 64 × Label) : List (BitVec 32) :=
  let bytes := Bytes.ofNatLe 8 literal.1.toNat
  [BitVec.ofNat 32 (Bytes.toNatLe (bytes.take 4)), BitVec.ofNat 32 (Bytes.toNatLe (bytes.drop 4))]

theorem placeLiterals_spec : ∀ (literals : List (BitVec 64 × Label)) (assembler : Assembler),
    (literals.map Prod.snd).Nodup →
    (∀ literal ∈ literals, assembler.labels[literal.2.index]? = some none) →
    ∃ labels, Assembler.placeLiterals literals assembler =
        .ok { assembler with words := assembler.words ++ literals.flatMap literalWords, labels } ∧
      (∀ slot literal, literals[slot]? = some literal →
        labels[literal.2.index]? = some (some (assembler.position + slot * 8))) ∧
      ∀ label ∉ literals.map Prod.snd, labels[label.index]? = assembler.labels[label.index]?
  | [], assembler, _, _ =>
    ⟨assembler.labels, by rw [Assembler.placeLiterals, List.flatMap_nil, List.append_nil],
      fun slot literal h => (nomatch h), fun label _ => rfl⟩
  | (value, label) :: literals, assembler, hdistinct, hwaiting => by
    rw [List.map_cons, List.nodup_cons] at hdistinct
    have hfirst := hwaiting (value, label) List.mem_cons_self
    have hlt : label.index < assembler.labels.length := (List.getElem?_eq_some_iff.mp hfirst).1
    have hother {other : Label} (hne : other ≠ label) (position : Nat) :
        (assembler.labels.set label.index (some position))[other.index]? = assembler.labels[other.index]? := by
      refine List.getElem?_set_ne fun hindex => hne ?_
      cases label; cases other; exact congrArg Label.mk hindex.symm
    obtain ⟨labels, hplace, hslots, hkept⟩ := placeLiterals_spec literals
      { assembler with
        words := assembler.words ++ literalWords (value, label)
        labels := assembler.labels.set label.index (some assembler.position) } hdistinct.2 <| by
      intro literal hliteral
      have hne : literal.2 ≠ label := fun heq => hdistinct.1 (List.mem_map.mpr ⟨literal, hliteral, heq⟩)
      exact (hother hne _).trans (hwaiting literal (List.mem_cons_of_mem _ hliteral))
    refine ⟨labels, ?_, fun slot literal hslot => ?_, fun other hnot => ?_⟩
    · rw [Assembler.placeLiterals, Assembler.bind, hfirst, List.flatMap_cons, ← List.append_assoc]
      refine Eq.trans ?_ hplace
      dsimp only [ok_bind, Assembler.instruction, literalWords]
      rw [List.append_assoc]
      rfl
    · cases slot with
      | zero =>
        cases hslot
        rw [hkept label hdistinct.1, List.getElem?_set_self hlt, Nat.zero_mul, Nat.add_zero]
      | succ slot =>
        rw [hslots slot literal hslot, Assembler.position, Assembler.position, List.length_append]
        refine congrArg (fun position => some (some position)) ?_
        have htwo : (literalWords (value, label)).length = 2 := rfl
        omega
    · rw [List.map_cons, List.mem_cons, not_or] at hnot
      rw [hkept other hnot.2]
      exact hother hnot.1 _

/-! ## Patches -/

/-- Each fixup changes its own word once, and no other. -/
theorem patch_spec {labels : List (Option Nat)} :
    ∀ {fixups : List Fixup} {words patched : List (BitVec 32)},
    Assembler.patch labels fixups words = .ok patched → (fixups.map Fixup.instruction).Nodup →
    patched.length = words.length ∧ (∀ i ∉ fixups.map Fixup.instruction, patched[i]? = words[i]?) ∧
      ∀ fixup ∈ fixups, ∃ field, Assembler.fixupField labels fixup = .ok field ∧
        patched[fixup.instruction]? = words[fixup.instruction]?.map (· ||| field <<< fixup.kind.shift)
  | [], words, patched, h, _ => by
    rw [Assembler.patch] at h
    cases h
    exact ⟨rfl, fun _ _ => rfl, fun _ hfixup => nomatch hfixup⟩
  | fixup :: fixups, words, patched, h, honce => by
    rw [Assembler.patch] at h
    obtain ⟨field, hfield, h⟩ := bind_eq_ok.mp h
    rw [List.map_cons, List.nodup_cons] at honce
    obtain ⟨hlength, hkept, hpatched⟩ := patch_spec h honce.2
    rw [List.length_modify] at hlength
    refine ⟨hlength, fun i hnot => ?_, fun other hother => ?_⟩
    · rw [List.map_cons, List.mem_cons, not_or] at hnot
      rw [hkept i hnot.2, List.getElem?_modify_ne _ _ (Ne.symm hnot.1)]
    · rcases List.mem_cons.mp hother with rfl | hother
      · refine ⟨field, hfield, ?_⟩
        rw [hkept _ honce.1, List.getElem?_modify_eq]
        rfl
      · obtain ⟨field', hfield', hword⟩ := hpatched other hother
        have hne : fixup.instruction ≠ other.instruction := fun heq =>
          honce.1 (List.mem_map.mpr ⟨other, hother, heq.symm⟩)
        exact ⟨field', hfield', by rw [hword, List.getElem?_modify_ne _ _ hne]⟩

theorem fixupField_eq_ok {labels : List (Option Nat)} {fixup : Fixup} {field : BitVec 32}
    (h : Assembler.fixupField labels fixup = .ok field) :
    ∃ target, labels[fixup.target.index]?.join = some target ∧
      displacement ((target : Int) - (fixup.instruction * 4 : Nat)) fixup.kind.bits = .ok field := by
  rw [Assembler.fixupField] at h
  cases htarget : labels[fixup.target.index]?.join with
  | none =>
    rw [htarget] at h
    cases h
  | some target =>
    rw [htarget] at h
    dsimp only at h
    split at h
    next => cases h
    next => exact ⟨target, rfl, h⟩

/-! ## Code -/

/-- The word of four bytes at a position. -/
def wordAt (code : Bytes) (position : Nat) : Option (BitVec 32) :=
  (code.slice position 4).map fun bytes => BitVec.ofNat 32 (Bytes.toNatLe bytes)

/-- The word of eight bytes at a position. -/
def quadAt (code : Bytes) (position : Nat) : Option (BitVec 64) :=
  (code.slice position 8).map fun bytes => BitVec.ofNat 64 (Bytes.toNatLe bytes)

/-- The code of a listing. -/
structure IsCodeOf (listing : Listing) (code : Bytes) : Prop where
  size : code.length = listing.poolStart + listing.pool.length * 8
  /-- An instruction without a reference is the one that was asked for. -/
  instruction : ∀ (i : Nat) (item : Item), listing.items[i]? = some item → item.relocation = none →
    wordAt code (i * 4) = some item.word
  /-- A reference leads to its target, and only its displacement differs from what was asked for. -/
  reference : ∀ (i : Nat) (item : Item) (kind : Relocation), listing.items[i]? = some item →
    item.relocation = some kind → ∃ word target, wordAt code (i * 4) = some word ∧
      listing.target item = some target ∧
      ((i * 4 : Nat) : Int) + signedImmediate word kind.bits kind.shift * 4 = target ∧
      word &&& ~~~ (BitFields.ones 32 kind.bits <<< kind.shift) = item.word
  /-- What stands between the instructions and the pool does nothing. -/
  padding : listing.poolStart ≠ listing.items.length * 4 →
    wordAt code (listing.items.length * 4) = some 0xd503201f#32
  aligned : listing.pool ≠ [] → listing.poolStart % 8 = 0
  stored : ∀ (slot : Nat) (value : BitVec 64), listing.pool[slot]? = some value →
    quadAt code (listing.poolStart + slot * 8) = some value
  distinct : listing.pool.Nodup
  requested : ∀ value : BitVec 64, value ∈ listing.pool ↔ ∃ register, Item.literal register value ∈ listing.items

theorem wordAt_flatMap {words : List (BitVec 32)} {i : Nat} {word : BitVec 32} (h : words[i]? = some word) :
    wordAt (words.flatMap fun word => Bytes.ofNatLe 4 word.toNat) (i * 4) = some word := by
  obtain ⟨hlt, rfl⟩ := List.getElem?_eq_some_iff.mp h
  have hwords : words = words.take i ++ ([words[i]] ++ words.drop (i + 1)) := by
    rw [List.singleton_append, ← List.drop_eq_getElem_cons hlt, List.take_append_drop]
  have hslice := Bytes.slice_flatMap (fun word : BitVec 32 => Bytes.length_ofNatLe 4 word.toNat) _ _ hwords
  rw [List.length_take, Nat.min_eq_left (Nat.le_of_lt hlt), Nat.mul_comm, List.length_singleton, Nat.mul_one] at hslice
  have hbound : words[i].toNat < 256 ^ 4 := words[i].isLt
  rw [wordAt, hslice, List.flatMap_singleton, Option.map_some, Bytes.toNatLe_ofNatLe_of_lt hbound,
    BitVec.ofNat_toNat, BitVec.setWidth_eq]

/-- The bytes of the words of a literal are those of its value. -/
theorem flatMap_literalWords (literal : BitVec 64 × Label) :
    (literalWords literal).flatMap (fun word => Bytes.ofNatLe 4 word.toNat) = Bytes.ofNatLe 8 literal.1.toNat := by
  have hback {bytes : Bytes} (hlength : bytes.length = 4) :
      Bytes.ofNatLe 4 (BitVec.ofNat 32 (Bytes.toNatLe bytes)).toNat = bytes := by
    have hlt : Bytes.toNatLe bytes < 2 ^ 32 := by
      have h := Bytes.toNatBe_lt bytes.reverse
      rw [List.length_reverse, hlength] at h
      exact Nat.lt_of_lt_of_eq h (by decide)
    rw [BitVec.toNat_ofNat, Nat.mod_eq_of_lt hlt, ← hlength, Bytes.ofNatLe_toNatLe]
  have hlength := Bytes.length_ofNatLe 8 literal.1.toNat
  have hlow := hback (by rw [List.length_take, hlength]; rfl : ((Bytes.ofNatLe 8 literal.1.toNat).take 4).length = 4)
  have hhigh := hback (by rw [List.length_drop, hlength] : ((Bytes.ofNatLe 8 literal.1.toNat).drop 4).length = 4)
  rw [literalWords, List.flatMap_cons, List.flatMap_singleton, hlow, hhigh, List.take_append_drop]

theorem quadAt_flatMap {words front back : List (BitVec 32)} {literal : BitVec 64 × Label}
    (h : words = front ++ (literalWords literal ++ back)) :
    quadAt (words.flatMap fun word => Bytes.ofNatLe 4 word.toNat) (front.length * 4) = some literal.1 := by
  have hslice := Bytes.slice_flatMap (fun word : BitVec 32 => Bytes.length_ofNatLe 4 word.toNat) _ _ h
  have htwo : 4 * (literalWords literal).length = 8 := rfl
  rw [Nat.mul_comm, htwo, flatMap_literalWords] at hslice
  have hbound : literal.1.toNat < 256 ^ 8 := literal.1.isLt
  rw [quadAt, hslice, Option.map_some, Bytes.toNatLe_ofNatLe_of_lt hbound, BitVec.ofNat_toNat, BitVec.setWidth_eq]

theorem length_flatMap_literalWords (literals : List (BitVec 64 × Label)) :
    (literals.flatMap literalWords).length = literals.length * 2 := by
  induction literals with
  | nil => rfl
  | cons literal literals ih =>
    rw [List.flatMap_cons, List.length_append, ih, List.length_cons]
    have htwo : (literalWords literal).length = 2 := rfl
    omega

namespace Item

theorem mem_foldl_addValue : ∀ {items : List Item} {pool : List (BitVec 64)} {value : BitVec 64},
    value ∈ items.foldl addValue pool ↔ value ∈ pool ∨ ∃ register, .literal register value ∈ items
  | [], pool, value => by simp
  | item :: items, pool, value => by
    have hadd : value ∈ item.addValue pool ↔ value ∈ pool ∨ ∃ register, item = .literal register value := by
      cases item with
      | literal register other =>
        rw [addValue]
        split
        next hmem =>
          refine ⟨.inl, fun h => h.elim id ?_⟩
          rintro ⟨_, heq⟩
          cases heq
          exact hmem
        next =>
          rw [List.mem_append, List.mem_singleton]
          refine or_congr_right ⟨fun heq => ⟨register, heq ▸ rfl⟩, ?_⟩
          rintro ⟨_, heq⟩
          cases heq
          rfl
      | instruction _ => exact ⟨.inl, fun h => h.elim id fun ⟨_, heq⟩ => nomatch heq⟩
      | branch _ => exact ⟨.inl, fun h => h.elim id fun ⟨_, heq⟩ => nomatch heq⟩
      | conditional _ _ => exact ⟨.inl, fun h => h.elim id fun ⟨_, heq⟩ => nomatch heq⟩
    rw [List.foldl_cons, mem_foldl_addValue, hadd, or_assoc]
    refine or_congr_right ⟨?_, ?_⟩
    · rintro (⟨register, rfl⟩ | ⟨register, hmem⟩)
      · exact ⟨register, List.mem_cons_self⟩
      · exact ⟨register, List.mem_cons_of_mem _ hmem⟩
    · rintro ⟨register, hmem⟩
      rcases List.mem_cons.mp hmem with rfl | hmem
      · exact .inl ⟨register, rfl⟩
      · exact .inr ⟨register, hmem⟩

theorem nodup_foldl_addValue : ∀ {items : List Item} {pool : List (BitVec 64)}, pool.Nodup →
    (items.foldl addValue pool).Nodup
  | [], _, h => h
  | item :: items, pool, h => by
    rw [List.foldl_cons]
    refine nodup_foldl_addValue ?_
    cases item with
    | literal register value =>
      rw [addValue]
      split
      next => exact h
      next hnot =>
        rw [← List.concat_eq_append]
        exact List.Nodup.concat hnot h
    | instruction _ => exact h
    | branch _ => exact h
    | conditional _ _ => exact h

end Item

namespace Listing

theorem mem_pool {listing : Listing} {value : BitVec 64} :
    value ∈ listing.pool ↔ ∃ register, .literal register value ∈ listing.items := by
  rw [pool, Item.mem_foldl_addValue]
  exact or_iff_right (fun h => nomatch h)

theorem nodup_pool (listing : Listing) : listing.pool.Nodup := Item.nodup_foldl_addValue List.nodup_nil

theorem poolStart_mod {listing : Listing} (h : listing.pool ≠ []) : listing.poolStart % 8 = 0 := by
  rw [poolStart]
  split
  next hodd =>
    have hodd := hodd.2
    omega
  next heven =>
    rw [not_and, not_not] at heven
    exact heven h

end Listing

/-! ## Finished code -/

/-- The assembler of a session, when its pool starts. -/
theorem Follows.alignPool {session : Session} {listing : Listing} (h : Follows session listing) :
    ∃ padding, session.assembler.alignPool =
        { session.assembler with words := session.assembler.words ++ padding } ∧
      (listing.items.length + padding.length) * 4 = listing.poolStart ∧
      ∀ word ∈ padding, word = 0xd503201f#32 := by
  have hsome : session.assembler.literals ≠ [] ↔ listing.pool ≠ [] := by
    rw [← h.values, ne_eq, ne_eq, List.map_eq_nil_iff]
  rw [Assembler.alignPool, Listing.poolStart, Assembler.position, h.length_words]
  simp only [hsome]
  split
  · exact ⟨[0xd503201f#32], rfl, by rw [List.length_singleton]; omega, fun word hword => List.mem_singleton.mp hword⟩
  · exact ⟨[], by rw [List.append_nil], by rw [List.length_nil, Nat.add_zero], fun word hword => nomatch hword⟩

/-- The label of a reference has the place that the listing names, once the pool is there. -/
theorem Follows.target {session : Session} {listing : Listing} (h : Follows session listing)
    {labels : List (Option Nat)}
    (hslots : ∀ slot literal, session.assembler.literals[slot]? = some literal →
      labels[literal.2.index]? = some (some (listing.poolStart + slot * 8)))
    (hkept : ∀ label ∉ session.assembler.literals.map Prod.snd,
      labels[label.index]? = session.assembler.labels[label.index]?)
    {label : Label} {item : Item} (hrefers : Refers session.handed session.assembler.literals label item) :
    labels[label.index]?.join = listing.target item := by
  have hbound {k : Nat} (hk : session.handed[k]? = some label) :
      labels[label.index]?.join = listing.places[k]?.join := by
    have hnot : label ∉ session.assembler.literals.map Prod.snd := fun hmem =>
      (List.nodup_append.mp h.tables.distinct).2.2 label (List.mem_of_getElem? hk) label hmem rfl
    rw [hkept label hnot, h.tables.place k label hk]
  cases item with
  | instruction word => exact hrefers.elim
  | branch k => exact hbound hrefers
  | conditional k condition => exact hbound hrefers
  | literal register value =>
    obtain ⟨slot, hslot⟩ := List.mem_iff_getElem?.mp (hrefers : (value, label) ∈ session.assembler.literals)
    have hpool : listing.pool[slot]? = some value := by
      rw [← h.values, List.getElem?_map, hslot]
      rfl
    obtain ⟨hlt, hvalue⟩ := List.getElem?_eq_some_iff.mp hpool
    have hidx : listing.pool.idxOf value = slot := by
      rw [← hvalue]
      exact listing.nodup_pool.idxOf_getElem slot hlt
    rw [hslots slot _ hslot, Listing.target, hidx]
    rfl

/-- What `finish` returns is the code of the listing. -/
theorem isCodeOf_finish {session : Session} {listing : Listing} (hfollows : Follows session listing)
    (hencodable : ∀ item ∈ listing.items, item.IsEncodable) {code : Bytes}
    (h : session.assembler.finish = .ok code) : IsCodeOf listing code := by
  obtain ⟨padding, halign, hstart, hnop⟩ := hfollows.alignPool
  rw [Assembler.finish, halign] at h
  have hdistinct := (List.nodup_append.mp hfollows.tables.distinct).2.1
  obtain ⟨labels, hplace, hslots, hkept⟩ := placeLiterals_spec session.assembler.literals
    { session.assembler with words := session.assembler.words ++ padding, literals := [] } hdistinct
    hfollows.tables.waiting
  dsimp only at h
  rw [hplace, ok_bind] at h
  obtain ⟨patched, hpatch, hcode⟩ := bind_eq_ok.mp h
  cases hcode
  obtain ⟨hlength, hother, hpatched⟩ := patch_spec hpatch hfollows.emitted.once
  dsimp only at hlength hother hpatched hslots hkept
  have hwords := hfollows.emitted.words
  have hcount := hfollows.length_words
  have hposition : (session.assembler.words ++ padding).length * 4 = listing.poolStart := by
    rw [List.length_append, hcount, hstart]
  have hinside {i : Nat} {item : Item} (hitem : listing.items[i]? = some item) :
      (session.assembler.words ++ padding ++ session.assembler.literals.flatMap literalWords)[i]? =
        some item.word := by
    have hlt : i < session.assembler.words.length := hcount ▸ (List.getElem?_eq_some_iff.mp hitem).1
    rw [List.append_assoc, List.getElem?_append_left hlt, hwords, List.getElem?_map, hitem]
    rfl
  have hbehind {i : Nat} (hi : listing.items.length ≤ i) : patched[i]? =
      (session.assembler.words ++ padding ++ session.assembler.literals.flatMap literalWords)[i]? := by
    refine hother i fun hmem => ?_
    obtain ⟨fixup, hfixup, rfl⟩ := List.mem_map.mp hmem
    obtain ⟨item, hitem, -⟩ := hfollows.emitted.sound fixup hfixup
    exact absurd (List.getElem?_eq_some_iff.mp hitem).1 (Nat.not_lt.mpr hi)
  refine ⟨?_, fun i item hitem hplain => ?_, fun i item kind hitem hkind => ?_, fun hpadding => ?_,
    Listing.poolStart_mod, fun slot value hslot => ?_, listing.nodup_pool, fun value => Listing.mem_pool⟩
  · rw [Bytes.length_flatMap_of_width fun word : BitVec 32 => Bytes.length_ofNatLe 4 word.toNat, hlength,
      List.length_append, length_flatMap_literalWords, ← hposition, ← hfollows.values, List.length_map]
    omega
  · refine wordAt_flatMap ((hother i fun hmem => ?_).trans (hinside hitem))
    obtain ⟨fixup, hfixup, rfl⟩ := List.mem_map.mp hmem
    obtain ⟨other, hother, hkind, -⟩ := hfollows.emitted.sound fixup hfixup
    rw [hitem] at hother
    cases hother
    rw [hplain] at hkind
    cases hkind
  · have hmem := hfollows.emitted.complete i item hitem (by rw [hkind]; exact fun h => nomatch h)
    obtain ⟨fixup, hfixup, rfl⟩ := List.mem_map.mp hmem
    obtain ⟨other, hother, hkind', hrefers⟩ := hfollows.emitted.sound fixup hfixup
    rw [hitem] at hother
    cases hother
    rw [hkind] at hkind'
    cases hkind'
    obtain ⟨field, hfield, hword⟩ := hpatched fixup hfixup
    obtain ⟨target, htarget, hdisplacement⟩ := fixupField_eq_ok hfield
    obtain ⟨n, hn, hlow, hhigh, hvalue⟩ := displacement_eq_ok hdisplacement
    have hclear := isClear_word hkind (hencodable item (List.mem_of_getElem? hitem))
    rw [hfollows.target (by rwa [Assembler.position, hposition] at hslots) hkept hrefers] at htarget
    rw [hinside hitem, Option.map_some] at hword
    refine ⟨_, target, wordAt_flatMap hword, htarget, ?_, ?_⟩
    · rw [signedImmediate_or hclear hlow hhigh hvalue]
      omega
    · refine BitFields.or_outside hclear ?_ fixup.kind.fits
      have hmod := Int.emod_lt_of_pos n (by exact_mod_cast Nat.two_pow_pos _ : (0 : Int) < (2 ^ fixup.kind.bits : Nat))
      omega
  · have hone : padding.length ≠ 0 := fun hzero => hpadding (by rw [← hstart, hzero, Nat.add_zero])
    obtain ⟨word, rest, rfl⟩ := List.exists_cons_of_length_pos (Nat.pos_of_ne_zero hone)
    have hword := hnop word List.mem_cons_self
    refine wordAt_flatMap ((hbehind (Nat.le_refl _)).trans ?_)
    rw [List.append_assoc, List.getElem?_append_right (Nat.le_of_eq hcount), hcount, Nat.sub_self, hword]
    rfl
  · rw [← hfollows.values, List.getElem?_map, Option.map_eq_some_iff] at hslot
    obtain ⟨literal, hliteral, rfl⟩ := hslot
    obtain ⟨hlt, hget⟩ := List.getElem?_eq_some_iff.mp hliteral
    have hsplit : session.assembler.literals =
        session.assembler.literals.take slot ++ literal :: session.assembler.literals.drop (slot + 1) := by
      rw [← hget, ← List.drop_eq_getElem_cons hlt, List.take_append_drop]
    have hpool : patched.drop (session.assembler.words ++ padding).length =
        session.assembler.literals.flatMap literalWords := by
      refine List.ext_getElem? fun i => ?_
      rw [List.getElem?_drop, hbehind (by rw [List.length_append, hcount]; omega),
        List.getElem?_append_right (Nat.le_add_right _ _), Nat.add_sub_cancel_left]
    have hpatched : patched =
        (patched.take (session.assembler.words ++ padding).length ++
          (session.assembler.literals.take slot).flatMap literalWords) ++
        (literalWords literal ++ (session.assembler.literals.drop (slot + 1)).flatMap literalWords) := by
      rw [List.append_assoc, ← List.flatMap_cons, ← List.flatMap_append, ← hsplit, ← hpool, List.take_append_drop]
    have hquad := quadAt_flatMap hpatched
    have hfront : (session.assembler.words ++ padding).length ≤ patched.length := by
      rw [hlength]
      exact (List.sublist_append_left _ _).length_le
    rw [List.length_append, List.length_take, Nat.min_eq_left hfront, length_flatMap_literalWords,
      List.length_take, Nat.min_eq_left (Nat.le_of_lt hlt), Nat.add_mul, hposition, Nat.mul_assoc] at hquad
    exact hquad

/-- An instruction of a listing refers to a label that was not bound, or too far away. -/
def IsUnresolved (listing : Listing) (i : Nat) (item : Item) : Prop :=
  ∃ kind, item.relocation = some kind ∧ ∀ target, listing.target item = some target →
    ¬ InReach kind ((target : Int) - (i * 4 : Nat))

/-- After any calls `finish` returns the code of the listing or an error, and it returns an error if a
reference cannot be resolved. -/
theorem finish_resolves (calls : List Call) :
    (∀ code, (Session.run calls).assembler.finish = .ok code → IsCodeOf (Listing.run calls) code) ∧
      ((∃ i item, (Listing.run calls).items[i]? = some item ∧ IsUnresolved (Listing.run calls) i item) →
        ∃ error, (Session.run calls).assembler.finish = .error error) := by
  have hcode {code : Bytes} (h : (Session.run calls).assembler.finish = .ok code) :=
    isCodeOf_finish (Follows.run calls) (Listing.isEncodable calls) h
  refine ⟨fun code h => hcode h, fun ⟨i, item, hitem, kind, hkind, hunresolved⟩ => ?_⟩
  cases hfinish : (Session.run calls).assembler.finish with
  | error error => exact ⟨error, rfl⟩
  | ok code =>
    obtain ⟨word, target, -, htarget, hleads, -⟩ := (hcode hfinish).reference i item kind hitem hkind
    refine absurd ?_ (hunresolved target htarget)
    obtain ⟨hlow, hhigh⟩ := signedImmediate_bounds word kind
    exact ⟨by omega, by omega⟩

/-- Branches to a label in front and behind, and a literal that is loaded twice. -/
def branchesAndLoads : List Call :=
  [.label, .label, .bind 0, .branch 1, .branchCondition 1 0, .branch 0, .literalU64 0 5#64, .literalU64 1 5#64,
    .bind 1, .instruction 0xd65f03c0#32]

/-- The code of `branchesAndLoads`, and an unbound label. -/
theorem finish_branchesAndLoads :
    IsCodeOf (Listing.run branchesAndLoads)
      (([0x14000005#32, 0x54000080#32, 0x17fffffe#32, 0x58000060#32, 0x58000041#32, 0xd65f03c0#32, 5#32, 0#32]
        : List (BitVec 32)).flatMap fun word => Bytes.ofNatLe 4 word.toNat) ∧
      ∃ error, (Session.run [.label, .branch 0]).assembler.finish = .error error :=
  ⟨(finish_resolves branchesAndLoads).1 _ rfl,
    (finish_resolves [.label, .branch 0]).2 ⟨0, .branch 0, rfl, .branch, rfl, fun target h => nomatch h⟩⟩

end Omoikane.Jit.Aarch64
