import Omoikane.Css.Meaning

/-!
# Agreement of conditions

Two lists of conditions with the same combinators lead to the same matches from the nodes of a set, if
the walk does not leave the set and the conditions agree in it.
-/

namespace Omoikane.Css

variable {ι : Type} [DecidableEq ι] {tree : Tree ι} {stops : ι → Prop}
  {conds conds' : List (Condition ι)}

/-- The conditions at an index have one combinator, and agree about a node. -/
def AgreeAt (conds conds' : List (Condition ι)) (index : Nat) (node : ι) : Prop :=
  conds[index]?.map (·.combinator) = conds'[index]?.map (·.combinator) ∧
    ∀ cond cond', conds[index]? = some cond → conds'[index]? = some cond' →
      ∀ pseudo, cond.Holds node pseudo ↔ cond'.Holds node pseudo

omit [DecidableEq ι] in
theorem AgreeAt.symm {index : Nat} {node : ι} (h : AgreeAt conds conds' index node) :
    AgreeAt conds' conds index node :=
  ⟨h.1.symm, fun cond cond' hcond hcond' pseudo => (h.2 cond' cond hcond' hcond pseudo).symm⟩

omit [DecidableEq ι] in
/-- A condition of one list has a partner in the other. -/
theorem AgreeAt.partner {index : Nat} {node : ι} (h : AgreeAt conds conds' index node)
    {cond : Condition ι} (hcond : conds[index]? = some cond) :
    ∃ cond', conds'[index]? = some cond' ∧ cond.combinator = cond'.combinator ∧
      ∀ pseudo, cond.Holds node pseudo ↔ cond'.Holds node pseudo := by
  obtain ⟨hcombinator, hholds⟩ := h
  rw [hcond, Option.map_some, eq_comm, Option.map_eq_some_iff] at hcombinator
  obtain ⟨cond', hcond', hcombinator⟩ := hcombinator
  exact ⟨cond', hcond', hcombinator.symm, hholds cond cond' hcond hcond'⟩

omit [DecidableEq ι] in
theorem PartsHold.of_agree {within : Nat → ι → Prop}
    (hleft : ∀ index node cond combinator other, within (index + 1) node →
      conds[index + 1]? = some cond → cond.combinator = some combinator →
      tree.Left stops node combinator other → within index other)
    (hagree : ∀ index node, within index node → AgreeAt conds conds' index node) :
    ∀ {index : Nat} {node : ι} {pseudo : Option PseudoElement}, within index node →
      PartsHold tree stops conds index node pseudo → PartsHold tree stops conds' index node pseudo
  | 0, node, pseudo, hwithin, h => by
    obtain ⟨cond, hcond, hholds, hnone⟩ := h
    obtain ⟨cond', hcond', hcombinator, hiff⟩ := (hagree 0 node hwithin).partner hcond
    exact ⟨cond', hcond', (hiff pseudo).mp hholds, hcombinator ▸ hnone⟩
  | index + 1, node, pseudo, hwithin, h => by
    obtain ⟨cond, hcond, hholds, hrest⟩ := h
    obtain ⟨cond', hcond', hcombinator, hiff⟩ := (hagree (index + 1) node hwithin).partner hcond
    refine ⟨cond', hcond', (hiff pseudo).mp hholds, fun combinator hsome => ?_⟩
    have hsome := hcombinator.trans hsome
    obtain ⟨hgo, other, hother, hparts⟩ := hrest combinator hsome
    exact ⟨hgo, other, hother, PartsHold.of_agree hleft hagree
      (hleft index node cond combinator other hwithin hcond hsome hother) hparts⟩

omit [DecidableEq ι] in
/-- Conditions that agree where a walk may lead hold together. -/
theorem partsHold_congr (within : Nat → ι → Prop)
    (hleft : ∀ index node cond combinator other, within (index + 1) node →
      conds[index + 1]? = some cond → cond.combinator = some combinator →
      tree.Left stops node combinator other → within index other)
    (hagree : ∀ index node, within index node → AgreeAt conds conds' index node) {index : Nat}
    {node : ι} (hwithin : within index node) (pseudo : Option PseudoElement) :
    PartsHold tree stops conds index node pseudo ↔ PartsHold tree stops conds' index node pseudo := by
  refine ⟨PartsHold.of_agree hleft hagree hwithin, PartsHold.of_agree
    (fun index node cond' combinator other hnode hcond' hsome hother => ?_)
    (fun index node hnode => (hagree index node hnode).symm) hwithin⟩
  obtain ⟨cond, hcond, hcombinator, -⟩ := (hagree (index + 1) node hnode).symm.partner hcond'
  exact hleft index node cond combinator other hnode hcond (hcombinator ▸ hsome) hother

omit [DecidableEq ι] in
/-- The same for a walk from left to right. -/
theorem relativePartsHold_congr {within : ι → Prop}
    (hright : ∀ node combinator other, within node → tree.Right node combinator other → within other)
    (h : List.Forall₂ (fun cond cond' : Condition ι => cond.combinator = cond'.combinator ∧
      ∀ node, within node → (cond.Holds node none ↔ cond'.Holds node none)) conds conds') :
    ∀ node, within node → (RelativePartsHold tree conds node ↔ RelativePartsHold tree conds' node) := by
  induction h with
  | nil => exact fun _ _ => Iff.rfl
  | cons hcond hrest ih =>
    intro node hnode
    cases hrest with
    | nil => exact hcond.2 node hnode
    | cons hnext hrest =>
      rw [RelativePartsHold, RelativePartsHold, hcond.2 node hnode, hnext.1]
      refine and_congr_right fun _ => exists_congr fun combinator => and_congr_right fun _ =>
        exists_congr fun other => and_congr_right fun hother =>
          ih other (hright node combinator other hnode hother)

section

variable (doc : Document ι) (scopeRoot : Option ι) (escape : Bool)

/-- A compound, as the condition that it is. -/
def SelectorPart.condition (visited : ι → Bool) (part : SelectorPart) : Condition ι where
  combinator := part.combinator
  Holds := fun node pseudo => CompoundHolds doc scopeRoot escape part.simples visited node none pseudo

theorem conditions_eq_map (visited : ι → Bool) : ∀ parts : List SelectorPart,
    conditions doc scopeRoot escape parts visited =
      parts.map (SelectorPart.condition doc scopeRoot escape visited)
  | [] => rfl
  | .mk combinator simples :: parts => by
    rw [conditions, List.map_cons, conditions_eq_map visited parts]
    rfl

variable {doc scopeRoot escape} {doc' : Document ι} {visited visited' : ι → Bool}

/-- Compounds agree about a node. -/
theorem agreeAt_conditions {parts parts' : List SelectorPart} {index : Nat} {node : ι}
    (hlength : parts.length = parts'.length)
    (h : ∀ part part', parts[index]? = some part → parts'[index]? = some part' →
      part.combinator = part'.combinator ∧ ∀ pseudo,
        (CompoundHolds doc scopeRoot escape part.simples visited node none pseudo ↔
          CompoundHolds doc' scopeRoot escape part'.simples visited' node none pseudo)) :
    AgreeAt (conditions doc scopeRoot escape parts visited)
      (conditions doc' scopeRoot escape parts' visited') index node := by
  rw [conditions_eq_map, conditions_eq_map]
  cases hpart : parts[index]? with
  | none =>
    have hpart' : parts'[index]? = none := by
      rw [List.getElem?_eq_none_iff, ← hlength]
      exact List.getElem?_eq_none_iff.mp hpart
    simp [AgreeAt, hpart, hpart']
  | some part =>
    obtain ⟨hlt, -⟩ := List.getElem?_eq_some_iff.mp hpart
    have hpart' : parts'[index]? = some (parts'.get ⟨index, hlength ▸ hlt⟩) :=
      List.getElem?_eq_getElem _
    obtain ⟨hcombinator, hholds⟩ := h part _ hpart hpart'
    simp only [AgreeAt, List.getElem?_map, hpart, hpart', Option.map_some]
    refine ⟨congrArg some hcombinator, ?_⟩
    rintro _ _ ⟨⟩ ⟨⟩
    exact hholds

/-! ## Lists of selectors -/

theorem someMatches_iff {node : ι} {pseudo : Option PseudoElement} : ∀ {selectors : List Selector},
    SomeMatches doc scopeRoot escape selectors visited node pseudo ↔
      ∃ selector ∈ selectors, Matches doc scopeRoot escape selector visited node pseudo
  | [] => by simp [SomeMatches]
  | _ :: _ => by simp [SomeMatches, someMatches_iff]

theorem someRelative_iff {anchor : ι} : ∀ {selectors : List RelativeSelector},
    SomeRelative doc scopeRoot escape selectors visited anchor ↔
      ∃ relative ∈ selectors, RelativeHolds doc scopeRoot escape relative visited anchor
  | [] => by simp [SomeRelative]
  | _ :: _ => by simp [SomeRelative, someRelative_iff]

end

end Omoikane.Css
