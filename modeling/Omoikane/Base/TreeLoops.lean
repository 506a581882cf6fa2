import Omoikane.Base.TreeOrder
import Omoikane.Base.Settles

/-!
# Loops up and down a tree

`ascend` goes up from an element and ends at the first one that gives a result; on the way it keeps a
state.  `descend` goes over everything below some elements, except below those that it passes over,
with a state that each element sets for those below it.  `Way` has the elements between two, which is
what such loops are about: both walk the same ways, in opposite directions.
-/

namespace Base

variable {α β σ : Type} {up up' : α → Option α} {children : α → List α} {a b c : α} {s : σ}

/-! ## Up -/

/-- A loop up: what it meets gives a result, or the state to go on with. -/
def ascend (up : α → Option α) (meet : σ → α → β ⊕ σ) (atTop : σ → β) : Nat → σ → Option α → Option β
  | 0, _, _ => none
  | _ + 1, s, none => some (atTop s)
  | limit + 1, s, some a =>
    match meet s a with
    | .inl result => some result
    | .inr s => ascend up meet atTop limit s (up a)

/-- The same loop over a list. -/
def meetAll (meet : σ → α → β ⊕ σ) (atTop : σ → β) : σ → List α → β
  | s, [] => atTop s
  | s, a :: as =>
    match meet s a with
    | .inl result => result
    | .inr s => meetAll meet atTop s as

open Classical in
/-- What is above an element, nearest first. -/
noncomputable def above (up : α → Option α) (a : α) : List α :=
  if h : ∃ chain, Ascends up a chain then h.choose.tail else []

theorem Ascends.above_eq {chain : List α} (h : Ascends up a chain) : above up a = chain.tail := by
  have hexists : ∃ chain, Ascends up a chain := ⟨chain, h⟩
  rw [above, dif_pos hexists, hexists.choose_spec.unique h]

theorem Rooted.above_top (ha : up a = none) : above up a = [] :=
  (Ascends.top ha).above_eq

theorem Rooted.above_step (h : Rooted up) (ha : up a = some b) : above up a = b :: above up b := by
  obtain ⟨chain, hchain⟩ := h b
  rw [(Ascends.step ha hchain).above_eq, hchain.above_eq]
  cases hchain <;> rfl

/-- A loop up ends. -/
theorem Rooted.ascend (h : Rooted up) {meet : σ → α → β ⊕ σ} {atTop : σ → β} (s : σ) (a : α) :
    Settles (fun limit => ascend up meet atTop limit s (up a)) (meetAll meet atTop s (above up a)) := by
  obtain ⟨chain, hchain⟩ := h a
  induction hchain generalizing s with
  | top hnone =>
    rw [Rooted.above_top hnone, hnone]
    exact .of_succ rfl (.pure _)
  | @step a b _ hsome _ ih =>
    rw [h.above_step hsome, hsome]
    refine .of_succ rfl ?_
    simp only [Base.ascend, meetAll]
    cases meet s b with
    | inl result => exact .pure result
    | inr s => exact ih s

/-- Links of elements that the loop does not meet do not matter. -/
theorem Rooted.above_congr (h : Rooted up) (heq : ∀ b, Relation.ReflTransGen (Below up) a b → up' b = up b) :
    above up' a = above up a := by
  obtain ⟨chain, hchain⟩ := h a
  have hchain' : Ascends up' a chain := hchain.congr fun b hb => heq b (hchain.mem_iff.mp hb)
  rw [hchain'.above_eq, hchain.above_eq]

/-! ## Ways -/

/-- The elements met on the way up from one element to another, which is the last of them. -/
inductive Way (up : α → Option α) : α → List α → α → Prop
  | refl {a : α} : Way up a [] a
  | step {a b c : α} {between : List α} : up a = some b → Way up b between c →
      Way up a (b :: between) c

namespace Way

variable {between : List α}

theorem concat (h : Way up a between b) (hb : up b = some c) : Way up a (between ++ [c]) c := by
  induction h with
  | refl => exact .step hb .refl
  | step ha _ ih => exact .step ha (ih hb)

/-- A way that is not empty arrives from below its end. -/
theorem eq_or_concat (h : Way up a between c) : (a = c ∧ between = []) ∨
    ∃ b before, between = before ++ [c] ∧ Way up a before b ∧ up b = some c := by
  induction h with
  | refl => exact .inl ⟨rfl, rfl⟩
  | @step a b c between ha hway ih =>
    rcases ih with ⟨rfl, rfl⟩ | ⟨d, before, rfl, hbefore, hd⟩
    · exact .inr ⟨a, [], rfl, .refl, ha⟩
    · exact .inr ⟨d, b :: before, rfl, .step ha hbefore, hd⟩

theorem leads (h : Way up a between b) : Relation.ReflTransGen (Below up) a b := by
  induction h with
  | refl => exact .refl
  | step ha _ ih => exact .head ha ih

theorem of_leads (h : Relation.ReflTransGen (Below up) a b) : ∃ between, Way up a between b := by
  induction h with
  | refl => exact ⟨[], .refl⟩
  | tail _ hb ih =>
    obtain ⟨between, hway⟩ := ih
    exact ⟨_, hway.concat hb⟩

/-- There is no way up from the top but to itself. -/
theorem not_concat_of_top (ha : up a = none) : ¬ Way up a (between ++ [b]) c := by
  intro hway
  generalize hlist : between ++ [b] = list at hway
  cases hway with
  | refl => exact List.append_ne_nil_of_right_ne_nil _ (List.cons_ne_nil _ _) hlist
  | step hb => rw [ha] at hb; cases hb

/-- What holds of the elements before the end of a way is read off at its first step. -/
theorem exists_concat_iff (ha : up a = some b) {P : List α → Prop} :
    (∃ before, Way up a (before ++ [c]) c ∧ P before) ↔
      (c = b ∧ P []) ∨ ∃ before, Way up b (before ++ [c]) c ∧ P (b :: before) := by
  constructor
  · rintro ⟨before, hway, hbefore⟩
    cases before with
    | nil =>
      cases hway with
      | step hb hrest =>
        cases hrest
        exact .inl ⟨Option.some.inj (hb.symm.trans ha), hbefore⟩
    | cons first before =>
      cases hway with
      | step hb hrest =>
        cases hb.symm.trans ha
        exact .inr ⟨before, hrest, hbefore⟩
  · rintro (⟨rfl, hbefore⟩ | ⟨before, hway, hbefore⟩)
    · exact ⟨[], .step ha .refl, hbefore⟩
    · exact ⟨b :: before, .step ha hway, hbefore⟩

/-- What is met is above one element and leads to the end. -/
theorem of_mem (h : Way up a between c) (hb : b ∈ between) :
    (∃ child, up child = some b) ∧ Relation.ReflTransGen (Below up) b c := by
  induction h with
  | refl => cases hb
  | @step a d c between ha hway ih =>
    rcases List.mem_cons.mp hb with rfl | hb
    · exact ⟨⟨a, ha⟩, hway.leads⟩
    · exact ih hb

end Way

/-! ## Down -/

/-- A loop over some elements and what is below them: each gives some results and, unless it is passed
over, the state for those below it. -/
def descend (children : Nat → α → Option (List α)) (meet : Nat → σ → α → Option (List β × Option σ)) :
    Nat → σ → List α → Option (List β)
  | 0, _, _ => none
  | limit + 1, s, roots => do
    let results ← roots.mapM fun a => do
      let (results, below) ← meet limit s a
      match below with
      | none => return results
      | some s => return results ++ (← descend children meet limit s (← children limit a))
    return results.flatten

/-- The state for those below an element, after what is above it up to a root. -/
def stateBelow (meet : σ → α → List β × Option σ) (s : σ) (between : List α) : Option σ :=
  between.foldr (fun a s => s.bind fun s => (meet s a).2) (some s)

@[simp] theorem stateBelow_nil (meet : σ → α → List β × Option σ) (s : σ) :
    stateBelow meet s [] = some s := rfl

theorem stateBelow_concat (meet : σ → α → List β × Option σ) (s : σ) (between : List α) (a : α) :
    stateBelow meet s (between ++ [a]) = (meet s a).2.bind (stateBelow meet · between) := by
  rw [stateBelow, List.foldr_append, List.foldr_cons, List.foldr_nil, Option.bind_some]
  cases (meet s a).2 with
  | none =>
    rw [Option.bind_none]
    induction between with
    | nil => rfl
    | cons b between ih => rw [List.foldr_cons, ih, Option.bind_none]
  | some s' => rfl

theorem descend_cons (readChildren : Nat → α → Option (List α))
    (readMeet : Nat → σ → α → Option (List β × Option σ)) (limit : Nat) (s : σ) (a : α)
    (roots : List α) : descend readChildren readMeet (limit + 1) s (a :: roots) =
      ((readMeet limit s a).bind fun met => match met.2 with
        | none => some met.1
        | some s => ((readChildren limit a).bind (descend readChildren readMeet limit s)).map
            (met.1 ++ ·)).bind fun first =>
        (descend readChildren readMeet (limit + 1) s roots).map (first ++ ·) := by
  cases hmeet : readMeet limit s a with
  | none => simp [descend, hmeet]
  | some met =>
    obtain ⟨met, below⟩ := met
    cases below <;> simp [descend, hmeet, Option.map_eq_bind, Option.bind_assoc]

/-- The results of the loop. -/
inductive Descended (children : α → List α) (meet : σ → α → List β × Option σ) :
    σ → List α → List β → Prop
  | nil {s : σ} : Descended children meet s [] []
  | over {s : σ} {a : α} {roots : List α} {after : List β} : (meet s a).2 = none →
      Descended children meet s roots after →
      Descended children meet s (a :: roots) ((meet s a).1 ++ after)
  | into {s s' : σ} {a : α} {roots : List α} {below after : List β} : (meet s a).2 = some s' →
      Descended children meet s' (children a) below → Descended children meet s roots after →
      Descended children meet s (a :: roots) (((meet s a).1 ++ below) ++ after)

namespace Descended

variable {meet : σ → α → List β × Option σ} {roots : List α} {results results' : List β}

/-- Where children cannot be followed forever, the loop has results. -/
theorem exists_of_wellFounded (hwell : WellFounded fun child parent => child ∈ children parent)
    (s : σ) (roots : List α) : ∃ results, Descended children meet s roots results := by
  have hlist : ∀ (s : σ) (roots : List α),
      (∀ a ∈ roots, ∀ s, ∃ below, Descended children meet s (children a) below) →
      ∃ results, Descended children meet s roots results := by
    intro s roots hbelow
    induction roots with
    | nil => exact ⟨[], .nil⟩
    | cons a roots ih =>
      obtain ⟨after, hafter⟩ := ih fun b hb => hbelow b (List.mem_cons_of_mem _ hb)
      cases hmeet : (meet s a).2 with
      | none => exact ⟨_, .over hmeet hafter⟩
      | some s' =>
        obtain ⟨below, hbelow⟩ := hbelow a List.mem_cons_self s'
        exact ⟨_, .into hmeet hbelow hafter⟩
  have hbelow : ∀ a, ∀ s, ∃ below, Descended children meet s (children a) below := by
    intro a
    induction hwell.apply a with
    | intro a _ ih => exact fun s => hlist s (children a) fun b hb => ih b hb
  exact hlist s roots fun a _ => hbelow a

/-- The loop ends with the results. -/
theorem settles {readChildren : Nat → α → Option (List α)}
    {readMeet : Nat → σ → α → Option (List β × Option σ)}
    (hchildren : ∀ a, Settles (readChildren · a) (children a))
    (hmeet : ∀ s a, Settles (readMeet · s a) (meet s a)) (h : Descended children meet s roots results) :
    Settles (fun limit => descend readChildren readMeet limit s roots) results := by
  refine .of_succ rfl ?_
  induction h with
  | nil => exact .pure []
  | @«over» s a roots after hover _ ih =>
    simp only [descend_cons]
    refine ((hmeet s a).bind ?_).bind (ih.map _)
    rw [hover]
    exact .pure _
  | @into s s' a roots below after hinto _ _ ihbelow ih =>
    simp only [descend_cons]
    refine ((hmeet s a).bind ?_).bind (ih.map _)
    rw [hinto]
    exact ((hchildren a).bind (.of_succ rfl ihbelow)).map _

/-- The results are those of the elements that are not passed over, in the states they are met in. -/
theorem mem_iff (hup : ∀ child parent, child ∈ children parent ↔ up child = some parent) {result : β}
    (h : Descended children meet s roots results) : result ∈ results ↔
      ∃ root ∈ roots, ∃ a between s', Way up a between root ∧
        stateBelow meet s between = some s' ∧ result ∈ (meet s' a).1 := by
  induction h with
  | nil => simp
  | @«over» s a roots after hover _ ih =>
    rw [List.mem_append, ih]
    constructor
    · rintro (hfirst | ⟨root, hroot, hrest⟩)
      · exact ⟨a, List.mem_cons_self, a, [], s, .refl, rfl, hfirst⟩
      · exact ⟨root, List.mem_cons_of_mem _ hroot, hrest⟩
    · rintro ⟨root, hroot, b, between, s', hway, hstate, hresult⟩
      rcases List.mem_cons.mp hroot with rfl | hroot
      · rcases hway.eq_or_concat with ⟨rfl, rfl⟩ | ⟨child, before, rfl, -, -⟩
        · cases hstate
          exact .inl hresult
        · rw [stateBelow_concat, hover] at hstate
          cases hstate
      · exact .inr ⟨root, hroot, b, between, s', hway, hstate, hresult⟩
  | @into s s₁ a roots below after hinto _ _ ihbelow ih =>
    rw [List.mem_append, List.mem_append, ihbelow, ih]
    constructor
    · rintro ((hfirst | ⟨child, hchild, b, between, s', hway, hstate, hresult⟩) | ⟨root, hroot, hrest⟩)
      · exact ⟨a, List.mem_cons_self, a, [], s, .refl, rfl, hfirst⟩
      · refine ⟨a, List.mem_cons_self, b, between ++ [a], s', hway.concat ((hup _ _).mp hchild), ?_, hresult⟩
        rw [stateBelow_concat, hinto]
        exact hstate
      · exact ⟨root, List.mem_cons_of_mem _ hroot, hrest⟩
    · rintro ⟨root, hroot, b, between, s', hway, hstate, hresult⟩
      rcases List.mem_cons.mp hroot with rfl | hroot
      · refine .inl ?_
        rcases hway.eq_or_concat with ⟨rfl, rfl⟩ | ⟨child, before, rfl, hbefore, hchild⟩
        · cases hstate
          exact .inl hresult
        · rw [stateBelow_concat, hinto] at hstate
          exact .inr ⟨child, (hup _ _).mpr hchild, b, before, s', hbefore, hstate, hresult⟩
      · exact .inr ⟨root, hroot, b, between, s', hway, hstate, hresult⟩

/-- Results that are the elements themselves come in tree order. -/
theorem sublist {meet : σ → α → List α × Option σ} {results order : List α}
    (hmeet : ∀ s a, (meet s a).1.Sublist [a]) (h : Descended children meet s roots results)
    (horder : TreeOrder children roots order) : results.Sublist order := by
  induction h generalizing order with
  | nil => exact List.nil_sublist _
  | @«over» s a roots after _ _ ih =>
    cases horder with
    | cons hbelow hafter =>
      exact (hmeet s a).append ((ih hafter).trans (List.sublist_append_right ..))
  | @into s s' a roots below after _ _ _ ihbelow ih =>
    cases horder with
    | cons hbelow hafter =>
      rw [List.append_assoc]
      exact (hmeet s a).append ((ihbelow hbelow).append (ih hafter))

end Descended

end Base
