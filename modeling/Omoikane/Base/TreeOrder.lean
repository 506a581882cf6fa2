import Omoikane.Base.Ascent

/-!
# Tree order

The elements of a tree one after another, each before what is below it.  Children are listed, and a
link up (`Ascent`) leads from each to the element that lists it.
-/

namespace Base

open Relation

variable {α : Type} {children : α → List α} {up : α → Option α} {a b c : α}
  {roots roots' order order' : List α}

/-- Some elements with everything below them, in tree order. -/
inductive TreeOrder (children : α → List α) : List α → List α → Prop
  | nil : TreeOrder children [] []
  | cons {a : α} {roots below after : List α} : TreeOrder children (children a) below →
      TreeOrder children roots after → TreeOrder children (a :: roots) (a :: (below ++ after))

namespace TreeOrder

/-- There is one tree order. -/
theorem unique (h : TreeOrder children roots order) (h' : TreeOrder children roots order') :
    order = order' := by
  induction h generalizing order' with
  | nil =>
    cases h'
    rfl
  | cons _ _ ihbelow ihafter =>
    cases h' with
    | cons hbelow hafter => rw [ihbelow hbelow, ihafter hafter]

/-- Where children cannot be followed forever, there is a tree order. -/
theorem exists_of_wellFounded (hwell : WellFounded fun child parent => child ∈ children parent)
    (roots : List α) : ∃ order, TreeOrder children roots order := by
  have hlist : ∀ roots : List α, (∀ a ∈ roots, ∃ below, TreeOrder children (children a) below) →
      ∃ order, TreeOrder children roots order := by
    intro roots hbelow
    induction roots with
    | nil => exact ⟨[], .nil⟩
    | cons a roots ih =>
      obtain ⟨below, hbelow'⟩ := hbelow a List.mem_cons_self
      obtain ⟨after, hafter⟩ := ih fun b hb => hbelow b (List.mem_cons_of_mem _ hb)
      exact ⟨_, .cons hbelow' hafter⟩
  have hbelow : ∀ a, ∃ below, TreeOrder children (children a) below := by
    intro a
    induction hwell.apply a with
    | intro a _ ih => exact hlist (children a) fun b hb => ih b hb
  exact hlist roots fun a _ => hbelow a

/-- The elements are those that lead up to a root. -/
theorem mem_iff (h : TreeOrder children roots order) : b ∈ order ↔
    ∃ a ∈ roots, ReflTransGen (fun child parent => child ∈ children parent) b a := by
  induction h with
  | nil => simp
  | @cons a roots below after _ _ ihbelow ihafter =>
    rw [List.mem_cons, List.mem_append, ihbelow, ihafter]
    constructor
    · rintro (rfl | ⟨c, hc, hway⟩ | ⟨c, hc, hway⟩)
      · exact ⟨b, List.mem_cons_self, .refl⟩
      · exact ⟨a, List.mem_cons_self, hway.tail hc⟩
      · exact ⟨c, List.mem_cons_of_mem _ hc, hway⟩
    · rintro ⟨c, hc, hway⟩
      rcases List.mem_cons.mp hc with rfl | hc
      · rcases ReflTransGen.cases_tail hway with heq | ⟨d, hway, hd⟩
        · exact .inl heq.symm
        · exact .inr (.inl ⟨d, hd, hway⟩)
      · exact .inr (.inr ⟨c, hc, hway⟩)

/-- An element does not lead up to another child of its parent. -/
theorem not_leads_to_sibling (hrooted : Rooted up) (hsiblings : up a = up b) (hne : a ≠ b) :
    ¬ ReflTransGen (Below up) a b := by
  intro hway
  rcases ReflTransGen.cases_head hway with heq | ⟨parent, hparent, hway⟩
  · exact hne heq
  · rw [Below, hsiblings] at hparent
    exact hrooted.irreflexive (.head' hparent hway)

/-- No element comes twice below different children of one parent. -/
theorem nodup (hrooted : Rooted up) (hup : ∀ child parent, child ∈ children parent ↔ up child = some parent)
    (hchildren : ∀ parent, (children parent).Nodup) (h : TreeOrder children roots order)
    (hroots : roots.Nodup) (hsiblings : ∀ a ∈ roots, ∀ b ∈ roots, up a = up b) : order.Nodup := by
  have hbelow : (fun child parent => child ∈ children parent) = Below up := by
    funext child parent
    exact propext (hup child parent)
  have hunique : Relator.RightUnique (Below up) := fun child parent parent' hparent hparent' =>
    Option.some.inj (hparent.symm.trans hparent')
  induction h with
  | nil => exact List.nodup_nil
  | @cons a roots below after horder hrest ihbelow ihafter =>
    obtain ⟨ha, hroots⟩ := List.nodup_cons.mp hroots
    have hsibling : ∀ b ∈ roots, up a = up b := fun b hb =>
      hsiblings a List.mem_cons_self b (List.mem_cons_of_mem _ hb)
    have hne : ∀ b ∈ roots, a ≠ b := fun b hb heq => ha (heq ▸ hb)
    rw [List.nodup_cons, List.nodup_append, List.mem_append]
    refine ⟨?_, ihbelow (hchildren a) fun b hb c hc => ?_, ihafter hroots fun b hb c hc =>
      hsiblings b (List.mem_cons_of_mem _ hb) c (List.mem_cons_of_mem _ hc), ?_⟩
    · rw [horder.mem_iff, hrest.mem_iff, hbelow]
      rintro (⟨b, hb, hway⟩ | ⟨b, hb, hway⟩)
      · exact hrooted.irreflexive (.tail' hway ((hup b a).mp hb))
      · exact not_leads_to_sibling hrooted (hsibling b hb) (hne b hb) hway
    · rw [(hup b a).mp hb, (hup c a).mp hc]
    · -- an element below both would lead up from one of them to the other
      rintro c hc _ hc' rfl
      rw [horder.mem_iff, hbelow] at hc
      rw [hrest.mem_iff, hbelow] at hc'
      obtain ⟨b, hb, hway⟩ := hc
      obtain ⟨b', hb', hway'⟩ := hc'
      have hwaya := hway.tail ((hup b a).mp hb : Below up b a)
      rcases ReflTransGen.total_of_right_unique hunique hwaya hway' with hab | hba
      · exact not_leads_to_sibling hrooted (hsibling b' hb') (hne b' hb') hab
      · exact not_leads_to_sibling hrooted (hsibling b' hb').symm (hne b' hb').symm hba

end TreeOrder

/-! ## As functions -/

open Classical in
/-- Everything below an element, in tree order. -/
noncomputable def descendants (children : α → List α) (a : α) : List α :=
  if h : ∃ order, TreeOrder children (children a) order then h.choose else []

theorem TreeOrder.descendants_eq (h : TreeOrder children (children a) order) :
    descendants children a = order := by
  have hexists : ∃ order, TreeOrder children (children a) order := ⟨order, h⟩
  rw [descendants, dif_pos hexists]
  exact hexists.choose_spec.unique h

open Classical in
/-- The last element on the way up. -/
noncomputable def top (up : α → Option α) (a : α) : α :=
  if h : ∃ b, ReflTransGen (Below up) a b ∧ up b = none then h.choose else a

theorem top_eq (hway : ReflTransGen (Below up) a b) (hnone : up b = none) : top up a = b := by
  have hexists : ∃ b, ReflTransGen (Below up) a b ∧ up b = none := ⟨b, hway, hnone⟩
  obtain ⟨hway', hnone'⟩ := hexists.choose_spec
  rw [top, dif_pos hexists]
  have hend : ∀ {c d : α}, up c = none → ReflTransGen (Below up) c d → c = d := by
    intro c d hc hcd
    rcases ReflTransGen.cases_head hcd with heq | ⟨parent, hparent, -⟩
    · exact heq
    · rw [Below, hc] at hparent
      cases hparent
  have hunique : Relator.RightUnique (Below up) := fun child parent parent' hparent hparent' =>
    Option.some.inj (hparent.symm.trans hparent')
  rcases ReflTransGen.total_of_right_unique hunique hway' hway with h | h
  · exact hend hnone' h
  · exact (hend hnone h).symm

namespace Rooted

/-- A way up ends at the top. -/
theorem top_spec (h : Rooted up) (a : α) : ReflTransGen (Below up) a (top up a) ∧ up (top up a) = none := by
  obtain ⟨chain, hchain⟩ := h a
  have hexists : ∃ b, ReflTransGen (Below up) a b ∧ up b = none := by
    induction hchain with
    | top hnone => exact ⟨_, .refl, hnone⟩
    | step hsome _ ih =>
      obtain ⟨b, hway, hnone⟩ := ih
      exact ⟨b, .head hsome hway, hnone⟩
  obtain ⟨b, hway, hnone⟩ := hexists
  rw [top_eq hway hnone]
  exact ⟨hway, hnone⟩

theorem top_of_leads (h : Rooted up) (hway : ReflTransGen (Below up) a b) : top up a = top up b :=
  top_eq (hway.trans (h.top_spec b).1) (h.top_spec b).2

end Rooted

end Base
