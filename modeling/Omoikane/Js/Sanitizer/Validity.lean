import Omoikane.Js.Sanitizer.Modifiers

/-!
# Sanitizer configurations stay valid

Every modifier keeps a valid configuration valid, but for one: when data attributes
are allowed as a whole, the names of data attributes leave the global list and stay
in the removed lists of elements.  No modifier panics on a valid configuration.
-/

namespace Omoikane.Js.Sanitizer

open Base

/-! ## Lists -/

section

variable {α : Type} [DecidableEq α] {list : Option (List α)} {item other : α}

theorem items_remove (list : Option (List α)) (item : α) :
    items (remove list item).2 = (items list).filter fun value => value ≠ item := by
  cases list <;> rfl

@[simp] theorem isSome_remove (list : Option (List α)) (item : α) :
    (remove list item).2.isSome = list.isSome := by
  cases list <;> rfl

theorem mem_items_remove : other ∈ items (remove list item).2 ↔ other ∈ items list ∧ other ≠ item := by
  rw [items_remove, List.mem_filter, decide_eq_true_iff]

theorem sublist_remove (list : Option (List α)) (item : α) :
    (items (remove list item).2).Sublist (items list) := by
  rw [items_remove]
  exact List.filter_sublist

omit [DecidableEq α] in
theorem nodup_concat {list : List α} (h : list.Nodup) (hitem : item ∉ list) :
    (list ++ [item]).Nodup := by
  rw [← List.concat_eq_append]
  exact List.Nodup.concat hitem h

theorem nodup_deduplicateFrom {before rest : List α} (h : before.Nodup) :
    (deduplicateFrom before rest).Nodup := by
  induction rest generalizing before with
  | nil => exact h
  | cons item rest ih =>
    unfold deduplicateFrom
    split
    · exact ih h
    next hnew => exact ih (nodup_concat h fun hitem => hnew (List.contains_iff_mem.mpr hitem))

theorem nodup_deduplicate (list : List α) : (deduplicate list).Nodup :=
  nodup_deduplicateFrom List.nodup_nil

end

/-! ## Lists of elements -/

section

variable {keys keys' removed removed' replaced replaced' : Option (List Name)} {key : Name}

/-- The lists may shrink. -/
theorem ValidElements.mono (h : ValidElements keys removed replaced)
    (hkeys : keys'.isSome = keys.isSome) (hremoved : removed'.isSome = removed.isSome)
    (hkeys' : (items keys').Sublist (items keys))
    (hremoved' : (items removed').Sublist (items removed))
    (hreplaced' : (items replaced').Sublist (items replaced)) :
    ValidElements keys' removed' replaced' where
  exclusive := by rw [hkeys, hremoved]; exact h.exclusive
  allowed := h.allowed.sublist hkeys'
  removed := h.removed.sublist hremoved'
  replaced := h.replaced.sublist hreplaced'
  replaceable := fun key hkey =>
    have hold := h.replaceable key (hreplaced'.mem hkey)
    ⟨hold.1, fun hmem => hold.2.1 (hremoved'.mem hmem), fun hmem => hold.2.2 (hkeys'.mem hmem)⟩

theorem ValidElements.removed_concat {list : List Name} (h : ValidElements keys (some list) replaced)
    (hnew : key ∉ list) (hreplaced : key ∉ items replaced) :
    ValidElements keys (some (list ++ [key])) replaced where
  exclusive := h.exclusive
  allowed := h.allowed
  removed := nodup_concat h.removed hnew
  replaced := h.replaced
  replaceable := by
    intro other hother
    obtain ⟨hreplaceable, hremoved, hkeys⟩ := h.replaceable other hother
    refine ⟨hreplaceable, fun hmem => ?_, hkeys⟩
    rcases List.mem_append.mp hmem with hmem | hmem
    · exact hremoved hmem
    · rw [List.mem_singleton] at hmem
      exact hreplaced (hmem ▸ hother)

theorem ValidElements.keys_concat {list : List Name} (h : ValidElements (some list) removed replaced)
    (hnew : key ∉ list) (hreplaced : key ∉ items replaced) :
    ValidElements (some (list ++ [key])) removed replaced where
  exclusive := h.exclusive
  allowed := nodup_concat h.allowed hnew
  removed := h.removed
  replaced := h.replaced
  replaceable := by
    intro other hother
    obtain ⟨hreplaceable, hremoved, hkeys⟩ := h.replaceable other hother
    refine ⟨hreplaceable, hremoved, fun hmem => ?_⟩
    rcases List.mem_append.mp hmem with hmem | hmem
    · exact hkeys hmem
    · rw [List.mem_singleton] at hmem
      exact hreplaced (hmem ▸ hother)

theorem ValidElements.replaced_concat (h : ValidElements keys removed replaced)
    (hreplaceable : key.nonReplaceable = false) (hkeys : key ∉ items keys)
    (hremoved : key ∉ items removed) (hnew : key ∉ items replaced) :
    ValidElements keys removed (some (items replaced ++ [key])) where
  exclusive := h.exclusive
  allowed := h.allowed
  removed := h.removed
  replaced := nodup_concat h.replaced hnew
  replaceable := by
    intro other hother
    rcases List.mem_append.mp hother with hother | hother
    · exact h.replaceable other hother
    · rw [List.mem_singleton] at hother
      subst hother
      exact ⟨hreplaceable, hremoved, hkeys⟩

end

namespace Config

variable {config config' : Config} {key other : Name} {changed : Bool}

/-- The keys are those of entries that keep theirs. -/
theorem keysOf_map (elements : Option (List Element)) (change : Element → Element)
    (h : ∀ element, (change element).key = element.key) :
    keysOf (elements.map (·.map change)) = keysOf elements := by
  cases elements with
  | none => rfl
  | some elements =>
    unfold keysOf
    rw [Option.map_some, Option.map_some, Option.map_some, List.map_map]
    exact congrArg some (List.map_congr_left fun element _ => h element)

@[simp] theorem isSome_keysOf (elements : Option (List Element)) :
    (keysOf elements).isSome = elements.isSome := Option.isSome_map

/-- The keys without one, when its entry is taken out. -/
theorem items_keysOf_filter (elements : Option (List Element)) (key : Name) :
    items (keysOf (elements.map fun elements => elements.filter fun entry => entry.key ≠ key)) =
      (items (keysOf elements)).filter fun other => other ≠ key := by
  cases elements with
  | none => rfl
  | some elements =>
    unfold keysOf
    rw [Option.map_some, Option.map_some, Option.map_some, items_some, items_some,
      List.filter_map]
    rfl

/-! ## What each modifier leaves -/

theorem removeElement_valid (h : config.Valid) (key : Name) :
    ∃ changed config', config.removeElement key = some (changed, config') ∧ config'.Valid := by
  obtain ⟨elements, removeElements, replaced, _, _, _, _, _, _, _⟩ := config
  obtain ⟨helements, hattributes, hinstructions, hlocals⟩ := h
  have hreplaced := sublist_remove replaced key
  cases elements with
  | some elements =>
    refine ⟨_, _, rfl, ?_, hattributes, hinstructions, fun element helement =>
      hlocals element (List.mem_of_mem_filter helement)⟩
    exact helements.mono rfl rfl ((List.filter_sublist).map _) (List.Sublist.refl _) hreplaced
  | none =>
    cases removeElements with
    | none => exact absurd rfl helements.exclusive
    | some removed =>
      have hmono := helements.mono rfl rfl (List.Sublist.refl _) (List.Sublist.refl _) hreplaced
      unfold removeElement
      dsimp only
      split
      next => exact ⟨_, _, rfl, hmono, hattributes, hinstructions, hlocals⟩
      next hnew =>
        refine ⟨_, _, rfl, ?_, hattributes, hinstructions, hlocals⟩
        refine hmono.removed_concat (fun hmem => hnew (List.contains_iff_mem.mpr hmem)) ?_
        exact fun hmem => (mem_items_remove.mp hmem).2 rfl

theorem replaceElement_valid (h : config.Valid) (key : Name) : (config.replaceElement key).2.Valid := by
  obtain ⟨elements, removeElements, replaced, _, _, _, _, _, _, _⟩ := config
  obtain ⟨helements, hattributes, hinstructions, hlocals⟩ := h
  unfold replaceElement
  split
  next => exact ⟨helements, hattributes, hinstructions, hlocals⟩
  next hreplaceable =>
    rw [Bool.not_eq_true] at hreplaceable
    have hkeys := items_keysOf_filter elements key
    have hsublist : (items (keysOf (elements.map fun elements =>
        elements.filter fun entry => entry.key ≠ key))).Sublist (items (keysOf elements)) := by
      rw [hkeys]
      exact List.filter_sublist
    have hsome : (keysOf (elements.map fun elements =>
        elements.filter fun entry => entry.key ≠ key)).isSome = (keysOf elements).isSome := by
      rw [isSome_keysOf, isSome_keysOf, Option.isSome_map]
    have hmono : ValidElements _ _ (some (items replaced)) := helements.mono hsome
      (isSome_remove removeElements key) hsublist (sublist_remove removeElements key)
      (List.Sublist.refl (items replaced))
    have hlocals' : ∀ element ∈ items (elements.map fun elements =>
        elements.filter fun entry => entry.key ≠ key), element ∈ items elements := by
      intro element helement
      cases elements with
      | none => exact helement
      | some elements => exact List.mem_of_mem_filter helement
    dsimp only
    split
    next => exact ⟨hmono, hattributes, hinstructions, fun element h => hlocals element (hlocals' element h)⟩
    next hnew =>
      refine ⟨hmono.replaced_concat hreplaceable ?_ ?_ ?_, hattributes, hinstructions,
        fun element h => hlocals element (hlocals' element h)⟩
      · rw [hkeys, List.mem_filter, decide_eq_true_iff]
        exact fun hmem => hmem.2 rfl
      · exact fun hmem => (mem_items_remove.mp hmem).2 rfl
      · exact fun hmem => hnew (List.contains_iff_mem.mpr hmem)

/-! ## Elements with local lists -/

/-- A local list without duplicates, of names that pass a test. -/
theorem items_map_filter (list : Option (List Name)) (test : Name → Bool) :
    (items (list.map fun names => (deduplicate names).filter test)).Nodup ∧
      ∀ name ∈ items (list.map fun names => (deduplicate names).filter test), test name = true := by
  cases list with
  | none => exact ⟨List.nodup_nil, nofun⟩
  | some names =>
    exact ⟨(nodup_deduplicate names).sublist List.filter_sublist,
      fun name hname => (List.mem_filter.mp hname).2⟩

/-- The local lists that are left are those that the global ones allow. -/
theorem normalizeLocalAttributes_valid (config : Config) (element : Element) :
    (config.normalizeLocalAttributes element).Valid config.attributes config.removeAttributes
      config.dataAttributes := by
  unfold normalizeLocalAttributes
  cases config.attributes with
  | some all =>
    obtain ⟨hallowed, htest⟩ := items_map_filter element.attributes fun key =>
      !all.contains key && !(config.dataAttributes == some true && key.isData)
    obtain ⟨hremoved, htest'⟩ := items_map_filter element.removeAttributes fun key =>
      all.contains key
    refine ⟨hallowed, hremoved, fun name hall hname => ?_,
      fun name hname => List.contains_iff_mem.mp (htest' name hname), fun hdata name hname => ?_⟩
    · have hnew := (Bool.and_eq_true_iff.mp (htest name hname)).1
      rw [List.contains_iff_mem.mpr hall] at hnew
      cases hnew
    · have hplain := (Bool.and_eq_true_iff.mp (htest name hname)).2
      rw [hdata, Bool.not_eq_true', Bool.and_eq_false_iff] at hplain
      exact hplain.resolve_left (by decide)
  | none =>
    cases hallowed : element.attributes with
    | some allowed =>
      obtain ⟨hnodup, htest⟩ := items_map_filter (some allowed) fun key =>
        !(config.removeAttributes.getD []).contains key &&
          !(element.removeAttributes.getD []).contains key
      refine ⟨hnodup, List.nodup_nil, .inr rfl, fun name hall hname => ?_, fun _ _ => nofun⟩
      have hall' : (config.removeAttributes.getD []).contains name = true :=
        List.contains_iff_mem.mpr hall
      have hnew := (Bool.and_eq_true_iff.mp (htest name hname)).1
      rw [hall'] at hnew
      cases hnew
    | none =>
      obtain ⟨hnodup, htest⟩ := items_map_filter element.removeAttributes fun key =>
        !(config.removeAttributes.getD []).contains key
      refine ⟨List.nodup_nil, hnodup, .inl rfl, fun _ _ => nofun, fun name hall hname => ?_⟩
      have hall' : (config.removeAttributes.getD []).contains name = true :=
        List.contains_iff_mem.mpr hall
      have hnew := htest name hname
      rw [hall'] at hnew
      cases hnew

theorem normalizeLocalAttributes_key (config : Config) (element : Element) :
    (config.normalizeLocalAttributes element).key = element.key := by
  unfold normalizeLocalAttributes
  cases config.attributes with
  | some all => rfl
  | none => cases element.attributes <;> rfl

theorem map_key_replaceFirst (element : Element) (elements : List Element) :
    (replaceFirst element elements).map Element.key = elements.map Element.key := by
  induction elements with
  | nil => rfl
  | cons entry elements ih =>
    unfold replaceFirst
    split
    next hkey => rw [List.map_cons, List.map_cons, hkey]
    next => rw [List.map_cons, List.map_cons, ih]

theorem keysOf_replaceFirst (element : Element) (elements : List Element) :
    keysOf (some (replaceFirst element elements)) = keysOf (some elements) :=
  congrArg some (map_key_replaceFirst element elements)

theorem mem_replaceFirst {element entry : Element} {elements : List Element}
    (h : entry ∈ replaceFirst element elements) : entry = element ∨ entry ∈ elements := by
  induction elements with
  | nil => cases h
  | cons first elements ih =>
    unfold replaceFirst at h
    split at h
    next =>
      rcases List.mem_cons.mp h with h | h
      · exact .inl h
      · exact .inr (List.mem_cons_of_mem _ h)
    next =>
      rcases List.mem_cons.mp h with rfl | h
      · exact .inr List.mem_cons_self
      · exact (ih h).imp_right (List.mem_cons_of_mem _)

theorem allowElement_valid (h : config.Valid) (element : Element) :
    (config.allowElement element).2.Valid := by
  have hnormalized := normalizeLocalAttributes_valid config (withLocalList element)
  obtain ⟨elements, removeElements, replaced, _, _, _, _, _, _, _⟩ := config
  obtain ⟨helements, hattributes, hinstructions, hlocals⟩ := h
  unfold allowElement
  cases elements with
  | none =>
    dsimp only
    split
    next => exact ⟨helements, hattributes, hinstructions, hlocals⟩
    next =>
      refine ⟨helements.mono rfl (isSome_remove _ _) (List.Sublist.refl _) (sublist_remove _ _)
        (sublist_remove _ _), hattributes, hinstructions, nofun⟩
  | some elements =>
    dsimp only
    generalize normalizeLocalAttributes _ (withLocalList element) = normalized at hnormalized ⊢
    have hmono := helements.mono rfl rfl (List.Sublist.refl _) (List.Sublist.refl _)
      (sublist_remove replaced normalized.key)
    split
    next =>
      split
      next => exact ⟨hmono, hattributes, hinstructions, hlocals⟩
      next =>
        refine ⟨?_, hattributes, hinstructions, fun entry hentry => ?_⟩
        · show ValidElements (keysOf (some (replaceFirst normalized elements))) _ _
          rw [keysOf_replaceFirst]
          exact hmono
        · rcases mem_replaceFirst hentry with rfl | hentry
          · exact hnormalized
          · exact hlocals entry hentry
    next hnew =>
      refine ⟨?_, hattributes, hinstructions, fun entry hentry => ?_⟩
      · show ValidElements (keysOf (some (elements ++ [normalized]))) _ _
        unfold keysOf
        rw [Option.map_some, List.map_append, List.map_singleton]
        refine ValidElements.keys_concat hmono (fun hmem => ?_)
          fun hmem => (mem_items_remove.mp hmem).2 rfl
        obtain ⟨entry, hentry, hkey⟩ := List.mem_map.mp hmem
        exact absurd (decide_eq_true hkey) (List.find?_eq_none.mp hnew entry hentry)
      · rcases List.mem_append.mp hentry with hentry | hentry
        · exact hlocals entry hentry
        · rw [List.mem_singleton] at hentry
          exact hentry ▸ hnormalized

/-! ## Attributes -/

theorem forall_items_map {elements : Option (List Element)} {change : Element → Element}
    {good : Element → Prop} (h : ∀ element ∈ items elements, good (change element)) :
    ∀ element ∈ items (elements.map (·.map change)), good element := by
  cases elements with
  | none => exact nofun
  | some elements =>
    intro element helement
    obtain ⟨old, hold, rfl⟩ := List.mem_map.mp helement
    exact h old hold

theorem allowAttribute_valid (h : config.Valid) (key : Name) : (config.allowAttribute key).2.Valid := by
  obtain ⟨elements, removeElements, replaced, attributes, removeAttributes, _, _, _,
    dataAttributes, _⟩ := config
  obtain ⟨helements, hattributes, hinstructions, hlocals⟩ := h
  unfold allowAttribute
  cases attributes with
  | some all =>
    dsimp only
    split
    next => exact ⟨helements, hattributes, hinstructions, hlocals⟩
    next hnew =>
      rw [Bool.or_eq_true, not_or, List.contains_iff_mem, Bool.not_eq_true,
        Bool.and_eq_false_imp, beq_iff_eq] at hnew
      obtain ⟨hplain, hnew⟩ := hnew
      refine ⟨?_, ?_, hinstructions, forall_items_map fun element helement => ?_⟩
      · show ValidElements (keysOf (elements.map (·.map (forgetAllowed key)))) _ _
        rw [keysOf_map elements (forgetAllowed key) fun _ => rfl]
        exact helements
      · refine ⟨hattributes.exclusive, nodup_concat hattributes.allowed hnew, hattributes.removed,
          nofun, fun hdata name hname => ?_⟩
        rcases List.mem_append.mp hname with hname | hname
        · exact hattributes.data hdata name hname
        · rw [List.mem_singleton] at hname
          exact hname ▸ hplain hdata
      · obtain ⟨hallowed, hremoved, hfresh, hold, hdata⟩ := hlocals element helement
        refine ⟨hallowed.sublist (sublist_remove _ _), hremoved, fun name hname hlocal => ?_,
          fun name hname => List.mem_append_left _ (hold name hname),
          fun hset name hname => hdata hset name (mem_items_remove.mp hname).1⟩
        obtain ⟨hlocal, hne⟩ := mem_items_remove.mp hlocal
        rcases List.mem_append.mp hname with hname | hname
        · exact hfresh name hname hlocal
        · exact hne (List.mem_singleton.mp hname)
  | none =>
    refine ⟨helements, ⟨?_, hattributes.allowed, hattributes.removed.sublist (sublist_remove _ _),
      hattributes.noData, hattributes.data⟩, hinstructions, fun element helement => ?_⟩
    · rw [isSome_remove]
      exact hattributes.exclusive
    · obtain ⟨hallowed, hremoved, hone, hnew, hold⟩ := hlocals element helement
      exact ⟨hallowed, hremoved, hone, fun name hname => hnew name (mem_items_remove.mp hname).1,
        fun name hname => hold name (mem_items_remove.mp hname).1⟩

theorem removeAttribute_valid (h : config.Valid) (key : Name) :
    ∃ changed config', config.removeAttribute key = some (changed, config') ∧ config'.Valid := by
  obtain ⟨elements, removeElements, replaced, attributes, removeAttributes, _, _, _,
    dataAttributes, _⟩ := config
  obtain ⟨helements, hattributes, hinstructions, hlocals⟩ := h
  have hkeys : ValidElements (keysOf (elements.map (·.map (forgetAttribute key)))) removeElements
      replaced := by
    rw [keysOf_map elements (forgetAttribute key) fun _ => rfl]
    exact helements
  cases attributes with
  | some all =>
    refine ⟨_, _, rfl, hkeys, ?_, hinstructions, forall_items_map fun element helement => ?_⟩
    · exact ⟨hattributes.exclusive, hattributes.allowed.sublist (sublist_remove (some all) key),
        hattributes.removed, nofun,
        fun hset name hname => hattributes.data hset name (List.mem_of_mem_filter hname)⟩
    · obtain ⟨hallowed, hremoved, hfresh, hold, hdata⟩ := hlocals element helement
      refine ⟨hallowed.sublist (sublist_remove _ _), hremoved.sublist (sublist_remove _ _),
        fun name hname hlocal =>
          hfresh name (List.mem_of_mem_filter hname) (mem_items_remove.mp hlocal).1,
        fun name hname => ?_,
        fun hset name hname => hdata hset name (mem_items_remove.mp hname).1⟩
      obtain ⟨hname, hne⟩ := mem_items_remove.mp hname
      exact List.mem_filter.mpr ⟨hold name hname, decide_eq_true hne⟩
  | none =>
    cases removeAttributes with
    | none => exact absurd rfl hattributes.exclusive
    | some removed =>
      unfold removeAttribute
      dsimp only
      rw [if_neg (by decide)]
      split
      next => exact ⟨_, _, rfl, helements, hattributes, hinstructions, hlocals⟩
      next hnew =>
        rw [contains_eq_true_iff] at hnew
        refine ⟨_, _, rfl, hkeys, ?_, hinstructions, forall_items_map fun element helement => ?_⟩
        · exact ⟨hattributes.exclusive, hattributes.allowed,
            nodup_concat hattributes.removed hnew, hattributes.noData, hattributes.data⟩
        · obtain ⟨hallowed, hremoved, hone, hfresh, hold⟩ := hlocals element helement
          refine ⟨hallowed.sublist (sublist_remove _ _), hremoved.sublist (sublist_remove _ _),
            ?_, fun name hname hlocal => ?_, fun name hname hlocal => ?_⟩
          · exact hone.imp (fun h => by show (remove element.attributes key).2 = none; rw [h]; rfl)
              fun h => by show (remove element.removeAttributes key).2 = none; rw [h]; rfl
          · obtain ⟨hlocal, hne⟩ := mem_items_remove.mp hlocal
            rcases List.mem_append.mp hname with hname | hname
            · exact hfresh name hname hlocal
            · exact hne (List.mem_singleton.mp hname)
          · obtain ⟨hlocal, hne⟩ := mem_items_remove.mp hlocal
            rcases List.mem_append.mp hname with hname | hname
            · exact hold name hname hlocal
            · exact hne (List.mem_singleton.mp hname)

theorem modifyPi_valid (h : config.Valid) (pi : Pi) (allow : Bool) :
    ∃ changed config', config.modifyPi pi allow = some (changed, config') ∧ config'.Valid := by
  obtain ⟨_, _, _, _, _, allowed, removed, _, _, _⟩ := config
  obtain ⟨helements, hattributes, hinstructions, hlocals⟩ := h
  unfold modifyPi
  cases allowed with
  | some list =>
    cases allow with
    | true =>
      dsimp only
      split
      next => exact ⟨_, _, rfl, helements, hattributes, hinstructions, hlocals⟩
      next hnew =>
        rw [List.contains_iff_mem] at hnew
        exact ⟨_, _, rfl, helements, hattributes, ⟨hinstructions.exclusive,
          nodup_concat hinstructions.allowed hnew, hinstructions.removed⟩, hlocals⟩
    | false =>
      exact ⟨_, _, rfl, helements, hattributes, ⟨hinstructions.exclusive,
        hinstructions.allowed.sublist List.filter_sublist, hinstructions.removed⟩, hlocals⟩
  | none =>
    cases removed with
    | none => exact absurd rfl hinstructions.exclusive
    | some list =>
      cases allow with
      | true =>
        exact ⟨_, _, rfl, helements, hattributes, ⟨hinstructions.exclusive,
          hinstructions.allowed,
          hinstructions.removed.sublist (sublist_remove (some list) pi)⟩, hlocals⟩
      | false =>
        dsimp only
        split
        next => exact ⟨_, _, rfl, helements, hattributes, hinstructions, hlocals⟩
        next hnew =>
          rw [List.contains_iff_mem] at hnew
          exact ⟨_, _, rfl, helements, hattributes, ⟨hinstructions.exclusive,
            hinstructions.allowed, nodup_concat hinstructions.removed hnew⟩, hlocals⟩

/-- The removed lists of elements name no data attribute. -/
def NoDataRemoved (config : Config) : Prop :=
  ∀ element ∈ items config.elements, ∀ name ∈ items element.removeAttributes, name.isData = false

/-- Data attributes are allowed as a whole just where no element removes one. -/
theorem setDataAttributes_valid_iff (h : config.Valid) (allow : Bool) :
    (config.setDataAttributes allow).2.Valid ↔
      (allow = true → config.attributes.isSome → config.dataAttributes ≠ some true →
        config.NoDataRemoved) := by
  obtain ⟨elements, removeElements, replaced, attributes, removeAttributes, _, _, _,
    dataAttributes, _⟩ := config
  have hvalid := h
  obtain ⟨helements, hattributes, hinstructions, hlocals⟩ := h
  unfold setDataAttributes
  cases attributes with
  | none => exact ⟨fun _ _ => nofun, fun _ => hvalid⟩
  | some all =>
    dsimp only
    by_cases hsame : dataAttributes = some allow
    · rw [if_pos hsame]
      refine ⟨fun _ hallow _ hunset => ?_, fun _ => hvalid⟩
      subst hallow
      exact absurd hsame hunset
    rw [if_neg hsame]
    cases allow with
    | false =>
      rw [if_neg (by decide)]
      refine ⟨fun _ => nofun, fun _ => ⟨helements, ?_, hinstructions, fun element helement => ?_⟩⟩
      · exact ⟨hattributes.exclusive, hattributes.allowed, hattributes.removed, nofun, nofun⟩
      · obtain ⟨hallowed, hremoved, hfresh, hold, _⟩ := hlocals element helement
        exact ⟨hallowed, hremoved, hfresh, hold, nofun⟩
    | true =>
      rw [if_pos rfl]
      constructor
      · intro hnew _ _ _ element helement name hname
        have hforgotten : forgetData element ∈ items (elements.map (·.map forgetData)) := by
          cases elements with
          | none => cases helement
          | some elements => exact List.mem_map_of_mem helement
        have hkept := (hnew.locals _ hforgotten).fits.2.1 name hname
        exact Bool.not_eq_true' _ ▸ (List.mem_filter.mp hkept).2
      · intro hnone
        have hnone := hnone rfl rfl hsame
        refine ⟨?_, ?_, hinstructions, forall_items_map fun element helement => ?_⟩
        · show ValidElements (keysOf (elements.map (·.map forgetData))) _ _
          rw [keysOf_map elements forgetData fun _ => rfl]
          exact helements
        · exact ⟨hattributes.exclusive, hattributes.allowed.sublist List.filter_sublist,
            hattributes.removed, nofun,
            fun _ name hname => Bool.not_eq_true' _ ▸ (List.mem_filter.mp hname).2⟩
        · obtain ⟨hallowed, hremoved, hfresh, hold, _⟩ := hlocals element helement
          have hdata : ∀ name ∈ items (forgetData element).attributes,
              name ∈ items element.attributes ∧ name.isData = false := by
            unfold forgetData
            intro name hname
            cases hlocal : element.attributes with
            | none =>
              rw [hlocal] at hname
              cases hname
            | some list =>
              rw [hlocal] at hname
              obtain ⟨hname, hplain⟩ := List.mem_filter.mp hname
              exact ⟨hname, Bool.not_eq_true' _ ▸ hplain⟩
          have hnodup : (items (forgetData element).attributes).Nodup := by
            unfold forgetData
            cases hlocal : element.attributes with
            | none => exact List.nodup_nil
            | some list =>
              rw [hlocal] at hallowed
              exact hallowed.sublist List.filter_sublist
          refine ⟨hnodup, hremoved, fun name hname hlocal =>
              hfresh name (List.mem_of_mem_filter hname) (hdata name hlocal).1,
            fun name hname => List.mem_filter.mpr ⟨hold name hname, ?_⟩,
            fun _ name hname => (hdata name hname).2⟩
          rw [hnone element helement name hname]
          rfl

/-! ## Unsafe names -/

theorem andThen_valid {before : Option (Bool × Config)} {modifier : Config → Option (Bool × Config)}
    (h : ∃ changed config, before = some (changed, config) ∧ config.Valid)
    (hmodifier : ∀ config : Config, config.Valid →
      ∃ changed config', modifier config = some (changed, config') ∧ config'.Valid) :
    ∃ changed config, andThen before modifier = some (changed, config) ∧ config.Valid := by
  obtain ⟨changed, config, rfl, hvalid⟩ := h
  obtain ⟨changed', config', heq, hvalid'⟩ := hmodifier config hvalid
  refine ⟨changed || changed', config', ?_, hvalid'⟩
  unfold andThen
  rw [Option.bind_some, heq]
  rfl

/-- A loop of modifiers that each keep a configuration valid. -/
theorem foldl_andThen_valid {α : Type} {modifier : α → Config → Option (Bool × Config)}
    (hmodifier : ∀ (item : α) (config : Config), config.Valid →
      ∃ changed config', modifier item config = some (changed, config') ∧ config'.Valid)
    (list : List α) {before : Option (Bool × Config)}
    (h : ∃ changed config, before = some (changed, config) ∧ config.Valid) :
    ∃ changed config, list.foldl (fun changed item => andThen changed (modifier item)) before =
      some (changed, config) ∧ config.Valid := by
  induction list generalizing before with
  | nil => exact h
  | cons item list ih =>
    rw [List.foldl_cons]
    exact ih (andThen_valid h (hmodifier item))

theorem removeUnsafe_valid (constants : Constants) (h : config.Valid) :
    ∃ changed config', config.removeUnsafe constants = some (changed, config') ∧ config'.Valid := by
  unfold removeUnsafe
  refine andThen_valid (foldl_andThen_valid (fun _ _ hvalid => removeAttribute_valid hvalid _) _
    (foldl_andThen_valid (fun key _ hvalid => removeElement_valid hvalid key) _
      ⟨false, config, rfl, h⟩)) fun config hvalid => ?_
  exact ⟨_, _, rfl, hvalid.elements, hvalid.attributes, hvalid.instructions, hvalid.locals⟩

/-! ## Decisions -/

/-- The lists of elements allow a key, unless it is replaced. -/
def Allows (config : Config) (key : Name) : Prop :=
  match config.elements with
  | none => key ∉ items config.removeElements
  | some elements => key ∈ elements.map Element.key

theorem allowed_eq_true_iff (config : Config) (key : Name) :
    (match config.elements with
      | none => !contains config.removeElements key
      | some list => list.any fun entry => entry.key == key) = true ↔ config.Allows key := by
  unfold Allows
  cases config.elements with
  | none =>
    dsimp only
    rw [Bool.not_eq_true', ← Bool.not_eq_true, contains_eq_true_iff]
  | some list =>
    dsimp only
    rw [List.any_eq_true, List.mem_map]
    simp only [beq_iff_eq]

theorem decision_of_replaced (h : key ∈ items config.replaceWithChildrenElements) :
    config.decision key = .unwrap := if_pos (contains_eq_true_iff.mpr h)

theorem decision_of_not_replaced (h : key ∉ items config.replaceWithChildrenElements) :
    (config.Allows key → config.decision key = .keep) ∧
      (¬ config.Allows key → config.decision key = .remove) := by
  have hdecision : config.decision key = if (match config.elements with
      | none => !contains config.removeElements key
      | some list => list.any fun entry => entry.key == key) = true then .keep else .remove :=
    if_neg fun hmem => h (contains_eq_true_iff.mp hmem)
  rw [← allowed_eq_true_iff, hdecision]
  exact ⟨fun hallowed => if_pos hallowed, fun hnot => if_neg hnot⟩

/-- The decision depends on the lists of elements only. -/
theorem decision_congr
    (hreplaced : key ∈ items config'.replaceWithChildrenElements ↔
      key ∈ items config.replaceWithChildrenElements)
    (hallows : config'.Allows key ↔ config.Allows key) :
    config'.decision key = config.decision key := by
  by_cases hold : key ∈ items config.replaceWithChildrenElements
  · rw [decision_of_replaced hold, decision_of_replaced (hreplaced.mpr hold)]
  · have hnew := fun h => hold (hreplaced.mp h)
    by_cases hallowed : config.Allows key
    · rw [(decision_of_not_replaced hold).1 hallowed,
        (decision_of_not_replaced hnew).1 (hallows.mpr hallowed)]
    · rw [(decision_of_not_replaced hold).2 hallowed,
        (decision_of_not_replaced hnew).2 fun h => hallowed (hallows.mp h)]

theorem mem_map_key_filter {elements : List Element} :
    other ∈ (elements.filter fun entry => entry.key ≠ key).map Element.key ↔
      other ∈ elements.map Element.key ∧ other ≠ key := by
  have hfilter : (elements.filter fun entry => entry.key ≠ key).map Element.key =
      (elements.map Element.key).filter fun other => other ≠ key := by
    rw [List.filter_map]
    rfl
  rw [hfilter, List.mem_filter, decide_eq_true_iff]

theorem removeElement_decision (h : config.removeElement key = some (changed, config'))
    (other : Name) :
    config'.decision other = if other = key then .remove else config.decision other := by
  -- the key is neither replaced nor allowed, and other keys are as before
  have hlists : (other ∈ items config'.replaceWithChildrenElements ↔
        other ∈ items config.replaceWithChildrenElements ∧ other ≠ key) ∧
      (config'.Allows other ↔ config.Allows other ∧ other ≠ key) := by
    obtain ⟨elements, removeElements, replaced, _, _, _, _, _, _, _⟩ := config
    unfold removeElement at h
    cases elements with
    | some elements =>
      cases h
      exact ⟨mem_items_remove, mem_map_key_filter⟩
    | none =>
      cases removeElements with
      | none => cases h
      | some removed =>
        dsimp only at h
        split at h
        next hold =>
          cases h
          refine ⟨mem_items_remove, (and_iff_left_of_imp ?_).symm⟩
          rintro hallows rfl
          exact hallows (List.contains_iff_mem.mp hold)
        next hnew =>
          cases h
          refine ⟨mem_items_remove, ?_⟩
          show other ∉ removed ++ [key] ↔ other ∉ removed ∧ other ≠ key
          rw [List.mem_append, List.mem_singleton, not_or]
  split
  next heq =>
    subst heq
    exact (decision_of_not_replaced fun hmem => (hlists.1.mp hmem).2 rfl).2
      fun hallows => (hlists.2.mp hallows).2 rfl
  next hne =>
    exact decision_congr (hlists.1.trans (and_iff_left hne)) (hlists.2.trans (and_iff_left hne))

theorem replaceElement_decision (hreplaceable : key.nonReplaceable = false) (other : Name) :
    (config.replaceElement key).2.decision other =
      if other = key then .unwrap else config.decision other := by
  have hlists : (other ∈ items (config.replaceElement key).2.replaceWithChildrenElements ↔
        other ∈ items config.replaceWithChildrenElements ∨ other = key) ∧
      (other ≠ key → ((config.replaceElement key).2.Allows other ↔ config.Allows other)) := by
    obtain ⟨elements, removeElements, replaced, _, _, _, _, _, _, _⟩ := config
    unfold replaceElement
    rw [hreplaceable]
    dsimp only
    rw [if_neg (by decide)]
    have hallows : ∀ replaced attributes removeAttributes pis removePis comments data urls,
        other ≠ key → (Allows ⟨elements.map fun elements => elements.filter fun entry =>
            entry.key ≠ key, (remove removeElements key).2, replaced, attributes, removeAttributes,
            pis, removePis, comments, data, urls⟩ other ↔
          Allows ⟨elements, removeElements, replaced, attributes, removeAttributes, pis, removePis,
            comments, data, urls⟩ other) := by
      intro _ _ _ _ _ _ _ _ hne
      cases elements with
      | none => exact not_congr (mem_items_remove.trans (and_iff_left hne))
      | some elements => exact mem_map_key_filter.trans (and_iff_left hne)
    split
    next hold =>
      refine ⟨(or_iff_left_of_imp ?_).symm, hallows _ _ _ _ _ _ _ _⟩
      rintro rfl
      exact List.contains_iff_mem.mp hold
    next =>
      refine ⟨?_, hallows _ _ _ _ _ _ _ _⟩
      show other ∈ items replaced ++ [key] ↔ _
      rw [List.mem_append, List.mem_singleton]
  split
  next heq => exact decision_of_replaced (hlists.1.mpr (.inr heq))
  next hne => exact decision_congr (hlists.1.trans (or_iff_left hne)) (hlists.2 hne)

theorem allowElement_decision (config : Config) (key other : Name) :
    (config.allowElement { key, attributes := none, removeAttributes := none }).2.decision other =
      if other = key then .keep else config.decision other := by
  have hlists : (other ∈ items (config.allowElement ⟨key, none, none⟩).2.replaceWithChildrenElements ↔
        other ∈ items config.replaceWithChildrenElements ∧ other ≠ key) ∧
      ((config.allowElement ⟨key, none, none⟩).2.Allows other ↔
        config.Allows other ∨ other = key) := by
    have hkey := normalizeLocalAttributes_key config (withLocalList ⟨key, none, none⟩)
    obtain ⟨elements, removeElements, replaced, _, _, _, _, _, _, _⟩ := config
    unfold allowElement
    cases elements with
    | none =>
      refine ⟨mem_items_remove, ?_⟩
      show other ∉ items (remove removeElements key).2 ↔ other ∉ items removeElements ∨ other = key
      rw [mem_items_remove, not_and_or, not_not]
    | some elements =>
      dsimp only
      generalize normalizeLocalAttributes _ (withLocalList _) = normalized at hkey ⊢
      rw [show normalized.key = key from hkey]
      have hreplaced : other ∈ items (remove replaced key).2 ↔ other ∈ items replaced ∧ other ≠ key :=
        mem_items_remove
      split
      next current hfound =>
        have hcurrent := List.find?_some hfound
        have hmem : key ∈ elements.map Element.key :=
          List.mem_map.mpr ⟨current, List.mem_of_find?_eq_some hfound, of_decide_eq_true hcurrent⟩
        have hold : other ∈ elements.map Element.key ↔
            other ∈ elements.map Element.key ∨ other = key :=
          (or_iff_left_of_imp fun heq => heq ▸ hmem).symm
        split
        next => exact ⟨hreplaced, hold⟩
        next =>
          refine ⟨hreplaced, ?_⟩
          show other ∈ (replaceFirst normalized elements).map Element.key ↔ _
          rw [map_key_replaceFirst]
          exact hold
      next =>
        refine ⟨hreplaced, ?_⟩
        show other ∈ (elements ++ [normalized]).map Element.key ↔ _
        rw [List.map_append, List.mem_append, List.map_singleton, List.mem_singleton,
          show normalized.key = key from hkey]
        exact Iff.rfl
  split
  next heq =>
    subst heq
    exact (decision_of_not_replaced fun hmem => (hlists.1.mp hmem).2 rfl).1
      (hlists.2.mpr (.inr rfl))
  next hne =>
    exact decision_congr (hlists.1.trans (and_iff_left hne)) (hlists.2.trans (or_iff_left hne))

/-! ## Runs -/

/-- The step that forgets a list is not taken: data attributes are not allowed as a whole
while an element removes one. -/
def Sheltered (config : Config) (operation : Operation) : Prop :=
  operation = .setDataAttributes true → config.attributes.isSome →
    config.dataAttributes ≠ some true → config.NoDataRemoved

/-- On a valid configuration a modifier returns, with a valid configuration if sheltered. -/
theorem modify_valid_iff (constants : Constants) (h : config.Valid) (operation : Operation) :
    ∃ changed config', config.modify constants operation = some (changed, config') ∧
      (config'.Valid ↔ config.Sheltered operation) := by
  have hkeeps : operation ≠ .setDataAttributes true →
      (∃ changed config', config.modify constants operation = some (changed, config') ∧
        config'.Valid) →
      ∃ changed config', config.modify constants operation = some (changed, config') ∧
        (config'.Valid ↔ config.Sheltered operation) := by
    rintro hne ⟨changed, config', heq, hvalid⟩
    exact ⟨changed, config', heq, iff_of_true hvalid fun h => absurd h hne⟩
  cases operation with
  | get => exact hkeeps nofun ⟨_, _, rfl, h⟩
  | allowElement element => exact hkeeps nofun ⟨_, _, rfl, allowElement_valid h element⟩
  | removeElement key => exact hkeeps nofun (removeElement_valid h key)
  | replaceElementWithChildren key => exact hkeeps nofun ⟨_, _, rfl, replaceElement_valid h key⟩
  | allowAttribute key => exact hkeeps nofun ⟨_, _, rfl, allowAttribute_valid h key⟩
  | removeAttribute key => exact hkeeps nofun (removeAttribute_valid h key)
  | setComments value =>
    exact hkeeps nofun ⟨_, _, rfl, h.elements, h.attributes, h.instructions, h.locals⟩
  | setJavascriptUrls value =>
    exact hkeeps nofun ⟨_, _, rfl, h.elements, h.attributes, h.instructions, h.locals⟩
  | setDataAttributes value =>
    refine ⟨_, _, rfl, (setDataAttributes_valid_iff h value).trans ?_⟩
    unfold Sheltered
    rw [Operation.setDataAttributes.injEq]
  | allowProcessingInstruction pi => exact hkeeps nofun (modifyPi_valid h pi true)
  | removeProcessingInstruction pi => exact hkeeps nofun (modifyPi_valid h pi false)
  | removeUnsafe => exact hkeeps nofun (removeUnsafe_valid constants h)

/-- A configuration that sheltered modifiers make of another. -/
inductive Reaches (constants : Constants) (start : Config) : Config → Prop where
  | start : Reaches constants start start
  | modify {config config' : Config} {operation : Operation} {changed : Bool} :
      Reaches constants start config → config.Sheltered operation →
      config.modify constants operation = some (changed, config') →
      Reaches constants start config'

/-- What holds of a configuration between any two calls. -/
structure Sound (constants : Constants) (config : Config) : Prop where
  accepted : config.validate = .ok ()
  /-- No modifier panics, and all but the one that forgets a list keep the configuration
  valid. -/
  modified : ∀ operation, ∃ changed config',
    config.modify constants operation = some (changed, config') ∧
      (config'.validate = .ok () ↔ config.Sheltered operation)
  removes : ∀ key other changed config',
    config.modify constants (.removeElement key) = some (changed, config') →
      config'.decision other = if other = key then .remove else config.decision other
  replaces : ∀ key other changed config', key.nonReplaceable = false →
    config.modify constants (.replaceElementWithChildren key) = some (changed, config') →
      config'.decision other = if other = key then .unwrap else config.decision other
  allows : ∀ key other changed config',
    config.modify constants
        (.allowElement { key, attributes := none, removeAttributes := none }) =
      some (changed, config') →
      config'.decision other = if other = key then .keep else config.decision other

/-- Sheltered modifiers make valid configurations of valid ones. -/
theorem Reaches.valid {constants : Constants} {start : Config} (h : Reaches constants start config)
    (hstart : start.Valid) : config.Valid := by
  induction h with
  | start => exact hstart
  | modify _ hsheltered heq ih =>
    obtain ⟨_, _, heq', hvalid⟩ := modify_valid_iff constants ih _
    cases heq.symm.trans heq'
    exact hvalid.mpr hsheltered

/-- A canonical configuration that is accepted stays accepted, whatever is called. -/
theorem reaches_sound (constants : Constants) (config : Config) (permissive : Bool)
    (haccepted : (config.canonicalize permissive).validate = .ok ()) (config' : Config)
    (hreaches : Reaches constants (config.canonicalize permissive) config') :
    Sound constants config' where
  accepted := validate_eq_ok_iff.mpr (hreaches.valid (validate_eq_ok_iff.mp haccepted))
  modified := by
    intro operation
    rw [validate_eq_ok_iff] at haccepted
    obtain ⟨changed, config'', heq, hvalid⟩ :=
      modify_valid_iff constants (hreaches.valid haccepted) operation
    exact ⟨changed, config'', heq, validate_eq_ok_iff.trans hvalid⟩
  removes := fun _ other _ _ heq => removeElement_decision heq other
  replaces := by
    intro key other changed config'' hreplaceable heq
    have hconfig : (config'.replaceElement key).2 = config'' := congrArg Prod.snd (Option.some.inj heq)
    rw [← hconfig]
    exact replaceElement_decision hreplaceable other
  allows := by
    intro key other changed config'' heq
    have hconfig : (config'.allowElement ⟨key, none, none⟩).2 = config'' :=
      congrArg Prod.snd (Option.some.inj heq)
    rw [← hconfig]
    exact allowElement_decision config' key other

/-- An element that removes a data attribute of the global list. -/
def dataRemoved : Config where
  elements := some [{
    key := { name := ['p'], namespaceUri := some html }
    attributes := none
    removeAttributes := some [{ name := "data-x".toList, namespaceUri := none }] }]
  removeElements := none
  replaceWithChildrenElements := none
  attributes := some [{ name := "data-x".toList, namespaceUri := none }]
  removeAttributes := none
  processingInstructions := none
  removeProcessingInstructions := none
  comments := none
  dataAttributes := none
  javascriptUrls := none

/-- No constants. -/
def noConstants : Constants where
  unsafeElements := []
  navigatingAttributes := []
  eventAttributes := []

/-- The same with no element allowed. -/
def emptied : Config :=
  { dataRemoved.canonicalize false with elements := some [] }

theorem reaches_sound_emptied :
    (dataRemoved.canonicalize false).validate = .ok () ∧
      Reaches noConstants (dataRemoved.canonicalize false) emptied ∧ Sound noConstants emptied := by
  have haccepted : (dataRemoved.canonicalize false).validate = .ok () := by decide
  have hmodified : (dataRemoved.canonicalize false).modify noConstants
      (.removeElement { name := ['p'], namespaceUri := some html }) = some (true, emptied) := by
    decide
  have hsheltered : (dataRemoved.canonicalize false).Sheltered
      (.removeElement { name := ['p'], namespaceUri := some html }) := fun heq => nomatch heq
  have hreaches : Reaches noConstants (dataRemoved.canonicalize false) emptied :=
    .modify .start hsheltered hmodified
  exact ⟨haccepted, hreaches, reaches_sound noConstants dataRemoved false haccepted _ hreaches⟩

/-- Allowing all data attributes leaves a configuration that is refused. -/
theorem not_validate_setDataAttributes :
    (dataRemoved.canonicalize false).validate = .ok () ∧
      ∃ config', (dataRemoved.canonicalize false).modify noConstants (.setDataAttributes true) =
        some (true, config') ∧ config'.validate ≠ .ok () :=
  ⟨by decide, _, rfl, by decide⟩

end Config

end Omoikane.Js.Sanitizer
