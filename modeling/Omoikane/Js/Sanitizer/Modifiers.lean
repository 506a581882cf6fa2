import Omoikane.Js.Sanitizer.Configuration

/-!
# Sanitizer modifiers

The methods of a sanitizer that change its configuration.  Each repairs the other
lists, so that the configuration stays valid without being validated again.  A
modifier says whether it has changed anything.  It is `none` where the code would
panic: on a list that a canonical configuration has.
-/

namespace Omoikane.Js.Sanitizer

open Base

section

variable {α : Type} [DecidableEq α]

def remove (list : Option (List α)) (item : α) : Bool × Option (List α) :=
  match list with
  | none => (false, none)
  | some list =>
    let retained := list.filter fun value => value ≠ item
    (retained.length != list.length, some retained)

/-- The loop of `deduplicate`, with the list before its index and the rest. -/
def deduplicateFrom (before : List α) : List α → List α
  | [] => before
  | item :: rest =>
    if before.contains item then deduplicateFrom before rest
    else deduplicateFrom (before ++ [item]) rest

def deduplicate (list : List α) : List α := deduplicateFrom [] list

end

def boolean (slot : Option Bool) (value : Bool) : Bool × Option Bool :=
  if slot = some value then (false, slot) else (true, some value)

namespace Config

def removeElement (config : Config) (key : Name) : Option (Bool × Config) :=
  let changed := (remove config.replaceWithChildrenElements key).1
  let config := { config with
    replaceWithChildrenElements := (remove config.replaceWithChildrenElements key).2 }
  match config.elements with
  | some elements =>
    let retained := elements.filter fun entry => entry.key ≠ key
    some (changed || retained.length != elements.length,
      { config with elements := some retained })
  | none =>
    match config.removeElements with
    | none => none
    | some removed =>
      if removed.contains key then some (changed, config)
      else some (true, { config with removeElements := some (removed ++ [key]) })

def replaceElement (config : Config) (key : Name) : Bool × Config :=
  if key.nonReplaceable then (false, config)
  else
    let changed := (remove config.removeElements key).1
    let retained := config.elements.map fun elements =>
      elements.filter fun entry => entry.key ≠ key
    let changed := changed ||
      (items retained).length != (items config.elements).length
    let config := { config with
      removeElements := (remove config.removeElements key).2
      elements := retained }
    let replacements := config.replaceWithChildrenElements.getD []
    if replacements.contains key then
      (changed, { config with replaceWithChildrenElements := some replacements })
    else (true, { config with replaceWithChildrenElements := some (replacements ++ [key]) })

def normalizeLocalAttributes (config : Config) (element : Element) : Element :=
  match config.attributes with
  | some all => { element with
      attributes := element.attributes.map fun allowed =>
        (deduplicate allowed).filter fun key =>
          !all.contains key && !(config.dataAttributes == some true && key.isData)
      removeAttributes := element.removeAttributes.map fun removed =>
        (deduplicate removed).filter fun key => all.contains key }
  | none =>
    let all := config.removeAttributes.getD []
    match element.attributes with
    | some allowed =>
      let removed := element.removeAttributes.getD []
      { element with
        attributes := some ((deduplicate allowed).filter fun key =>
          !all.contains key && !removed.contains key)
        removeAttributes := none }
    | none => { element with
        removeAttributes := element.removeAttributes.map fun removed =>
          (deduplicate removed).filter fun key => !all.contains key }

/-- The first entry with the element's key is written. -/
def replaceFirst (element : Element) : List Element → List Element
  | [] => []
  | entry :: elements =>
    if entry.key = element.key then element :: elements
    else entry :: replaceFirst element elements

def allowElement (config : Config) (element : Element) : Bool × Config :=
  let element := withLocalList element
  match config.elements with
  | none =>
    if element.attributes.isSome || element.removeAttributes.any (!·.isEmpty) then (false, config)
    else
      let changed := (remove config.replaceWithChildrenElements element.key).1
      ((remove config.removeElements element.key).1 || changed, { config with
        replaceWithChildrenElements :=
          (remove config.replaceWithChildrenElements element.key).2
        removeElements := (remove config.removeElements element.key).2 })
  | some elements =>
    let element := config.normalizeLocalAttributes element
    let changed := (remove config.replaceWithChildrenElements element.key).1
    let config := { config with
      replaceWithChildrenElements := (remove config.replaceWithChildrenElements element.key).2 }
    match elements.find? fun entry => entry.key = element.key with
    | some current =>
      if current = element then (changed, config)
      else (true, { config with elements := some (replaceFirst element elements) })
    | none => (true, { config with elements := some (elements ++ [element]) })

/-- An element without an attribute that it allows on its own. -/
def forgetAllowed (key : Name) (element : Element) : Element :=
  { element with attributes := (remove element.attributes key).2 }

def allowAttribute (config : Config) (key : Name) : Bool × Config :=
  match config.attributes with
  | some all =>
    if (config.dataAttributes == some true && key.isData) || all.contains key then (false, config)
    else (true, { config with
      elements := config.elements.map (·.map (forgetAllowed key))
      attributes := some (all ++ [key]) })
  | none =>
    ((remove config.removeAttributes key).1,
      { config with removeAttributes := (remove config.removeAttributes key).2 })

/-- Both local lists of an element without an attribute. -/
def forgetAttribute (key : Name) (element : Element) : Element :=
  { element with
    attributes := (remove element.attributes key).2
    removeAttributes := (remove element.removeAttributes key).2 }

def removeAttribute (config : Config) (key : Name) : Option (Bool × Config) :=
  let forgotten := config.elements.map (·.map (forgetAttribute key))
  if config.attributes.isSome then
    let changed := (remove config.attributes key).1 ||
      (items config.elements).any fun element => (remove element.attributes key).1
    some (changed, { config with
      attributes := (remove config.attributes key).2
      elements := forgotten })
  else if contains config.removeAttributes key then some (false, config)
  else
    match config.removeAttributes with
    | none => none
    | some removed => some (true, { config with
        elements := forgotten
        removeAttributes := some (removed ++ [key]) })

/-- An element without the data attributes that it allows on its own. -/
def forgetData (element : Element) : Element :=
  { element with
    attributes := element.attributes.map fun list => list.filter fun key => !key.isData }

def setDataAttributes (config : Config) (allow : Bool) : Bool × Config :=
  match config.attributes with
  | none => (false, config)
  | some attributes =>
    if config.dataAttributes = some allow then (false, config)
    else if allow then (true, { config with
      attributes := some (attributes.filter fun key => !key.isData)
      elements := config.elements.map (·.map forgetData)
      dataAttributes := some allow })
    else (true, { config with dataAttributes := some allow })

def modifyPi (config : Config) (pi : Pi) (allow : Bool) : Option (Bool × Config) :=
  match config.processingInstructions, allow with
  | some list, true =>
    if list.contains pi then some (false, config)
    else some (true, { config with processingInstructions := some (list ++ [pi]) })
  | some list, false =>
    let retained := list.filter fun value => value ≠ pi
    some (list.length != retained.length, { config with processingInstructions := some retained })
  | none, true =>
    some ((remove config.removeProcessingInstructions pi).1, { config with
      removeProcessingInstructions := (remove config.removeProcessingInstructions pi).2 })
  | none, false =>
    match config.removeProcessingInstructions with
    | some list =>
      if list.contains pi then some (false, config)
      else some (true, { config with removeProcessingInstructions := some (list ++ [pi]) })
    | none => none

/-- A modifier after others, which may have changed something. -/
def andThen (before : Option (Bool × Config)) (modifier : Config → Option (Bool × Config)) :
    Option (Bool × Config) :=
  before.bind fun before => (modifier before.2).map fun after => (before.1 || after.1, after.2)

def removeUnsafe (constants : Constants) (config : Config) : Option (Bool × Config) :=
  let removed := constants.unsafeElements.foldl
    (fun changed key => andThen changed (removeElement · key)) (some (false, config))
  let removed := constants.eventAttributes.foldl
    (fun changed name => andThen changed (removeAttribute · { name, namespaceUri := none })) removed
  andThen removed fun config => some ((boolean config.javascriptUrls false).1,
    { config with javascriptUrls := (boolean config.javascriptUrls false).2 })

end Config

/-- A call of a modifier, with its argument. -/
inductive Operation where
  | get
  | allowElement (element : Element)
  | removeElement (key : Name)
  | replaceElementWithChildren (key : Name)
  | allowAttribute (key : Name)
  | removeAttribute (key : Name)
  | setComments (value : Bool)
  | setJavascriptUrls (value : Bool)
  | setDataAttributes (value : Bool)
  | allowProcessingInstruction (pi : Pi)
  | removeProcessingInstruction (pi : Pi)
  | removeUnsafe
deriving DecidableEq

def Config.modify (constants : Constants) (config : Config) : Operation → Option (Bool × Config)
  | .get => some (false, config)
  | .allowElement element => some (config.allowElement element)
  | .removeElement key => config.removeElement key
  | .replaceElementWithChildren key => some (config.replaceElement key)
  | .allowAttribute key => some (config.allowAttribute key)
  | .removeAttribute key => config.removeAttribute key
  | .setComments value => some ((boolean config.comments value).1,
      { config with comments := (boolean config.comments value).2 })
  | .setJavascriptUrls value => some ((boolean config.javascriptUrls value).1,
      { config with javascriptUrls := (boolean config.javascriptUrls value).2 })
  | .setDataAttributes value => some (config.setDataAttributes value)
  | .allowProcessingInstruction pi => config.modifyPi pi true
  | .removeProcessingInstruction pi => config.modifyPi pi false
  | .removeUnsafe => config.removeUnsafe constants

end Omoikane.Js.Sanitizer
