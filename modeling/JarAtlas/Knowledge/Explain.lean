import JarAtlas.Messages.Phrase

/-!
Explaining a concept in the language of the project, or else in the default language.
-/

namespace JarAtlas

namespace Knowledge

def fileName (locale : String) : String :=
  "knowledge." ++ locale ++ ".json"

def language (k : Knowledge) (locale : String) : Action (Json × Knowledge) := do
  match k.read.find? fun r => r.1 == locale with
  | some (_, concepts) => return (concepts, k)
  | none =>
    let concepts ← match k.source with
      | .builtIn => pure ((Json.lookup locale BuiltIn.knowledge).getD (.obj []))
      | .folder dir =>
        match ← Action.readJson (dir / fileName locale) with
        | .ok v => pure v
        | .error (.file .missing _) => pure (.obj [])
        | .error e => throw e
    return (concepts, { k with read := k.read ++ [(locale, concepts)] })

/-- The explanation of a concept among others; letter case does not matter, and only a text is a
concept. -/
def find? (concepts concept : Json) : Except Fault (Option Json) :=
  match concept.text?, concepts with
  | some concept, .obj fields =>
    .ok ((fields.find? fun f => Text.upper f.1 == Text.upper concept).map (·.2))
  | _, _ => .error .noMember

def unknown (concept : Json) (localized : Bool) : Action Json :=
  if localized then
    Messages.phrase "mcp.error.concept_not_found" [("concept", concept)]
  else
    return .str ("Concept '" ++ concept.display ++ "' not found in the local knowledge base. " ++
      "Use 'prism_search' to find related classes.")

def explain (k : Knowledge) (concept : Json) (localized : Bool) :
    Action (Json × Knowledge) := do
  let locale ← Messages.locale (← projectRoot none true)
  let (concepts, k) ← k.language locale
  match ← Action.ofExcept (find? concepts concept) with
  | some v => return (v, k)
  | none =>
    if locale == Messages.defaultLocale then return (← unknown concept localized, k)
    else
      let (concepts, k) ← k.language Messages.defaultLocale
      match ← Action.ofExcept (find? concepts concept) with
      | some v => return (v, k)
      | none => return (← unknown concept localized, k)

end Knowledge

end JarAtlas
