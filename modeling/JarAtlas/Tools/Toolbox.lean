import JarAtlas.Knowledge.Explain
import JarAtlas.Tools.Assets

/-!
All tools in their order, with their parameters and descriptions. Setting them up fixes the
descriptions and the place of the explanations.
-/

namespace JarAtlas

structure Tool where
  name : String
  parameters : Parameters
  run : Arguments → Action Json

namespace Tools

def explainConcept (args : Arguments) : Action Json := do
  let concept := args.value "concept"
  match (← get).toolbox with
  | none => throw .noKey
  | some box =>
    let (v, knowledge) ← box.knowledge.explain concept true
    modify fun h => { h with toolbox := some { box with knowledge } }
    return v

def needed (name : String) : String × Option Json :=
  (name, none)

def optional (name : String) (default : Json) : String × Option Json :=
  (name, some default)

def optionalVersion : String × Option Json :=
  optional "version" (.str "release")

def all : List Tool := [
  ⟨"prism_context_list", [], contextList⟩,
  ⟨"prism_index_stats", [optional "version" .null], indexStats⟩,
  ⟨"prism_get_class", [needed "version", optional "package" .null, optional "class_name" .null,
    optional "fqcn" .null, optional "include_source" (.bool false)], getClass⟩,
  ⟨"prism_get_method", [needed "version", needed "package", needed "class_name",
    needed "method_name"], getMethod⟩,
  ⟨"prism_list_classes", [needed "version", needed "package_prefix",
    optional "prefix_match" (.bool true), optional "limit" (.int 100),
    optional "offset" (.int 0)], listClasses⟩,
  ⟨"prism_list_packages", [optionalVersion, optional "package_prefix" .null], listPackages⟩,
  ⟨"prism_search", [needed "query", optionalVersion, optional "limit" (.int 30),
    optional "package_prefix" .null, optional "layer" .null, optional "kind" .null,
    optional "unique_classes" (.bool false)], search⟩,
  ⟨"prism_read_source", [needed "version", needed "file_path", optional "start_line" .null,
    optional "end_line" .null], readSource⟩,
  ⟨"prism_fts_help", [], searchHelp⟩,
  ⟨"prism_find_usages", [needed "version", needed "target_class",
    optional "limit" (.int 100)], findUsages⟩,
  ⟨"prism_explain_concept", [needed "concept"], explainConcept⟩,
  ⟨"prism_find_system_for_component", [needed "component_name", optionalVersion], findSystems⟩,
  ⟨"prism_get_usage_snippet", [needed "version", needed "file_path", needed "target_string",
    optional "window" (.int 10)], usageSnippet⟩,
  ⟨"prism_detect_patterns", [needed "package", needed "class_name", optionalVersion],
    detectPatterns⟩,
  ⟨"prism_get_hierarchy", [optionalVersion, optional "package" .null,
    optional "class_name" .null, optional "fqcn" .null], getHierarchy⟩,
  ⟨"prism_find_implementations", [needed "target_class", optionalVersion,
    optional "limit" (.int 50)], findImplementations⟩,
  ⟨"prism_get_events", [optionalVersion, optional "limit" (.int 100)], getEvents⟩,
  ⟨"prism_call_flow", [needed "target_class", needed "method_name", optionalVersion,
    optional "limit" (.int 100)], callFlow⟩,
  ⟨"prism_search_assets", [needed "query", optionalVersion, optional "limit" (.int 30)],
    searchAssets⟩,
  ⟨"prism_inspect_asset", [needed "asset_path", optionalVersion], inspectAsset⟩]

def fixedDescriptions : List (String × String) := [
  ("prism_search_assets",
    "Busca assets de Hytale por ruta, ID interno (en JSONs) o categoría (ej: Block, " ++
    "AmbienceFX). Retorna dimensiones para imágenes."),
  ("prism_inspect_asset",
    "Inspecciona el contenido de un asset. Devuelve el contenido (texto o base64) junto con " ++
    "metadatos técnicos y categoría detectada.")]

def describe (tool : Tool) : Action Json :=
  match fixedDescriptions.find? fun d => d.1 == tool.name with
  | some (_, text) => return .str text
  | none => Messages.phrase ("mcp.tools." ++ tool.name ++ ".description") []

def describeAll : Action (List (String × Json)) :=
  all.mapM fun tool => return (tool.name, ← describe tool)

def setUp : Action Toolbox := do
  let descriptions ← describeAll
  let root ← projectRoot none true
  let box : Toolbox :=
    { descriptions, knowledge := { source := .folder (root / "src" / "prism" / "resources") } }
  modify fun h => { h with toolbox := some box }
  return box

def ready : Action Toolbox := do
  match (← get).toolbox with
  | some box => return box
  | none => setUp

def call (name : String) (args : Arguments) : Action Json := do
  let _ ← ready
  match all.find? fun tool => tool.name == name with
  | none => throw .noKey
  | some tool => tool.run (← Action.ofExcept (tool.parameters.bind args))

end Tools

end JarAtlas
