import JarAtlas.Proofs.Workspace.Root
import JarAtlas.Tools.Toolbox

/-!
What the questions about a version leave behind. Those that look for the database before they open
it make at most directories: the project directory of the user, if no other one is found.
-/

namespace JarAtlas

open JarAtlas.Action Layout

namespace Messages

theorem reads_locale (root : Path) : (locale root).Reads := by
  refine (Settings.reads_load root).bind fun settings => (reads_ofExcept _).bind fun set => ?_
  split
  · exact reads_get.bind_pure
  · exact reads_pure _
  · exact (reads_ofExcept _).bind_pure

theorem reads_readLanguage (p : Path) : (readLanguage p).Reads := by
  refine (reads_readJson p).bind fun r => ?_
  split <;> exact reads_pure _

theorem makesDirs_keep (locale : String) (messages : Json) :
    (do
      modify fun h => { h with messages := h.messages ++ [(locale, messages)] }
      return messages : Action Json).MakesDirs :=
  fun _ => Host.addsDirs_of_eq rfl rfl rfl

theorem makesDirs_catalogue (locale : String) : (catalogue locale).MakesDirs := by
  refine reads_get.makesDirs.bind fun h => ?_
  dsimp only
  split
  · exact makesDirs_pure _
  · split
    · split
      · exact (reads_readLanguage _).makesDirs.bind fun _ => makesDirs_keep _ _
      · refine (makesDirs_ofExcept _).bind fun found => ?_
        exact (makesDirs_pure _).bind fun _ => makesDirs_keep _ _
    · exact (reads_readLanguage _).makesDirs.bind fun _ => makesDirs_keep _ _

theorem makesDirs_messageOf (key : Json) : (messageOf key).MakesDirs := by
  refine (makesDirs_projectRoot none true).bind fun root => ?_
  refine (reads_locale root).makesDirs.bind fun locale => ?_
  refine (makesDirs_catalogue locale).bind fun messages => ?_
  dsimp only
  refine MakesDirs.ite_bind (makesDirs_catalogue _) (makesDirs_pure _) fun others => ?_
  refine (makesDirs_ofExcept _).bind fun own => ?_
  refine MakesDirs.ite_bind (makesDirs_ofExcept _) (makesDirs_pure _) fun found => ?_
  split <;> exact makesDirs_pure _

theorem makesDirs_phraseFor (key : Json) (values : List (String × Json)) :
    (phraseFor key values).MakesDirs := by
  unfold phraseFor
  split
  · exact (reads_throw_bind _ _).makesDirs
  · exact (makesDirs_messageOf key).bind fun _ => makesDirs_ofExcept _

theorem makesDirs_phrase (key : String) (values : List (String × Json)) :
    (phrase key values).MakesDirs :=
  makesDirs_phraseFor _ _

end Messages

theorem makesDirs_messageOr (localized : Bool) (key : String) (values : List (String × Json))
    (text : String) : (messageOr localized key values text).MakesDirs := by
  unfold messageOr
  split
  · exact Messages.makesDirs_phrase _ _
  · exact makesDirs_pure _

theorem makesDirs_searchProblem (e : Fault) (localized : Bool) :
    (searchProblem e localized).MakesDirs := by
  unfold searchProblem
  split
  · exact (makesDirs_messageOr _ _ _ _).bind_pure
  · exact makesDirs_pure _

section Catalogue

variable {α β : Type} {h : Host} {p : Path}

theorem addsDirs_queryDatabase_bind (hfile : h.isFile p = .ok true)
    (f : Database → Except Fault α) {next : α → Action β} (hnext : ∀ x, (next x).MakesDirs) :
    h.AddsDirs ((queryDatabase p f >>= next).outcome h).2 := by
  refine addsDirs_bind ?_ fun x h₁ _ => hnext x h₁
  rw [queryDatabase_host_of_isFile hfile]
  exact Host.AddsDirs.refl h

theorem searchDatabase_host_of_isFile (hfile : h.isFile p = .ok true) (r : SearchRequest) :
    ((searchDatabase p r).outcome h).2 = h := by
  rw [searchDatabase, outcome_bind, outcome_ofExcept]
  cases r.query.givenText with
  | error e => rfl
  | ok query =>
    dsimp only
    split
    · rfl
    · exact queryDatabase_host_of_isFile hfile _

variable (root : Option Path) (v : ServerVersion)

theorem makesDirs_searchCatalogue (r : SearchRequest) (localized : Bool) :
    (searchCatalogue root v r localized).MakesDirs := by
  refine (makesDirs_rootOr root).bind fun root => ?_
  refine (makesDirs_ofExcept _).bind fun query => (makesDirs_ofExcept _).bind fun limit => ?_
  refine (reads_catalogue root v.name).makesDirs.bind fun p => ?_
  refine makesDirs_isFile (fun h hfile => ?_) ?_
  · refine addsDirs_bind ?_ fun found h₁ _ => ?_
    · rw [outcome_attempt, searchDatabase_host_of_isFile hfile]
      exact Host.AddsDirs.refl h
    · split
      · exact makesDirs_pure _ h₁
      · exact (makesDirs_searchProblem _ _).bind_pure h₁
  · exact (makesDirs_messageOr _ _ _ _).bind_pure

theorem makesDirs_askCatalogue (f : Database → Except Fault α) :
    (askCatalogue root v f).MakesDirs := by
  refine (makesDirs_rootOr root).bind fun root => ?_
  refine (reads_catalogue root v.name).makesDirs.bind fun p => ?_
  refine makesDirs_isFile (fun h hfile => ?_) (makesDirs_pure _)
  exact addsDirs_queryDatabase_bind hfile f fun _ => makesDirs_pure _

theorem makesDirs_readSource (given : Json) : (readSource root v given).MakesDirs := by
  refine (makesDirs_ofExcept _).bind fun given => ?_
  dsimp only
  split
  · exact makesDirs_pure _
  · have hdir : (sourceDir root v).MakesDirs := (makesDirs_rootOr root).bind fun base =>
      ((reads_decompiled base v.name).bind fun _ => reads_resolve _).makesDirs
    refine hdir.bind fun dir => (reads_resolve _).makesDirs.bind fun p => ?_
    split
    · exact makesDirs_pure _
    · refine (reads_isFile p).makesDirs.bind fun isThere => ?_
      split
      · exact makesDirs_pure _
      · exact (reads_readText p).makesDirs.bind_pure

theorem makesDirs_showSource (given first last : Json) :
    (showSource root v given first last).MakesDirs := by
  refine (makesDirs_readSource root v given).bind fun found => ?_
  split
  · exact makesDirs_pure _
  · exact (makesDirs_ofExcept _).bind_pure

theorem makesDirs_showClass (package name : Json) (withSource : Bool) :
    (showClass root v package name withSource).MakesDirs := by
  refine (makesDirs_rootOr root).bind fun root => (makesDirs_askCatalogue _ _ _).bind fun r => ?_
  split
  · exact makesDirs_pure _
  · refine (makesDirs_searchCatalogue _ _ _ _).bind fun others => ?_
    split <;> exact makesDirs_pure _
  · split
    · refine (makesDirs_readSource _ _ _).bind fun source => ?_
      split <;> exact makesDirs_pure _
    · exact makesDirs_pure _

theorem makesDirs_showMethod (package name method : Json) :
    (showMethod root v package name method).MakesDirs := by
  refine (makesDirs_askCatalogue _ _ _).bind fun r => ?_
  split <;> exact makesDirs_pure _

theorem makesDirs_listClasses (package : Json) (below : Bool) (limit offset : Json) :
    (listClasses root v package below limit offset).MakesDirs := by
  refine (makesDirs_rootOr root).bind fun root => ?_
  refine (reads_catalogue root v.name).makesDirs.bind fun p => ?_
  refine makesDirs_isFile (fun h hfile => ?_) (makesDirs_pure _)
  refine addsDirs_bind (makesDirs_ofExcept _ h) fun limit h₁ hlimit => ?_
  obtain rfl := (reads_ofExcept _).host_eq hlimit
  refine addsDirs_bind (makesDirs_ofExcept _ h₁) fun offset h₂ hoffset => ?_
  obtain rfl := (reads_ofExcept _).host_eq hoffset
  exact addsDirs_queryDatabase_bind hfile _ fun _ => makesDirs_pure _

theorem makesDirs_listPackages (below : Json) : (listPackages root v below).MakesDirs := by
  refine (makesDirs_askCatalogue _ _ _).bind fun r => ?_
  split <;> exact makesDirs_pure _

theorem makesDirs_listImplementations (target limit : Json) :
    (listImplementations root v target limit).MakesDirs := by
  refine (makesDirs_askCatalogue _ _ _).bind fun r => ?_
  split <;> exact makesDirs_pure _

theorem makesDirs_statsOf (root : Path) (v : ServerVersion) : (statsOf root v).MakesDirs := by
  refine (reads_catalogue root v.name).makesDirs.bind fun p => ?_
  refine makesDirs_isFile (fun h hfile => ?_) (makesDirs_pure _)
  exact addsDirs_queryDatabase_bind hfile _ fun _ => makesDirs_pure _

theorem makesDirs_showStats (version : Json) : (showStats root version).MakesDirs := by
  refine (makesDirs_rootOr root).bind fun root => ?_
  refine (Settings.reads_load root).makesDirs.bind fun settings => ?_
  dsimp only
  split
  · refine (makesDirs_ofExcept _).bind fun set => (makesDirs_pure _).bind fun v => ?_
    exact makesDirs_statsOf root v
  · exact (makesDirs_pure _).bind fun v => makesDirs_statsOf root v

theorem makesDirs_findUsages (target limit : Json) :
    (findUsages root v target limit).MakesDirs := by
  refine (makesDirs_rootOr root).bind fun root => ?_
  refine (reads_decompiled root v.name).makesDirs.bind fun dir => ?_
  refine reads_get.makesDirs.bind fun h => (reads_isDir dir).makesDirs.bind fun isDir => ?_
  split
  · exact makesDirs_pure _
  · refine (makesDirs_ofExcept _).bind fun words => ?_
    split
    · exact makesDirs_pure _
    · split <;> exact makesDirs_pure _

theorem makesDirs_findCalls (target method limit : Json) :
    (findCalls root v target method limit).MakesDirs := by
  refine (makesDirs_findUsages _ _ _ _).bind fun found => ?_
  split <;> exact makesDirs_pure _

end Catalogue

/-!
What calls of the tools leave behind. A tool that looks for its database makes at most directories.
The three tools that do not look go their way to the path of a database and open it, whatever is
there.
-/

open OpensAfter

namespace Tools

theorem makesDirs_mapM {α β : Type} {f : α → Action β} (hf : ∀ x, (f x).MakesDirs)
    (items : List α) : (items.mapM f).MakesDirs := by
  induction items with
  | nil => exact makesDirs_pure _
  | cons x items ih =>
    rw [List.mapM_cons]
    exact (hf x).bind fun _ => ih.bind_pure

theorem makesDirs_describe (tool : Tool) : (describe tool).MakesDirs := by
  unfold describe
  split
  · exact makesDirs_pure _
  · exact Messages.makesDirs_phrase _ _

theorem makesDirs_ready : ready.MakesDirs := by
  refine reads_get.makesDirs.bind fun h => ?_
  split
  · exact makesDirs_pure _
  · refine (makesDirs_mapM (fun tool => ?_) all).bind fun descriptions => ?_
    · exact (makesDirs_describe tool).bind_pure
    · refine (makesDirs_projectRoot none true).bind fun root => ?_
      exact fun h => Host.addsDirs_of_eq rfl rfl rfl

variable {name : String} {tool : Tool} {target : Arguments → Action (Option Path)}

theorem makesDirs_call (htool : (all.find? fun tool => tool.name == name) = some tool)
    (hrun : ∀ args, (tool.run args).MakesDirs) (args : Arguments) : (call name args).MakesDirs := by
  refine makesDirs_ready.bind fun _ => ?_
  rw [htool]
  exact (makesDirs_ofExcept _).bind hrun

variable (args : Arguments)

theorem makesDirs_indexStats : (indexStats args).MakesDirs :=
  (makesDirs_showStats _ _).bind_pure

theorem makesDirs_getClass : (getClass args).MakesDirs := by
  refine (makesDirs_ofExcept _).bind fun names => ?_
  dsimp only
  split
  · exact makesDirs_pure _
  · exact (makesDirs_showClass _ _ _ _ _).bind_pure

theorem makesDirs_getMethod : (getMethod args).MakesDirs := by
  refine (makesDirs_ofExcept _).bind fun names => ?_
  split
  · exact (makesDirs_showMethod _ _ _ _ _).bind_pure
  · exact makesDirs_pure _

theorem makesDirs_listClasses : (listClasses args).MakesDirs := by
  refine (makesDirs_ofExcept _).bind fun package => ?_
  dsimp only
  split
  · exact makesDirs_pure _
  · split
    on_goal 1 => refine (makesDirs_pure _).bind fun limit => ?_
    on_goal 2 => refine (makesDirs_ofExcept _).bind fun limit => ?_
    all_goals
      split
      · refine (makesDirs_pure _).bind fun offset => ?_
        exact (JarAtlas.makesDirs_listClasses _ _ _ _ _ _).bind_pure
      · refine (makesDirs_ofExcept _).bind fun whole => (makesDirs_pure _).bind fun offset => ?_
        exact (JarAtlas.makesDirs_listClasses _ _ _ _ _ _).bind_pure

theorem makesDirs_listPackages : (listPackages args).MakesDirs :=
  (JarAtlas.makesDirs_listPackages _ _ _).bind_pure

theorem makesDirs_search : (search args).MakesDirs := by
  unfold search
  dsimp only
  split
  · exact makesDirs_pure _
  · split
    on_goal 1 => refine (makesDirs_pure _).bind fun limit => ?_
    on_goal 2 => refine (makesDirs_ofExcept _).bind fun limit => ?_
    all_goals
      refine (makesDirs_ofExcept _).bind fun layer => (makesDirs_ofExcept _).bind fun query => ?_
      exact (makesDirs_searchCatalogue _ _ _ _).bind_pure

theorem makesDirs_readSource : (readSource args).MakesDirs :=
  (makesDirs_showSource _ _ _ _ _).bind_pure

theorem makesDirs_findUsages : (findUsages args).MakesDirs :=
  (JarAtlas.makesDirs_findUsages _ _ _ _).bind_pure

theorem makesDirs_findImplementations : (findImplementations args).MakesDirs := by
  refine (makesDirs_ofExcept _).bind fun limit => ?_
  exact (makesDirs_listImplementations _ _ _ _).bind_pure

theorem makesDirs_getEvents : (getEvents args).MakesDirs := by
  refine (makesDirs_ofExcept _).bind fun limit => ?_
  exact (makesDirs_askCatalogue _ _ _).bind_pure

theorem makesDirs_callFlow : (callFlow args).MakesDirs := by
  refine (makesDirs_ofExcept _).bind fun limit => ?_
  exact (makesDirs_findCalls _ _ _ _ _).bind_pure

/-- The catalogue that is asked for a class, if the class is named. -/
def classTarget (v : ServerVersion) (package name : Json) : Action (Option Path) :=
  if !package.isGiven || !name.isGiven then return none
  else do
    let root ← projectRoot none true
    return some (← Layout.catalogue root v.name)

/-- The database that the tool for parents and interfaces opens. -/
def hierarchyTarget (args : Arguments) : Action (Option Path) := do
  let full ← Action.ofExcept (args.textOr "fqcn")
  if full != "" && !full.toList.contains '.' then return none
  else
    match Text.splitLast? '.' full.toList with
    | some (outer, last) =>
      classTarget (version args) (.str (String.ofList outer)) (.str (String.ofList last))
    | none => classTarget (version args) (args.value "package") (args.value "class_name")

/-- The database that the tools for patterns and systems open. -/
def namedTarget (args : Arguments) : Action (Option Path) := do
  let root ← projectRoot none true
  return some (← Layout.namedCatalogue root (args.value "version"))

/-- The database that a call opens, where `target` is the one that the tool opens. -/
def callTarget (name : String) (target : Arguments → Action (Option Path)) (args : Arguments) :
    Action (Option Path) := do
  let _ ← ready
  match all.find? fun tool => tool.name == name with
  | none => throw .noKey
  | some tool => target (← Action.ofExcept (tool.parameters.bind args))

theorem opensAfter_call (htool : (all.find? fun tool => tool.name == name) = some tool)
    (hrun : ∀ args, (tool.run args).OpensAfter (target args)) (args : Arguments) :
    (call name args).OpensAfter (callTarget name target args) := by
  refine bind ready fun _ => ?_
  rw [htool]
  exact bind _ hrun

theorem makesDirs_callTarget (name : String) (htarget : ∀ args, (target args).MakesDirs)
    (args : Arguments) : (callTarget name target args).MakesDirs := by
  refine makesDirs_ready.bind fun _ => ?_
  split
  · exact (reads_throw _).makesDirs
  · exact (makesDirs_ofExcept _).bind htarget

theorem opensAfter_classTarget (v : ServerVersion) (package name : Json) :
    (if !package.isGiven || !name.isGiven then
      return problem "missing_params" "package and class_name or fqcn are required"
    else do
      let root ← projectRoot none true
      let p ← catalogue root v.name
      return answer (← showHierarchy p package name) : Action Json).OpensAfter
        (classTarget v package name) := by
  refine ite (opensAfter_pure _) (bind _ fun root => ?_)
  exact bind _ fun p => opensAfter_query p _ fun _ => reads_pure _

theorem opensAfter_getHierarchy : (getHierarchy args).OpensAfter (hierarchyTarget args) := by
  refine bind _ fun full => ite (opensAfter_pure _) ?_
  cases Text.splitLast? '.' full.toList with
  | none => exact opensAfter_classTarget _ _ _
  | some halves => exact opensAfter_classTarget _ _ _

theorem makesDirs_classTarget (v : ServerVersion) (package name : Json) :
    (classTarget v package name).MakesDirs := by
  unfold classTarget
  split
  · exact makesDirs_pure _
  · refine (makesDirs_projectRoot none true).bind fun root => ?_
    exact (reads_catalogue root _).makesDirs.bind_pure

theorem makesDirs_hierarchyTarget : (hierarchyTarget args).MakesDirs := by
  refine (makesDirs_ofExcept _).bind fun full => ?_
  split
  · exact makesDirs_pure _
  · split
    · exact makesDirs_classTarget _ _ _
    · exact makesDirs_classTarget _ _ _

theorem opensAfter_detectPatterns : (detectPatterns args).OpensAfter (namedTarget args) := by
  refine bind _ fun root => bind _ fun p => ?_
  exact opensAfter_query p _ fun _ => reads_pure _

theorem opensAfter_findSystems : (findSystems args).OpensAfter (namedTarget args) := by
  refine bind _ fun root => bind _ fun p => ?_
  rw [JarAtlas.findSystems, bind_assoc]
  exact opensAfter_query p _ fun _ => reads_pure _

theorem reads_activeCatalogue (root : Path) : (activeCatalogue root).Reads := by
  refine (Settings.reads_load root).bind fun settings => (reads_ofExcept _).bind fun active => ?_
  split
  · exact reads_catalogue root _
  · refine (reads_workspace root).bind fun dir => (reads_isThere _).bind fun isThere => ?_
    split
    · exact reads_pure _
    · exact reads_catalogue root _

theorem makesDirs_namedTarget : (namedTarget args).MakesDirs := by
  refine (makesDirs_projectRoot none true).bind fun root => ?_
  refine MakesDirs.bind ?_ fun _ => makesDirs_pure _
  unfold namedCatalogue
  split
  · exact (reads_activeCatalogue root).makesDirs
  · exact (reads_catalogue root _).makesDirs

end Tools

/-! ### Runs of questions -/

open Option Tools

/-- The tools that answer questions about the code. -/
inductive QueryTool where
  | search
  | getClass
  | getMethod
  | listClasses
  | listPackages
  | indexStats
  | getHierarchy
  | findImplementations
  | getEvents
  | findUsages
  | callFlow
  | readSource
  | detectPatterns
  | findSystems

namespace QueryTool

def name : QueryTool → String
  | search => "prism_search"
  | getClass => "prism_get_class"
  | getMethod => "prism_get_method"
  | listClasses => "prism_list_classes"
  | listPackages => "prism_list_packages"
  | indexStats => "prism_index_stats"
  | getHierarchy => "prism_get_hierarchy"
  | findImplementations => "prism_find_implementations"
  | getEvents => "prism_get_events"
  | findUsages => "prism_find_usages"
  | callFlow => "prism_call_flow"
  | readSource => "prism_read_source"
  | detectPatterns => "prism_detect_patterns"
  | findSystems => "prism_find_system_for_component"

/-- The database that a call opens without looking whether it is there; most tools look. -/
def unseen? (t : QueryTool) (args : Arguments) : Option (Action (Option Path)) :=
  match t with
  | getHierarchy => some (Tools.callTarget t.name Tools.hierarchyTarget args)
  | detectPatterns => some (Tools.callTarget t.name Tools.namedTarget args)
  | findSystems => some (Tools.callTarget t.name Tools.namedTarget args)
  | _ => none

variable {t : QueryTool} {args : Arguments}

theorem makesDirs_call (hlooks : t.unseen? args = none) : (call t.name args).MakesDirs := by
  cases t with
  | search => exact makesDirs_call rfl makesDirs_search args
  | getClass => exact makesDirs_call rfl makesDirs_getClass args
  | getMethod => exact makesDirs_call rfl makesDirs_getMethod args
  | listClasses => exact Tools.makesDirs_call rfl Tools.makesDirs_listClasses args
  | listPackages => exact Tools.makesDirs_call rfl Tools.makesDirs_listPackages args
  | indexStats => exact makesDirs_call rfl makesDirs_indexStats args
  | getHierarchy => cases hlooks
  | findImplementations => exact makesDirs_call rfl makesDirs_findImplementations args
  | getEvents => exact makesDirs_call rfl makesDirs_getEvents args
  | findUsages => exact Tools.makesDirs_call rfl Tools.makesDirs_findUsages args
  | callFlow => exact makesDirs_call rfl makesDirs_callFlow args
  | readSource => exact Tools.makesDirs_call rfl Tools.makesDirs_readSource args
  | detectPatterns => cases hlooks
  | findSystems => cases hlooks

theorem opensAfter_call {target : Action (Option Path)} (hunseen : t.unseen? args = some target) :
    (call t.name args).OpensAfter target ∧ target.MakesDirs := by
  cases t with
  | getHierarchy =>
    cases hunseen
    exact ⟨opensAfter_call rfl opensAfter_getHierarchy args,
      makesDirs_callTarget _ makesDirs_hierarchyTarget args⟩
  | detectPatterns =>
    cases hunseen
    exact ⟨opensAfter_call rfl opensAfter_detectPatterns args,
      makesDirs_callTarget _ makesDirs_namedTarget args⟩
  | findSystems =>
    cases hunseen
    exact ⟨opensAfter_call rfl opensAfter_findSystems args,
      makesDirs_callTarget _ makesDirs_namedTarget args⟩
  | _ => cases hunseen

end QueryTool

/-- A question about the code: a call of a tool, or what stands behind it. -/
inductive Question where
  | tool (t : QueryTool) (args : Arguments)
  | search (root : Option Path) (v : ServerVersion) (r : SearchRequest) (localized : Bool)
  | classNamed (root : Option Path) (v : ServerVersion) (package name : Json) (withSource : Bool)
  | methodNamed (root : Option Path) (v : ServerVersion) (package name method : Json)
  | classes (root : Option Path) (v : ServerVersion) (package : Json) (below : Bool)
    (limit offset : Json)
  | packages (root : Option Path) (v : ServerVersion) (below : Json)
  | stats (root : Option Path) (version : Json)
  | implementations (root : Option Path) (v : ServerVersion) (target limit : Json)
  | events (root : Option Path) (v : ServerVersion) (limit : Json)
  | usages (root : Option Path) (v : ServerVersion) (target limit : Json)
  | calls (root : Option Path) (v : ServerVersion) (target method limit : Json)
  | source (root : Option Path) (v : ServerVersion) (given first last : Json)
  | hierarchy (p : Path) (package name : Json)
  | patterns (p : Path) (package name : Json)
  | systems (p : Path) (component limit : Json)

namespace Question

/-- The machine after a question, whether it has an answer or fails. -/
def after (h : Host) : Question → Host
  | tool t args => ((Tools.call t.name args).outcome h).2
  | search root v r localized => ((searchCatalogue root v r localized).outcome h).2
  | classNamed root v package name withSource =>
    ((showClass root v package name withSource).outcome h).2
  | methodNamed root v package name method => ((showMethod root v package name method).outcome h).2
  | classes root v package below limit offset =>
    ((listClasses root v package below limit offset).outcome h).2
  | packages root v below => ((listPackages root v below).outcome h).2
  | stats root version => ((showStats root version).outcome h).2
  | implementations root v target limit => ((listImplementations root v target limit).outcome h).2
  | events root v limit => ((listEvents root v limit).outcome h).2
  | usages root v target limit => ((findUsages root v target limit).outcome h).2
  | calls root v target method limit => ((findCalls root v target method limit).outcome h).2
  | source root v given first last => ((showSource root v given first last).outcome h).2
  | hierarchy p package name => ((showHierarchy p package name).outcome h).2
  | patterns p package name => ((detectPatterns p package name).outcome h).2
  | systems p component limit => ((findSystems p component limit).outcome h).2

def unseen? : Question → Option (Action (Option Path))
  | tool t args => t.unseen? args
  | hierarchy p _ _ => some (pure (some p))
  | patterns p _ _ => some (pure (some p))
  | systems p _ _ => some (pure (some p))
  | _ => none

/-- The question opens a database where nothing is. -/
def MakesDatabase (q : Question) (h : Host) : Prop :=
  ∃ target, q.unseen? = some target ∧ target.MakesDatabase h

variable {q : Question} {qs : List Question} {h : Host}

theorem addsDirs_after (hlooks : q.unseen? = none) (h : Host) : h.AddsDirs (q.after h) := by
  cases q with
  | tool t args => exact QueryTool.makesDirs_call hlooks h
  | search root v r localized => exact makesDirs_searchCatalogue root v r localized h
  | classNamed root v package name withSource =>
    exact makesDirs_showClass root v package name withSource h
  | methodNamed root v package name method =>
    exact makesDirs_showMethod root v package name method h
  | classes root v package below limit offset =>
    exact makesDirs_listClasses root v package below limit offset h
  | packages root v below => exact makesDirs_listPackages root v below h
  | stats root version => exact makesDirs_showStats root version h
  | implementations root v target limit =>
    exact makesDirs_listImplementations root v target limit h
  | events root v limit => exact makesDirs_askCatalogue root v _ h
  | usages root v target limit => exact makesDirs_findUsages root v target limit h
  | calls root v target method limit => exact makesDirs_findCalls root v target method limit h
  | source root v given first last => exact makesDirs_showSource root v given first last h
  | hierarchy p package name => cases hlooks
  | patterns p package name => cases hlooks
  | systems p component limit => cases hlooks

theorem opensAfter_of_unseen? {target : Action (Option Path)} (hunseen : q.unseen? = some target)
    (h : Host) :
    target.MakesDirs ∧ ∃ (α : Type) (a : Action α), a.OpensAfter target ∧
      q.after h = (a.outcome h).2 := by
  cases q with
  | tool t args =>
    obtain ⟨hopens, hdirs⟩ := QueryTool.opensAfter_call hunseen
    exact ⟨hdirs, _, _, hopens, rfl⟩
  | hierarchy p package name =>
    cases hunseen
    exact ⟨makesDirs_pure _, _, _, fun h => queryDatabase_host p _ h, rfl⟩
  | patterns p package name =>
    cases hunseen
    exact ⟨makesDirs_pure _, _, _, fun h => queryDatabase_host p _ h, rfl⟩
  | systems p component limit =>
    cases hunseen
    exact ⟨makesDirs_pure _, _, _, opensAfter_query p _ fun _ => reads_pure _, rfl⟩
  | _ => cases hunseen

theorem after_cases (q : Question) (h : Host) :
    (¬ q.MakesDatabase h ∧ h.GainsDirs (q.after h)) ∨
    (q.MakesDatabase h ∧ h.Gains (q.after h) ∧
      ∃ place, h.files.isFile place = false ∧ (q.after h).files.isFile place) := by
  cases hunseen : q.unseen? with
  | none =>
    refine .inl ⟨?_, (addsDirs_after hunseen h).toGainsDirs⟩
    rintro ⟨target, hsome, -⟩
    rw [hunseen] at hsome
    cases hsome
  | some target =>
    obtain ⟨hdirs, α, a, hopens, hafter⟩ := opensAfter_of_unseen? hunseen h
    have hmakes : q.MakesDatabase h ↔ target.MakesDatabase h := by
      simp [MakesDatabase, hunseen]
    rw [hmakes, hafter]
    exact hopens.host_cases hdirs h

def asking (qs : List Question) (h : Host) : Host :=
  qs.foldl after h

/-- Some question of a run opens a database where nothing is. -/
def SomeMakesDatabase (qs : List Question) (h : Host) : Prop :=
  ∃ before q rest, qs = before ++ q :: rest ∧ q.MakesDatabase (asking before h)

theorem gains_asking (qs : List Question) (h : Host) : h.Gains (asking qs h) := by
  induction qs generalizing h with
  | nil => exact (Host.GainsDirs.refl h).toGains
  | cons q qs ih =>
    have hrest := ih (q.after h)
    rcases q.after_cases h with ⟨-, hdirs⟩ | ⟨-, hgains, -⟩
    · exact hdirs.toGains.trans hrest
    · exact hgains.trans hrest

theorem gainsDirs_asking (hnone : ¬ SomeMakesDatabase qs h) : h.GainsDirs (asking qs h) := by
  induction qs generalizing h with
  | nil => exact Host.GainsDirs.refl h
  | cons q qs ih =>
    rcases q.after_cases h with ⟨-, hdirs⟩ | ⟨hmakes, -⟩
    · apply hdirs.trans
      apply ih
      rintro ⟨before, q', rest, rfl, hmakes⟩
      exact hnone ⟨q :: before, q', rest, rfl, hmakes⟩
    · exact absurd ⟨[], q, qs, rfl, hmakes⟩ hnone

theorem exists_new_file (hsome : SomeMakesDatabase qs h) :
    ∃ place, h.files.isFile place = false ∧ (asking qs h).files.isFile place := by
  obtain ⟨before, q, rest, rfl, hmakes⟩ := hsome
  rcases q.after_cases (asking before h) with ⟨hnot, -⟩ | ⟨-, -, place, hold, hnew⟩
  · exact absurd hmakes hnot
  · refine ⟨place, ?_, ?_⟩
    · -- The questions before it removed nothing, so the place was free at the start as well.
      rw [Bool.eq_false_iff] at hold ⊢
      intro hfile
      exact hold ((gains_asking before h).keeps.files place hfile)
    · have hrun : asking (before ++ q :: rest) h = asking rest (q.after (asking before h)) := by
        simp [asking]
      rw [hrun]
      exact (gains_asking rest _).keeps.files place hnew

/-- A run of questions leaves all files as they are exactly when none of its questions opens a
database where nothing is. In a settled workspace the indexed versions are then the same ones too,
unless a directory was made at a landmark. -/
theorem context_kept_iff (qs : List Question) (h : Host) :
    ((∀ place, (asking qs h).files.isFile place = h.files.isFile place) ↔
      ¬ SomeMakesDatabase qs h) ∧
    ∀ given root, h.Settled given root → h.KeepsLandmarks (asking qs h) →
      ¬ SomeMakesDatabase qs h →
      ((showContext given).outcome (asking qs h)).1 = ((showContext given).outcome h).1 := by
  refine ⟨⟨?_, ?_⟩, ?_⟩
  · intro hfiles hsome
    obtain ⟨place, hold, hnew⟩ := exists_new_file hsome
    rw [hfiles place, hold] at hnew
    cases hnew
  · intro hnone place
    have hgains := gainsDirs_asking hnone
    rw [Bool.eq_iff_iff]
    exact ⟨hgains.files place, hgains.keeps.files place⟩
  · intro given root hsettled hlandmarks hnone
    exact agrees_showContext hsettled (gainsDirs_asking hnone) hlandmarks

def freshMachine : Host where
  files := ⟨[(["home"], .directory)]⟩
  env := [("HOME", "/home")]
  here := ["home"]
  toolbox := some ⟨[], ⟨.builtIn, []⟩⟩

theorem settled_freshMachine : freshMachine.Settled none (.absolute ["home", ".prism"]) where
  rooted := FileTree.rooted_of_nodes (by decide)
  current := by decide
  down := by decide
  finds := by decide +kernel
  output s hs := by
    have hnone : freshMachine.given? "PRISM_OUTPUT_DIR" = none := by decide
    rw [hnone] at hs
    cases hs
  settings := ⟨[], ["home", ".prism", settingsName], [], rfl, rfl, by decide⟩
  catalogues v p hp := by
    have hpath : ((catalogue (.absolute ["home", ".prism"]) v.name).outcome
        ((rootOr none).outcome freshMachine).2).1 =
        .ok (.absolute ["home", ".prism", "workspace", "db", "prism_api_" ++ v.name ++ ".db"]) := by
      cases v <;> decide +kernel
    rw [hpath] at hp
    cases hp
    exact Host.isSteady_absolute (by cases v <;> decide)

def packagesOfRelease : Question :=
  .packages none .release .null

def parentsOfA : Question :=
  .tool .getHierarchy [("package", .str "p"), ("class_name", .str "A")]

theorem keepsLandmarks_freshMachine :
    freshMachine.KeepsLandmarks (asking [packagesOfRelease] freshMachine) := by
  have hplaces : (asking [packagesOfRelease] freshMachine).files.nodes.map (·.1) =
      [["home"], ["home", ".prism"]] := by decide +kernel
  have hnone : freshMachine.given? "PRISM_OUTPUT_DIR" = none := by decide
  rintro place (hlast | ⟨s, hs, -⟩) hdir
  · rcases FileTree.mem_nodes_of_isDir hdir with rfl | hmem
    · rfl
    · rw [hplaces] at hmem
      have hnames : ∀ q ∈ [["home"], ["home", ".prism"]], q.getLast? ≠ some settingsName := by
        decide
      exact absurd hlast (hnames place hmem)
  · rw [hnone] at hs
    cases hs

/-- The first question makes only the project directory. The second one makes the database of the
release line, which then counts as indexed. -/
theorem context_kept_freshMachine :
    ((showContext none).outcome (asking [packagesOfRelease] freshMachine)).1 =
      ((showContext none).outcome freshMachine).1 ∧
    SomeMakesDatabase [parentsOfA] freshMachine ∧
    ((indexedVersions (.absolute ["home", ".prism"])).outcome freshMachine).1 = .ok [] ∧
    ((indexedVersions (.absolute ["home", ".prism"])).outcome
      (asking [parentsOfA] freshMachine)).1 = .ok [.release] := by
  refine ⟨?_, ?_, by decide +kernel, by decide +kernel⟩
  · apply (context_kept_iff [packagesOfRelease] freshMachine).2 none _ settled_freshMachine
      keepsLandmarks_freshMachine
    rintro ⟨before, q, rest, hsplit, target, htarget, -⟩
    have hmem : q ∈ [packagesOfRelease] := by simp [hsplit]
    obtain rfl := List.mem_singleton.mp hmem
    cases htarget
  · by_contra hnone
    have hfiles := (context_kept_iff [parentsOfA] freshMachine).1.mpr hnone
    have hmade := hfiles ["home", ".prism", "workspace", "db", "prism_api_release.db"]
    revert hmade
    decide +kernel

end Question

end JarAtlas
