import JarAtlas.Commands.Configure
import JarAtlas.Proofs.Tools.Questions
import JarAtlas.Proofs.Workspace.Servers

/-!
The commands that change settings, apart from the changes: what they look at, what they say, and the
settings that are read back as they were written.
-/

namespace JarAtlas

open JarAtlas.Action Settings

namespace Detection

variable {α β : Type}

theorem reads_anyM {f : α → Action Bool} (hf : ∀ x, (f x).Reads) (items : List α) :
    (items.anyM f).Reads := by
  induction items with
  | nil => exact reads_pure _
  | cons x items ih =>
    refine (hf x).bind fun isFound => ?_
    cases isFound with
    | true => exact reads_pure _
    | false => exact ih

theorem reads_findSomeM? {f : α → Action (Option β)} (hf : ∀ x, (f x).Reads) (items : List α) :
    (items.findSomeM? f).Reads := by
  induction items with
  | nil => exact reads_pure _
  | cons x items ih =>
    refine (hf x).bind fun found => ?_
    cases found with
    | some y => exact reads_pure _
    | none => exact ih

theorem reads_serversIn (install : Path) : (serversIn install).Reads := by
  refine (reads_resolve install).bind fun full => (reads_isDir full).bind fun isDir => ?_
  split
  · exact (reads_jarAt? _).bind fun _ => (reads_jarAt? _).bind_pure
  · exact reads_pure _

theorem reads_isInstallation (p : Path) : (isInstallation p).Reads := by
  refine (reads_resolve p).bind fun full => (reads_isDir full).bind fun isDir => ?_
  split
  · exact reads_anyM (fun _ => reads_isFile _) _
  · exact reads_pure _

theorem reads_firstServer? (install : Path) : (firstServer? install).Reads := by
  refine (reads_serversIn install).bind fun servers => ?_
  split <;> exact reads_pure _

theorem reads_findIn? (dir : Path) (name : Json) : (findIn? dir name).Reads := by
  refine (reads_isDir dir).bind fun isDir => ?_
  split
  · refine (reads_ofExcept _).bind fun name => (reads_locate dir).bind fun place => ?_
    refine reads_get.bind fun h => (reads_isFile _).bind fun isFile => ?_
    split
    · exact reads_pure _
    · refine reads_findSomeM? (fun child => (reads_isDir child).bind fun isDir => ?_) _
      split
      · exact (reads_isFile _).bind_pure
      · exact reads_pure _
  · exact reads_pure _

theorem reads_serverAt? (place : Path) : (serverAt? place).Reads := by
  refine (reads_isInstallation place).bind fun isInstallation => ?_
  split
  · exact reads_firstServer? place
  · refine (reads_findIn? place _).bind fun found => ?_
    split
    · exact reads_jarAt? _
    · exact reads_pure _

theorem reads_namedServer? : namedServer?.Reads := by
  refine reads_get.bind fun h => ?_
  split
  · exact reads_pure _
  · refine (reads_resolve _).bind fun p => (reads_isDir p).bind fun isDir => ?_
    refine (reads_isInstallation p).bind fun isInstallation => ?_
    split
    · exact reads_firstServer? p
    · exact reads_jarAt? p

theorem reads_usualPlaces : usualPlaces.Reads := by
  refine reads_get.bind fun h => ?_
  split
  · exact reads_pure _
  · exact (reads_filterAuxM (fun _ => reads_isDir _) _ _).bind_pure

theorem reads_jar? (root : Path) : (jar? root).Reads := by
  refine (reads_load root).bind fun settings => (reads_ofExcept _).bind fun p => ?_
  cases p with
  | none => exact reads_pure _
  | some p => exact (reads_isFile p).bind_pure

theorem reads_server? (root : Path) : (server? root).Reads := by
  refine reads_namedServer?.bind fun named => ?_
  split
  · exact reads_pure _
  · refine (reads_jar? root).bind fun set => Reads.bind ?_ fun found => ?_
    · cases set with
      | none => exact reads_pure _
      | some p => exact reads_jarAt? p
    · split
      · exact reads_pure _
      · exact reads_usualPlaces.bind fun places => reads_findSomeM? reads_serverAt? places

end Detection

theorem Messages.reads_isAvailable (code : String) : (Messages.isAvailable code).Reads := by
  refine reads_get.bind fun h => ?_
  split
  · dsimp only
    split
    · exact reads_isThere _
    · exact (reads_ofExcept _).bind_pure
  · exact reads_isThere _

/-- A value that is read back as it was written. -/
structure Json.IsKept (v : Json) : Prop where
  plain : v.all isPlain = true
  bounded : v.isBounded maxDepth = true

theorem Json.IsKept.assign {fields : List (String × Json)} (hkept : IsKept (.obj fields))
    (name s : String) : IsKept (.obj (assign name (.str s) fields)) :=
  ⟨all_assign hkept.plain rfl name, isBounded_assign hkept.bounded rfl name⟩

/-- The settings file of a project, if there is one and it can be read, says something plain. -/
def Host.HasPlainSettings (h : Host) (root : Path) : Prop :=
  ∀ content time cs v,
    h.files.get? (h.meant (Settings.path root)) = some (.file content time) →
    content.strictText? = some cs → Json.parse cs = .ok v → v.all Json.isPlain = true

section Plain

variable {h h' : Host} {root : Path} {settings : Json}

theorem Host.HasPlainSettings.gain (hplain : h.HasPlainSettings root) (hgains : h.GainsDirs h') :
    h'.HasPlainSettings root := by
  intro content time cs v hget
  rw [hgains.meant_eq] at hget
  exact hplain content time cs v (hgains.get?_before hget)

theorem Host.hasPlainSettings_of_get? {time : Nat} (hkept : settings.IsKept)
    (hfile : h.files.get? (h.meant (path root)) =
      some (.file (.ofText settings.pretty) time)) : h.HasPlainSettings root := by
  intro content time' cs v hget hcs hparse
  rw [hfile] at hget
  obtain ⟨rfl, -⟩ := Node.file.inj (Option.some.inj hget)
  rw [Json.strictText?_pretty hkept.plain] at hcs
  cases hcs
  rw [Json.parse_render .indented hkept.bounded hkept.plain] at hparse
  exact Except.ok.inj hparse ▸ hkept.plain

theorem Host.WritesAt.hasPlainSettings {place : Place}
    (hwrites : h.WritesAt (path root) place) (hkept : settings.IsKept) :
    (h.storing place (.ofText settings.pretty)).HasPlainSettings root := by
  have hplace : (h.storing place (.ofText settings.pretty)).meant (path root) = place :=
    (Host.eq_meant_of_locate hwrites.leads).symm
  apply Host.hasPlainSettings_of_get? hkept
  rw [hplace, Host.get?_storing hwrites.notDirectory, if_pos rfl]

theorem Settings.isKept_of_load (hplain : h.HasPlainSettings root)
    (hload : (load root).outcome h = (.ok settings, h')) : settings.IsKept := by
  refine ⟨?_, isBounded_of_load hload⟩
  rcases load_cases hload with rfl | ⟨content, cs, ⟨-, place, time, hlocate, hget⟩, hcs, hparse⟩
  · rfl
  · rw [Host.eq_meant_of_locate hlocate] at hget
    exact hplain content time cs settings hget hcs hparse

end Plain

namespace Settings

variable {root : Path} {settings new : Json} {name s : String}

theorem hasPlainSettings_of_save {h h' : Host} {r : Except Fault Unit}
    (hplain : h.HasPlainSettings root) (hkept : new.IsKept)
    (hsave : (save root new).outcome h = (r, h')) : h'.HasPlainSettings root := by
  rcases save_outcome hkept.bounded hkept.plain root h with ⟨e, hfails⟩ | ⟨place, hwrites, hdone⟩
  · rw [hfails] at hsave
    exact (Prod.mk.inj hsave).2 ▸ hplain
  · rw [hdone] at hsave
    exact (Prod.mk.inj hsave).2 ▸ hwrites.hasPlainSettings hkept

theorem exists_of_assign_ok {value : Json} (hassign : assign settings name value = .ok new) :
    ∃ fields, settings = .obj fields ∧ new = .obj (Json.assign name value fields) := by
  cases settings with
  | obj fields => exact ⟨fields, rfl, (Except.ok.inj hassign).symm⟩
  | _ => cases hassign

end Settings

namespace Commands

theorem makesDirs_say (key : String) (values : List (String × Json)) :
    (Messages.say key values).MakesDirs :=
  (Messages.makesDirs_phrase key values).bind_pure

theorem makesDirs_report (s : String) : (Console.report s).MakesDirs :=
  (makesDirs_ofExcept _).bind fun _ _ => Host.addsDirs_of_eq rfl rfl rfl

theorem makesDirs_tellSuccess (key : String) (values : List (String × Json)) :
    (tellSuccess key values).MakesDirs :=
  (makesDirs_say key values).bind fun _ => makesDirs_report _

theorem makesDirs_tellError (key : String) (values : List (String × Json)) :
    (tellError key values).MakesDirs :=
  (makesDirs_say key values).bind fun _ => makesDirs_report _

theorem makesDirs_refuse (key : String) (values : List (String × Json)) :
    (refuse key values).MakesDirs :=
  (makesDirs_tellError key values).bind_pure

theorem makesDirs_done (key : String) (values : List (String × Json)) :
    (do
      tellSuccess key values
      return 0 : Action Nat).MakesDirs :=
  (makesDirs_tellSuccess key values).bind_pure

theorem makesDirs_tellSibling (sibling : Option Path) {rest : Action Nat} (hrest : rest.MakesDirs) :
    (do
      sibling.forM fun p => tellSuccess "cli.init.sibling_saved" [("path", pathValue p)]
      rest : Action Nat).MakesDirs := by
  cases sibling with
  | none => exact (makesDirs_pure _).bind fun _ => hrest
  | some p => exact (makesDirs_tellSuccess _ _).bind fun _ => hrest

theorem makesDirs_makeWorkspace (root : Path) : (makeWorkspace root).MakesDirs := by
  refine (makesDirs_makeDirs root).bind fun _ => ?_
  refine (Layout.reads_workspace root).makesDirs.bind fun workspace => ?_
  refine (makesDirs_makeDirs workspace).bind fun _ => ?_
  refine (Layout.reads_sources root _).makesDirs.bind fun sources => ?_
  refine (makesDirs_makeDirs sources).bind fun _ => ?_
  refine (Layout.reads_databases root).makesDirs.bind fun databases => ?_
  exact (makesDirs_makeDirs databases).bind fun _ => makesDirs_makeDirs _

theorem reads_namesNoJar : namesNoJar.Reads := by
  refine reads_get.bind fun h => ?_
  split
  · exact (reads_resolve _).bind fun p => (Detection.reads_isJar p).bind_pure
  · exact reads_pure _

inductive Change where
  | detect
  | configure (key value : String)
  | use (version : String)
  | setLanguage (code : String)

def Change.run (root : Path) : Change → Action Nat
  | detect => Commands.detect root
  | configure key value => Commands.configure root key value
  | use version => Commands.use root version
  | setLanguage code => Commands.setLanguage root code

/-- A machine whose settings were made by commands, from none or from plain ones. Between two
commands everything may change but the settings file. -/
inductive Reached (root : Path) : Host → Prop
  | start {h : Host} (hplain : h.HasPlainSettings root) : Reached root h
  | change {h : Host} (hreached : Reached root h) (c : Change) :
      Reached root ((c.run root).outcome h).2
  | aside {h h' : Host} (hreached : Reached root h)
      (hsame : h'.files.get? (h'.meant (Settings.path root)) =
        h.files.get? (h.meant (Settings.path root))) :
      Reached root h'

end Commands

/-! ### The commands as edits of one file -/

open List Host.GainsDirs Json Detection

namespace Settings

def assignAll (texts : List (String × String)) (fields : List (String × Json)) :
    List (String × Json) :=
  texts.foldl (fun fields text => Json.assign text.1 (.str text.2) fields) fields

/-- The settings are those that were loaded, with texts assigned. -/
def Assigned (texts : List (String × String)) (loaded new : Json) : Prop :=
  ∃ fields, loaded = .obj fields ∧ new = .obj (assignAll texts fields)

variable {fields : List (String × Json)} {texts : List (String × String)} {loaded new : Json}
  {name s : String}

theorem all_assignAll {p : Json → Bool} (hp : ∀ s, all p (.str s))
    (texts : List (String × String)) (hall : all p (.obj fields)) :
    all p (.obj (assignAll texts fields)) := by
  induction texts generalizing fields with
  | nil => exact hall
  | cons text texts ih => exact ih (all_assign hall (hp text.2) text.1)

theorem isBounded_assignAll (texts : List (String × String))
    (hbound : isBounded maxDepth (.obj fields)) :
    isBounded maxDepth (.obj (assignAll texts fields)) := by
  induction texts generalizing fields with
  | nil => exact hbound
  | cons text texts ih => exact ih (isBounded_assign hbound rfl text.1)

theorem Assigned.isKept (hnew : Assigned texts loaded new)
    (hkept : loaded.IsKept) : new.IsKept := by
  obtain ⟨fields, rfl, rfl⟩ := hnew
  exact ⟨all_assignAll (fun _ => rfl) texts hkept.plain, isBounded_assignAll texts hkept.bounded⟩

theorem assigned_of_assign
    (hassign : assign loaded name (.str s) = .ok new) : Assigned [(name, s)] loaded new :=
  exists_of_assign_ok hassign

theorem Assigned.append {old : Json} (hold : Assigned texts loaded old)
    (hassign : assign old name (.str s) = .ok new) :
    Assigned (texts ++ [(name, s)]) loaded new := by
  obtain ⟨fields, rfl, rfl⟩ := hold
  obtain ⟨_, hobj, rfl⟩ := exists_of_assign_ok hassign
  obtain rfl := obj.inj hobj
  refine ⟨fields, rfl, ?_⟩
  rw [assignAll, assignAll, foldl_append]
  rfl

end Settings

namespace Commands

/-- What a command does to the settings of a project, if it may set the keys of one of the lists. -/
inductive Edit (root : Path) (targets : List (List String)) (h : Host) :
    Except Fault Nat → Host → Prop
  | untouched {r : Except Fault Nat} {h' : Host} (hgains : h.GainsDirs h') (hr : r ≠ .ok 0) :
      Edit root targets h r h'
  | saved {h₁ h₂ h' : Host} {r : Except Fault Nat} {loaded new : Json}
      {texts : List (String × String)} (hbefore : h.GainsDirs h₁)
      (hload : (Settings.load root).outcome h₁ = (.ok loaded, h₁))
      (hnew : Settings.Assigned texts loaded new)
      (hkeys : ∃ keys ∈ targets, ∀ text ∈ texts, text.1 ∈ keys)
      (hsave : (Settings.save root new).outcome h₁ = (.ok (), h₂)) (hafter : h₂.GainsDirs h')
      (hr : ∀ code, r = .ok code → code = 0) : Edit root targets h r h'
  | failed {h₁ h' : Host} {e : Fault} {loaded new : Json} {texts : List (String × String)}
      (hbefore : h.GainsDirs h₁) (hload : (Settings.load root).outcome h₁ = (.ok loaded, h₁))
      (hnew : Settings.Assigned texts loaded new)
      (hsave : (Settings.save root new).outcome h₁ = (.error e, h')) :
      Edit root targets h (.error e) h'

theorem Edit.after {root : Path} {targets : List (List String)} {h h₁ h' : Host}
    {r : Except Fault Nat} (hedit : Edit root targets h₁ r h') (hgains : h.GainsDirs h₁) :
    Edit root targets h r h' := by
  cases hedit with
  | untouched hafter hr => exact .untouched (hgains.trans hafter) hr
  | saved hbefore hload hnew hkeys hsave hafter hr =>
    exact .saved (hgains.trans hbefore) hload hnew hkeys hsave hafter hr
  | failed hbefore hload hnew hsave => exact .failed (hgains.trans hbefore) hload hnew hsave

end Commands

namespace Action

variable {α : Type} {root : Path} {targets : List (List String)} {loaded : Json} {a : Action α}
  {f : α → Action Nat} {p : Nat → Prop}

def Returns (a : Action Nat) (p : Nat → Prop) : Prop :=
  ∀ h code, (a.outcome h).1 = .ok code → p code

theorem returns_bind (hf : ∀ x, (f x).Returns p) : (a >>= f).Returns p := by
  intro h code
  rw [outcome_bind]
  rcases a.outcome h with ⟨e | x, h₁⟩
  · exact nofun
  · exact hf x h₁ code

theorem returns_pure {code : Nat} (hcode : p code) : (pure code : Action Nat).Returns p :=
  fun _ _ hsame => Except.ok.inj hsame ▸ hcode

/-- The action edits the settings of a project. -/
def Edits (a : Action Nat) (root : Path) (targets : List (List String)) : Prop :=
  ∀ h, Commands.Edit root targets h (a.outcome h).1 (a.outcome h).2

/-- The action edits the settings of a project that were loaded before. -/
def EditsLoaded (a : Action Nat) (root : Path) (targets : List (List String)) (loaded : Json) :
    Prop :=
  ∀ h, (Settings.load root).outcome h = (.ok loaded, h) →
    Commands.Edit root targets h (a.outcome h).1 (a.outcome h).2

theorem Edits.editsLoaded {a : Action Nat} (ha : a.Edits root targets) :
    a.EditsLoaded root targets loaded :=
  fun h _ => ha h

theorem MakesDirs.edits {a : Action Nat} (ha : a.MakesDirs) (hcode : a.Returns (· ≠ 0)) :
    a.Edits root targets :=
  fun h => .untouched (ha h).toGainsDirs fun hzero => hcode h 0 hzero rfl

theorem MakesDirs.edits_bind (ha : a.MakesDirs)
    (hf : ∀ x, (f x).Edits root targets) : (a >>= f).Edits root targets := by
  intro h
  have hgains := (ha h).toGainsDirs
  rw [outcome_bind]
  rcases houtcome : a.outcome h with ⟨e | x, h₁⟩
  · rw [houtcome] at hgains
    exact .untouched hgains nofun
  · rw [houtcome] at hgains
    exact (hf x h₁).after hgains

theorem Reads.edit_bind {h : Host} (ha : a.Reads) (hf : ∀ x, a.outcome h = (.ok x, h) →
      Commands.Edit root targets h ((f x).outcome h).1 ((f x).outcome h).2) :
    Commands.Edit root targets h ((a >>= f).outcome h).1 ((a >>= f).outcome h).2 := by
  rw [outcome_bind]
  rcases houtcome : a.outcome h with ⟨e | x, h₁⟩
  · obtain rfl := ha.host_eq houtcome
    exact .untouched (refl h₁) nofun
  · obtain rfl := ha.host_eq houtcome
    exact hf x houtcome

theorem Reads.editsLoaded_bind (ha : a.Reads) (hf : ∀ x, (f x).EditsLoaded root targets loaded) :
    (a >>= f).EditsLoaded root targets loaded :=
  fun h hload => ha.edit_bind fun x _ => hf x h hload

theorem editsLoaded_ofExcept {r : Except Fault α}
    (hf : ∀ x, r = .ok x → (f x).EditsLoaded root targets loaded) :
    (ofExcept r >>= f).EditsLoaded root targets loaded :=
  fun h hload => (reads_ofExcept r).edit_bind fun x hx => hf x (ofExcept_ok hx).1 h hload

theorem edits_load {f : Json → Action Nat}
    (hf : ∀ loaded, (f loaded).EditsLoaded root targets loaded) :
    (load root >>= f).Edits root targets :=
  fun h => (reads_load root).edit_bind fun loaded hload => hf loaded h hload

theorem editsLoaded_save {texts : List (String × String)} {new : Json}
    (hnew : Assigned texts loaded new)
    (hkeys : ∃ keys ∈ targets, ∀ text ∈ texts, text.1 ∈ keys) {rest : Action Nat}
    (hrest : rest.MakesDirs) (hcode : rest.Returns (· = 0)) :
    (do
      save root new
      rest : Action Nat).EditsLoaded root targets loaded := by
  intro h hload
  rw [outcome_bind]
  rcases hsave : (save root new).outcome h with ⟨e | _, h₂⟩
  · exact .failed (refl h) hload hnew hsave
  · exact .saved (refl h) hload hnew hkeys hsave (hrest h₂).toGainsDirs (hcode h₂)

end Action

namespace Commands

section Each

variable {root jar : Path} {targets : List (List String)} {loaded settings : Json}
  {rest : Action Nat}

theorem returns_refuse (key : String) (values : List (String × Json)) :
    (refuse key values).Returns (· ≠ 0) :=
  returns_bind fun _ => returns_pure Nat.one_ne_zero

theorem edits_refuse (key : String) (values : List (String × Json)) :
    (refuse key values).Edits root targets :=
  (makesDirs_refuse key values).edits (returns_refuse key values)

theorem returns_done (key : String) (values : List (String × Json)) :
    (do
      tellSuccess key values
      return 0 : Action Nat).Returns (· = 0) :=
  returns_bind fun _ => returns_pure rfl

theorem edits_assigned (name s : String) (hname : [name] ∈ targets) (hrest : rest.MakesDirs)
    (hcode : rest.Returns (· = 0)) :
    (do
      let settings ← load root
      save root (← Action.ofExcept (assign settings name (.str s)))
      rest : Action Nat).Edits root targets := by
  apply edits_load
  intro loaded
  apply editsLoaded_ofExcept
  intro new hassign
  exact editsLoaded_save (assigned_of_assign hassign)
    ⟨[name], hname, forall_mem_singleton.mpr mem_cons_self⟩ hrest hcode

/-- The keys that a command may set besides others: those of one of the two version lines. -/
def siblingTargets (keys : List String) : List (List String) :=
  [keys ++ ["jar_path_release"], keys ++ ["jar_path_prerelease"]]

theorem mem_siblingTargets (keys : List String) (jar : Path) :
    keys ++ [siblingKey jar] ∈ siblingTargets keys := by
  rw [siblingKey]
  split
  · exact mem_cons_self
  · exact mem_cons_of_mem _ mem_cons_self

theorem assigned_of_assignSibling {texts : List (String × String)}
    (hassigned : Assigned texts loaded settings) {sibling : Option Path} {new : Json}
    (hassign : assignSibling settings jar sibling = .ok new) {keys : List String}
    (hkeys : ∀ text ∈ texts, text.1 ∈ keys) :
    ∃ texts', Assigned texts' loaded new ∧
      ∃ keys' ∈ siblingTargets keys, ∀ text ∈ texts', text.1 ∈ keys' := by
  have hmore : ∀ text ∈ texts, text.1 ∈ keys ++ [siblingKey jar] :=
    fun text htext => mem_append_left _ (hkeys text htext)
  cases sibling with
  | none =>
    obtain rfl : settings = new := Except.ok.inj hassign
    exact ⟨texts, hassigned, _, mem_siblingTargets keys jar, hmore⟩
  | some p =>
    refine ⟨_, hassigned.append hassign, _, mem_siblingTargets keys jar, ?_⟩
    simp only [forall_mem_append, forall_mem_singleton]
    exact ⟨hmore, mem_concat_self⟩

theorem returns_tellSibling (sibling : Option Path) (hrest : rest.Returns (· = 0)) :
    (do
      sibling.forM fun p => tellSuccess "cli.init.sibling_saved" [("path", pathValue p)]
      rest : Action Nat).Returns (· = 0) :=
  returns_bind fun _ => hrest

theorem editsLoaded_setJar (root jar : Path) :
    (setJar root jar loaded).EditsLoaded root (siblingTargets ["jar_path"]) loaded := by
  apply editsLoaded_ofExcept
  intro first hfirst
  refine (reads_sibling? jar).editsLoaded_bind fun sibling => ?_
  apply editsLoaded_ofExcept
  intro new hnew
  obtain ⟨texts, hassigned, hkeys⟩ :=
    assigned_of_assignSibling (assigned_of_assign hfirst) hnew
      (forall_mem_singleton.mpr mem_cons_self)
  apply editsLoaded_save hassigned hkeys
  · exact (makesDirs_tellSuccess _ _).bind fun _ => makesDirs_tellSibling sibling (makesDirs_pure _)
  · exact returns_bind fun _ => returns_tellSibling sibling (returns_pure rfl)

theorem editsLoaded_setInstallation (root install : Path) (value : String) :
    (setInstallation root install loaded value).EditsLoaded root (siblingTargets ["jar_path"])
      loaded := by
  have hsaved {changed : Except Fault Json} {rest : Action Nat}
      (hchanged : ∀ new, changed = .ok new → ∃ texts, Assigned texts loaded new ∧
        ∀ text ∈ texts, text.1 ∈ ["jar_path", "jar_path_prerelease"])
      (hrest : rest.MakesDirs) (hcode : rest.Returns (· = 0)) :
      ((do
        save root (← Action.ofExcept changed)
        tellSuccess "cli.config.hytale_root_detected" []) >>= fun _ => rest).EditsLoaded root
          (siblingTargets ["jar_path"]) loaded := by
    rw [bind_assoc]
    apply editsLoaded_ofExcept
    intro new hnew
    obtain ⟨texts, hassigned, hkeys⟩ := hchanged new hnew
    rw [bind_assoc]
    apply editsLoaded_save hassigned ⟨_, mem_cons_of_mem _ mem_cons_self, hkeys⟩
    · exact (makesDirs_tellSuccess _ _).bind fun _ => hrest
    · exact returns_bind fun _ => hcode
  have hone (s : String) (new : Json) (hnew : assign loaded "jar_path" (.str s) = .ok new) :
      ∃ texts, Assigned texts loaded new ∧
        ∀ text ∈ texts, text.1 ∈ ["jar_path", "jar_path_prerelease"] :=
    ⟨_, assigned_of_assign hnew, forall_mem_singleton.mpr mem_cons_self⟩
  refine (reads_serversIn install).editsLoaded_bind fun servers => ?_
  dsimp only
  split
  · exact (edits_refuse _ _).editsLoaded
  · exact hsaved (hone _) (makesDirs_done _ _) (returns_done _ _)
  · exact hsaved (hone _) (makesDirs_done _ _) (returns_done _ _)
  · refine hsaved (fun new hnew => ?_)
      ((makesDirs_tellSuccess _ _).bind fun _ => makesDirs_done _ _)
      (returns_bind fun _ => returns_done _ _)
    obtain ⟨first, hfirst, hnew⟩ := ok_of_bind hnew
    exact ⟨_, (assigned_of_assign hfirst).append hnew, by simp⟩

theorem edits_setGame (root : Path) (value : String) :
    (setGame root value).Edits root (siblingTargets ["jar_path"]) := by
  refine (reads_resolve _).makesDirs.edits_bind fun p => ?_
  apply edits_load
  intro loaded
  refine (reads_isDir p).editsLoaded_bind fun isDir => ?_
  refine (reads_isInstallation p).editsLoaded_bind fun isInstallation => ?_
  split
  · exact editsLoaded_setInstallation root p value
  · refine (reads_isJar p).editsLoaded_bind fun isJar => ?_
    split
    · exact editsLoaded_setJar root p
    · exact (edits_refuse _ _).editsLoaded

theorem edits_setJadx (root : Path) (value : String) :
    (setJadx root value).Edits root [["jadx_path"]] := by
  refine (reads_resolve _).makesDirs.edits_bind fun p => ?_
  refine (reads_isFile p).makesDirs.edits_bind fun isFile => ?_
  split
  · exact edits_assigned _ _ mem_cons_self (makesDirs_done _ _) (returns_done _ _)
  · exact edits_refuse _ _

theorem edits_setDecompiler (root : Path) (value : String) :
    (setDecompiler root value).Edits root [["decompiler"]] := by
  unfold setDecompiler
  dsimp only
  split
  · exact edits_assigned _ _ mem_cons_self (makesDirs_done _ _) (returns_done _ _)
  · exact edits_refuse _ _

theorem edits_setLanguage (root : Path) (code : String) :
    (setLanguage root code).Edits root [["lang"]] := by
  refine (Messages.reads_isAvailable code).makesDirs.edits_bind fun isAvailable => ?_
  split
  · exact edits_assigned _ _ mem_cons_self (makesDirs_done _ _) (returns_done _ _)
  · exact edits_refuse _ _

theorem edits_use (root : Path) (name : String) : (use root name).Edits root [["active_server"]] := by
  unfold use
  split
  · exact edits_refuse _ _
  · apply edits_assigned _ _ mem_cons_self
    · refine (Layout.reads_catalogue root _).makesDirs.bind fun p => ?_
      refine (reads_isFile p).makesDirs.bind fun isFile => ?_
      dsimp only
      split
      · exact (makesDirs_tellError _ _).bind fun _ => makesDirs_done _ _
      · exact makesDirs_done _ _
    · refine returns_bind fun p => returns_bind fun isFile => ?_
      dsimp only
      split
      · exact returns_bind fun _ => returns_done _ _
      · exact returns_done _ _

theorem edits_saveServer (root jar : Path) :
    (saveServer root jar).Edits root (siblingTargets ["jar_path", "output_dir"]) := by
  apply edits_load
  intro loaded
  refine (reads_resolve jar).editsLoaded_bind fun target => ?_
  apply editsLoaded_ofExcept
  intro first hfirst
  refine (Layout.reads_workspace root).editsLoaded_bind fun p => ?_
  refine (reads_resolve p).editsLoaded_bind fun workspace => ?_
  apply editsLoaded_ofExcept
  intro second hsecond
  refine (reads_sibling? jar).editsLoaded_bind fun sibling => ?_
  apply editsLoaded_ofExcept
  intro new hnew
  have hboth : ∀ text ∈ [("jar_path", target.text)] ++ [("output_dir", workspace.text)],
      text.1 ∈ ["jar_path", "output_dir"] := by simp
  obtain ⟨texts, hassigned, hkeys⟩ := assigned_of_assignSibling
    ((assigned_of_assign hfirst).append hsecond) hnew hboth
  apply editsLoaded_save hassigned hkeys
  · exact (makesDirs_tellSuccess _ _).bind fun _ =>
      makesDirs_tellSibling sibling (makesDirs_done _ _)
  · exact returns_bind fun _ => returns_tellSibling sibling (returns_done _ _)

theorem edits_detect (root : Path) :
    (detect root).Edits root (siblingTargets ["jar_path", "output_dir"]) := by
  refine (makesDirs_makeWorkspace root).edits_bind fun _ => ?_
  refine reads_namesNoJar.makesDirs.edits_bind fun isNone => ?_
  split
  · exact edits_refuse _ _
  · refine (reads_server? root).makesDirs.edits_bind fun server => ?_
    split
    · exact edits_saveServer root _
    · refine (makesDirs_tellError _ _).edits_bind fun _ => ?_
      exact (makesDirs_tellError _ _).edits_bind fun _ => edits_refuse _ _

end Each

/-- The keys that a command may set: those of one of the lists. -/
def Change.targets : Change → List (List String)
  | detect => siblingTargets ["jar_path", "output_dir"]
  | configure key _ => if key = "game_path" then siblingTargets ["jar_path"] else [[key]]
  | use _ => [["active_server"]]
  | setLanguage _ => [["lang"]]

theorem edits_run (root : Path) (c : Change) : (c.run root).Edits root c.targets := by
  cases c with
  | detect => exact edits_detect root
  | configure key value =>
    rw [Change.run, Change.targets]
    unfold configure
    split
    · rw [if_pos rfl]
      exact edits_setGame root value
    · rw [if_neg (by decide)]
      exact edits_setJadx root value
    · rw [if_neg (by decide)]
      exact edits_setDecompiler root value
    · exact edits_refuse _ _
  | use version => exact edits_use root version
  | setLanguage code => exact edits_setLanguage root code

variable {root : Path} {h : Host}

theorem Edit.hasPlainSettings {targets : List (List String)} {h' : Host} {r : Except Fault Nat}
    (hedit : Edit root targets h r h') (hplain : h.HasPlainSettings root) :
    h'.HasPlainSettings root := by
  cases hedit with
  | untouched hgains _ => exact hplain.gain hgains
  | saved hbefore hload hnew _ hsave hafter _ =>
    have hkept := hnew.isKept (isKept_of_load (hplain.gain hbefore) hload)
    exact (hasPlainSettings_of_save (hplain.gain hbefore) hkept hsave).gain hafter
  | failed hbefore hload hnew hsave =>
    have hkept := hnew.isKept (isKept_of_load (hplain.gain hbefore) hload)
    exact hasPlainSettings_of_save (hplain.gain hbefore) hkept hsave

theorem Reached.hasPlainSettings (hreached : Reached root h) : h.HasPlainSettings root := by
  induction hreached with
  | start hplain => exact hplain
  | change _ c ih => exact (edits_run root c _).hasPlainSettings ih
  | aside _ hsame ih =>
    intro content time cs v hget
    exact ih content time cs v (hsame ▸ hget)

end Commands

end JarAtlas
