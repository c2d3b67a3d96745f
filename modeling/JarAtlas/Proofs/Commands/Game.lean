import JarAtlas.Proofs.Commands.Edits

/-!
Which servers are found after the game was set to an installation. The command sets the release
server and, where there is one, the pre-release server of the installation. It leaves all else that
is saved, so a release server of its own that was saved earlier still goes first, and so does a
pre-release server where the installation has none.
-/

namespace JarAtlas

open JarAtlas.Action Settings Detection Json Path

namespace Host

variable {h h' : Host} {p q : Path} {place : Place} {content : Content}

/-- The machine is in order: everything lies in a directory, and the path of the current directory
consists of proper names. -/
structure IsSound (h : Host) : Prop where
  rooted : h.files.Rooted
  names : ∀ part ∈ h.here, Path.IsName part

theorem WritesAt.isJar_after (hwrites : h.WritesAt p place)
    (hgains : (h.storing place content).GainsDirs h') (hrooted : h.files.Rooted)
    (hsteady : h.IsSteady q) (hne : h.meant q ≠ place)
    (hjar : (isJar q).outcome h = (.ok false, h)) :
    (isJar q).outcome h' = (.ok false, h') := by
  have hkept : h.Preserves h' :=
    ⟨hgains.env, hgains.here, (hwrites.grows content).files.trans hgains.keeps⟩
  have hmeant : h'.meant q = h.meant q := hgains.meant_eq q
  rw [isJar_outcome] at hjar ⊢
  have hnode := (Prod.mk.inj hjar).1
  refine Prod.ext ?_ rfl
  rcases look_constant_or q with ⟨r, hr⟩ | ⟨hnull, hshort⟩
  · rw [hr] at hnode ⊢
    exact hnode
  · rw [hsteady.look_eq hrooted hnull hshort] at hnode
    rcases (hsteady.mono hkept.here hkept.files.dirs).look_cases hnull hshort with hlook | hlook
    · rw [hlook]
      rfl
    · rw [hlook, hmeant]
      cases hget : h'.files.get? (h.meant q) with
      | none => rfl
      | some node =>
        cases node with
        | directory => rfl
        | file other time =>
          rw [hwrites.get?_before hgains hne hget] at hnode
          exact hnode

end Host

namespace Commands

variable {h h' : Host} {root install release : Path} {prerelease : Option Path} {settings : Json}
  {value : String} {key : String} {values : List (String × Json)}

theorem gainsDirs_of_tellSuccess
    (htell : (tellSuccess key values).outcome h = (.ok (), h')) : h.GainsDirs h' :=
  ((makesDirs_tellSuccess key values).addsDirs htell).toGainsDirs

def withServers (release : Path) (prerelease : Option Path) (fields : List (String × Json)) :
    List (String × Json) :=
  let fields := Json.assign "jar_path" (.str release.text) fields
  match prerelease with
  | none => fields
  | some p => Json.assign "jar_path_prerelease" (.str p.text) fields

theorem lookup_withServers {name : String} (hjar : name ≠ "jar_path")
    (hown : prerelease = none ∨ name ≠ "jar_path_prerelease") (fields : List (String × Json)) :
    lookup name (withServers release prerelease fields) = lookup name fields := by
  cases prerelease with
  | none => rw [withServers, lookup_assign, if_neg hjar]
  | some p =>
    have hname : name ≠ "jar_path_prerelease" := hown.resolve_left (Option.some_ne_none p)
    rw [withServers, lookup_assign, if_neg hname, lookup_assign, if_neg hjar]

theorem lookup_withServers_jar (release : Path) (prerelease : Option Path)
    (fields : List (String × Json)) :
    lookup "jar_path" (withServers release prerelease fields) = some (.str release.text) := by
  cases prerelease with
  | none => rw [withServers, lookup_assign, if_pos rfl]
  | some p =>
    rw [withServers, lookup_assign, if_neg (by decide), lookup_assign, if_pos rfl]

theorem lookup_withServers_own (release prerelease : Path) (fields : List (String × Json)) :
    lookup "jar_path_prerelease" (withServers release (some prerelease) fields) =
      some (.str prerelease.text) := by
  rw [withServers, lookup_assign, if_pos rfl]

theorem isKept_withServers {fields : List (String × Json)} (hkept : (obj fields).IsKept)
    (release : Path) (prerelease : Option Path) :
    (obj (withServers release prerelease fields)).IsKept := by
  cases prerelease with
  | none => exact hkept.assign _ _
  | some p => exact (hkept.assign _ _).assign _ _

theorem saved_of_outcome_ok {changed : Except Fault Json} (hsaved : (do
      save root (← Action.ofExcept changed)
      tellSuccess key values : Action Unit).outcome h = (.ok (), h')) :
    ∃ new h₁, changed = .ok new ∧ (save root new).outcome h = (.ok (), h₁) ∧
      h₁.GainsDirs h' := by
  obtain ⟨new, hnew, hrest⟩ := (reads_ofExcept _).bind_ok hsaved
  obtain ⟨_, h₁, hsave, htell⟩ := bind_ok_iff.mp hrest
  exact ⟨new, h₁, (ofExcept_ok hnew).1, hsave, gainsDirs_of_tellSuccess htell⟩

theorem setInstallation_outcome_ok
    (hservers : (serversIn install).outcome h = (.ok (some release, prerelease), h))
    (hset : (setInstallation root install settings value).outcome h = (.ok 0, h')) :
    ∃ fields h₁, settings = .obj fields ∧
      (save root (.obj (withServers release prerelease fields))).outcome h = (.ok (), h₁) ∧
      h₁.GainsDirs h' := by
  rw [setInstallation, bind_of_ok hservers] at hset
  cases prerelease with
  | none =>
    obtain ⟨_, h₂, hsaved, hset⟩ := bind_ok_iff.mp hset
    obtain ⟨_, h₃, htold, hset⟩ := bind_ok_iff.mp hset
    obtain ⟨-, rfl⟩ := pure_ok hset
    obtain ⟨new, h₁, hnew, hsave, hgains⟩ := saved_of_outcome_ok hsaved
    obtain ⟨fields, rfl, rfl⟩ := exists_of_assign_ok hnew
    exact ⟨fields, h₁, rfl, hsave, hgains.trans (gainsDirs_of_tellSuccess htold)⟩
  | some prerelease =>
    obtain ⟨_, h₂, hsaved, hset⟩ := bind_ok_iff.mp hset
    obtain ⟨_, h₃, htold, hset⟩ := bind_ok_iff.mp hset
    obtain ⟨_, h₄, halso, hset⟩ := bind_ok_iff.mp hset
    obtain ⟨-, rfl⟩ := pure_ok hset
    obtain ⟨new, h₁, hnew, hsave, hgains⟩ := saved_of_outcome_ok hsaved
    obtain ⟨first, hfirst, hnew⟩ := ok_of_bind hnew
    obtain ⟨fields, rfl, rfl⟩ := exists_of_assign_ok hfirst
    obtain ⟨_, heq, rfl⟩ := exists_of_assign_ok hnew
    obtain rfl := obj.inj heq
    exact ⟨fields, h₁, rfl, hsave, (hgains.trans (gainsDirs_of_tellSuccess htold)).trans
      (gainsDirs_of_tellSuccess halso)⟩

/-- What is found for the pre-release line when only the release server of an installation is set.
-/
def fromRelease (h : Host) (install : Path) : Except Fault (Option Path) :=
  let release := Detection.serverIn install .release
  if Text.contains (Settings.slashed release) "pre-release" then .ok (some release)
  else if "install" ∈ install.parts then ((Detection.sibling? release).outcome h).1
  else .ok none

section Installation

variable {place : Place} {hasPre : Bool} {v : ServerVersion} {spot : Place} {content : Content}

theorem exists_installation (hinstall : h.resolve (parse value) = .ok install)
    (hdir : h.isDir install = .ok true) :
    ∃ place, install = .absolute place ∧ ".." ∉ place ∧ install.hasNull = false ∧
      h.resolve install = .ok install ∧
      ((∀ part ∈ h.here, IsName part) → ∀ part ∈ place, IsName part) := by
  obtain ⟨_, hnull, -, -⟩ := Host.isDir_eq_true_iff.mp hdir
  unfold Host.resolve at hinstall
  split at hinstall
  · cases hinstall
  · cases hinstall
    have hdown := not_mem_parts_resolve h.here (parse value)
    refine ⟨_, rfl, hdown, hnull, ?_, fun hhere => isName_of_mem_resolve hhere value⟩
    rw [Host.resolve, hnull, if_neg (by decide)]
    exact congrArg Except.ok (resolve_absolute hdown h.here)

theorem resolve_of {p : Path} {r : Except Fault Path} (hp : h.resolve p = r) :
    (resolve p).outcome h = (r, h) := by
  rw [outcome_resolve, hp]

theorem isDir_of {p : Path} {r : Except Fault Bool} (hp : h.isDir p = r) :
    (isDir p).outcome h = (r, h) := by
  rw [outcome_isDir, hp]

theorem serversIn_outcome (hresolve : h.resolve install = .ok install)
    (hdir : h.isDir install = .ok true)
    (hrelease : (isJar (serverIn install .release)).outcome h = (.ok true, h))
    (hprerelease : (isJar (serverIn install .prerelease)).outcome h =
      (.ok hasPre, h)) :
    (serversIn install).outcome h =
      (.ok (some (serverIn install .release),
        if hasPre then some (serverIn install .prerelease) else none), h) := by
  rw [serversIn, bind_of_ok (resolve_of hresolve), bind_of_ok (isDir_of hdir), if_pos rfl,
    bind_of_ok (jarAt?_outcome hrelease), bind_of_ok (jarAt?_outcome hprerelease)]
  rfl

theorem isInstallation_outcome (hresolve : h.resolve install = .ok install)
    (hdir : h.isDir install = .ok true)
    (hrelease : h.isFile (serverIn install .release) = .ok true) :
    (isInstallation install).outcome h = (.ok true, h) := by
  rw [isInstallation, bind_of_ok (resolve_of hresolve), bind_of_ok (isDir_of hdir), if_pos rfl]
  have hfile : (isFile (serverIn install .release)).outcome h = (.ok true, h) := by
    rw [outcome_isFile, hrelease]
  exact bind_of_ok hfile

theorem load_after_setInstallation (hkept : settings.IsKept)
    (hservers : (serversIn install).outcome h = (.ok (some release, prerelease), h))
    (hset : (setInstallation root install settings value).outcome h = (.ok 0, h')) :
    ∃ fields spot content, settings = .obj fields ∧ h.WritesAt (path root) spot ∧
      (h.storing spot content).GainsDirs h' ∧
      (load root).outcome h' =
        (.ok (.obj (withServers release prerelease fields)), h') := by
  obtain ⟨fields, h₁, rfl, hsave, hgains⟩ := setInstallation_outcome_ok hservers hset
  have hnew := isKept_withServers hkept release prerelease
  rcases save_outcome hnew.bounded hnew.plain root h with ⟨e, hfails⟩ | ⟨spot, hwrites, hsaved⟩
  · rw [hfails] at hsave
    cases hsave
  · rw [hsaved] at hsave
    cases hsave
    exact ⟨fields, spot, _, rfl, hwrites, hgains, load_of_holds hnew.bounded hnew.plain
      (hgains.toGains.holds (hwrites.holds _))⟩

theorem setGame_outcome (hload : (load root).outcome h = (.ok settings, h))
    (hinstall : h.resolve (parse value) = .ok install) (hdir : h.isDir install = .ok true)
    (hfound : (isInstallation install).outcome h = (.ok true, h)) :
    (setGame root value).outcome h = (setInstallation root install settings value).outcome h := by
  rw [setGame, bind_of_ok (resolve_of hinstall), bind_of_ok hload, bind_of_ok (isDir_of hdir),
    bind_of_ok hfound]
  rfl

theorem path?_of_server {fields : List (String × Json)} {name : String}
    (hnames : ∀ part ∈ place, IsName part) (hlookup : lookup name fields =
      some (.str (serverIn (.absolute place) v).text)) :
    path? (.obj fields) name = .ok (some (serverIn (.absolute place) v)) := by
  have hparts : ∀ part ∈ place ++ serverParts v, IsName part :=
    List.forall_mem_append.mpr ⟨hnames, isName_serverParts v⟩
  rw [serverIn_absolute] at hlookup ⊢
  rw [path?_of_lookup (text_absolute_ne _) hlookup, parse_text hparts]

theorem meant_serverIn_ne (hwrites : h.WritesAt (path root) spot) (install : Path)
    (v : ServerVersion) : h.meant (serverIn install v) ≠ spot := by
  have hparts : (serverIn install v).parts =
      install.parts ++ ["install", folder v, "package", "game", "latest", "Server"] ++
        [Layout.serverName] := by
    simp [serverIn]
  exact hwrites.meant_ne hparts (by decide) (by decide)

theorem isFile_server_after (hwrites : h.WritesAt (path root) spot)
    (hgains : (h.storing spot content).GainsDirs h')
    (hfile : h.isFile (serverIn install v) = .ok true) :
    h'.isFile (serverIn install v) = .ok true := by
  obtain ⟨jar, hholds⟩ := Host.isFile_eq_true_iff.mp hfile
  exact (hwrites.holds_after hgains hholds (meant_serverIn_ne hwrites install v)).isFile_eq

theorem fromRelease_eq (hsound : h.IsSound) (hdir : h.isDir (.absolute place) = .ok true)
    (hdown : ".." ∉ place) (hwrites : h.WritesAt (path root) spot)
    (hgains : (h.storing spot content).GainsDirs h')
    (hprerelease : (isJar (serverIn (.absolute place) .prerelease)).outcome h =
      (.ok false, h)) :
    (if Text.contains (slashed (serverIn (.absolute place) .release))
        "pre-release"
      then .ok (some (serverIn (.absolute place) .release))
      else ((sibling? (serverIn (.absolute place) .release)).outcome h').1) =
      fromRelease h' (.absolute place) := by
  obtain ⟨goal, hnull, hplace, -⟩ := Host.isDir_eq_true_iff.mp hdir
  have hsteady : h.IsSteady (serverIn (.absolute place) .prerelease) :=
    ⟨place, serverParts .prerelease, goal, rfl, Host.walk_of_locate hplace,
      leadDown_serverParts _⟩
  have hnone := hwrites.isJar_after hgains hsound.rooted hsteady
    (meant_serverIn_ne hwrites _ _) hprerelease
  rw [fromRelease]
  split
  · rfl
  · split
    · rfl
    · next hinstall =>
      rw [sibling?_serverIn hdown hinstall hnull, jarAt?_outcome hnone]
      rfl

end Installation

/-- After the game was set to an installation, each version line leads to its server there, unless
another path is saved. A path saved for the release line is never replaced, and one for the pre-
release line only if the installation has a pre-release server. -/
theorem jars_after_game_set {hasPre : Bool} (hsound : h.IsSound) (hreached : Reached root h)
    (hload : (Settings.load root).outcome h = (.ok settings, h))
    (hinstall : h.resolve (Path.parse value) = .ok install) (hdir : h.isDir install = .ok true)
    (hrelease : (Detection.isJar (Detection.serverIn install .release)).outcome h = (.ok true, h))
    (hprerelease : (Detection.isJar (Detection.serverIn install .prerelease)).outcome h =
      (.ok hasPre, h))
    (hset : (configure root "game_path" value).outcome h = (.ok 0, h')) :
    (Settings.releaseJar? root).outcome h' =
      (Settings.savedOr h' (Settings.path? settings "jar_path_release")
        (.ok (some (Detection.serverIn install .release))), h') ∧
    (Settings.prereleaseJar? root).outcome h' =
      (if hasPre then .ok (some (Detection.serverIn install .prerelease))
        else Settings.savedOr h' (Settings.path? settings "jar_path_prerelease")
          (fromRelease h' install), h') := by
  obtain ⟨place, rfl, hdown, hnull, hresolve, hnames⟩ := exists_installation hinstall hdir
  have hfile := Detection.isFile_of_isJar hrelease
  have hservers := serversIn_outcome hresolve hdir hrelease hprerelease
  have hfound := isInstallation_outcome hresolve hdir hfile
  have hset : (setGame root value).outcome h = (.ok 0, h') := hset
  rw [setGame_outcome hload hinstall hdir hfound] at hset
  obtain ⟨fields, spot, content, rfl, hwrites, hgains, hnew⟩ :=
    load_after_setInstallation (Settings.isKept_of_load hreached.hasPlainSettings hload) hservers
      hset
  have hthere := isFile_server_after hwrites hgains hfile
  have hline : Text.contains (Settings.slashed (Detection.serverIn (.absolute place) .release))
      "release" = true :=
    Settings.contains_slashed (by simp [Detection.serverIn, Detection.folder]) (by decide)
  have hjar := path?_of_server (hnames hsound.names) (lookup_withServers_jar
    (Detection.serverIn (.absolute place) .release)
    (if hasPre then some (Detection.serverIn (.absolute place) .prerelease) else none) fields)
  constructor
  · rw [Settings.releaseJar?_outcome hnew hjar hthere hline,
      Settings.path?_congr (lookup_withServers (by decide) (.inr (by decide)) fields)]
  · rw [Settings.prereleaseJar?_outcome hnew hjar hthere hline]
    cases hasPre with
    | false =>
      simp only [Bool.false_eq_true, if_false]
      rw [Settings.path?_congr (lookup_withServers (by decide) (.inl rfl) fields),
        fromRelease_eq hsound hdir hdown hwrites hgains hprerelease]
    | true =>
      have hown := path?_of_server (hnames hsound.names) (lookup_withServers_own
        (Detection.serverIn (.absolute place) .release)
        (Detection.serverIn (.absolute place) .prerelease) fields)
      have halso := isFile_server_after hwrites hgains (Detection.isFile_of_isJar hprerelease)
      simp only [if_true, hown, Settings.savedOr, halso]

/-- The settings of a workspace in which a release server was saved. -/
def olderSettings : Json :=
  .obj [("jar_path_release", .str "/old.jar")]

def smallJar : Content :=
  .archive [("META-INF/MANIFEST.MF", .bytes [], false)]

def updatedWorkspace : Host where
  files := ⟨[(["w"], .directory), (["w", settingsName], .file (.ofText olderSettings.pretty) 1),
    (["old.jar"], .file smallJar 1), (["v"], .directory), (["v", "install"], .directory),
    (["v", "install", "release"], .directory),
    (["v", "install", "release", "package"], .directory),
    (["v", "install", "release", "package", "game"], .directory),
    (["v", "install", "release", "package", "game", "latest"], .directory),
    (["v", "install", "release", "package", "game", "latest", "Server"], .directory),
    (["v", "install", "release", "package", "game", "latest", "Server", Layout.serverName],
      .file smallJar 1)]⟩
  env := [("PRISM_WORKSPACE", "/w")]
  here := ["w"]

theorem isSound_updatedWorkspace : updatedWorkspace.IsSound where
  rooted := FileTree.rooted_of_nodes (by decide +kernel)
  names := by decide

theorem isKept_olderSettings : olderSettings.IsKept :=
  ⟨rfl, by decide +kernel⟩

theorem reached_updatedWorkspace : Reached (.absolute ["w"]) updatedWorkspace :=
  .start (Host.hasPlainSettings_of_get? isKept_olderSettings rfl)

theorem load_updatedWorkspace :
    (load (.absolute ["w"])).outcome updatedWorkspace =
      (.ok olderSettings, updatedWorkspace) := by
  apply load_of_holds isKept_olderSettings.bounded isKept_olderSettings.plain
  exact ⟨by decide, ["w", settingsName], 1, rfl, rfl⟩

theorem exists_run_updatedWorkspace : ∃ h',
    (configure (.absolute ["w"]) "game_path" "/v").outcome updatedWorkspace = (.ok 0, h') ∧
    h'.isFile (.absolute ["old.jar"]) = .ok true := by
  have hrun : ((configure (.absolute ["w"]) "game_path" "/v").outcome updatedWorkspace).1.toOption =
      some 0 ∧ (((configure (.absolute ["w"]) "game_path" "/v").outcome updatedWorkspace).2.isFile
        (.absolute ["old.jar"])).toOption = some true := by
    decide +kernel
  rcases hset : (configure (.absolute ["w"]) "game_path" "/v").outcome updatedWorkspace with ⟨r, h'⟩
  rw [hset] at hrun
  exact ⟨h', Prod.ext (ok_of_toOption hrun.1) rfl, ok_of_toOption hrun.2⟩

/-- The older server is found, although the game was set to the new installation. -/
theorem jars_after_game_set_updatedWorkspace : ∃ h',
    (configure (.absolute ["w"]) "game_path" "/v").outcome updatedWorkspace = (.ok 0, h') ∧
    (Settings.releaseJar? (.absolute ["w"])).outcome h' = (.ok (some (.absolute ["old.jar"])), h') ∧
    (Settings.prereleaseJar? (.absolute ["w"])).outcome h' = (.ok none, h') := by
  obtain ⟨h', hset, hold⟩ := exists_run_updatedWorkspace
  have hsaved : Settings.path? olderSettings "jar_path_release" =
      .ok (some (.absolute ["old.jar"])) := rfl
  have hnone : Settings.path? olderSettings "jar_path_prerelease" = .ok none := rfl
  have hother : fromRelease h' (.absolute ["v"]) = .ok none := by
    rw [fromRelease, if_neg (by decide), if_neg (by decide)]
  have hinstall : updatedWorkspace.resolve (Path.parse "/v") = .ok (.absolute ["v"]) := rfl
  have hmissing : (Detection.isJar (Detection.serverIn (.absolute ["v"]) .prerelease)).outcome
      updatedWorkspace = (.ok false, updatedWorkspace) := rfl
  obtain ⟨hrelease, hprerelease⟩ := jars_after_game_set isSound_updatedWorkspace
    reached_updatedWorkspace load_updatedWorkspace hinstall rfl rfl hmissing hset
  rw [hsaved] at hrelease
  rw [hnone] at hprerelease
  simp only [Settings.savedOr, hold] at hrelease
  simp only [Settings.savedOr, hother] at hprerelease
  exact ⟨h', hset, hrelease, hprerelease⟩

end Commands

end JarAtlas
