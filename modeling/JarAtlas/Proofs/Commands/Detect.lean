import JarAtlas.Proofs.Commands.Game

/-!
Which servers are saved. Whatever way a server was found, it was looked at under a name that leads
to the same file as the anchored path under which it is saved, and saving writes no file that counts
as a server. A directory in the environment never gets that far: it is refused before it is searched.
-/

namespace JarAtlas

open JarAtlas.Action Settings Detection Json Path

namespace Host

variable {h h' : Host} {p jar full root : Path} {place : Place} {content : Content}

/-- The current directory is the one that its path names, and so is every file: its anchored path
consists of proper names and is not too long. -/
structure IsRegular (h : Host) : Prop where
  placed : h.IsPlaced
  named : ∀ place content time, h.files.get? place = some (.file content time) →
    (∀ part ∈ place, IsName part) ∧ (absolute place).text.utf8ByteSize ≤ FileTree.maxPathSize

theorem IsRegular.gain (hregular : h.IsRegular) (hgains : h.GainsDirs h') : h'.IsRegular where
  placed := by
    rw [IsPlaced, hgains.here]
    exact ⟨hregular.placed.1, FileTree.walk_eq hgains.keeps.dirs hregular.placed.2⟩
  named place content time hget := hregular.named place content time (hgains.get?_before hget)

/-- The path is that of a JAR file, and anchored. -/
structure HasJar (h : Host) (p : Path) : Prop where
  isJar : (isJar p).outcome h = (.ok true, h)
  anchored : h.resolve p = .ok p

theorem resolve_of_down {place : Place} (hnull : (absolute place).hasNull = false)
    (hdown : ".." ∉ place) : h.resolve (.absolute place) = .ok (.absolute place) := by
  rw [resolve, hnull, if_neg (by decide), resolve_absolute hdown]

theorem resolve_again (hfull : h.resolve jar = .ok full) (hnull : full.hasNull = false) :
    h.resolve full = .ok full := by
  obtain ⟨-, rfl⟩ := resolve_eq_ok hfull
  exact resolve_of_down hnull (not_mem_parts_resolve h.here jar)

theorem IsRegular.hasJar (hregular : h.IsRegular) (hjar : (isJar jar).outcome h = (.ok true, h))
    (hfull : h.resolve jar = .ok full) : h.HasJar full ∧ parse full.text = full := by
  obtain ⟨content, ⟨-, place, time, hplace, hget⟩, -⟩ := isJar_iff.mp hjar
  obtain rfl := eq_meant_of_locate hplace
  obtain ⟨hnames, hshort⟩ := hregular.named _ content time hget
  have hmeant : full = .absolute (h.meant jar) := by
    rw [(resolve_eq_ok hfull).2, resolve_eq_meant fun _ => hregular.placed]
  have hline := isJar_resolve hjar hfull fun _ => ⟨hregular.placed, hmeant ▸ hshort⟩
  obtain ⟨_, ⟨hnull, -⟩, -⟩ := isJar_iff.mp hline
  exact ⟨⟨hline, resolve_again hfull hnull⟩, hmeant ▸ parse_text hnames⟩

theorem IsRegular.parse_text (hregular : h.IsRegular) (hjar : h.HasJar p) : parse p.text = p :=
  (hregular.hasJar hjar.isJar hjar.anchored).2

/-- Writing the settings, and making directories, leaves every JAR file what it is. -/
theorem WritesAt.isJar_kept (hwrites : h.WritesAt (path root) place)
    (hgains : (h.storing place content).GainsDirs h') (hjar : (isJar p).outcome h = (.ok true, h)) :
    (isJar p).outcome h' = (.ok true, h') := by
  obtain ⟨jar, hholds, hsuffix, hclasses⟩ := isJar_iff.mp hjar
  obtain ⟨parts, hparts, hdown⟩ := exists_parts_of_suffix hsuffix
  have hne : h.meant p ≠ place := by
    apply hwrites.meant_ne hparts hdown
    intro hname
    rw [suffix, hname] at hsuffix
    exact absurd hsuffix (by decide)
  exact isJar_iff.mpr ⟨jar, hwrites.holds_after hgains hholds hne, hsuffix, hclasses⟩

end Host

namespace Detection

variable {h : Host} {install jar p root : Path} {release prerelease : Option Path}

theorem hasJar_of_serversIn
    (hservers : (serversIn install).outcome h = (.ok (release, prerelease), h))
    (hp : release = some p ∨ prerelease = some p) : h.HasJar p := by
  obtain ⟨full, hfull, hrest⟩ := (reads_resolve install).bind_ok hservers
  rw [outcome_resolve] at hfull
  obtain ⟨-, rfl⟩ := Host.resolve_eq_ok (Prod.mk.inj hfull).1
  obtain ⟨isDir, -, hrest⟩ := (reads_isDir _).bind_ok hrest
  have hanchored {v : ServerVersion} (hfound : (jarAt? (serverIn (install.resolve h.here) v)).outcome
      h = (.ok (some p), h)) : h.HasJar p := by
    obtain ⟨rfl, hjar⟩ := jarAt?_outcome_some hfound
    obtain ⟨_, ⟨hnull, -⟩, -⟩ := isJar_iff.mp hjar
    refine ⟨hjar, Host.resolve_of_down hnull (List.mem_append.not.mpr (not_or.mpr ⟨?_, ?_⟩))⟩
    · exact not_mem_parts_resolve h.here install
    · cases v <;> decide
  cases isDir with
  | false =>
    cases (pure_ok hrest).1
    rcases hp with hp | hp <;> cases hp
  | true =>
    obtain ⟨first, hfirst, hrest⟩ := (reads_jarAt? _).bind_ok hrest
    obtain ⟨second, hsecond, hrest⟩ := (reads_jarAt? _).bind_ok hrest
    cases (pure_ok hrest).1
    rcases hp with rfl | rfl
    · exact hanchored hfirst
    · exact hanchored hsecond

theorem hasJar_of_sibling? (hsibling : (sibling? jar).outcome h = (.ok (some p), h)) :
    h.HasJar p := by
  obtain ⟨front, v, rest, -, hresolve, rfl, hjar⟩ := sibling?_outcome_iff.mp hsibling
  obtain ⟨_, ⟨hnull, -⟩, -⟩ := isJar_iff.mp hjar
  exact ⟨hjar, resolve_exchanged hresolve hnull⟩

theorem isJar_of_firstServer? (hfound : (firstServer? install).outcome h = (.ok (some jar), h)) :
    (isJar jar).outcome h = (.ok true, h) := by
  obtain ⟨⟨release, prerelease⟩, hservers, hrest⟩ :=
    (reads_serversIn install).bind_ok hfound
  cases release with
  | some p =>
    cases (pure_ok hrest).1
    exact (hasJar_of_serversIn hservers (.inl rfl)).isJar
  | none =>
    obtain ⟨rfl, -⟩ := pure_ok hrest
    exact (hasJar_of_serversIn hservers (.inr rfl)).isJar

theorem isJar_of_namedServer? (hfound : namedServer?.outcome h = (.ok (some jar), h)) :
    (isJar jar).outcome h = (.ok true, h) := by
  rw [namedServer?, outcome_get_bind] at hfound
  split at hfound
  · cases (pure_ok hfound).1
  · obtain ⟨p, -, hfound⟩ := (reads_resolve _).bind_ok hfound
    obtain ⟨isDir, -, hfound⟩ := (reads_isDir p).bind_ok hfound
    obtain ⟨isFound, -, hfound⟩ := (reads_isInstallation p).bind_ok hfound
    split at hfound
    · exact isJar_of_firstServer? hfound
    · obtain ⟨rfl, hjar⟩ := jarAt?_outcome_some hfound
      exact hjar

theorem isJar_of_serverAt? (hfound : (serverAt? p).outcome h = (.ok (some jar), h)) :
    (isJar jar).outcome h = (.ok true, h) := by
  obtain ⟨isFound, -, hfound⟩ := (reads_isInstallation p).bind_ok hfound
  split at hfound
  · exact isJar_of_firstServer? hfound
  · obtain ⟨found, -, hfound⟩ := (reads_findIn? p _).bind_ok hfound
    cases found with
    | none => cases (pure_ok hfound).1
    | some q =>
      obtain ⟨rfl, hjar⟩ := jarAt?_outcome_some hfound
      exact hjar

theorem isJar_of_findSomeM? {places : List Path}
    (hfound : (places.findSomeM? serverAt?).outcome h = (.ok (some jar), h)) :
    (isJar jar).outcome h = (.ok true, h) := by
  induction places with
  | nil => cases (pure_ok hfound).1
  | cons p places ih =>
    obtain ⟨found, hfirst, hfound⟩ := (reads_serverAt? p).bind_ok hfound
    cases found with
    | none => exact ih hfound
    | some q =>
      cases (pure_ok hfound).1
      exact isJar_of_serverAt? hfirst

/-- Whatever way the server was found, it passes for a JAR file. -/
theorem isJar_of_server? (hfound : (server? root).outcome h = (.ok (some jar), h)) :
    (isJar jar).outcome h = (.ok true, h) := by
  obtain ⟨named, hnamed, hfound⟩ := reads_namedServer?.bind_ok hfound
  cases named with
  | some p =>
    cases (pure_ok hfound).1
    exact isJar_of_namedServer? hnamed
  | none =>
    obtain ⟨set, -, hfound⟩ := (reads_jar? root).bind_ok hfound
    have hreads : ((set.map jarAt?).getD (pure none)).Reads := by
      cases set with
      | none => exact reads_pure _
      | some p => exact reads_jarAt? p
    obtain ⟨found, hset, hfound⟩ := hreads.bind_ok hfound
    cases found with
    | none =>
      obtain ⟨places, -, hfound⟩ := reads_usualPlaces.bind_ok hfound
      exact isJar_of_findSomeM? hfound
    | some q =>
      cases (pure_ok hfound).1
      cases set with
      | none => cases (pure_ok hset).1
      | some p =>
        obtain ⟨rfl, hjar⟩ := jarAt?_outcome_some hset
        exact hjar

end Detection

namespace Settings

/-- The settings file holds the settings as they were loaded, with texts assigned. -/
def Saves (root : Path) (texts : List (String × String)) (h h' : Host) : Prop :=
  ∃ h₁ fields, h.GainsDirs h₁ ∧ (load root).outcome h₁ = (.ok (.obj fields), h₁) ∧
    h'.Holds (path root) (.ofText (Json.obj (assignAll texts fields)).pretty)

variable {h h₁ h₂ h' : Host} {root : Path} {loaded new : Json} {texts : List (String × String)}

theorem writesAt_of_save (hsave : (save root new).outcome h = (.ok (), h')) :
    ∃ place, h.WritesAt (path root) place ∧ h' = h.storing place (.ofText new.pretty) := by
  cases hcan : h.canWrite (path root) with
  | false =>
    obtain ⟨e, hfails⟩ := save_outcome_of_not_canWrite hcan new
    rw [hfails] at hsave
    cases hsave
  | true =>
    obtain ⟨place, hwrites⟩ := Host.canWrite_iff.mp hcan
    obtain ⟨r, hsaved, hwhole⟩ := save_outcome_of_writesAt hwrites new
    rw [hsaved] at hsave
    cases hsave
    have hunmarked := (writable_eq new).2.mp (hwhole.mp rfl)
    refine ⟨place, hwrites, ?_⟩
    rw [(writable_eq new).1, untilMark_eq_self hunmarked]
    rfl

def serverKeys : List String :=
  ["jar_path", "jar_path_release", "jar_path_prerelease"]

/-- Texts that are saved for servers are paths of JAR files. -/
def NameJars (texts : List (String × String)) (h : Host) : Prop :=
  ∀ text ∈ texts, text.1 ∈ serverKeys →
    (Detection.isJar (Path.parse text.2)).outcome h = (.ok true, h)

theorem Saves.after (hsaves : Saves root texts h₁ h') (hbefore : h.GainsDirs h₁) :
    Saves root texts h h' := by
  obtain ⟨h₂, fields, hgains, hrest⟩ := hsaves
  exact ⟨h₂, fields, hbefore.trans hgains, hrest⟩

/-- Texts are saved, those for servers as paths of JAR files wherever paths name files. -/
def SavesServers (root : Path) (texts : List (String × String)) (h h' : Host) : Prop :=
  Saves root texts h h' ∧ (h.IsRegular → NameJars texts h')

/-- Texts that are to be saved for servers are anchored paths of JAR files. -/
def AreServers (texts : List (String × String)) (h : Host) : Prop :=
  ∀ text ∈ texts, text.1 ∈ serverKeys → ∃ p, h.HasJar p ∧ text.2 = p.text

variable (hload : (load root).outcome h = (.ok loaded, h))

include hload

theorem saves_of_save (hnew : Assigned texts loaded new) (htexts : h.IsRegular → AreServers texts h)
    (hsave : (save root new).outcome h = (.ok (), h₁)) (hafter : h₁.GainsDirs h') :
    SavesServers root texts h h' := by
  obtain ⟨fields, rfl, rfl⟩ := hnew
  obtain ⟨place, hwrites, rfl⟩ := writesAt_of_save hsave
  refine ⟨⟨h, fields, .refl h, hload, hafter.toGains.holds (hwrites.holds _)⟩, ?_⟩
  intro hregular text htext hkey
  obtain ⟨p, hjar, hname⟩ := htexts hregular text htext hkey
  rw [hname, hregular.parse_text hjar]
  exact hwrites.isJar_kept hafter hjar.isJar

theorem saves_with_sibling {settings : Json} {jar : Path} (hold : Assigned texts loaded settings)
    (htexts : h.IsRegular → AreServers texts h) {rest : Option Path → Action Nat}
    (hrest : ∀ sibling, (rest sibling).MakesDirs) {code : Nat} (hrun : (do
      let sibling ← sibling? jar
      let settings ← Action.ofExcept (Commands.assignSibling settings jar sibling)
      save root settings
      rest sibling : Action Nat).outcome h = (.ok code, h')) :
    ∃ more, SavesServers root (texts ++ more) h h' := by
  obtain ⟨sibling, hsibling, hrun⟩ := (reads_sibling? jar).bind_ok hrun
  obtain ⟨new, hnew, hrun⟩ := (reads_ofExcept _).bind_ok hrun
  obtain ⟨_, h₁, hsave, hrun⟩ := bind_ok_iff.mp hrun
  have hafter := ((hrest sibling).addsDirs hrun).toGainsDirs
  have hnew := (ofExcept_ok hnew).1
  cases sibling with
  | none =>
    obtain rfl : settings = new := Except.ok.inj hnew
    refine ⟨[], ?_⟩
    rw [List.append_nil]
    exact saves_of_save hload hold htexts hsave hafter
  | some s =>
    refine ⟨_, saves_of_save hload (hold.append hnew) (fun hregular => ?_) hsave hafter⟩
    rw [AreServers, List.forall_mem_append, List.forall_mem_singleton]
    exact ⟨htexts hregular, fun _ => ⟨s, hasJar_of_sibling? hsibling, rfl⟩⟩

end Settings

namespace Commands

variable {h h' : Host} {root jar install : Path} {settings : Json} {value : String} {code : Nat}

section Each

variable (hload : (load root).outcome h = (.ok settings, h))

include hload

theorem saves_of_saveServer (hjar : (isJar jar).outcome h = (.ok true, h))
    (hset : (saveServer root jar).outcome h = (.ok code, h')) :
    ∃ full texts, h.resolve jar = .ok full ∧
      SavesServers root (("jar_path", full.text) :: texts) h h' := by
  rw [saveServer, bind_of_ok hload] at hset
  obtain ⟨full, hfull, hset⟩ := (reads_resolve jar).bind_ok hset
  rw [outcome_resolve] at hfull
  have hfull := (Prod.mk.inj hfull).1
  obtain ⟨first, hfirst, hset⟩ := (reads_ofExcept _).bind_ok hset
  obtain ⟨p, -, hset⟩ := (Layout.reads_workspace root).bind_ok hset
  obtain ⟨workspace, -, hset⟩ := (reads_resolve p).bind_ok hset
  obtain ⟨second, hsecond, hset⟩ := (reads_ofExcept _).bind_ok hset
  have hassigned := (assigned_of_assign (ofExcept_ok hfirst).1).append
    (ofExcept_ok hsecond).1
  have hservers (hregular : h.IsRegular) :
      AreServers [("jar_path", full.text), ("output_dir", workspace.text)] h := by
    rw [AreServers, List.forall_mem_cons, List.forall_mem_singleton]
    exact ⟨fun _ => ⟨full, (hregular.hasJar hjar hfull).1, rfl⟩, fun hkey =>
      absurd (show "output_dir" ∈ serverKeys from hkey) (by decide)⟩
  obtain ⟨more, hsaved⟩ := saves_with_sibling hload hassigned hservers
    (fun sibling => (makesDirs_tellSuccess _ _).bind fun _ =>
      makesDirs_tellSibling sibling (makesDirs_done _ _)) hset
  exact ⟨full, _, hfull, hsaved⟩

end Each

theorem returns_saveServer (root jar : Path) : (saveServer root jar).Returns (· = 0) := by
  iterate 10 refine returns_bind fun _ => ?_
  exact returns_tellSibling _ (returns_done _ _)

/-- All that the command can do if it returns: after it has made directories, it refuses what the
environment names, or finds nothing, or saves the server that it finds. -/
theorem detect_cases {code : Nat} (hrun : (detect root).outcome h = (.ok code, h')) :
    ∃ h₁ isNone, h.GainsDirs h₁ ∧ namesNoJar.outcome h₁ = (.ok isNone, h₁) ∧
      ((isNone = true ∨ (server? root).outcome h₁ = (.ok none, h₁)) ∧ code = 1 ∧ h.GainsDirs h' ∨
      isNone = false ∧ ∃ jar, (server? root).outcome h₁ = (.ok (some jar), h₁) ∧
        (saveServer root jar).outcome h₁ = (.ok code, h')) := by
  obtain ⟨_, h₁, hmake, hrun⟩ := bind_ok_iff.mp hrun
  have hbefore := ((makesDirs_makeWorkspace root).addsDirs hmake).toGainsDirs
  obtain ⟨isNone, hnone, hrun⟩ := reads_namesNoJar.bind_ok hrun
  refine ⟨h₁, isNone, hbefore, hnone, ?_⟩
  have hrefused {a : Action Nat} (hmakes : a.MakesDirs) (hone : a.Returns (· = 1))
      (hrun : a.outcome h₁ = (.ok code, h')) : code = 1 ∧ h.GainsDirs h' := by
    have hgains := (hmakes.addsDirs hrun).toGainsDirs
    exact ⟨hone h₁ code (congrArg Prod.fst hrun), hbefore.trans hgains⟩
  have hone (key : String) : (refuse key []).Returns (· = 1) :=
    returns_bind fun _ => returns_pure rfl
  cases isNone with
  | true => exact .inl ⟨.inl rfl, hrefused (makesDirs_refuse _ _) (hone _) hrun⟩
  | false =>
    obtain ⟨server, hserver, hrun⟩ := (reads_server? root).bind_ok hrun
    cases server with
    | some jar => exact .inr ⟨rfl, jar, hserver, hrun⟩
    | none =>
      refine .inl ⟨.inr hserver, hrefused ?_ ?_ hrun⟩
      · exact (makesDirs_tellError _ _).bind fun _ =>
          (makesDirs_tellError _ _).bind fun _ => makesDirs_refuse _ _
      · exact returns_bind fun _ => returns_bind fun _ => hone _

section Named

variable {s : String} {p : Path}

theorem isDir_of_isJar (hjar : (isJar p).outcome h = (.ok true, h)) : h.isDir p = .ok false := by
  obtain ⟨_, hholds, -⟩ := isJar_iff.mp hjar
  obtain ⟨time, hlook⟩ := hholds.look_eq
  rw [Host.isDir, hlook]
  rfl

variable (hgiven : h.given? "HYTALE_JAR_PATH" = some s) (hp : h.resolve (parse s) = .ok p)

include hgiven hp

theorem isJar_of_namesNoJar {isNone : Bool} (hnone : namesNoJar.outcome h = (.ok isNone, h)) :
    (isJar p).outcome h = (.ok (!isNone), h) := by
  have hresolve : (resolve (parse s)).outcome h = (.ok p, h) := by rw [outcome_resolve, hp]
  rw [namesNoJar, outcome_get_bind] at hnone
  simp only [hgiven] at hnone
  rw [bind_of_ok hresolve] at hnone
  obtain ⟨isThere, hjar, hnone⟩ := (reads_isJar p).bind_ok hnone
  obtain ⟨rfl, -⟩ := pure_ok hnone
  rw [hjar, Bool.not_not]

theorem server?_of_named (root : Path) (hjar : (isJar p).outcome h = (.ok true, h)) :
    (server? root).outcome h = (.ok (some p), h) := by
  obtain ⟨_, ⟨hnull, -⟩, -⟩ := isJar_iff.mp hjar
  have hresolve : (resolve (parse s)).outcome h = (.ok p, h) := by rw [outcome_resolve, hp]
  have hagain : (resolve p).outcome h = (.ok p, h) := by
    rw [outcome_resolve, Host.resolve_again hp hnull]
  have hdir : (isDir p).outcome h = (.ok false, h) := by
    rw [outcome_isDir, isDir_of_isJar hjar]
  have hinstall : (isInstallation p).outcome h = (.ok false, h) := by
    rw [isInstallation, bind_of_ok hagain, bind_of_ok hdir]
    rfl
  have hnamed : namedServer?.outcome h = (.ok (some p), h) := by
    rw [namedServer?, outcome_get_bind]
    simp only [hgiven]
    rw [bind_of_ok hresolve, bind_of_ok hdir, bind_of_ok hinstall]
    exact jarAt?_outcome hjar
  rw [server?, bind_of_ok hnamed]
  rfl

end Named

/-- Where the environment names a server, the command accepts the JAR file itself and saves it. A
directory is refused, also if the server is found in it, and nothing is saved. -/
theorem detect_named {s : String} {p : Path} (hgiven : h.given? "HYTALE_JAR_PATH" = some s)
    (hp : h.resolve (Path.parse s) = .ok p)
    (hserver : (Detection.server? root).outcome h = (.ok (some jar), h))
    (hrun : (detect root).outcome h = (.ok code, h')) :
    (h.isDir p = .ok true → jar ≠ p ∧ code = 1 ∧ h.GainsDirs h') ∧
    ((Detection.isJar p).outcome h = (.ok true, h) →
      jar = p ∧ code = 0 ∧ ∃ texts, Settings.Saves root (("jar_path", jar.text) :: texts) h h') := by
  obtain ⟨h₁, isNone, hbefore, hnone, hcases⟩ := detect_cases hrun
  have hgiven₁ := (hbefore.preserves.given?_eq _).trans hgiven
  have hp₁ : h₁.resolve (Path.parse s) = .ok p := by
    rw [← hp, Host.resolve, Host.resolve, hbefore.here]
  have hjar₁ := isJar_of_namesNoJar hgiven₁ hp₁ hnone
  constructor
  · intro hdir
    have hfalse {k : Host} (hdir : k.isDir p = .ok true) :
        (Detection.isJar p).outcome k ≠ (.ok true, k) := by
      intro hjar
      rw [isDir_of_isJar hjar] at hdir
      cases hdir
    rcases hcases with ⟨-, hrefused⟩ | ⟨rfl, -⟩
    · refine ⟨?_, hrefused⟩
      rintro rfl
      exact hfalse hdir (Detection.isJar_of_server? hserver)
    · exact absurd hjar₁ (hfalse (hbefore.preserves.isDir_eq_true hdir))
  · intro hjar
    obtain ⟨content, hholds, hname⟩ := Detection.isJar_iff.mp hjar
    have hkept := Detection.isJar_iff.mpr ⟨content, hbefore.toGains.holds hholds, hname⟩
    obtain rfl := Option.some.inj
      (Action.ok_unique hserver (server?_of_named hgiven hp root hjar))
    have hfound := server?_of_named hgiven₁ hp₁ root hkept
    rcases hcases with ⟨rfl | hno, -⟩ | ⟨-, found, hthere, hsaved⟩
    · cases Action.ok_unique hjar₁ hkept
    · cases Action.ok_unique hno hfound
    · obtain rfl := Option.some.inj (Action.ok_unique hthere hfound)
      obtain ⟨settings, hload, -⟩ := (reads_load root).bind_ok hsaved
      obtain ⟨full, texts, hfull, hsaves, -⟩ := saves_of_saveServer hload hkept hsaved
      obtain rfl := Except.ok.inj (hfull.symm.trans (Host.resolve_again hp₁ hholds.1))
      exact ⟨rfl, returns_saveServer root _ h₁ code (congrArg Prod.fst hsaved), texts,
        hsaves.after hbefore⟩

def namedWorkspace : Host :=
  { updatedWorkspace with env := [("PRISM_WORKSPACE", "/w"), ("HYTALE_JAR_PATH", "/v")] }

/-- The installation is refused there, although its server is found. -/
theorem detect_named_namedWorkspace : ∃ h',
    (Detection.server? (.absolute ["w"])).outcome namedWorkspace =
      (.ok (some (Detection.serverIn (.absolute ["v"]) .release)), namedWorkspace) ∧
    (detect (.absolute ["w"])).outcome namedWorkspace = (.ok 1, h') ∧
    namedWorkspace.GainsDirs h' := by
  have hserver : (Detection.server? (.absolute ["w"])).outcome namedWorkspace =
      (.ok (some (Detection.serverIn (.absolute ["v"]) .release)), namedWorkspace) :=
    Prod.ext (ok_of_toOption (by decide +kernel)) (Detection.reads_server? _ _)
  have hone : ((detect (.absolute ["w"])).outcome namedWorkspace).1.toOption = some 1 := by
    decide +kernel
  rcases hrun : (detect (.absolute ["w"])).outcome namedWorkspace with ⟨r, h'⟩
  rw [hrun] at hone
  obtain rfl := ok_of_toOption hone
  have hgiven : namedWorkspace.given? "HYTALE_JAR_PATH" = some "/v" := by decide
  have hp : namedWorkspace.resolve (Path.parse "/v") = .ok (.absolute ["v"]) := rfl
  obtain ⟨-, -, hgains⟩ := (detect_named hgiven hp hserver hrun).1 rfl
  exact ⟨h', hserver, rfl, hgains⟩

end Commands

end JarAtlas
