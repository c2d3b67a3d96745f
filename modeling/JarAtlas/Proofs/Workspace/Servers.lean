import JarAtlas.Proofs.Workspace.RoundTrip
import JarAtlas.Workspace.Detection

/-!
Which server the settings lead to. A path that is saved for a version line goes before everything
else while a file is there; otherwise the server that is set as such decides.
-/

namespace JarAtlas

open JarAtlas.Action Text Path

def ServerVersion.other : ServerVersion → ServerVersion
  | release => prerelease
  | prerelease => release

namespace Detection

variable {h : Host} {p : Path} {place : Place}

theorem reads_isJar (p : Path) : (isJar p).Reads := by
  refine (reads_look p).bind fun node => ?_
  split <;> exact reads_pure _

theorem reads_jarAt? (p : Path) : (jarAt? p).Reads :=
  (reads_isJar p).bind_pure

theorem reads_sibling? (jar : Path) : (sibling? jar).Reads := by
  refine (reads_resolve jar).bind fun full => ?_
  split
  · exact reads_jarAt? _
  · exact reads_pure _

theorem jarAt?_outcome {isThere : Bool} (hjar : (isJar p).outcome h = (.ok isThere, h)) :
    (jarAt? p).outcome h = (.ok (if isThere then some p else none), h) := by
  rw [jarAt?, bind_of_ok hjar, outcome_pure]

def isJarNode (p : Path) : Option Node → Bool
  | some (.file content _) => Text.lower p.suffix == ".jar" && content.entries?.any hasClasses
  | _ => false

theorem isJar_outcome (p : Path) (h : Host) :
    (isJar p).outcome h = ((h.look p).map (isJarNode p), h) := by
  rw [isJar, outcome_bind, outcome_look]
  cases h.look p with
  | error e => rfl
  | ok node => rcases node with _ | _ | _ <;> rfl

theorem isJar_iff : (isJar p).outcome h = (.ok true, h) ↔ ∃ content, h.Holds p content ∧
    lower p.suffix = ".jar" ∧ content.entries?.any hasClasses := by
  rw [isJar_outcome]
  constructor
  · intro hjar
    have hnode := (Prod.mk.inj hjar).1
    rcases hlook : h.look p with e | _ | _ | ⟨content, time⟩
    all_goals rw [hlook] at hnode
    · cases hnode
    · cases Except.ok.inj hnode
    · cases Except.ok.inj hnode
    · have hfile : (lower p.suffix == ".jar" && content.entries?.any hasClasses) = true :=
        Except.ok.inj hnode
      rw [Bool.and_eq_true, beq_iff_eq] at hfile
      exact ⟨content, Host.holds_of_look hlook, hfile⟩
  · rintro ⟨content, hholds, hsuffix, hclasses⟩
    obtain ⟨time, hlook⟩ := hholds.look_eq
    simp only [hlook, Except.map, isJarNode, hsuffix, hclasses, beq_self_eq_true, Bool.and_true]

theorem isFile_of_isJar (hjar : (isJar p).outcome h = (.ok true, h)) : h.isFile p = .ok true := by
  obtain ⟨content, hholds, -⟩ := isJar_iff.mp hjar
  exact Host.isFile_eq_true_iff.mpr ⟨content, hholds⟩

/-- The way to the server of a version line in an installation. -/
def serverParts (v : ServerVersion) : List String :=
  ["install", folder v, "package", "game", "latest", "Server", Layout.serverName]

theorem serverIn_absolute (place : Place) (v : ServerVersion) :
    serverIn (.absolute place) v = .absolute (place ++ serverParts v) :=
  rfl

theorem leadDown_serverParts (v : ServerVersion) : FileTree.LeadDown (serverParts v) := by
  cases v <;> decide

theorem isName_serverParts (v : ServerVersion) : ∀ part ∈ serverParts v, IsName part := by
  cases v <;> decide

theorem hasNull_serverIn (hnull : (absolute place).hasNull = false)
    (v : ServerVersion) : (serverIn (.absolute place) v).hasNull = false := by
  have hparts : (absolute (serverParts v)).hasNull = false := by
    cases v <;> decide
  rw [serverIn_absolute, hasNull]
  show (place ++ serverParts v).any _ = false
  rw [List.any_append, Bool.or_eq_false_iff]
  exact ⟨hnull, hparts⟩

theorem exchanged?_append {front : List String} (hfront : "install" ∉ front) (v : ServerVersion)
    (rest : List String) :
    exchanged? (front ++ "install" :: folder v :: rest) =
      some (front ++ "install" :: folder v.other :: rest) := by
  induction front with
  | nil => cases v <;> rfl
  | cons part front ih =>
    have hne : part ≠ "install" := fun h => hfront (h ▸ List.mem_cons_self)
    rw [List.cons_append, exchanged?, ih fun h => hfront (List.mem_cons_of_mem _ h)]
    · rfl
    all_goals
      intros
      contradiction

theorem sibling?_serverIn (hdown : ".." ∉ place) (hinstall : "install" ∉ place)
    (hnull : (absolute place).hasNull = false) (h : Host) :
    (sibling? (serverIn (.absolute place) .release)).outcome h =
      (jarAt? (serverIn (.absolute place) .prerelease)).outcome h := by
  have hrelease : ".." ∉ place ++ serverParts .release := by
    rw [List.mem_append, not_or]
    exact ⟨hdown, by decide⟩
  have hresolve : h.resolve (serverIn (.absolute place) .release) =
      .ok (.absolute (place ++ serverParts .release)) := by
    rw [Host.resolve, hasNull_serverIn hnull, if_neg (by decide), serverIn_absolute,
      resolve_absolute hrelease]
  rw [sibling?, outcome_bind, outcome_resolve, hresolve]
  simp only [absolute, serverParts, exchanged?_append hinstall]
  rfl

end Detection

namespace Settings

variable {h : Host} {root jar : Path} {settings : Json}

theorem contains_slashed {p : Path} {part : String} (hpart : part ∈ p.parts)
    (hplain : '\\' ∉ part.toList) : contains (slashed p) part := by
  have htext : part.toList <:+: p.text.toList := by
    rw [text, if_neg (by simp [List.ne_nil_of_mem hpart]), String.toList_append]
    exact (infix_join "/" hpart).trans (List.suffix_append _ _).isInfix
  have hsame : part.toList.map (fun c => if c = '\\' then '/' else c) = part.toList := by
    refine (List.map_congr_left fun c hc => if_neg ?_).trans (List.map_id _)
    rintro rfl
    exact hplain hc
  rw [contains, occursIn_iff, slashed, replace, String.toList_ofList]
  show _ <:+: replaceAll ['\\'] ['/'] _
  rw [replaceAll_singleton, ← hsame]
  exact htext.map _

/-- A saved path while a file is there, and the other answer else. -/
def savedOr (h : Host) (saved other : Except Fault (Option Path)) : Except Fault (Option Path) :=
  match saved with
  | .error e => .error e
  | .ok none => other
  | .ok (some p) =>
    match h.isFile p with
    | .error e => .error e
    | .ok true => .ok (some p)
    | .ok false => other

theorem fileAt?_outcome (saved : Except Fault (Option Path)) :
    (ofExcept saved >>= fileAt?).outcome h = (savedOr h saved (.ok none), h) := by
  rw [outcome_bind, outcome_ofExcept]
  rcases saved with e | _ | p
  · rfl
  · rfl
  · simp only [fileAt?, savedOr]
    rw [outcome_bind, outcome_isFile]
    rcases h.isFile p with e | _ | _ <;> rfl

theorem ownJar?_outcome (hload : (load root).outcome h = (.ok settings, h)) (name : String) :
    (ownJar? root name).outcome h = (savedOr h (path? settings name) (.ok none), h) := by
  rw [ownJar?, bind_of_ok hload, fileAt?_outcome]

theorem outcome_bind_savedOr {first : Action (Option Path)} {saved : Except Fault (Option Path)}
    (hfirst : first.outcome h = (savedOr h saved (.ok none), h))
    {next : Option Path → Action (Option Path)} (hsome : ∀ p, next (some p) = pure (some p))
    {r : Except Fault (Option Path)} (hnone : (next none).outcome h = (r, h)) :
    (first >>= next).outcome h = (savedOr h saved r, h) := by
  rw [outcome_bind, hfirst]
  rcases saved with e | _ | p
  · rfl
  · exact hnone
  · rcases hfile : h.isFile p with e | _ | _
    · simp only [savedOr, hfile]
    · simp only [savedOr, hfile, hnone]
    · simp only [savedOr, hfile, hsome, outcome_pure]

section

variable (hload : (load root).outcome h = (.ok settings, h))
  (hjar : path? settings "jar_path" = .ok (some jar)) (hfile : h.isFile jar = .ok true)

include hload hjar hfile

theorem jar?_outcome : (jar? root).outcome h = (.ok (some jar), h) := by
  have hown := ownJar?_outcome hload "jar_path"
  rw [hjar] at hown
  simp only [savedOr, hfile] at hown
  exact hown

theorem releaseJar?_outcome (hline : contains (slashed jar) "release") :
    (releaseJar? root).outcome h =
      (savedOr h (path? settings "jar_path_release") (.ok (some jar)), h) := by
  rw [releaseJar?]
  apply outcome_bind_savedOr (ownJar?_outcome hload "jar_path_release")
  · exact fun p => rfl
  · rw [bind_of_ok (jar?_outcome hload hjar hfile)]
    simp only [hline, if_true, outcome_pure]

theorem prereleaseJar?_outcome (hline : contains (slashed jar) "release") :
    (prereleaseJar? root).outcome h =
      (savedOr h (path? settings "jar_path_prerelease")
        (if contains (slashed jar) "pre-release" then .ok (some jar)
          else ((Detection.sibling? jar).outcome h).1), h) := by
  rw [prereleaseJar?]
  apply outcome_bind_savedOr (ownJar?_outcome hload "jar_path_prerelease")
  · exact fun p => rfl
  · rw [bind_of_ok (jar?_outcome hload hjar hfile)]
    simp only [hline, if_true]
    split
    · rfl
    · exact Prod.ext rfl (Detection.reads_sibling? jar h)

end

variable {fields : List (String × Json)} {name : String}

theorem path?_of_lookup {s : String} (hs : s ≠ "")
    (hlookup : Json.lookup name fields = some (.str s)) :
    path? (.obj fields) name = .ok (some (parse s)) := by
  have hgiven : given? (.obj fields) name = .ok (some (.str s)) := by
    simp [given?, field, hlookup, Json.isGiven, hs, bind, Except.bind, pure, Except.pure]
  simp [path?, hgiven, Json.pathText, bind, Except.bind, pure, Except.pure]

theorem path?_congr {others : List (String × Json)}
    (hlookup : Json.lookup name fields = Json.lookup name others) :
    path? (.obj fields) name = path? (.obj others) name := by
  rw [path?, path?, given?, given?, field, field, hlookup]

end Settings

/-! ### The server at the same place for the other version line -/

open FileTree

namespace FileTree

variable {t : FileTree} {place goal : Place} {parts : List String}

theorem not_mem_of_walk (hplace : t.walk [] place = .ok place) : ".." ∉ place := by
  rw [eq_reached_of_walk hplace]
  exact not_mem_reached List.not_mem_nil place

theorem walk_straight (hplace : t.walk [] place = .ok place)
    (hwalk : t.walk place parts = .ok goal) : t.walk [] goal = .ok goal := by
  induction parts generalizing place with
  | nil =>
    obtain rfl : place = goal := Except.ok.inj hwalk
    exact hplace
  | cons part parts ih =>
    have hdir := isDir_iff.mp (isDir_of_walk_cons hwalk)
    simp only [walk, hdir] at hwalk
    split at hwalk
    · cases hwalk
    · next hshort =>
      refine ih ?_ hwalk
      split
      · obtain rfl | ⟨front, last, rfl⟩ := place.eq_nil_or_concat'
        · exact hplace
        · obtain ⟨mid, hmid, -⟩ := walk_append hplace
          have hfront : ".." ∉ front := fun hmem =>
            not_mem_of_walk hplace (List.mem_append_left _ hmem)
          rw [List.dropLast_concat, hmid, eq_reached_of_walk hmid, reached_of_not_mem hfront,
            List.nil_append]
      · next hname =>
        rw [walk_append_of_ok hplace]
        simp [walk, hdir, hshort, hname]

end FileTree

namespace Host

variable {h : Host} {p full : Path}

theorem resolve_eq_ok (hresolve : h.resolve p = .ok full) :
    p.hasNull = false ∧ full = p.resolve h.here := by
  unfold resolve at hresolve
  split at hresolve
  · cases hresolve
  · next hnull => exact ⟨by simpa using hnull, (Except.ok.inj hresolve).symm⟩

/-- The current directory is the one that its anchored path names. -/
def IsPlaced (h : Host) : Prop :=
  (Path.absolute h.here).hasNull = false ∧ h.files.walk [] h.here = .ok h.here

section

variable (hplaced : p.isAbsolute = false → h.IsPlaced)

include hplaced

theorem walk_base : h.files.walk [] (h.base p) = .ok (h.base p) := by
  unfold base
  split
  · rfl
  · next hrelative => exact (hplaced (by simpa using hrelative)).2

theorem resolve_eq_meant : p.resolve h.here = .absolute (h.meant p) := by
  have hbase := eq_reached_of_walk (walk_base hplaced)
  unfold base at hbase
  rw [Path.resolve, Path.collapse_eq_reached, meant, base]
  split
  · rfl
  · next hrelative =>
    rw [if_neg hrelative] at hbase
    rw [reached_append, ← hbase]

theorem hasNull_meant (hnull : p.hasNull = false) : (absolute (h.meant p)).hasNull = false := by
  rw [hasNull, List.any_eq_false] at hnull ⊢
  intro part hpart
  rcases mem_of_mem_reached hpart with hbase | hown
  · unfold base at hbase
    split at hbase
    · cases hbase
    · next hrelative =>
      exact List.any_eq_false.mp (hplaced (by simpa using hrelative)).1 part hbase
  · exact hnull part hown

end

end Host

namespace Detection

variable {h : Host} {jar s full : Path} {front rest : List String} {v : ServerVersion} {p : Path}

theorem folder_ne_other (v : ServerVersion) : folder v ≠ folder v.other := by
  cases v <;> decide

theorem exchanged?_eq_some {parts new : List String} (hnew : exchanged? parts = some new) :
    ∃ front v rest, "install" ∉ front ∧ parts = front ++ "install" :: folder v :: rest ∧
      new = front ++ "install" :: folder v.other :: rest := by
  fun_induction exchanged? parts generalizing new with
  | case1 => cases hnew
  | case2 rest => exact ⟨[], .release, rest, by simp, rfl, (Option.some.inj hnew).symm⟩
  | case3 rest => exact ⟨[], .prerelease, rest, by simp, rfl, (Option.some.inj hnew).symm⟩
  | case4 => cases hnew
  | case5 part parts _ _ hother ih =>
    obtain ⟨new, hrest, rfl⟩ := Option.map_eq_some_iff.mp hnew
    obtain ⟨front, v, rest, hfront, rfl, rfl⟩ := ih hrest
    refine ⟨part :: front, v, rest, ?_, rfl, rfl⟩
    rintro (_ | ⟨_, hmem⟩)
    · exact hother rfl
    · exact hfront hmem

theorem jarAt?_outcome_some (hfound : (jarAt? p).outcome h = (.ok (some s), h)) :
    s = p ∧ (isJar p).outcome h = (.ok true, h) := by
  obtain ⟨isThere, hjar, hrest⟩ := (reads_isJar p).bind_ok hfound
  cases isThere with
  | false => cases (pure_ok hrest).1
  | true => exact ⟨(Option.some.inj (pure_ok hrest).1).symm, hjar⟩

/-- A sibling differs from the resolved path in the version line after the first `install`. -/
theorem sibling?_outcome_iff : (sibling? jar).outcome h = (.ok (some s), h) ↔
    ∃ front v rest, "install" ∉ front ∧
      h.resolve jar = .ok (.absolute (front ++ "install" :: folder v :: rest)) ∧
      s = .absolute (front ++ "install" :: folder v.other :: rest) ∧
      (isJar s).outcome h = (.ok true, h) := by
  constructor
  · intro hsibling
    obtain ⟨full, hresolve, hrest⟩ := (reads_resolve jar).bind_ok hsibling
    rw [outcome_resolve] at hresolve
    have hfull : full = .absolute full.parts := by
      rw [(Host.resolve_eq_ok (Prod.mk.inj hresolve).1).2]
      rfl
    split at hrest
    · next parts hparts =>
      obtain ⟨rfl, hjar⟩ := jarAt?_outcome_some hrest
      obtain ⟨front, v, rest, hfront, hold, rfl⟩ := exchanged?_eq_some hparts
      rw [hfull, hold] at hresolve
      exact ⟨front, v, rest, hfront, (Prod.mk.inj hresolve).1, rfl, hjar⟩
    · cases (pure_ok hrest).1
  · rintro ⟨front, v, rest, hfront, hresolve, rfl, hjar⟩
    rw [sibling?, outcome_bind, outcome_resolve]
    simp only [hresolve, absolute, exchanged?_append hfront]
    exact jarAt?_outcome hjar

theorem resolve_exchanged
    (hresolve : h.resolve jar = .ok (.absolute (front ++ "install" :: folder v :: rest)))
    (hnull : (absolute (front ++ "install" :: folder v.other :: rest)).hasNull = false) :
    h.resolve (.absolute (front ++ "install" :: folder v.other :: rest)) =
      .ok (.absolute (front ++ "install" :: folder v.other :: rest)) := by
  have hdown : ".." ∉ front ++ "install" :: folder v :: rest := by
    have hdown := not_mem_parts_resolve h.here jar
    rwa [← (Host.resolve_eq_ok hresolve).2] at hdown
  have hfolder : ".." ≠ folder v.other := by cases v <;> decide
  rw [Host.resolve, hnull, if_neg (by decide), resolve_absolute]
  simp_all

theorem sibling?_ne (hsibling : (sibling? jar).outcome h = (.ok (some s), h)) : s ≠ jar := by
  obtain ⟨front, v, rest, -, hresolve, rfl, -⟩ := sibling?_outcome_iff.mp hsibling
  rintro rfl
  rw [resolve_exchanged hresolve (Host.resolve_eq_ok hresolve).1] at hresolve
  simp [absolute, (folder_ne_other v).symm] at hresolve

/-- The path with one version line exchanged, where it is a JAR file, is found exactly if no
`install` comes before the one that the version line follows. -/
theorem sibling_found_iff
    (hresolve : h.resolve jar = .ok (.absolute (front ++ "install" :: folder v :: rest)))
    (hjar : (isJar (.absolute (front ++ "install" :: folder v.other :: rest))).outcome h =
      (.ok true, h)) :
    (sibling? jar).outcome h =
      (.ok (some (.absolute (front ++ "install" :: folder v.other :: rest))), h) ↔
    "install" ∉ front := by
  rw [sibling?_outcome_iff]
  constructor
  · rintro ⟨front', v', rest', hfront, hresolve', hnew, -⟩
    have hold : front ++ "install" :: folder v :: rest =
        front' ++ "install" :: folder v' :: rest' :=
      congrArg Path.parts (Except.ok.inj (hresolve.symm.trans hresolve'))
    have hnew : front ++ "install" :: folder v.other :: rest =
        front' ++ "install" :: folder v'.other :: rest' := congrArg Path.parts hnew
    rcases List.append_eq_append_iff.mp hold with ⟨d, rfl, -⟩ | ⟨d, rfl, hd⟩
    · exact fun hmem => hfront (List.mem_append_left _ hmem)
    · -- The first `install` is followed by the same part before and after.
      rw [List.append_assoc, List.append_cancel_left_eq] at hnew
      rcases d with _ | ⟨part, _ | ⟨next, d⟩⟩
      · rwa [List.append_nil]
      · have hline : folder v' = "install" := (List.cons.inj (List.cons.inj hd).2).1
        exact absurd hline (by cases v' <;> decide)
      · have hline : folder v' = next := (List.cons.inj (List.cons.inj hd).2).1
        have hother : next = folder v'.other := (List.cons.inj (List.cons.inj hnew).2).1
        exact absurd (hline.trans hother) (folder_ne_other v')
  · intro hfront
    exact ⟨front, v, rest, hfront, hresolve, rfl, hjar⟩

def twinSettings : Json :=
  .obj [("jar_path", .str "/w/install/pre-release/s.jar")]

def twinJar : Content :=
  .archive [("META-INF/MANIFEST.MF", .bytes [], false)]

def twinWorkspace : Host where
  files := ⟨[(["w"], .directory), (["w", settingsName], .file (.ofText twinSettings.pretty) 1),
    (["w", "install"], .directory), (["w", "install", "pre-release"], .directory),
    (["w", "install", "pre-release", "s.jar"], .file twinJar 1),
    (["w", "install", "release"], .directory),
    (["w", "install", "release", "s.jar"], .file twinJar 1),
    (["w", "install", "release", "install"], .directory),
    (["w", "install", "release", "install", "pre-release"], .directory),
    (["w", "install", "release", "install", "pre-release", "s.jar"], .file twinJar 1)]⟩
  here := ["w"]

theorem isJar_twinWorkspace (hholds : twinWorkspace.Holds p twinJar)
    (hname : p.name = "s.jar") : (isJar p).outcome twinWorkspace = (.ok true, twinWorkspace) := by
  refine isJar_iff.mpr ⟨twinJar, hholds, ?_, by decide⟩
  rw [suffix, hname]
  decide +kernel

/-- The sibling in the inner installation is there, and is not found. -/
theorem sibling_twinWorkspace :
    (isJar (.absolute ["w", "install", "release", "install", "pre-release", "s.jar"])).outcome
      twinWorkspace = (.ok true, twinWorkspace) ∧
    (sibling? (.absolute ["w", "install", "release", "install", "release", "s.jar"])).outcome
      twinWorkspace ≠ (.ok (some (.absolute
        ["w", "install", "release", "install", "pre-release", "s.jar"])), twinWorkspace) := by
  have hjar := isJar_twinWorkspace (p := .absolute
    ["w", "install", "release", "install", "pre-release", "s.jar"])
    ⟨by decide, _, 1, rfl, rfl⟩ rfl
  have hresolve : twinWorkspace.resolve
      (.absolute ["w", "install", "release", "install", "release", "s.jar"]) = .ok (.absolute
        (["w", "install", "release"] ++ "install" :: folder .release :: ["s.jar"])) := rfl
  exact ⟨hjar, mt (sibling_found_iff hresolve hjar).mp (by decide)⟩

theorem exists_parts_of_suffix (hsuffix : Text.lower jar.suffix = ".jar") :
    ∃ parts, jar.parts = parts ++ [jar.name] ∧ jar.name ≠ ".." := by
  rcases List.eq_nil_or_concat' jar.parts with hnone | ⟨parts, name, hparts⟩
  · rw [suffix, name, hnone] at hsuffix
    exact absurd hsuffix (by decide)
  · refine ⟨parts, ?_, ?_⟩
    · rw [Path.name, hparts, List.getLast?_concat, Option.getD_some]
    · intro hup
      rw [suffix, hup] at hsuffix
      exact absurd hsuffix (by decide)

theorem suffix_meant (hsuffix : lower jar.suffix = ".jar") :
    (absolute (h.meant jar)).suffix = jar.suffix := by
  obtain ⟨parts, hparts, hdown⟩ := exists_parts_of_suffix hsuffix
  rw [suffix, suffix, name]
  show (cutName ((h.meant jar).getLast?.getD "")).2 = _
  rw [Host.getLast?_meant hparts hdown, Option.getD_some]

theorem isJar_resolve (hjar : (isJar jar).outcome h = (.ok true, h))
    (hfull : h.resolve jar = .ok full) (hplaced : jar.isAbsolute = false →
      h.IsPlaced ∧ full.text.utf8ByteSize ≤ maxPathSize) :
    (isJar full).outcome h = (.ok true, h) := by
  obtain ⟨content, ⟨hnull, place, time, hplace, hget⟩, hsuffix, hclasses⟩ := isJar_iff.mp hjar
  have hhere := fun hrelative => (hplaced hrelative).1
  have hmeant := Host.eq_meant_of_locate hplace
  obtain ⟨-, rfl⟩ := Host.resolve_eq_ok hfull
  have hshort : ¬ maxPathSize < (jar.resolve h.here).text.utf8ByteSize := by
    cases hanchored : jar.isAbsolute with
    | false => exact Nat.not_lt.mpr (hplaced hanchored).2
    | true =>
      have hless := size_resolve_le hanchored h.here
      intro hlong
      rw [FileTree.locate, if_pos (Nat.lt_of_lt_of_le hlong hless)] at hplace
      cases hplace
  rw [Host.resolve_eq_meant hhere] at hshort ⊢
  have hwalk := walk_straight (Host.walk_base hhere) (Host.walk_of_locate hplace)
  rw [hmeant] at hwalk hget
  refine isJar_iff.mpr ⟨content, ⟨Host.hasNull_meant hhere hnull, _, time, ?_, hget⟩, ?_, hclasses⟩
  · rw [FileTree.locate, if_neg hshort]
    exact hwalk
  · rw [suffix_meant hsuffix, hsuffix]

end Detection

namespace Settings

variable {h : Host} {root jar : Path}

/-- Where no path is saved for the release line, it leads to the server that is set, whatever that
server's line: a path that names the pre-release line names the release line, too. -/
theorem releaseJar?_of_none (hnone : (ownJar? root "jar_path_release").outcome h = (.ok none, h))
    (hjar : (jar? root).outcome h = (.ok (some jar), h)) :
    (releaseJar? root).outcome h = (.ok (some jar), h) := by
  have hpart : "release".toList <:+: "pre-release".toList := ⟨"pre-".toList, [], rfl⟩
  rw [releaseJar?, bind_of_ok hnone]
  dsimp only
  rw [bind_of_ok hjar]
  dsimp only
  split
  · rfl
  · next hline =>
    rw [if_neg, outcome_pure]
    rw [contains, occursIn_iff] at hline ⊢
    exact mt hpart.trans hline

/-- Where no path is saved for the release line and a pre-release server is set, the release line
leads to that server, never to its sibling. -/
theorem releaseJar_of_prerelease
    (hnone : (ownJar? root "jar_path_release").outcome h = (.ok none, h))
    (hjar : (jar? root).outcome h = (.ok (some jar), h))
    (hline : ["install", "pre-release"] <:+: jar.parent.parts) :
    (releaseJar? root).outcome h = (.ok (some jar), h) ∧
    (Detection.sibling? jar).outcome h ≠ (.ok (some jar), h) ∧
    ∀ own, (ownJar? root "jar_path_prerelease").outcome h = (.ok own, h) →
      (prereleaseJar? root).outcome h = (.ok (some (own.getD jar)), h) ∧
      ((prereleaseJar? root).outcome h = (releaseJar? root).outcome h ↔
        own = none ∨ own = some jar) := by
  have hrelease := releaseJar?_of_none hnone hjar
  refine ⟨hrelease, fun hsibling => Detection.sibling?_ne hsibling rfl, fun own hown => ?_⟩
  have hprerelease : (prereleaseJar? root).outcome h = (.ok (some (own.getD jar)), h) := by
    rw [prereleaseJar?, bind_of_ok hown]
    cases own with
    | some p => rfl
    | none =>
      have hpart : "pre-release" ∈ jar.parts :=
        List.dropLast_subset _ (hline.subset (by simp))
      dsimp only
      rw [bind_of_ok hjar]
      dsimp only
      rw [if_pos (contains_slashed hpart (by decide))]
      rfl
  refine ⟨hprerelease, ?_⟩
  rw [hprerelease, hrelease]
  cases own <;> simp

/-- The release line leads to the pre-release server, although there is a release server. -/
theorem releaseJar_twinWorkspace :
    (releaseJar? (.absolute ["w"])).outcome Detection.twinWorkspace =
      (.ok (some (.absolute ["w", "install", "pre-release", "s.jar"])), Detection.twinWorkspace) ∧
    (prereleaseJar? (.absolute ["w"])).outcome Detection.twinWorkspace =
      (.ok (some (.absolute ["w", "install", "pre-release", "s.jar"])), Detection.twinWorkspace) ∧
    (Detection.sibling? (.absolute ["w", "install", "pre-release", "s.jar"])).outcome
        Detection.twinWorkspace =
      (.ok (some (.absolute ["w", "install", "release", "s.jar"])), Detection.twinWorkspace) := by
  have hload : (load (.absolute ["w"])).outcome Detection.twinWorkspace =
      (.ok Detection.twinSettings, Detection.twinWorkspace) :=
    load_of_holds rfl (by decide +kernel) ⟨by decide, ["w", settingsName], 1, rfl, rfl⟩
  have hjar : (jar? (.absolute ["w"])).outcome Detection.twinWorkspace =
      (.ok (some (.absolute ["w", "install", "pre-release", "s.jar"])), Detection.twinWorkspace) :=
    jar?_outcome hload rfl rfl
  obtain ⟨hrelease, -, hprerelease⟩ := releaseJar_of_prerelease
    (ownJar?_outcome hload "jar_path_release") hjar ⟨["w"], [], rfl⟩
  have hother := Detection.isJar_twinWorkspace
    (p := .absolute ["w", "install", "release", "s.jar"]) ⟨by decide, _, 1, rfl, rfl⟩ rfl
  exact ⟨hrelease, (hprerelease none (ownJar?_outcome hload "jar_path_prerelease")).1,
    Detection.sibling?_outcome_iff.mpr
      ⟨["w"], .prerelease, ["s.jar"], by decide, rfl, rfl, hother⟩⟩

end Settings

end JarAtlas
