import JarAtlas.Explore.Details
import JarAtlas.Proofs.Json.Written
import JarAtlas.Proofs.Workspace.Layout

/-!
Settings that were saved are loaded again. Saving writes one file, so every other file stays as it
is, and what is loaded afterwards is what was saved, if it is plain.
-/

namespace JarAtlas

open JarAtlas.Action Json

namespace Action

variable {h h' : Host} {p : Path} {content : Content} {cs : List Char} {v : Json}

theorem readStrictText_outcome (hholds : h.Holds p content)
    (hcs : content.strictText? = some cs) : (readStrictText p).outcome h = (.ok cs, h) := by
  rw [readStrictText, bind_of_ok (readContent_outcome_ok_iff.mpr hholds), hcs]
  rfl

theorem readJson_outcome (hholds : h.Holds p content) (hcs : content.strictText? = some cs)
    (hv : parse cs = .ok v) : (readJson p).outcome h = (.ok (.ok v), h) := by
  rw [readJson, bind_of_ok hholds.isThere_eq, if_pos rfl,
    bind_of_ok (outcome_attempt _ _), readStrictText_outcome hholds hcs]
  simp only [hv, outcome_pure]

theorem exists_of_readJson (hread : (readJson p).outcome h = (.ok (.ok v), h')) :
    ∃ content cs, h.Holds p content ∧ content.strictText? = some cs ∧ parse cs = .ok v := by
  obtain ⟨isThere, -, hrest⟩ := (reads_isThere p).bind_ok hread
  cases isThere with
  | false => exact nomatch (pure_ok hrest).1
  | true =>
    obtain ⟨r, htext, hrest⟩ := (reads_readStrictText p).attempt.bind_ok hrest
    cases r with
    | error e => cases e <;> cases hrest
    | ok cs =>
      obtain ⟨content, hcontent, hstrict⟩ :=
        (reads_readContent p).bind_ok (attempt_ok htext)
      refine ⟨content, cs, readContent_outcome_ok_iff.mp hcontent, ?_, ?_⟩
      · cases hcs : content.strictText? with
        | none =>
          simp only [hcs] at hstrict
          cases hstrict
        | some found =>
          simp only [hcs] at hstrict
          rw [(pure_ok hstrict).1]
      · cases hparse : parse cs with
        | ok found =>
          simp only [hparse] at hrest
          rw [Except.ok.inj (pure_ok hrest).1]
        | error e =>
          simp only [hparse] at hrest
          cases e <;> cases hrest

end Action

namespace Host

variable {h h' : Host} {p q : Path} {place : Place} {content other : Content} {parts : List String}
  {name : String} {spot : Place} {time : Nat}

theorem Gains.holds (hgains : h.Gains h') (hholds : h.Holds p content) : h'.Holds p content := by
  obtain ⟨hnull, place, time, hplace, hget⟩ := hholds
  exact ⟨hnull, place, time, hgains.preserves.locate_eq hplace, hgains.kept _ _ hget⟩

theorem Holds.isFile_eq (hholds : h.Holds p content) : h.isFile p = .ok true :=
  isFile_eq_true_iff.mpr ⟨content, hholds⟩

theorem getLast?_meant (hparts : p.parts = parts ++ [name])
    (hname : name ≠ "..") : (h.meant p).getLast? = some name := by
  rw [meant, hparts, FileTree.reached_append,
    FileTree.reached_of_not_mem (by simpa using hname.symm), List.getLast?_concat]

theorem WritesAt.meant_ne {root : Path} (hwrites : h.WritesAt (Settings.path root) place)
    (hparts : p.parts = parts ++ [name]) (hdown : name ≠ "..")
    (hname : name ≠ settingsName) : h.meant p ≠ place := by
  intro hsame
  have hsettings : (Settings.path root).parts = root.parts ++ [settingsName] := rfl
  have hplace : (h.meant (Settings.path root)).getLast? = some settingsName :=
    getLast?_meant hsettings (by decide)
  rw [← eq_meant_of_locate hwrites.leads, ← hsame, getLast?_meant hparts hdown] at hplace
  exact hname (Option.some.inj hplace)

theorem WritesAt.holds_after (hwrites : h.WritesAt p place)
    (hgains : (h.storing place content).GainsDirs h') (hholds : h.Holds q other)
    (hne : h.meant q ≠ place) : h'.Holds q other := by
  have hlocate : h.files.locate h.here q ≠ .ok place :=
    fun hsame => hne (eq_meant_of_locate hsame).symm
  exact hgains.toGains.holds (hwrites.holds_other hholds hlocate content).1

theorem GainsDirs.get?_before (hgains : h.GainsDirs h')
    (hget : h'.files.get? spot = some (.file other time)) :
    h.files.get? spot = some (.file other time) := by
  obtain ⟨old, t, hold⟩ := FileTree.isFile_iff.mp
    (hgains.files spot (FileTree.isFile_iff.mpr ⟨other, time, hget⟩))
  rw [hold, ← hgains.kept spot _ hold, hget]

theorem WritesAt.get?_before (hwrites : h.WritesAt p place)
    (hgains : (h.storing place content).GainsDirs h') (hne : spot ≠ place)
    (hget : h'.files.get? spot = some (.file other time)) :
    h.files.get? spot = some (.file other time) := by
  have hold := hgains.get?_before hget
  rwa [get?_storing hwrites.notDirectory, if_neg hne] at hold

end Host

/-- The settings file of a project is the text of a value. -/
def Host.HasSettings (h : Host) (root : Path) (settings : Json) : Prop :=
  ∃ content cs, h.Holds (Settings.path root) content ∧ content.strictText? = some cs ∧
    Json.parse cs = .ok settings

namespace Settings

variable {h h' : Host} {root : Path} {settings : Json} {place : Place}

theorem load_of_hasSettings (hsettings : h.HasSettings root settings) :
    (load root).outcome h = (.ok settings, h) := by
  obtain ⟨content, cs, hholds, hcs, hparse⟩ := hsettings
  rw [load, bind_of_ok (readJson_outcome hholds hcs hparse)]
  rfl

theorem load_cases (hload : (load root).outcome h = (.ok settings, h')) :
    settings = .obj [] ∨ h.HasSettings root settings := by
  obtain ⟨r, hread, hrest⟩ := (reads_readJson _).bind_ok hload
  cases r with
  | error e => exact .inl (pure_ok hrest).1.symm
  | ok v =>
    obtain ⟨rfl, -⟩ := pure_ok hrest
    exact .inr (exists_of_readJson hread)

theorem isBounded_of_load (hload : (load root).outcome h = (.ok settings, h')) :
    settings.isBounded maxDepth := by
  rcases load_cases hload with rfl | ⟨content, cs, -, -, hparse⟩
  · rfl
  · exact isBounded_of_parse hparse

theorem save_outcome_of_writesAt (hwrites : h.WritesAt (path root) place) (settings : Json) :
    ∃ r, (save root settings).outcome h =
        (r, h.storing place (.ofText settings.writable.1)) ∧
      (r = .ok () ↔ settings.writable.2 = none) := by
  unfold save
  rcases settings.writable with ⟨text, error⟩
  have hwritten : (writeText (path root) text).outcome h =
      (.ok (), h.storing place (.ofText text)) := writeContent_outcome hwrites _
  dsimp only
  rw [bind_of_ok hwritten]
  rcases error with _ | e
  · exact ⟨_, rfl, iff_of_true rfl rfl⟩
  · cases e <;> exact ⟨_, rfl, iff_of_false nofun nofun⟩

theorem save_outcome_of_not_canWrite (hcan : h.canWrite (path root) = false) (settings : Json) :
    ∃ e, (save root settings).outcome h = (.error e, h) := by
  obtain ⟨e, hfails⟩ := writeContent_outcome_of_not_canWrite hcan (.ofText settings.writable.1)
  refine ⟨e, ?_⟩
  have hwritten : (writeText (path root) settings.writable.1).outcome h = (.error e, h) := hfails
  unfold save
  rw [outcome_bind, hwritten]

variable (hbound : settings.isBounded maxDepth = true)
  (hplain : settings.all isPlain = true)

include hbound hplain

theorem save_outcome_of_plain (hwrites : h.WritesAt (path root) place) :
    (save root settings).outcome h = (.ok (), h.storing place (.ofText settings.pretty)) := by
  obtain ⟨r, hsave, hwhole⟩ := save_outcome_of_writesAt hwrites settings
  rw [writable_of_plain hbound hplain] at hsave hwhole
  rw [hsave, hwhole.mpr rfl]

theorem save_outcome (root : Path) (h : Host) :
    (∃ e, (save root settings).outcome h = (.error e, h)) ∨
    ∃ place, h.WritesAt (path root) place ∧
      (save root settings).outcome h = (.ok (), h.storing place (.ofText settings.pretty)) := by
  cases hcan : h.canWrite (path root) with
  | false => exact .inl (save_outcome_of_not_canWrite hcan settings)
  | true =>
    obtain ⟨place, hwrites⟩ := Host.canWrite_iff.mp hcan
    exact .inr ⟨place, hwrites, save_outcome_of_plain hbound hplain hwrites⟩

theorem load_of_holds (hholds : h.Holds (path root) (.ofText settings.pretty)) :
    (load root).outcome h = (.ok settings, h) :=
  load_of_hasSettings ⟨_, _, hholds, strictText?_pretty hplain,
    parse_render .indented hbound hplain⟩

end Settings

/-! ### Which values are read back from their text -/

namespace Json

/-- Whether a whole number has no more digits than can be read. -/
def isShort : Json → Bool
  | int n => decide (n.natAbs < 10 ^ maxDigits)
  | _ => true

mutual

def depth : Json → Nat
  | misnamed v => depth v
  | arr items => depthItems items + 1
  | obj fields => depthFields fields + 1
  | _ => 0

def depthItems : List Json → Nat
  | [] => 0
  | item :: items => max (depth item) (depthItems items)

def depthFields : List (String × Json) → Nat
  | [] => 0
  | (_, value) :: fields => max (depth value) (depthFields fields)

end

mutual

def hasDistinctNames : Json → Bool
  | misnamed v => hasDistinctNames v
  | arr items => haveDistinctNames items
  | obj fields => decide (fields.map Prod.fst).Nodup && fieldsHaveDistinctNames fields
  | _ => true

def haveDistinctNames : List Json → Bool
  | [] => true
  | item :: items => hasDistinctNames item && haveDistinctNames items

def fieldsHaveDistinctNames : List (String × Json) → Bool
  | [] => true
  | (_, value) :: fields => hasDistinctNames value && fieldsHaveDistinctNames fields

end

theorem length_toDigits_le_iff {n k : Nat} (hk : 0 < k) :
    (Nat.toDigits 10 n).length ≤ k ↔ n < 10 ^ k := by
  constructor
  · intro hlength
    have hdigits : ∀ d ∈ Nat.toDigits 10 n, d.isDigit := fun d hd =>
      Nat.isDigit_of_mem_toDigits (by decide) (by decide) hd
    have hvalue := asciiDigits_lt hdigits
    rw [asciiDigits_toDigits] at hvalue
    exact Nat.lt_of_lt_of_le hvalue (Nat.pow_le_pow_right (by decide) hlength)
  · exact Nat.toDigits_length 10 n k hk

mutual

theorem isBounded_iff (limit : Nat) : ∀ v : Json, isBounded limit v ↔
    v.depth ≤ limit ∧ v.all isShort ∧ v.hasDistinctNames = true
  | .null | .bool _ | .double _ | .str _ | .torn _ =>
    iff_of_true rfl ⟨Nat.zero_le _, rfl, rfl⟩
  | .int n => by
      have hdigits := length_toDigits_le_iff (n := n.natAbs) (k := maxDigits) (by decide)
      simp [isBounded, depth, all, isShort, hasDistinctNames, hdigits]
  | .misnamed v => by
      have hv := isBounded_iff limit v
      have hshort : isShort (.misnamed v) := rfl
      rw [isBounded, depth, all, hasDistinctNames, hv, hshort, Bool.true_and]
  | .arr items => by
      have hitems := areBounded_iff_parts (limit - 1) items
      rw [isBounded, depth, all, hasDistinctNames, Bool.and_eq_true, hitems, decide_eq_true_eq]
      grind
  | .obj fields => by
      have hfields := haveBounded_iff_parts (limit - 1) fields
      rw [isBounded, depth, all, hasDistinctNames, Bool.and_eq_true, Bool.and_eq_true,
        Bool.and_eq_true, hfields, decide_eq_true_eq]
      grind

theorem areBounded_iff_parts (limit : Nat) : ∀ items : List Json, areBounded limit items ↔
    depthItems items ≤ limit ∧ allItems isShort items ∧ haveDistinctNames items = true
  | [] => iff_of_true rfl ⟨Nat.zero_le _, rfl, rfl⟩
  | item :: items => by
      rw [areBounded, depthItems, allItems, haveDistinctNames, Bool.and_eq_true, Bool.and_eq_true,
        Bool.and_eq_true, isBounded_iff limit item, areBounded_iff_parts limit items, Nat.max_le]
      grind

theorem haveBounded_iff_parts (limit : Nat) :
    ∀ fields : List (String × Json), haveBounded limit fields ↔
      depthFields fields ≤ limit ∧ allFields isShort fields ∧
        fieldsHaveDistinctNames fields = true
  | [] => iff_of_true rfl ⟨Nat.zero_le _, rfl, rfl⟩
  | (_, value) :: fields => by
      rw [haveBounded, depthFields, allFields, fieldsHaveDistinctNames, Bool.and_eq_true,
        Bool.and_eq_true, Bool.and_eq_true, isBounded_iff limit value,
        haveBounded_iff_parts limit fields, Nat.max_le]
      grind

end

end Json

namespace Settings

open JarAtlas.Action

variable {settings : Json}

end Settings

namespace Json

end Json

/-!
Which version line is active. The same setting is read in three ways: by the exact name of a
version line, as it is stored, and with blanks and case left aside. They agree exactly if nothing is
given there, or exactly the name of a version line.
-/

open Option ServerVersion

namespace ServerVersion

theorem ofName?_eq_some_iff {s : String} {line : ServerVersion} :
    ofName? s = some line ↔ s = line.name := by
  constructor
  · intro hfound
    have hname := List.find?_some hfound
    exact (beq_iff_eq.mp hname).symm
  · rintro rfl
    cases line <;> rfl

theorem ofText_name (line : ServerVersion) : ofText line.name = line := by
  cases line <;> decide +kernel

end ServerVersion

namespace Settings

def exactVersion : Option Json → ServerVersion
  | some (.str s) => (ServerVersion.ofName? s).getD .release
  | _ => .release

def shownVersion (stored : Option Json) : Json :=
  (stored.filter Json.isGiven).getD (.str ServerVersion.release.name)

def countedVersion (stored : Option Json) : ServerVersion :=
  .ofValue (shownVersion stored)

/-- A given value is exactly the name of a version line. -/
def NamesVersion (stored : Option Json) : Prop :=
  ∀ v, stored = some v → v.isGiven = true → ∃ line : ServerVersion, v = .str line.name

section Stored

variable {stored : Option Json} {line : ServerVersion}

theorem shownVersion_of_isGiven {v : Json} (hv : v.isGiven) : shownVersion (some v) = v := by
  rw [shownVersion, filter_some_pos hv, getD_some]

theorem version_of_not_given (hstored : ∀ v, stored = some v → v.isGiven = false) :
    shownVersion stored = .str release.name ∧ exactVersion stored = .release := by
  cases stored with
  | none => exact ⟨rfl, rfl⟩
  | some v =>
    have hv := hstored v rfl
    refine ⟨by rw [shownVersion, filter_some_neg hv, getD_none], ?_⟩
    cases v with
    | str s =>
      obtain rfl : s = "" := by simpa [isGiven] using hv
      rfl
    | _ => rfl

theorem given_or_not (stored : Option Json) :
    (∃ v, stored = some v ∧ v.isGiven) ∨ ∀ v, stored = some v → v.isGiven = false := by
  rcases stored with _ | v
  · exact .inr fun v hv => nomatch hv
  · cases hv : v.isGiven with
    | true => exact .inl ⟨v, rfl, hv⟩
    | false => exact .inr fun w hw => some.inj hw ▸ hv

theorem exactVersion_name (line : ServerVersion) :
    exactVersion (some (.str line.name)) = line := by
  rw [exactVersion, ofName?_eq_some_iff.mpr rfl, getD_some]

theorem exists_shownVersion_iff :
    (∃ line : ServerVersion, shownVersion stored = .str line.name) ↔ NamesVersion stored := by
  rcases given_or_not stored with ⟨v, rfl, hv⟩ | hnot
  · rw [shownVersion_of_isGiven hv]
    constructor
    · intro hline w hw _
      rwa [← some.inj hw]
    · intro hnames
      exact hnames v rfl hv
  · refine iff_of_true ⟨.release, (version_of_not_given hnot).1⟩ ?_
    intro v hv hgiven
    rw [hnot v hv] at hgiven
    cases hgiven

theorem exactVersion_of_shownVersion (hshown : shownVersion stored = .str line.name) :
    exactVersion stored = line := by
  rcases given_or_not stored with ⟨v, rfl, hv⟩ | hnot
  · rw [shownVersion_of_isGiven hv] at hshown
    rw [hshown, exactVersion_name]
  · obtain ⟨hrelease, hexact⟩ := version_of_not_given hnot
    rw [hrelease] at hshown
    have hname := congrArg ofName? (str.inj hshown)
    rw [ofName?_eq_some_iff.mpr rfl, ofName?_eq_some_iff.mpr rfl] at hname
    rw [hexact, some.inj hname]

theorem countedVersion_of_shownVersion (hshown : shownVersion stored = .str line.name) :
    countedVersion stored = line := by
  rw [countedVersion, hshown, ofValue, ofText_name]

theorem countedVersion_str (s : String) : countedVersion (some (.str s)) = .ofText s := by
  cases hv : (str s).isGiven with
  | true => rw [countedVersion, shownVersion_of_isGiven hv, ofValue]
  | false =>
    obtain rfl : s = "" := by simpa [isGiven] using hv
    decide +kernel

theorem countedVersion_of_ne_str (hstored : ∀ s, stored ≠ some (.str s)) :
    countedVersion stored = .release := by
  rcases given_or_not stored with ⟨v, rfl, hv⟩ | hnot
  · rw [countedVersion, shownVersion_of_isGiven hv, ofValue]
    rintro s rfl
    exact hstored s rfl
  · exact countedVersion_of_shownVersion (version_of_not_given hnot).1

theorem exactVersion_of_ne_str (hstored : ∀ s, stored ≠ some (.str s)) :
    exactVersion stored = .release := by
  rw [exactVersion]
  rintro s rfl
  exact hstored s rfl

theorem ofText_eq_exactVersion_iff (s : String) :
    ofText s = exactVersion (some (.str s)) ↔
      (ofText s = .prerelease → s = prerelease.name) := by
  rw [exactVersion]
  constructor
  · intro hsame hmeans
    rw [hmeans] at hsame
    cases hname : ofName? s with
    | none =>
      rw [hname] at hsame
      cases hsame
    | some line =>
      rw [hname, getD_some] at hsame
      rw [hsame]
      exact ofName?_eq_some_iff.mp hname
  · intro hmeans
    cases hname : ofName? s with
    | some line =>
      obtain rfl := ofName?_eq_some_iff.mp hname
      exact ofText_name line
    | none =>
      rw [getD_none]
      cases htext : ofText s with
      | release => rfl
      | prerelease =>
        rw [hmeans htext, ofName?_eq_some_iff.mpr rfl] at hname
        cases hname

theorem countedVersion_eq_exactVersion_iff :
    countedVersion stored = exactVersion stored ↔
      ∀ s, stored = some (.str s) → ofText s = .prerelease →
        s = prerelease.name := by
  by_cases hstr : ∃ s, stored = some (.str s)
  · obtain ⟨s, rfl⟩ := hstr
    rw [countedVersion_str, ofText_eq_exactVersion_iff]
    simp
  · have hne : ∀ s, stored ≠ some (.str s) := fun s hs => hstr ⟨s, hs⟩
    refine iff_of_true ?_ fun s hs => absurd hs (hne s)
    rw [countedVersion_of_ne_str hne, exactVersion_of_ne_str hne]

end Stored

section Readers

variable {h h₁ : Host} {given : Option Path} {root : Path} {fields : List (String × Json)}

theorem activeVersion?_obj (fields : List (String × Json)) :
    ∃ active, activeVersion? (.obj fields) = .ok active ∧
      active.getD .release = exactVersion (lookup "active_server" fields) := by
  have hfield : field (.obj fields) "active_server" = .ok (lookup "active_server" fields) := rfl
  rw [activeVersion?, hfield]
  rcases lookup "active_server" fields with _ | v
  · exact ⟨none, rfl, rfl⟩
  · cases v with
    | str s => exact ⟨ofName? s, rfl, rfl⟩
    | _ => exact ⟨none, rfl, rfl⟩

theorem activeVersion_outcome (hsettings : h.HasSettings root (.obj fields)) :
    (activeVersion root).outcome h =
      (.ok (exactVersion (lookup "active_server" fields)), h) := by
  obtain ⟨active, hactive, hexact⟩ := activeVersion?_obj fields
  rw [activeVersion, bind_of_ok (load_of_hasSettings hsettings), hactive, ← hexact]
  rfl

theorem showContext_outcome (hroot : (rootOr given).outcome h = (.ok root, h₁))
    (hsettings : h₁.HasSettings root (.obj fields)) :
    (showContext given).outcome h = (do
      let indexed ← indexedVersions root
      return .obj [("indexed", .arr (indexed.map fun v => .str v.name)),
        ("active", shownVersion (lookup "active_server" fields))] : Action Json).outcome h₁ := by
  have hactive : (activeValue root).outcome h₁ =
      (.ok (shownVersion (lookup "active_server" fields)), h₁) := by
    rw [activeValue, bind_of_ok (load_of_hasSettings hsettings)]
    rfl
  rw [showContext, bind_of_ok hroot, bind_of_ok hactive]

theorem showStats_outcome (hroot : (rootOr given).outcome h = (.ok root, h₁))
    (hsettings : h₁.HasSettings root (.obj fields)) :
    (showStats given .null).outcome h =
      (statsOf root (countedVersion (lookup "active_server" fields))).outcome h₁ := by
  rw [showStats, bind_of_ok hroot, bind_of_ok (load_of_hasSettings hsettings)]
  rfl

/-- The active version is read by its exact name, shown as it is stored, and counted by what it
means. The three agree exactly if a given value is the name of a version line. -/
theorem active_version_agrees_iff (hroot : (rootOr given).outcome h = (.ok root, h₁))
    (hsettings : h₁.HasSettings root (.obj fields)) {stored : Option Json}
    (hstored : Json.lookup "active_server" fields = stored) :
    (activeVersion root).outcome h₁ = (.ok (exactVersion stored), h₁) ∧
    (showContext given).outcome h = (do
      let indexed ← indexedVersions root
      return .obj [("indexed", .arr (indexed.map fun v => .str v.name)),
        ("active", shownVersion stored)] : Action Json).outcome h₁ ∧
    (showStats given .null).outcome h = (statsOf root (countedVersion stored)).outcome h₁ ∧
    ((∃ line : ServerVersion, exactVersion stored = line ∧
      shownVersion stored = .str line.name ∧ countedVersion stored = line) ↔ NamesVersion stored) ∧
    ((∃ line : ServerVersion, shownVersion stored = .str line.name) ↔ NamesVersion stored) ∧
    (countedVersion stored = exactVersion stored ↔
      ∀ s, stored = some (.str s) → ServerVersion.ofText s = .prerelease →
        s = ServerVersion.prerelease.name) := by
  subst hstored
  refine ⟨activeVersion_outcome hsettings, showContext_outcome hroot hsettings,
    showStats_outcome hroot hsettings, ?_, exists_shownVersion_iff,
    countedVersion_eq_exactVersion_iff⟩
  rw [← exists_shownVersion_iff]
  constructor
  · rintro ⟨line, -, hshown, -⟩
    exact ⟨line, hshown⟩
  · rintro ⟨line, hshown⟩
    exact ⟨line, exactVersion_of_shownVersion hshown, hshown,
      countedVersion_of_shownVersion hshown⟩

/-- A project whose settings write the prerelease line with a capital. -/
def capitalSettings : Json :=
  .obj [("active_server", .str "Prerelease")]

def capitalWorkspace : Host where
  files := ⟨[(["w"], .directory), (["w", settingsName], .file (.ofText capitalSettings.pretty) 1)]⟩
  env := [("PRISM_WORKSPACE", "/w")]
  here := ["w"]

theorem hasSettings_capitalWorkspace :
    capitalWorkspace.HasSettings (.absolute ["w"]) capitalSettings :=
  ⟨_, _, ⟨by decide, ["w", settingsName], 1, rfl, rfl⟩, strictText?_pretty rfl,
    parse_render .indented (by decide +kernel) rfl⟩

/-- The three answers differ: the release line, the text as it is stored, the prerelease line. -/
theorem active_version_differs_capitalWorkspace :
    (activeVersion (.absolute ["w"])).outcome capitalWorkspace =
      (.ok .release, capitalWorkspace) ∧
    ((showContext none).outcome capitalWorkspace).1 =
      .ok (.obj [("indexed", .arr []), ("active", .str "Prerelease")]) ∧
    (showStats none .null).outcome capitalWorkspace =
      (statsOf (.absolute ["w"]) .prerelease).outcome capitalWorkspace := by
  have hroot : (rootOr none).outcome capitalWorkspace = (.ok (.absolute ["w"]), capitalWorkspace) :=
    rfl
  have hcounted : countedVersion (some (.str "Prerelease")) = .prerelease := by decide +kernel
  obtain ⟨hexact, hshown, hstats, -⟩ :=
    active_version_agrees_iff hroot hasSettings_capitalWorkspace rfl
  refine ⟨hexact, ?_, ?_⟩
  · rw [hshown]
    rfl
  · rw [hstats]
    exact congrArg (fun v => (statsOf (.absolute ["w"]) v).outcome capitalWorkspace) hcounted

end Readers

end Settings

end JarAtlas
