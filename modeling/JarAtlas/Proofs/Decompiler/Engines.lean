import JarAtlas.Decompiler.Run
import JarAtlas.Proofs.Tools.Inspection

/-!
Which slim copies can be trusted. A call that copies leaves the entries of the game up to the first
one that it cannot read, and says that it succeeded only if it read them all. A later call does not
look inside a copy that is later than its source. So a copy that a call accepts is the one that the
source asks for exactly when what was left there last happens to be that copy.
-/

namespace JarAtlas

open JarAtlas.Action Host ArchiveEntry

def Host.entriesAt? (h : Host) (p : Path) : Option (List ArchiveEntry) :=
  match h.look p with
  | .ok (some (.file content _)) => content.entries?
  | _ => none

theorem Host.entriesAt?_eq_some_iff {h : Host} {p : Path} {entries : List ArchiveEntry} :
    h.entriesAt? p = some entries ↔ h.Holds p (.archive entries) := by
  constructor
  · intro hentries
    unfold entriesAt? at hentries
    split at hentries
    · next content time hlook =>
      have hcontent : content = .archive entries := by
        cases content <;> simp_all [Content.entries?]
      subst hcontent
      exact holds_of_look hlook
    · cases hentries
  · intro hholds
    obtain ⟨time, hlook⟩ := hholds.look_eq
    rw [entriesAt?, hlook]
    rfl

/-- Whether what one path leads to is later than what another one leads to. -/
def Host.isLater (h : Host) (p q : Path) : Bool :=
  match h.look p, h.look q with
  | .ok (some node), .ok (some old) => h.timeOf old < h.timeOf node
  | _, _ => false

def Host.isSamePlace (h : Host) (p q : Path) : Bool :=
  match h.files.locate h.here p, h.files.locate h.here q with
  | .ok place, .ok goal => place == goal
  | _, _ => false

namespace Slim

def coreEntries (entries : List ArchiveEntry) : List ArchiveEntry :=
  entries.filter fun e => isCore e.name

/-- What is found in an archive under the name of one of its entries. -/
def found (entries : List ArchiveEntry) (e : ArchiveEntry) : ArchiveEntry :=
  (entryNamed? entries e.name).getD e

/-- Copies of entries: each with the content that is found under its name. -/
def copies (entries chosen : List ArchiveEntry) : List ArchiveEntry :=
  chosen.map fun e => (e.name, (found entries e).content, false)

/-- The slim copy that an archive asks for. -/
def slim (entries : List ArchiveEntry) : List ArchiveEntry :=
  copies entries (coreEntries entries)

/-- What a call copies: all that comes before the first entry with a lock. Of a source that the copy
replaces, nothing is left to be copied. -/
def copied (replaces : Bool) (entries : List ArchiveEntry) : List ArchiveEntry :=
  if replaces then []
  else copies entries ((coreEntries entries).takeWhile fun e => !(found entries e).isLocked)

theorem entryNamed?_eq_found {e : ArchiveEntry} (he : e ∈ entries) :
    entryNamed? entries e.name = some (found entries e) := by
  obtain ⟨last, hlast, -⟩ := exists_entryNamed? ⟨e, he, rfl⟩
  rw [found, hlast, Option.getD_some]

theorem names_coreEntries (entries : List ArchiveEntry) :
    (entries.map name).filter isCore =
      (coreEntries entries).map name := by
  rw [coreEntries, List.filter_map]
  rfl

variable {source copy : Path} {place : Place} {h h' : Host} {entries : List ArchiveEntry}

theorem copyEntries_outcome {chosen done : List ArchiveEntry} (hchosen : ∀ e ∈ chosen, e ∈ entries)
    (hsource : h.Holds source (.archive entries)) (hwrites : h.WritesAt copy place)
    (hother : h.files.locate h.here source ≠ .ok place) (hcopy : h.Holds copy (.archive done)) :
    ∃ r h', (copyEntries source copy done (chosen.map name)).outcome h = (r, h') ∧
      h'.Holds copy (.archive (done ++
        copies entries (chosen.takeWhile fun e => !(found entries e).isLocked))) ∧
      (r = .ok () → ∀ e ∈ chosen, (found entries e).isLocked = false) := by
  induction chosen generalizing h done with
  | nil => exact ⟨.ok (), h, rfl, by simpa [copies] using hcopy, by simp⟩
  | cons e chosen ih =>
    have hfound : entryNamed? entries e.name = some (found entries e) :=
      entryNamed?_eq_found (hchosen e List.mem_cons_self)
    have hread := readArchive_outcome_ok_iff.mpr hsource
    rw [List.map_cons, copyEntries, bind_of_ok hread]
    simp only [hfound]
    cases hlocked : (found entries e).isLocked with
    | true =>
      have hentry : (readEntry (found entries e)).outcome h =
          (.error (.encrypted (found entries e).name), h) := by
        simp [readEntry, hlocked]
      rw [outcome_bind, hentry]
      refine ⟨_, h, rfl, ?_, ?_⟩
      · simpa [copies, hlocked] using hcopy
      · intro hok
        cases hok
    | false =>
      have hentry : (readEntry (found entries e)).outcome h =
          (.ok (found entries e).content, h) := by
        simp [readEntry, hlocked]
      rw [bind_of_ok hentry, bind_of_ok (writeContent_outcome hwrites _)]
      -- The source is another file, so it is still what it was.
      obtain ⟨hsource, hplace⟩ := hwrites.holds_other hsource hother
        (.archive (done ++ [(e.name, (found entries e).content, false)]))
      obtain ⟨r, h', hrest, hholds, hopen⟩ := ih
        (fun e he => hchosen e (List.mem_cons_of_mem _ he)) hsource (hwrites.storing _)
        (by rw [hplace]; exact hother) (hwrites.holds _)
      refine ⟨r, h', hrest, ?_, ?_⟩
      · simpa [copies, hlocked] using hholds
      · intro hok
        simpa [hlocked] using hopen hok

theorem copyEntries_outcome_of_replaced (hsource : h.Holds source (.archive [])) (copy : Path)
    (names : List String) :
    ∃ r, (copyEntries source copy [] names).outcome h = (r, h) ∧ (r = .ok () → names = []) := by
  cases names with
  | nil => exact ⟨.ok (), rfl, fun _ => rfl⟩
  | cons name names =>
    refine ⟨.error lostEntry, ?_, fun hok => nomatch hok⟩
    rw [copyEntries, bind_of_ok (readArchive_outcome_ok_iff.mpr hsource)]
    rfl

theorem copied_eq_slim (hopen : ∀ e ∈ coreEntries entries, (found entries e).isLocked = false) :
    copied false entries = slim entries := by
  have hall : (coreEntries entries).takeWhile (fun e => !(found entries e).isLocked) =
      coreEntries entries := by
    rw [List.takeWhile_eq_self_iff]
    intro e he
    rw [hopen e he, Bool.not_false]
  rw [copied, if_neg Bool.false_ne_true, hall, slim]

def copyAll (source copy : Path) : Action Unit := do
  let entries ← readArchive source
  writeContent copy (.archive [])
  copyEntries source copy [] ((entries.map ArchiveEntry.name).filter isCore)

theorem copyAll_outcome (hsource : h.Holds source (.archive entries))
    (hwrites : h.WritesAt copy place) :
    ∃ r h', (copyAll source copy).outcome h = (r, h') ∧
      h'.Holds copy (.archive (copied (h.isSamePlace source copy) entries)) ∧
      (r = .ok () → copied (h.isSamePlace source copy) entries = slim entries) := by
  rw [copyAll, bind_of_ok (readArchive_outcome_ok_iff.mpr hsource),
    bind_of_ok (writeContent_outcome hwrites _), names_coreEntries]
  obtain ⟨hnull, goal, time, hgoal, hget⟩ := hsource
  have hsame : h.isSamePlace source copy = decide (goal = place) := by
    simp only [isSamePlace, hgoal, hwrites.leads, beq_eq_decide]
  by_cases hplace : goal = place
  · subst hplace
    have hempty : (h.storing goal (.archive [])).Holds source (.archive []) :=
      WritesAt.holds ⟨hnull, hgoal, hwrites.notDirectory, hwrites.parent⟩ _
    obtain ⟨r, hrest, hnone⟩ := copyEntries_outcome_of_replaced hempty copy
      ((coreEntries entries).map name)
    rw [hsame, decide_eq_true rfl]
    refine ⟨r, _, hrest, hwrites.holds _, ?_⟩
    intro hok
    have hcore : coreEntries entries = [] := List.map_eq_nil_iff.mp (hnone hok)
    rw [slim, hcore]
    rfl
  · rw [hsame, decide_eq_false hplace]
    have hother : h.files.locate h.here source ≠ .ok place := by
      rw [hgoal]
      intro heq
      exact hplace (Except.ok.inj heq)
    obtain ⟨hkept, hleads⟩ := hwrites.holds_other ⟨hnull, goal, time, hgoal, hget⟩ hother
      (.archive [])
    obtain ⟨r, h', hrest, hholds, hopen⟩ := copyEntries_outcome
      (fun e he => (List.mem_filter.mp he).1) hkept (hwrites.storing _)
      (by rw [hleads]; exact hother) (hwrites.holds _)
    exact ⟨r, h', hrest, hholds, fun hok => copied_eq_slim (hopen hok)⟩

theorem copyAll_outcome_of_none
    (hnone : ∀ entries, h.Holds source (.archive entries) → h.canWrite copy = false) :
    ∃ e, (copyAll source copy).outcome h = (.error e, h) := by
  rcases hread : (readArchive source).outcome h with ⟨e | entries, h₁⟩
  · obtain rfl := (reads_readArchive source).host_eq hread
    exact ⟨e, by rw [copyAll, outcome_bind, hread]⟩
  · obtain rfl := (reads_readArchive source).host_eq hread
    have hwrite := hnone entries (readArchive_outcome_ok_iff.mp hread)
    obtain ⟨e, hfails⟩ := writeContent_outcome_of_not_canWrite hwrite (.archive [])
    exact ⟨e, by rw [copyAll, bind_of_ok hread, outcome_bind, hfails]⟩

theorem canWrite_eq_false_of_look {p : Path} {e : Fault} (hlook : h.look p = .error e) :
    h.canWrite p = false := by
  rw [Bool.eq_false_iff]
  intro hwrite
  obtain ⟨place, hwrites⟩ := canWrite_iff.mp hwrite
  simp [Host.look, hwrites.noNull, hwrites.leads] at hlook

theorem isFresh_outcome (source copy : Path) (h : Host) :
    ∃ r, (isFresh source copy).outcome h = (r, h) ∧
      (r = .ok true ↔ h.isLater copy source) ∧
      (∀ e, r = .error e → ∀ content, h.Holds source content → h.canWrite copy = false) := by
  rw [isFresh, outcome_get_bind, outcome_bind, outcome_look]
  unfold isLater
  cases hcopy : h.look copy with
  | error e => exact ⟨.error e, rfl, by simp, fun _ _ _ _ => canWrite_eq_false_of_look hcopy⟩
  | ok there =>
    cases there with
    | none => exact ⟨.ok false, rfl, by simp, by simp⟩
    | some made =>
      simp only
      rw [outcome_bind, outcome_look]
      cases hsource : h.look source with
      | error e =>
        refine ⟨.error e, rfl, by simp, ?_⟩
        intro _ _ content hholds
        obtain ⟨time, hlook⟩ := hholds.look_eq
        rw [hsource] at hlook
        cases hlook
      | ok there =>
        cases there with
        | none =>
          refine ⟨_, rfl, by simp, ?_⟩
          intro _ _ content hholds
          obtain ⟨time, hlook⟩ := hholds.look_eq
          rw [hsource] at hlook
          cases hlook
        | some node => exact ⟨_, rfl, by simp, by simp⟩

/-- A call accepts a later copy unseen, or finds that it cannot copy, or copies. -/
theorem make_cases {r : Except Fault Bool} (hmake : (make source copy).outcome h = (r, h')) :
    (h.isLater copy source ∧ r = .ok true ∧ h' = h) ∨
    (h.isLater copy source = false ∧ r ≠ .ok true ∧ h'.files = h.files ∧ h'.here = h.here ∧
      ∀ entries, h.Holds source (.archive entries) → h.canWrite copy = false) ∨
    (h.isLater copy source = false ∧ h.canWrite copy ∧ ∃ entries,
      h.Holds source (.archive entries) ∧
      h'.Holds copy (.archive (copied (h.isSamePlace source copy) entries)) ∧
      (r = .ok true → copied (h.isSamePlace source copy) entries = slim entries)) := by
  obtain ⟨fresh, hfresh, hlater, hbroken⟩ := isFresh_outcome source copy h
  rw [make, outcome_bind, hfresh] at hmake
  rcases fresh with e | (_ | _)
  · cases hmake
    refine .inr (.inl ⟨?_, by simp, rfl, rfl, fun entries => hbroken e rfl _⟩)
    rw [Bool.eq_false_iff, Ne, ← hlater]
    simp
  · have hold : h.isLater copy source = false := by
      rw [Bool.eq_false_iff, Ne, ← hlater]
      simp
    change (attempt (copyAll source copy) >>= _ : Action Bool).outcome h = _ at hmake
    rw [outcome_bind, outcome_attempt] at hmake
    by_cases hnone : ∀ entries, h.Holds source (.archive entries) → h.canWrite copy = false
    · obtain ⟨e, hfails⟩ := copyAll_outcome_of_none hnone
      rw [hfails] at hmake
      cases hmake
      exact .inr (.inl ⟨hold, by simp, rfl, rfl, hnone⟩)
    · push Not at hnone
      obtain ⟨entries, hsource, hwrite⟩ := hnone
      have hwrite : h.canWrite copy := by simpa using hwrite
      obtain ⟨place, hwrites⟩ := canWrite_iff.mp hwrite
      obtain ⟨done, h₁, hcopy, hholds, hall⟩ := copyAll_outcome hsource hwrites
      rw [hcopy] at hmake
      refine .inr (.inr ⟨hold, hwrite, entries, hsource, ?_⟩)
      cases done with
      | error e =>
        cases hmake
        exact ⟨hholds, by simp⟩
      | ok _ =>
        cases hmake
        exact ⟨hholds, fun _ => hall rfl⟩
  · cases hmake
    exact .inl ⟨hlater.mp rfl, rfl, rfl⟩

/-- What happens on the machine: a call, or a change of any kind, such as to a source. -/
inductive Event where
  | call (source : Path)
  | change (edit : Host → Host)

/-- The machine after an event. A call that fails has its effects too. -/
def Event.run (copy : Path) (h : Host) : Event → Host
  | call source => ((make source copy).outcome h).2
  | change edit => edit h

def history (copy : Path) (events : List Event) (h : Host) : Host :=
  events.foldl (Event.run copy) h

def Event.leaves (copy : Path) (h : Host) (kept : Option (List ArchiveEntry)) :
    Event → Option (List ArchiveEntry)
  | change edit => (edit h).entriesAt? copy
  | call source =>
    match h.entriesAt? source with
    | none => kept
    | some entries =>
      if h.canWrite copy && !h.isLater copy source then
        some (copied (h.isSamePlace source copy) entries)
      else kept

def lastLeft (copy : Path) (h : Host) (kept : Option (List ArchiveEntry)) :
    List Event → Option (List ArchiveEntry)
  | [] => kept
  | event :: events => lastLeft copy (event.run copy h) (event.leaves copy h kept) events

theorem entriesAt?_congr (hfiles : h'.files = h.files) (hhere : h'.here = h.here) (p : Path) :
    h'.entriesAt? p = h.entriesAt? p := by
  simp only [Host.entriesAt?, Host.look, hfiles, hhere]

theorem entriesAt?_run (copy : Path) (h : Host) (event : Event) :
    (event.run copy h).entriesAt? copy = event.leaves copy h (h.entriesAt? copy) := by
  cases event with
  | change edit => rfl
  | call source =>
    rcases hmake : (make source copy).outcome h with ⟨r, h'⟩
    simp only [Event.run, Event.leaves, hmake]
    rcases make_cases hmake with ⟨hlater, -, rfl⟩ | ⟨hlater, -, hfiles, hhere, hnone⟩ |
      ⟨hlater, hwrite, entries, hsource, hcopy, -⟩
    · rw [hlater, Bool.not_true, Bool.and_false]
      cases h'.entriesAt? source <;> rfl
    · rw [entriesAt?_congr hfiles hhere]
      cases hsource : h.entriesAt? source with
      | none => rfl
      | some entries =>
        have hwrite := hnone entries (entriesAt?_eq_some_iff.mp hsource)
        simp [hwrite]
    · rw [entriesAt?_eq_some_iff.mpr hsource, entriesAt?_eq_some_iff.mpr hcopy]
      simp [hwrite, hlater]

theorem entriesAt?_history (copy : Path) (events : List Event) (h : Host) :
    (history copy events h).entriesAt? copy = lastLeft copy h (h.entriesAt? copy) events := by
  induction events generalizing h with
  | nil => rfl
  | cons event events ih =>
    have hrest := ih (event.run copy h)
    rw [entriesAt?_run] at hrest
    exact hrest

/-- After any history, a call that says that it made the copy is right exactly when it copied, or
when what was left last is by chance what its source asks for now. -/
theorem make_true_iff {events : List Event}
    (hmake : (make source copy).outcome (history copy events h) = (.ok true, h')) :
    (∃ entries, (history copy events h).entriesAt? source = some entries ∧
      h'.entriesAt? copy = some (slim entries)) ↔
    (history copy events h).isLater copy source = false ∨
      ∃ entries, (history copy events h).entriesAt? source = some entries ∧
        lastLeft copy h (h.entriesAt? copy) events = some (slim entries) := by
  rw [← entriesAt?_history]
  rcases make_cases hmake with ⟨hlater, -, rfl⟩ | ⟨-, hnot, -⟩ |
    ⟨hlater, -, entries, hsource, hcopy, hall⟩
  · simp [hlater]
  · exact absurd rfl hnot
  · rw [hall rfl] at hcopy
    constructor
    · intro _
      exact .inl hlater
    · intro _
      exact ⟨entries, Host.entriesAt?_eq_some_iff.mpr hsource,
        Host.entriesAt?_eq_some_iff.mpr hcopy⟩

def lockedServer : List ArchiveEntry := [
  ("com/hypixel/hytale/A.class", .bytes [1], false),
  ("com/hypixel/hytale/B.class", .bytes [2], true)]

def serverWorkspace : Host where
  files := ⟨[
    (["w"], .directory),
    (["w", "server.jar"], .file (.archive lockedServer) 1)]⟩
  clock := 1

/-- The first call fails at the lock, and the second one accepts what the first one left. -/
theorem make_true_wrong_serverWorkspace :
    ∃ h', (make (.absolute ["w", "server.jar"]) (.absolute ["w", "slim.jar"])).outcome
        (history (.absolute ["w", "slim.jar"]) [.call (.absolute ["w", "server.jar"])]
          serverWorkspace) = (.ok true, h') ∧
      ¬ ∃ entries, (history (.absolute ["w", "slim.jar"]) [.call (.absolute ["w", "server.jar"])]
          serverWorkspace).entriesAt? (.absolute ["w", "server.jar"]) = some entries ∧
        h'.entriesAt? (.absolute ["w", "slim.jar"]) = some (slim entries) := by
  have hmake : ∃ h', (make (.absolute ["w", "server.jar"]) (.absolute ["w", "slim.jar"])).outcome
      (history (.absolute ["w", "slim.jar"]) [.call (.absolute ["w", "server.jar"])]
        serverWorkspace) = (.ok true, h') := ⟨_, rfl⟩
  obtain ⟨h', hmake⟩ := hmake
  refine ⟨h', hmake, ?_⟩
  rw [make_true_iff hmake]
  rintro (hold | ⟨entries, hsource, hleft⟩)
  · have hlater : (history (.absolute ["w", "slim.jar"]) [.call (.absolute ["w", "server.jar"])]
        serverWorkspace).isLater (.absolute ["w", "slim.jar"]) (.absolute ["w", "server.jar"]) =
          true := by decide
    exact Bool.false_ne_true (hold.symm.trans hlater)
  · obtain rfl : lockedServer = entries := Option.some.inj hsource
    have hcount := congrArg (Option.map List.length) hleft
    revert hcount
    decide

end Slim

/-!
Which file an engine is started with. The letter case of a name does not matter for the engine that
it means, but only the exact name of the second engine fetches its file. So the name in other letter
case starts the second engine with the file of the first one.
-/

variable {h h' : Host} {root tool : Path} {name : String} {version engine : Json}

namespace Engine

/-- Where the file of an engine is kept. -/
def file (root : Path) : Engine → Action Path
  | jadx => Layout.jadx root
  | vineflower => Layout.vineflower root

theorem reads_file (root : Path) (e : Engine) : (e.file root).Reads := by
  have htools : (Layout.tools root).Reads :=
    (Layout.reads_workspace root).bind_pure
  cases e <;> exact htools.bind_pure

theorem file_ne (hjadx : (jadx.file root).outcome h = (.ok tool, h)) :
    (vineflower.file root).outcome h ≠ (.ok tool, h) := by
  intro hvineflower
  obtain ⟨dir, h₁, hdir, hfirst⟩ := bind_ok_iff.mp hjadx
  obtain ⟨dir', h₂, hdir', hsecond⟩ := bind_ok_iff.mp hvineflower
  obtain rfl := ok_unique hdir hdir'
  have hsame := (pure_ok hfirst).1.trans (pure_ok hsecond).1.symm
  have hparts : dir.parts ++ [Layout.jadxName] = dir.parts ++ [Layout.vineflowerName] :=
    congrArg Path.parts hsame
  exact absurd (List.append_cancel_left hparts) (by decide)

end Engine

theorem file_of_jadx (hfetch : (Fetch.jadx root).outcome h = (.ok (some tool), h')) :
    (Engine.jadx.file root).outcome h = (.ok tool, h) := by
  obtain ⟨jar, hjar, hrest⟩ := (Engine.reads_file root .jadx).bind_ok hfetch
  suffices hsame : jar = tool by rwa [hsame] at hjar
  obtain ⟨isThere, -, hrest⟩ := (reads_isFile jar).bind_ok hrest
  split at hrest
  · exact Option.some.inj (pure_ok hrest).1
  · iterate 5 obtain ⟨_, _, -, hrest⟩ := bind_ok_iff.mp hrest
    obtain ⟨fetched, _, -, hrest⟩ := bind_ok_iff.mp hrest
    split at hrest
    · obtain ⟨done, _, -, hrest⟩ := bind_ok_iff.mp hrest
      obtain ⟨_, _, -, hrest⟩ := bind_ok_iff.mp hrest
      cases done with
      | true => exact Option.some.inj (pure_ok hrest).1
      | false => cases (pure_ok hrest).1
    · cases (pure_ok hrest).1

theorem file_of_vineflower {address : String}
    (hfetch : (Fetch.vineflower root address).outcome h = (.ok (some tool), h')) :
    (Engine.vineflower.file root).outcome h = (.ok tool, h) := by
  obtain ⟨jar, hjar, hrest⟩ := (Engine.reads_file root .vineflower).bind_ok hfetch
  suffices hsame : jar = tool by rwa [hsame] at hjar
  obtain ⟨isThere, -, hrest⟩ := (reads_isFile jar).bind_ok hrest
  split at hrest
  · exact Option.some.inj (pure_ok hrest).1
  · obtain ⟨_, _, -, hrest⟩ := bind_ok_iff.mp hrest
    obtain ⟨fetched, _, -, hrest⟩ := bind_ok_iff.mp hrest
    split at hrest
    · exact Option.some.inj (pure_ok hrest).1
    · cases (pure_ok hrest).1

namespace Decompile

theorem file_of_toolFor (htool : (toolFor root name).outcome h = (.ok (.ok tool), h')) :
    ((if name = "vineflower" then Engine.vineflower else .jadx).file root).outcome h =
      (.ok tool, h) := by
  unfold toolFor at htool
  split at htool
  · next hname =>
    rw [if_pos (by simpa using hname)]
    obtain ⟨found, _, hfetch, hrest⟩ := bind_ok_iff.mp htool
    cases found with
    | none => cases (pure_ok hrest).1
    | some p =>
      obtain rfl := Except.ok.inj (pure_ok hrest).1
      exact file_of_vineflower hfetch
  · next hname =>
    rw [if_neg (by simpa using hname)]
    obtain ⟨found, _, hfetch, hrest⟩ := bind_ok_iff.mp htool
    cases found with
    | none => cases (pure_ok hrest).1
    | some p =>
      obtain rfl := Except.ok.inj (pure_ok hrest).1
      exact file_of_jadx hfetch

/-- What an engine is started with. -/
structure Start where
  engine : Engine
  jar : Path
  out : Path
  tool : Path
  log : Path

/-- All that is done before the engine is started. -/
def prepare (root : Path) (version : Json) (name : String) (jar tool : Path) :
    Action (Except DecompileFailure Start) := do
  let h ← get
  let version ← Action.ofExcept version.pathText
  let out ← Layout.sources root version
  makeDirs out
  let logs := Layout.logs root
  makeDirs logs
  let log := logs / ("decompile_" ++ name ++ "_" ++ version ++ "_" ++ h.stamp ++ ".log")
  let slim := out.parent / ("HytaleServer_" ++ version ++ "_slim.jar")
  if ← Slim.make jar slim then return .ok ⟨Engine.ofName name, slim, out, tool, log⟩
  else return .error .failed

def start (root : Path) (version engine : Json) : Action (Except DecompileFailure Start) := do
  match ← Settings.jarOf? root version.display with
  | none => return .error .noJar
  | some jar =>
    if hasLauncher (← get) then
      let name ← Action.ofExcept (← chosenEngine root engine).asText
      match ← toolFor root name with
      | .ok tool => prepare root version name jar tool
      | .error e => return .error e
    else return .error .noJava

def launch : Except DecompileFailure Start → Action (Except DecompileFailure RunReport)
  | .error e => return .error e
  | .ok s => do
    match ← s.engine.run s.jar s.out s.tool (some s.log) with
    | some report => return .ok report
    | none => return .error .failed

theorem withTool_eq (root : Path) (version : Json) (name : String) (jar tool : Path) :
    withTool root version name jar tool = prepare root version name jar tool >>= launch := by
  simp only [withTool, prepare, bind_assoc]
  congr! with h version out _ made
  cases made <;> rfl

theorem version_eq (root : Path) (version engine : Json) :
    Decompile.version root version engine = start root version engine >>= launch := by
  simp only [Decompile.version, start, bind_assoc]
  congr! with jar
  cases jar with
  | none => rfl
  | some jar =>
    simp only [bind_assoc]
    congr! with h
    split
    · simp only [bind_assoc]
      congr! with value name found
      cases found with
      | error e => rfl
      | ok tool => exact withTool_eq root version name jar tool
    · rfl

theorem reads_chosenEngine (root : Path) (given : Json) : (chosenEngine root given).Reads := by
  unfold chosenEngine
  split
  · exact reads_pure _
  · refine Reads.bind ?_ fun _ => reads_pure _
    refine (Settings.reads_load root).bind fun _ => (reads_ofExcept _).bind fun found => ?_
    split
    · exact reads_pure _
    · exact (reads_ofExcept _).bind_pure

variable {s : Start}

theorem prepare_eq {jar : Path}
    (hprepare : (prepare root version name jar tool).outcome h = (.ok (.ok s), h')) :
    s.engine = .ofName name ∧ s.tool = tool := by
  iterate 6 obtain ⟨_, _, -, hprepare⟩ := bind_ok_iff.mp hprepare
  split at hprepare
  · obtain rfl := Except.ok.inj (pure_ok hprepare).1
    exact ⟨rfl, rfl⟩
  · cases (pure_ok hprepare).1

theorem start_cases (hstart : (start root version engine).outcome h = (.ok (.ok s), h')) :
    ∃ name h₁, (chosenEngine root engine).outcome h = (.ok (.str name), h) ∧
      (toolFor root name).outcome h = (.ok (.ok s.tool), h₁) ∧ s.engine = .ofName name := by
  obtain ⟨jar, -, hrest⟩ := (Settings.reads_jarOf? _ _).bind_ok hstart
  cases jar with
  | none => cases (pure_ok hrest).1
  | some jar =>
    dsimp only at hrest
    rw [outcome_get_bind] at hrest
    split at hrest
    · obtain ⟨value, hvalue, hnamed⟩ := (reads_chosenEngine _ _).bind_ok hrest
      obtain ⟨name, hname, hfetched⟩ := (reads_ofExcept _).bind_ok hnamed
      obtain rfl := Json.eq_str_of_asText (ofExcept_ok hname).1
      obtain ⟨found, h₁, htool, hlast⟩ := bind_ok_iff.mp hfetched
      cases found with
      | error e => cases (pure_ok hlast).1
      | ok tool =>
        obtain ⟨hengine, rfl⟩ := prepare_eq hlast
        exact ⟨name, h₁, hvalue, htool, hengine⟩
    · cases (pure_ok hrest).1

/-- Decompiling starts an engine with its own file exactly if the name is the exact one of the second
engine, or means the first one. -/
theorem starts_own_file_iff :
    Decompile.version root version engine = start root version engine >>= launch ∧
    ∀ s h', (start root version engine).outcome h = (.ok (.ok s), h') →
      ∃ name, (chosenEngine root engine).outcome h = (.ok (.str name), h) ∧
        (s.engine = .vineflower ↔ Text.lower name = "vineflower") ∧
        ((Engine.vineflower.file root).outcome h = (.ok s.tool, h) ↔ name = "vineflower") ∧
        ((Engine.jadx.file root).outcome h = (.ok s.tool, h) ↔ name ≠ "vineflower") ∧
        ((s.engine.file root).outcome h = (.ok s.tool, h) ↔
          name = "vineflower" ∨ Text.lower name ≠ "vineflower") := by
  refine ⟨version_eq root version engine, fun s h' hstart => ?_⟩
  obtain ⟨name, h₁, hchosen, htool, hengine⟩ := start_cases hstart
  have hfile := file_of_toolFor htool
  have hlower : Text.lower "vineflower" = "vineflower" := by decide +kernel
  refine ⟨name, hchosen, ?_⟩
  rw [hengine, Engine.ofName]
  by_cases hname : name = "vineflower"
  · subst hname
    have hother := fun hjadx => Engine.file_ne hjadx hfile
    simp_all
  · rw [if_neg hname] at hfile
    have hother := Engine.file_ne hfile
    by_cases hcase : Text.lower name = "vineflower" <;> simp_all

/-- A workspace with the file of the first engine only. -/
def jadxWorkspace : Host where
  files := ⟨[(["w"], .directory), (["w", "workspace"], .directory),
    (["w", "workspace", "bin"], .directory),
    (["w", "workspace", "bin", Layout.jadxName], .file (.bytes []) 1),
    (["w", settingsName], .file (.ofText (Json.obj [("jar_path", .str "/w/s.jar")]).pretty) 1),
    (["w", "s.jar"], .file (.archive [("META-INF/MANIFEST.MF", .bytes [], false)]) 1)]⟩
  launcher := some {}

theorem starts_own_file_iff_jadxWorkspace : ∃ s h',
    (start (.absolute ["w"]) (.str "release") (.str "Vineflower")).outcome jadxWorkspace =
      (.ok (.ok s), h') ∧
    s.engine = .vineflower ∧
    (Engine.jadx.file (.absolute ["w"])).outcome jadxWorkspace = (.ok s.tool, jadxWorkspace) := by
  have hstarts : ((start (.absolute ["w"]) (.str "release") (.str "Vineflower")).outcome
      jadxWorkspace).1.toOption.any (·.isOk) := by decide +kernel
  rcases hrun : (start (.absolute ["w"]) (.str "release") (.str "Vineflower")).outcome
    jadxWorkspace with ⟨_ | _ | s, h'⟩ <;> rw [hrun] at hstarts
  · cases hstarts
  · cases hstarts
  · obtain ⟨name, hname, hengine, -, hjadx, -⟩ := starts_own_file_iff.2 s h' hrun
    obtain rfl : "Vineflower" = name := by simpa [chosenEngine, Json.isGiven] using hname
    exact ⟨s, h', rfl, hengine.mpr (by decide +kernel), hjadx.mpr (by decide)⟩

end Decompile

end JarAtlas
