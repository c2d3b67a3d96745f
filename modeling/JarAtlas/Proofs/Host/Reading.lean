import JarAtlas.Host.Connect
import JarAtlas.Proofs.Files.Tree
import JarAtlas.Proofs.Host.Outcome

/-!
Opening a database and writing to it. Once a path was opened it can be opened again at any later
time, as long as all directories and files are kept: opening then changes nothing, and what is read
is what was stored last.
-/

namespace JarAtlas

open FileTree Connection

variable {h : Host} {p : Path} {α : Type}

/-- The machine without its files, its clock and its error channel. -/
def Host.setting (h : Host) : Host :=
  { h with files := {}, clock := 0, errors := "" }

/-- `h'` is `h` but for its files, its clock and its error channel, and keeps what was there. -/
structure Host.Grows (h h' : Host) : Prop where
  files : h.files.Keeps h'.files
  setting : h'.setting = h.setting

namespace Host

variable {h' : Host} {p : Path}

theorem Grows.refl (h : Host) : h.Grows h :=
  ⟨Keeps.refl _, rfl⟩

theorem Grows.trans {h₁ h₂ h₃ : Host} (h : h₁.Grows h₂) (h' : h₂.Grows h₃) : h₁.Grows h₃ :=
  ⟨h.files.trans h'.files, h'.setting.trans h.setting⟩

theorem grows_errors (h : Host) (s : String) : h.Grows { h with errors := s } :=
  ⟨Keeps.refl _, rfl⟩

theorem Grows.here_eq (hgrows : h.Grows h') : h'.here = h.here := by
  have hsame := congrArg here hgrows.setting
  exact hsame

theorem Grows.locate_eq (hgrows : h.Grows h') {place : Place}
    (hlocate : h.files.locate h.here p = .ok place) : h'.files.locate h'.here p = .ok place := by
  rw [hgrows.here_eq]
  exact FileTree.locate_eq hgrows.files.dirs hlocate

/-- The path and all paths above it lead to directories. -/
structure HasDirs (h : Host) (p : Path) : Prop where
  noNull : p.hasNull = false
  dirs : ∀ n ≤ p.parts.length, ∃ place,
    h.files.locate h.here ⟨p.slashes, p.parts.take n⟩ = .ok place ∧ h.files.isDir place = true

theorem HasDirs.mono (hgrows : h.Grows h') (hdirs : h.HasDirs p) : h'.HasDirs p := by
  refine ⟨hdirs.noNull, fun n hn => ?_⟩
  obtain ⟨place, hlocate, hdir⟩ := hdirs.dirs n hn
  exact ⟨place, hgrows.locate_eq hlocate, hgrows.files.dirs place hdir⟩

end Host

namespace Action

variable {h' : Host} {place : Place} {steps : List Path}

theorem locate_outcome (hnull : p.hasNull = false) (h : Host) :
    (locate p).outcome h =
      (match h.files.locate h.here p with
        | .ok place => .ok place
        | .error e => .error (.file e p.text), h) := by
  simp only [locate, hnull, Bool.false_eq_true, if_false]
  rw [outcome_get_bind]
  cases h.files.locate h.here p <;> rfl

theorem locate_outcome_of_ok (hnull : p.hasNull = false)
    (hplace : h.files.locate h.here p = .ok place) : (locate p).outcome h = (.ok place, h) := by
  rw [locate_outcome hnull, hplace]

theorem locate_outcome_ok (hlocate : (locate p).outcome h = (.ok place, h')) :
    p.hasNull = false ∧ h.files.locate h.here p = .ok place ∧ h' = h := by
  cases hnull : p.hasNull with
  | true => simp [locate, hnull] at hlocate
  | false =>
    rw [locate_outcome hnull] at hlocate
    refine ⟨rfl, ?_⟩
    cases hplace : h.files.locate h.here p with
    | error e => simp [hplace] at hlocate
    | ok goal =>
      rw [hplace] at hlocate
      obtain ⟨hgoal, hhost⟩ := Prod.mk.inj hlocate
      exact ⟨congrArg _ (Except.ok.inj hgoal), hhost.symm⟩

theorem makeDir_outcome_ok (hmake : (makeDir p).outcome h = (.ok (), h')) :
    h.Grows h' ∧ ∃ place, h'.files.locate h'.here p = .ok place ∧ h'.files.isDir place := by
  obtain ⟨place, h₁, hlocate, hrest⟩ := bind_ok_iff.mp hmake
  obtain ⟨-, hplace, rfl⟩ := locate_outcome_ok hlocate
  rw [outcome_get_bind] at hrest
  cases hget : h₁.files.get? place with
  | none =>
    simp only [hget, outcome_modify, Prod.mk.injEq, true_and] at hrest
    subst hrest
    have hgrows : h₁.Grows { h₁ with files := h₁.files.put place .directory } :=
      ⟨keeps_put (by simp [hget]) fun hfile => by simp [FileTree.isFile, hget] at hfile, rfl⟩
    refine ⟨hgrows, place, hgrows.locate_eq hplace, ?_⟩
    rw [isDir_iff]
    have hne : place ≠ [] := place_ne_nil_of_get? h₁.files (by simp [hget])
    rw [get?_put _ hne, if_pos rfl]
  | some node =>
    cases node with
    | file content time => simp [hget, failFile] at hrest
    | directory =>
      simp only [hget, outcome_pure, Prod.mk.injEq, true_and] at hrest
      subst hrest
      exact ⟨Host.Grows.refl _, place, hplace, isDir_iff.mpr hget⟩

theorem makeDir_outcome_of_dir (hnull : p.hasNull = false)
    (hplace : h.files.locate h.here p = .ok place) (hdir : h.files.isDir place) :
    (makeDir p).outcome h = (.ok (), h) := by
  rw [makeDir, bind_of_ok (locate_outcome_of_ok hnull hplace), outcome_get_bind]
  simp [isDir_iff.mp hdir]

private theorem makeDirSteps_ok (hmake : (steps.forM makeDir).outcome h = (.ok (), h')) :
    h.Grows h' ∧ ∀ p ∈ steps, ∃ place,
      h'.files.locate h'.here p = .ok place ∧ h'.files.isDir place := by
  induction steps generalizing h with
  | nil =>
    cases hmake
    exact ⟨Host.Grows.refl _, by simp⟩
  | cons p steps ih =>
    obtain ⟨⟨⟩, h₁, hfirst, hrest⟩ := bind_ok_iff.mp hmake
    obtain ⟨hgrows, place, hplace, hdir⟩ := makeDir_outcome_ok hfirst
    obtain ⟨hmore, hall⟩ := ih hrest
    refine ⟨hgrows.trans hmore, ?_⟩
    intro q hq
    rcases List.mem_cons.mp hq with rfl | hq
    · exact ⟨place, hmore.locate_eq hplace, hmore.files.dirs place hdir⟩
    · exact hall q hq

private theorem makeDirSteps_of_dirs (hdirs : ∀ p ∈ steps, p.hasNull = false ∧ ∃ place,
      h.files.locate h.here p = .ok place ∧ h.files.isDir place) :
    (steps.forM makeDir).outcome h = (.ok (), h) := by
  induction steps with
  | nil => rfl
  | cons p steps ih =>
    obtain ⟨hnull, place, hplace, hdir⟩ := hdirs p List.mem_cons_self
    have hfirst := makeDir_outcome_of_dir hnull hplace hdir
    show (makeDir p >>= fun _ => steps.forM makeDir).outcome h = _
    rw [bind_of_ok hfirst]
    exact ih fun q hq => hdirs q (List.mem_cons_of_mem _ hq)

private theorem hasNull_take (hnull : p.hasNull = false) (n : Nat) :
    (Path.mk p.slashes (p.parts.take n)).hasNull = false := by
  simp only [Path.hasNull, List.any_eq_false] at hnull ⊢
  exact fun part hpart => hnull part (List.mem_of_mem_take hpart)

theorem makeDirs_outcome_ok (hmake : (makeDirs p).outcome h = (.ok (), h')) :
    h.Grows h' ∧ h'.HasDirs p := by
  cases hnull : p.hasNull with
  | true => simp [makeDirs, hnull] at hmake
  | false =>
    simp only [makeDirs, hnull, Bool.false_eq_true, if_false] at hmake
    rw [outcome_get_bind] at hmake
    have hsteps : outcome (((List.range (p.parts.length + 1)).map fun n =>
        Path.mk p.slashes (p.parts.take n)).forM makeDir) h = (.ok (), h') := by
      split at hmake
      · simp [failFile] at hmake
      · simp [failFile] at hmake
      · exact hmake
    obtain ⟨hgrows, hall⟩ := makeDirSteps_ok hsteps
    refine ⟨hgrows, hnull, fun n hn => hall _ ?_⟩
    exact List.mem_map_of_mem (List.mem_range.mpr (Nat.lt_succ_of_le hn))

theorem makeDirs_outcome_of_dirs (hdirs : h.HasDirs p) : (makeDirs p).outcome h = (.ok (), h) := by
  obtain ⟨place, hplace, -⟩ := hdirs.dirs _ (Nat.le_refl _)
  rw [List.take_length] at hplace
  simp only [makeDirs, hdirs.noNull, Bool.false_eq_true, if_false]
  rw [outcome_get_bind]
  simp only [hplace]
  refine makeDirSteps_of_dirs fun q hq => ?_
  obtain ⟨n, hn, rfl⟩ := List.mem_map.mp hq
  exact ⟨hasNull_take hdirs.noNull n, hdirs.dirs n (Nat.le_of_lt_succ (List.mem_range.mp hn))⟩

end Action

namespace Host

variable {h : Host} {p : Path} {place : Place}

def storing (h : Host) (place : Place) (content : Content) : Host :=
  { h with files := h.files.put place (.file content (h.clock + 1)), clock := h.clock + 1 }

theorem grows_storing (hplace : h.files.get? place ≠ some .directory) (content : Content) :
    h.Grows (h.storing place content) :=
  ⟨keeps_put hplace fun _ => ⟨content, h.clock + 1, rfl⟩, rfl⟩

theorem get?_storing (hplace : h.files.get? place ≠ some .directory) (content : Content)
    (q : Place) : (h.storing place content).files.get? q =
      if q = place then some (.file content (h.clock + 1)) else h.files.get? q :=
  get?_put _ (place_ne_nil_of_get? _ hplace) _ q

/-- A database can be opened at the path, which leads to the place, without any change. -/
structure Opens (h : Host) (p : Path) (place : Place) : Prop where
  dirs : h.HasDirs p.parent
  noNull : p.hasNull = false
  short : (Connection.maxNameSize < (p.resolve h.here).text.utf8ByteSize ||
    FileTree.maxPartSize < p.name.utf8ByteSize) = false
  leads : h.files.locate h.here p = .ok place
  file : h.files.isFile place = true

theorem Opens.mono {h' : Host} (hgrows : h.Grows h') (hopens : h.Opens p place) :
    h'.Opens p place where
  dirs := hopens.dirs.mono hgrows
  noNull := hopens.noNull
  short := by
    rw [hgrows.here_eq]
    exact hopens.short
  leads := hgrows.locate_eq hopens.leads
  file := hgrows.files.files place hopens.file

/-- The file at the path, which can be opened, holds the database. -/
def Stores (h : Host) (p : Path) (d : Database) : Prop :=
  ∃ place time, h.Opens p place ∧ h.files.get? place = some (.file (.database d) time)

theorem Opens.stores (hopens : h.Opens p place) (d : Database) :
    h.Grows (h.storing place (.database d)) ∧ (h.storing place (.database d)).Stores p d := by
  obtain ⟨content, time, hfile⟩ := isFile_iff.mp hopens.file
  have hnot : h.files.get? place ≠ some .directory := by simp [hfile]
  have hgrows := grows_storing hnot (.database d)
  refine ⟨hgrows, place, h.clock + 1, hopens.mono hgrows, ?_⟩
  rw [get?_storing hnot, if_pos rfl]

theorem Stores.errors {d : Database} (hstores : h.Stores p d) (s : String) :
    Stores { h with errors := s } p d := by
  obtain ⟨place, time, hopens, hfile⟩ := hstores
  exact ⟨place, time, hopens.mono (h.grows_errors s), hfile⟩

end Host

namespace Connection

open JarAtlas.Action

variable {place : Place} {h' : Host} {c c' : Connection} {d : Database} {a : α}
  {f : Work → Except Fault (α × Work)} {content : Content} {e : Fault}

private theorem resolve_outcome (hnull : p.hasNull = false) (h : Host) :
    (Action.resolve p).outcome h = (.ok (p.resolve h.here), h) := by
  rw [outcome_resolve, Host.resolve, hnull, if_neg Bool.false_ne_true]

private theorem locate_outcome_of_opens (hopens : h.Opens p place) :
    (locate p).outcome h = (.ok place, h) :=
  locate_outcome_of_ok hopens.noNull hopens.leads

theorem start_outcome_of_opens (hopens : h.Opens p place) :
    (start p).outcome h = (.ok { path := p }, h) := by
  obtain ⟨content, time, hfile⟩ := isFile_iff.mp hopens.file
  rw [start, bind_of_ok (makeDirs_outcome_of_dirs hopens.dirs)]
  simp only [hopens.noNull, Bool.false_eq_true, if_false]
  rw [bind_of_ok (resolve_outcome hopens.noNull h)]
  simp only [hopens.short, Bool.false_eq_true, if_false]
  rw [bind_of_ok (locate_outcome_of_opens hopens), outcome_get_bind]
  simp only [hfile, outcome_pure]

def enter (p : Path) : Action Connection := do
  if p.hasNull then throw .nullInPath
  let full ← Action.resolve p
  if maxNameSize < full.text.utf8ByteSize || FileTree.maxPartSize < p.name.utf8ByteSize then
    throw (.store .cannotOpen)
  let place ← Action.locate p
  match (← get).files.get? place with
  | some .directory => throw (.store .cannotOpen)
  | some (.file ..) => return { path := p }
  | none =>
    Action.store place (.bytes [])
    return { path := p }

theorem start_eq (p : Path) : start p = (makeDirs p.parent >>= fun _ => enter p) :=
  rfl

theorem enter_cases {r : Except Fault Connection} (henter : (enter p).outcome h = (r, h')) :
    (h' = h ∧ ∃ e, r = .error e) ∨
    (r = .ok { path := p } ∧ p.hasNull = false ∧
      (maxNameSize < (p.resolve h.here).text.utf8ByteSize ||
        maxPartSize < p.name.utf8ByteSize) = false ∧
      ∃ place, h.files.locate h.here p = .ok place ∧ (h' = h ∧ h.files.isFile place = true ∨
        h.files.get? place = none ∧ h' = h.storing place (.bytes []))) := by
  have hfails {e : Fault} (hfail : (.error e, h) = (r, h')) : h' = h ∧ ∃ e, r = .error e := by
    cases hfail
    exact ⟨rfl, e, rfl⟩
  cases hnull : p.hasNull with
  | true =>
    simp only [enter, hnull, if_true, outcome_throw_bind] at henter
    exact .inl (hfails henter)
  | false =>
    simp only [enter, hnull, Bool.false_eq_true, if_false] at henter
    rw [bind_of_ok (resolve_outcome hnull h)] at henter
    cases hshort : (maxNameSize < (p.resolve h.here).text.utf8ByteSize ||
        maxPartSize < p.name.utf8ByteSize : Bool) with
    | true =>
      simp only [hshort, if_true, outcome_throw_bind] at henter
      exact .inl (hfails henter)
    | false =>
      simp only [hshort, Bool.false_eq_true, if_false] at henter
      rw [outcome_bind, locate_outcome hnull] at henter
      cases hplace : h.files.locate h.here p with
      | error e =>
        rw [hplace] at henter
        exact .inl (hfails henter)
      | ok place =>
        simp only [hplace, outcome_get_bind] at henter
        split at henter
        · exact .inl (hfails henter)
        · next content time hget =>
          cases henter
          exact .inr ⟨rfl, rfl, rfl, place, rfl,
            .inl ⟨rfl, isFile_iff.mpr ⟨content, time, hget⟩⟩⟩
        · next hnone =>
          cases henter
          exact .inr ⟨rfl, rfl, rfl, place, rfl, .inr ⟨hnone, rfl⟩⟩

theorem start_outcome_ok (hstart : (start p).outcome h = (.ok c, h')) :
    c = { path := p } ∧ h.Grows h' ∧ ∃ place, h'.Opens p place := by
  rw [start_eq] at hstart
  obtain ⟨⟨⟩, h₁, hdirs, henter⟩ := bind_ok_iff.mp hstart
  obtain ⟨hgrows, hdirs⟩ := makeDirs_outcome_ok hdirs
  rcases enter_cases henter with ⟨-, e, hfails⟩ | ⟨hc, hnull, hshort, place, hplace, hafter⟩
  · cases hfails
  · refine ⟨Except.ok.inj hc, ?_⟩
    rcases hafter with ⟨rfl, hfile⟩ | ⟨hnone, rfl⟩
    · exact ⟨hgrows, place, hdirs, hnull, hshort, hplace, hfile⟩
    · have hnot : h₁.files.get? place ≠ some .directory := by simp [hnone]
      have hmore := Host.grows_storing hnot (.bytes [])
      refine ⟨hgrows.trans hmore, place, hdirs.mono hmore, hnull, hshort, hmore.locate_eq hplace,
        isFile_iff.mpr ⟨.bytes [], h₁.clock + 1, ?_⟩⟩
      rw [Host.get?_storing hnot, if_pos rfl]

theorem view_outcome {time : Nat} (hdraft : c.draft = none) (hopens : h.Opens c.path place)
    (hfile : h.files.get? place = some (.file content time)) :
    c.view.outcome h = (.ok (content.database?.getD { isReadable := false }), h) := by
  have hlook : (Action.look c.path).outcome h = (.ok (some (.file content time)), h) := by
    rw [Action.look, outcome_get_bind, outcome_ofExcept]
    simp only [Host.look, hopens.noNull, Bool.false_eq_true, if_false, hopens.leads, hfile]
  simp only [view, hdraft]
  rw [bind_of_ok hlook]
  cases hd : content.database? <;> simp [hd]

theorem commit_outcome (hdraft : c.draft = some d) (hopens : h.Opens c.path place) :
    c.commit.outcome h = (.ok { c with draft := none }, h.storing place (.database d)) := by
  simp only [commit, hdraft]
  rw [bind_of_ok (locate_outcome_of_opens hopens)]
  rfl

/-- The connection may write, and sees a database that can be read. -/
structure Ready (c : Connection) (h : Host) (d : Database) : Prop where
  draft : c.draft = none
  free : c.isBlocked h = false
  opens : ∃ place, h.Opens c.path place
  view : c.view.outcome h = (.ok d, h)
  readable : d.isReadable = true

/-- After a change that was committed, the connection is ready for the next one. -/
structure Commits (c : Connection) (h : Host) (work : Work) (c' : Connection) (h' : Host) :
    Prop where
  path : c'.path = c.path
  lastRow : c'.lastRow = work.lastRow
  ready : c'.Ready h' work.database
  grows : h.Grows h'
  stores : h'.Stores c.path work.database

theorem isBlocked_of_grows (hgrows : h.Grows h') (hpath : c'.path = c.path)
    (hdraft : c.draft = none) (hfree : c.isBlocked h = false) : c'.isBlocked h' = false := by
  have hother : h'.connection = h.connection := by
    have hsame := congrArg Host.connection hgrows.setting
    exact hsame
  unfold isBlocked at hfree ⊢
  rw [hother, hgrows.here_eq, hpath]
  rw [hdraft, Option.isNone_none, Bool.true_and] at hfree
  rw [hfree, Bool.and_false]

theorem Ready.changeNow_eq (hc : c.Ready h d) (hopens : h.Opens c.path place)
    (f : Work → Except Fault (α × Work)) :
    (c.changeNow f).outcome h =
      match f ⟨d, c.lastRow⟩ with
      | .error e => (.error e, h)
      | .ok (a, work) => (.ok (a, { path := c.path, lastRow := work.lastRow }),
          h.storing place (.database work.database)) := by
  rw [changeNow, outcome_bind, change, outcome_get_bind]
  simp only [hc.free, Bool.false_eq_true, if_false]
  rw [bind_of_ok hc.view]
  simp only [hc.readable, Bool.not_true, Bool.false_eq_true, if_false]
  cases f ⟨d, c.lastRow⟩ with
  | error e => rw [outcome_bind, outcome_ofExcept]
  | ok done =>
    rw [bind_of_ok (outcome_ofExcept _ h), outcome_pure]
    have hcommit := commit_outcome
      (c := { c with lastRow := done.2.lastRow, draft := some done.2.database }) rfl hopens
    dsimp only
    rw [bind_of_ok hcommit, outcome_pure]

theorem Ready.changeNow_outcome (hc : c.Ready h d) {work : Work}
    (hf : f ⟨d, c.lastRow⟩ = .ok (a, work)) (hreadable : work.database.isReadable) :
    ∃ c' h', (c.changeNow f).outcome h = (.ok (a, c'), h') ∧ c.Commits h work c' h' := by
  obtain ⟨place, hopens⟩ := hc.opens
  obtain ⟨hgrows, hstores⟩ := hopens.stores work.database
  have hchange := hc.changeNow_eq hopens f
  rw [hf] at hchange
  refine ⟨_, _, hchange, rfl, rfl, ⟨rfl, ?_, ⟨place, hopens.mono hgrows⟩, ?_, hreadable⟩, hgrows,
    hstores⟩
  · exact isBlocked_of_grows (c := c) hgrows rfl hc.draft hc.free
  · obtain ⟨place, time, hopens, hfile⟩ := hstores
    exact view_outcome (c := { path := c.path, lastRow := work.lastRow }) rfl hopens hfile

theorem changeNow_cases (hdraft : c.draft = none) (hopens : h.Opens c.path place)
    (f : Work → Except Fault (α × Work)) :
    (∃ e, (c.changeNow f).outcome h = (.error e, h)) ∨ ∃ d, c.Ready h d := by
  obtain ⟨content, time, hfile⟩ := isFile_iff.mp hopens.file
  have hview := view_outcome hdraft hopens hfile
  cases hfree : c.isBlocked h with
  | true =>
    refine .inl ⟨.store .locked, ?_⟩
    rw [changeNow, outcome_bind, change, outcome_get_bind]
    simp [hfree]
  | false =>
    cases hreadable : (content.database?.getD { isReadable := false }).isReadable with
    | true => exact .inr ⟨_, hdraft, hfree, ⟨place, hopens⟩, hview, hreadable⟩
    | false =>
      refine .inl ⟨.store .notDatabase, ?_⟩
      rw [changeNow, outcome_bind, change, outcome_get_bind]
      simp only [hfree, Bool.false_eq_true, if_false]
      rw [bind_of_ok hview]
      simp [hreadable]

theorem ready_of_changeNow (hdraft : c.draft = none) (hopens : h.Opens c.path place)
    (hchange : (c.changeNow f).outcome h = (.ok (a, c'), h')) : ∃ d, c.Ready h d := by
  rcases changeNow_cases hdraft hopens f with ⟨e, hfails⟩ | hready
  · rw [hfails] at hchange
    cases (Prod.mk.inj hchange).1
  · exact hready

theorem changeNow_outcome_error (hdraft : c.draft = none) (hopens : h.Opens c.path place)
    (hchange : (c.changeNow f).outcome h = (.error e, h')) : h' = h := by
  rcases changeNow_cases hdraft hopens f with ⟨_, hfails⟩ | ⟨d, hc⟩
  · rw [hfails] at hchange
    exact (Prod.mk.inj hchange).2.symm
  · rw [hc.changeNow_eq hopens] at hchange
    cases hf : f ⟨d, c.lastRow⟩ <;> rw [hf] at hchange
    · exact (Prod.mk.inj hchange).2.symm
    · cases (Prod.mk.inj hchange).1

theorem reads_view (c : Connection) : c.view.Reads := by
  unfold view
  split
  · exact reads_pure _
  · refine (reads_look _).bind fun found => ?_
    split
    · split <;> exact reads_pure _
    · exact reads_pure _

end Connection

theorem Action.queryDatabase_outcome_of_opens {place : Place} {content : Content} {time : Nat}
    (hopens : h.Opens p place) (hfile : h.files.get? place = some (.file content time))
    (f : Database → Except Fault α) :
    (queryDatabase p f).outcome h =
      (f (content.database?.getD { isReadable := false }), h) := by
  rw [queryDatabase, bind_of_ok (start_outcome_of_opens hopens), query,
    bind_of_ok (view_outcome rfl hopens hfile), outcome_ofExcept]

theorem Action.queryDatabase_outcome {d : Database} (hstores : h.Stores p d)
    (f : Database → Except Fault α) : (queryDatabase p f).outcome h = (f d, h) := by
  obtain ⟨place, time, hopens, hfile⟩ := hstores
  exact queryDatabase_outcome_of_opens hopens hfile f

theorem Action.queryDatabase_outcome_ok {f : Database → Except Fault α} {a : α} {h' : Host}
    (hquery : (queryDatabase p f).outcome h = (.ok a, h')) :
    ∃ d, f d = .ok a ∧ ∀ {β : Type} (g : Database → Except Fault β),
      (queryDatabase p g).outcome h' = (g d, h') := by
  obtain ⟨c, h₁, hstart, hasked⟩ := bind_ok_iff.mp hquery
  obtain ⟨rfl, -, place, hopens⟩ := start_outcome_ok hstart
  obtain ⟨content, time, hfile⟩ := isFile_iff.mp hopens.file
  have hview := view_outcome (c := { path := p }) rfl hopens hfile
  rw [query, bind_of_ok hview] at hasked
  obtain ⟨ha, rfl⟩ := ofExcept_ok hasked
  exact ⟨_, ha, fun g => queryDatabase_outcome_of_opens hopens hfile g⟩

/-!
Questions about files. They never change the machine, and each is answered from the file that the
path leads to.
-/

variable {h : Host} {p : Path} {content : Content}

/-- The path leads to a file with the content. -/
def Host.Holds (h : Host) (p : Path) (content : Content) : Prop :=
  p.hasNull = false ∧ ∃ place time, h.files.locate h.here p = .ok place ∧
    h.files.get? place = some (.file content time)

namespace Host

theorem locate_of_look {node : Node} (hlook : h.look p = .ok (some node)) :
    p.hasNull = false ∧ ∃ place, h.files.locate h.here p = .ok place ∧
      h.files.get? place = some node := by
  unfold look at hlook
  split at hlook
  · cases hlook
  · next hnull =>
    split at hlook
    · next place hplace => exact ⟨by simpa using hnull, place, hplace, Except.ok.inj hlook⟩
    · cases hlook
    · cases hlook

theorem Holds.look_eq (hholds : h.Holds p content) :
    ∃ time, h.look p = .ok (some (.file content time)) := by
  obtain ⟨hnull, place, time, hplace, hget⟩ := hholds
  exact ⟨time, by simp [look, hnull, hplace, hget]⟩

theorem holds_of_look {time : Nat} (hlook : h.look p = .ok (some (.file content time))) :
    h.Holds p content := by
  obtain ⟨hnull, place, hplace, hget⟩ := locate_of_look hlook
  exact ⟨hnull, place, time, hplace, hget⟩

theorem isFile_eq_true_iff : h.isFile p = .ok true ↔ ∃ content, h.Holds p content := by
  constructor
  · intro hfile
    unfold isFile at hfile
    cases hlook : h.look p with
    | error e => simp [hlook, bind, Except.bind] at hfile
    | ok node =>
      rcases node with _ | _ | ⟨content, time⟩
      · simp [hlook, bind, Except.bind, pure, Except.pure] at hfile
      · simp [hlook, bind, Except.bind, pure, Except.pure] at hfile
      · exact ⟨content, holds_of_look hlook⟩
  · rintro ⟨content, hholds⟩
    obtain ⟨time, hlook⟩ := hholds.look_eq
    rw [isFile, hlook]
    rfl

end Host

theorem exists_entryNamed? {entries : List ArchiveEntry} {name : String}
    (hname : ∃ e ∈ entries, e.name = name) :
    ∃ e, entryNamed? entries name = some e ∧ e.name = name := by
  obtain ⟨e, he, hname⟩ := hname
  have hsome : (entryNamed? entries name).isSome := by
    rw [entryNamed?, List.find?_isSome]
    exact ⟨e, List.mem_reverse.mpr he, by simpa using hname⟩
  obtain ⟨found, hfound⟩ := Option.isSome_iff_exists.mp hsome
  exact ⟨found, hfound, by simpa using List.find?_some hfound⟩

namespace Action

variable {α : Type} {p : Path} {h : Host}

theorem reads_failFile (e : FileError) (p : Path) : (failFile e p : Action α).Reads :=
  reads_throw _

theorem Reads.attempt {a : Action α} (ha : a.Reads) : (attempt a).Reads := by
  intro h
  rw [outcome_attempt]
  exact ha h

theorem reads_isThere (p : Path) : (isThere p).Reads :=
  reads_get.bind fun _ => reads_ofExcept _

theorem reads_locate (p : Path) : (locate p).Reads := by
  unfold locate
  split
  · exact reads_throw_bind _ _
  · refine reads_get.bind fun h => ?_
    split
    · exact reads_pure _
    · exact reads_failFile _ _

theorem reads_readContent (p : Path) : (readContent p).Reads := by
  refine (reads_locate p).bind fun place => reads_get.bind fun h => ?_
  split
  · exact reads_pure _
  · exact reads_failFile _ _
  · exact reads_failFile _ _

theorem reads_readText (p : Path) : (readText p).Reads :=
  (reads_readContent p).bind_pure

theorem reads_readStrictText (p : Path) : (readStrictText p).Reads := by
  refine (reads_readContent p).bind fun content => ?_
  split
  · exact reads_pure _
  · exact reads_throw _

theorem reads_readArchive (p : Path) : (readArchive p).Reads := by
  refine (reads_readContent p).bind fun content => ?_
  split
  · exact reads_pure _
  · exact reads_throw _

theorem reads_readJson (p : Path) : (readJson p).Reads := by
  refine (reads_isThere p).bind fun isThere => ?_
  split
  · refine (reads_readStrictText p).attempt.bind fun r => ?_
    split
    · split
      · exact reads_pure _
      · exact reads_pure _
      · exact reads_throw _
      · exact reads_throw _
    · exact reads_pure _
    · exact reads_throw _
  · exact reads_pure _

theorem readContent_outcome_of_look {node : Node} :
    h.look p = .ok (some node) → (readContent p).outcome h =
      (match node with
        | .file content _ => .ok content
        | .directory => .error (.file .isDirectory p.text), h) := by
  intro hlook
  obtain ⟨hnull, place, hplace, hget⟩ := Host.locate_of_look hlook
  rw [readContent, bind_of_ok (locate_outcome_of_ok hnull hplace), outcome_get_bind, hget]
  cases node <;> rfl

theorem readContent_outcome_ok_iff {content : Content} :
    (readContent p).outcome h = (.ok content, h) ↔ h.Holds p content := by
  constructor
  · intro hread
    obtain ⟨place, hlocate, hrest⟩ := (reads_locate p).bind_ok hread
    obtain ⟨hnull, hplace, -⟩ := locate_outcome_ok hlocate
    rw [outcome_get_bind] at hrest
    split at hrest
    · next found time hget =>
      obtain ⟨rfl, -⟩ := pure_ok hrest
      exact ⟨hnull, place, time, hplace, hget⟩
    · simp [failFile] at hrest
    · simp [failFile] at hrest
  · intro hholds
    obtain ⟨time, hlook⟩ := hholds.look_eq
    exact readContent_outcome_of_look hlook

theorem readArchive_outcome_ok_iff {entries : List ArchiveEntry} :
    (readArchive p).outcome h = (.ok entries, h) ↔ h.Holds p (.archive entries) := by
  constructor
  · intro hread
    obtain ⟨content, hcontent, hrest⟩ := (reads_readContent p).bind_ok hread
    cases content with
    | archive found =>
      obtain ⟨rfl, -⟩ := pure_ok hrest
      exact readContent_outcome_ok_iff.mp hcontent
    | bytes bs => simp [Content.entries?] at hrest
    | database d => simp [Content.entries?] at hrest
  · intro hholds
    rw [readArchive, bind_of_ok (readContent_outcome_ok_iff.mpr hholds)]
    rfl

end Action

theorem Host.Holds.isThere_eq (hholds : h.Holds p content) :
    (Action.isThere p).outcome h = (.ok true, h) := by
  obtain ⟨time, hlook⟩ := hholds.look_eq
  rw [Action.outcome_isThere, Host.isThere, hlook]
  rfl

/-! ### Writing files -/

namespace Host

/-- Whether a file can be written at a path: one is there, or a directory to make it in. -/
def canWrite (h : Host) (p : Path) : Bool :=
  !p.hasNull &&
    match h.files.locate h.here p with
    | .error _ => false
    | .ok place =>
      match h.files.get? place with
      | some .directory => false
      | some (.file ..) => true
      | none => h.files.isDir place.dropLast

/-- The path leads to the place, and a file can be written there. -/
structure WritesAt (h : Host) (p : Path) (place : Place) : Prop where
  noNull : p.hasNull = false
  leads : h.files.locate h.here p = .ok place
  notDirectory : h.files.get? place ≠ some .directory
  parent : h.files.get? place = none → h.files.isDir place.dropLast = true

theorem canWrite_iff {h : Host} {p : Path} : h.canWrite p ↔ ∃ place, h.WritesAt p place := by
  unfold canWrite
  constructor
  · intro hwrite
    obtain ⟨hnull, hrest⟩ := Bool.and_eq_true_iff.mp hwrite
    cases hlocate : h.files.locate h.here p with
    | error e => simp [hlocate] at hrest
    | ok place =>
      refine ⟨place, by simpa using hnull, hlocate, ?_, ?_⟩
      · intro hdir
        simp [hlocate, hdir] at hrest
      · intro hnone
        simpa [hlocate, hnone] using hrest
  · rintro ⟨place, hnull, hlocate, hnot, hparent⟩
    simp only [hnull, hlocate, Bool.not_false, Bool.true_and]
    cases hget : h.files.get? place with
    | none => exact hparent hget
    | some node =>
      cases node with
      | directory => exact absurd hget hnot
      | file content time => rfl

variable {h : Host} {p q : Path} {place : Place} {content other : Content}

theorem WritesAt.grows (hwrites : h.WritesAt p place) (content : Content) :
    h.Grows (h.storing place content) :=
  grows_storing hwrites.notDirectory content

theorem WritesAt.holds (hwrites : h.WritesAt p place) (content : Content) :
    (h.storing place content).Holds p content := by
  refine ⟨hwrites.noNull, place, h.clock + 1, (hwrites.grows content).locate_eq hwrites.leads, ?_⟩
  rw [get?_storing hwrites.notDirectory, if_pos rfl]

theorem WritesAt.holds_other (hwrites : h.WritesAt p place) (hholds : h.Holds q other)
    (hne : h.files.locate h.here q ≠ .ok place) (content : Content) :
    (h.storing place content).Holds q other ∧
      (h.storing place content).files.locate (h.storing place content).here q =
        h.files.locate h.here q := by
  obtain ⟨hnull, goal, time, hgoal, hget⟩ := hholds
  have hlocate := (hwrites.grows content).locate_eq hgoal
  have hgoalne : goal ≠ place := by
    rintro rfl
    exact hne hgoal
  refine ⟨⟨hnull, goal, time, hlocate, ?_⟩, hlocate.trans hgoal.symm⟩
  rw [get?_storing hwrites.notDirectory, if_neg hgoalne, hget]

theorem WritesAt.storing (hwrites : h.WritesAt p place) (content : Content) :
    (h.storing place content).WritesAt p place := by
  have hfile : (h.storing place content).files.get? place = some (.file content (h.clock + 1)) := by
    rw [get?_storing hwrites.notDirectory, if_pos rfl]
  refine ⟨hwrites.noNull, (hwrites.grows content).locate_eq hwrites.leads, ?_, ?_⟩
  · rw [hfile]
    simp
  · intro hnone
    rw [hfile] at hnone
    cases hnone

end Host

namespace Action

theorem writeContent_outcome {h : Host} {p : Path} {place : Place} (hwrites : h.WritesAt p place)
    (content : Content) :
    (writeContent p content).outcome h = (.ok (), h.storing place content) := by
  rw [writeContent, bind_of_ok (locate_outcome_of_ok hwrites.noNull hwrites.leads),
    outcome_get_bind]
  cases hget : h.files.get? place with
  | none =>
    simp only [hwrites.parent hget, if_true]
    rfl
  | some node =>
    cases node with
    | directory => exact absurd hget hwrites.notDirectory
    | file old time => rfl

theorem writeContent_outcome_of_not_canWrite {h : Host} {p : Path} (hwrite : h.canWrite p = false)
    (content : Content) : ∃ e, (writeContent p content).outcome h = (.error e, h) := by
  cases hnull : p.hasNull with
  | true => exact ⟨.nullInPath, by simp [writeContent, locate, hnull]⟩
  | false =>
    rw [writeContent, outcome_bind, locate_outcome hnull]
    simp only [Host.canWrite, hnull, Bool.not_false, Bool.true_and] at hwrite
    cases hlocate : h.files.locate h.here p with
    | error e => exact ⟨_, rfl⟩
    | ok place =>
      simp only [hlocate] at hwrite
      simp only
      rw [outcome_get_bind]
      cases hget : h.files.get? place with
      | none =>
        simp only [hget] at hwrite
        simp only [hwrite, Bool.false_eq_true, if_false]
        exact ⟨_, rfl⟩
      | some node =>
        cases node with
        | directory => exact ⟨_, rfl⟩
        | file old time => simp [hget] at hwrite

end Action

end JarAtlas
