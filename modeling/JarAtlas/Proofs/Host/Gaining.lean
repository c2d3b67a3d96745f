import JarAtlas.Proofs.Host.Reading

/-!
What is new on a machine after an action. Opening a database makes the directories on its path and,
where nothing is, an empty file. An action that first looks whether the file is there makes at most
directories.
-/

namespace JarAtlas

open FileTree Connection

namespace Host

/-- `h'` has all that `h` has, unchanged, in the same environment. -/
structure Gains (h h' : Host) : Prop where
  env : h'.env = h.env
  here : h'.here = h.here
  kept : ∀ place node, h.files.get? place = some node → h'.files.get? place = some node

/-- `h'` has all that `h` has, and what is new are directories. -/
structure GainsDirs (h h' : Host) : Prop extends h.Gains h' where
  files : ∀ place, h'.files.isFile place = true → h.files.isFile place = true

/-- Everything lies in a directory, and the current directory is there. -/
structure IsTidy (h : Host) : Prop where
  rooted : h.files.Rooted
  current : h.files.isDir h.here = true

/-- What is new are directories, each of them in a directory. -/
structure AddsDirs (h h' : Host) : Prop extends h.GainsDirs h' where
  tidy : h.IsTidy → h'.IsTidy

variable {h h₁ h₂ h' : Host}

theorem Gains.trans (hfirst : h.Gains h₁) (hnext : h₁.Gains h₂) : h.Gains h₂ where
  env := hnext.env.trans hfirst.env
  here := hnext.here.trans hfirst.here
  kept place node hnode := hnext.kept place node (hfirst.kept place node hnode)

theorem GainsDirs.trans (hfirst : h.GainsDirs h₁) (hnext : h₁.GainsDirs h₂) : h.GainsDirs h₂ where
  toGains := hfirst.toGains.trans hnext.toGains
  files place hfile := hfirst.files place (hnext.files place hfile)

theorem AddsDirs.trans (hfirst : h.AddsDirs h₁) (hnext : h₁.AddsDirs h₂) : h.AddsDirs h₂ :=
  ⟨hfirst.toGainsDirs.trans hnext.toGainsDirs, hnext.tidy ∘ hfirst.tidy⟩

theorem addsDirs_of_eq (hfiles : h'.files = h.files) (henv : h'.env = h.env)
    (hhere : h'.here = h.here) : h.AddsDirs h' where
  env := henv
  here := hhere
  kept _ _ hnode := by rw [hfiles, hnode]
  files _ hfile := by rwa [hfiles] at hfile
  tidy htidy := ⟨hfiles ▸ htidy.rooted, hfiles ▸ hhere ▸ htidy.current⟩

theorem AddsDirs.refl (h : Host) : h.AddsDirs h :=
  addsDirs_of_eq rfl rfl rfl

theorem GainsDirs.refl (h : Host) : h.GainsDirs h :=
  (AddsDirs.refl h).toGainsDirs

theorem Gains.keeps (hgains : h.Gains h') : h.files.Keeps h'.files where
  dirs place hdir := isDir_iff.mpr (hgains.kept place _ (isDir_iff.mp hdir))
  files place hfile := by
    obtain ⟨content, time, hget⟩ := isFile_iff.mp hfile
    exact isFile_iff.mpr ⟨content, time, hgains.kept place _ hget⟩

variable {place : Place} {p : Path}

theorem gains_put (hnone : h.files.get? place = none) (node : Node) (time : Nat) :
    h.Gains { h with files := h.files.put place node, clock := time } where
  env := rfl
  here := rfl
  kept q old hold := by
    have hne : place ≠ [] := place_ne_nil_of_get? h.files (by simp [hnone])
    rw [get?_put _ hne, if_neg, hold]
    rintro rfl
    rw [hnone] at hold
    cases hold

theorem gainsDirs_put_directory (hnone : h.files.get? place = none) :
    h.GainsDirs { h with files := h.files.put place .directory } := by
  refine ⟨gains_put hnone .directory h.clock, fun q hfile => ?_⟩
  have hne : place ≠ [] := place_ne_nil_of_get? h.files (by simp [hnone])
  obtain ⟨content, time, hget⟩ := isFile_iff.mp hfile
  change (h.files.put place .directory).get? q = _ at hget
  rw [get?_put _ hne] at hget
  split at hget
  · cases hget
  · exact isFile_iff.mpr ⟨content, time, hget⟩

def base (h : Host) (p : Path) : Place :=
  if p.isAbsolute then [] else h.here

/-- The place that a path means when all directories on its way are there. -/
def meant (h : Host) (p : Path) : Place :=
  FileTree.reached (h.base p) p.parts

theorem walk_of_locate (hlocate : h.files.locate h.here p = .ok place) :
    h.files.walk (h.base p) p.parts = .ok place := by
  unfold locate at hlocate
  split at hlocate
  · cases hlocate
  · exact hlocate

theorem IsTidy.isDir_above (htidy : h.IsTidy) (hlocate : h.files.locate h.here p = .ok place) :
    h.files.isDir place.dropLast := by
  refine htidy.rooted.isDir_above ?_ (walk_of_locate hlocate)
  unfold base
  split
  · rfl
  · apply htidy.rooted
    rw [isDir_iff.mp htidy.current]
    exact Option.some_ne_none _

theorem eq_meant_of_locate (hlocate : h.files.locate h.here p = .ok place) : place = h.meant p :=
  eq_reached_of_walk (walk_of_locate hlocate)

theorem Gains.meant_eq (hgains : h.Gains h') (p : Path) : h'.meant p = h.meant p := by
  rw [meant, meant, base, base, hgains.here]

end Host

namespace Action

variable {α β : Type} {h : Host} {a : Action α} {f : α → Action β} {p : Path} {place : Place}

def MakesDirs (a : Action α) : Prop :=
  ∀ h : Host, h.AddsDirs (a.outcome h).2

theorem MakesDirs.addsDirs {h' : Host} {r : Except Fault α} (ha : a.MakesDirs)
    (hrun : a.outcome h = (r, h')) : h.AddsDirs h' := by
  have hadds := ha h
  rwa [hrun] at hadds

theorem Reads.makesDirs (ha : a.Reads) : a.MakesDirs := by
  intro h
  rw [ha h]
  exact Host.AddsDirs.refl h

theorem addsDirs_bind (ha : h.AddsDirs (a.outcome h).2)
    (hf : ∀ x h₁, a.outcome h = (.ok x, h₁) → h₁.AddsDirs ((f x).outcome h₁).2) :
    h.AddsDirs ((a >>= f).outcome h).2 := by
  rw [outcome_bind]
  rcases houtcome : a.outcome h with ⟨e | x, h₁⟩
  · rw [houtcome] at ha
    exact ha
  · rw [houtcome] at ha
    exact ha.trans (hf x h₁ houtcome)

theorem MakesDirs.bind (ha : a.MakesDirs) (hf : ∀ x, (f x).MakesDirs) : (a >>= f).MakesDirs :=
  fun h => addsDirs_bind (ha h) fun x h₁ _ => hf x h₁

theorem MakesDirs.ite_bind {c : Prop} [Decidable c] {b : Action α} (ha : a.MakesDirs)
    (hb : b.MakesDirs) (hf : ∀ x, (f x).MakesDirs) :
    (if c then a >>= f else b >>= f).MakesDirs := by
  split
  · exact ha.bind hf
  · exact hb.bind hf

theorem makesDirs_pure (x : α) : (pure x : Action α).MakesDirs :=
  (reads_pure x).makesDirs

theorem MakesDirs.bind_pure {g : α → β} (ha : a.MakesDirs) :
    (a >>= fun x => pure (g x)).MakesDirs :=
  ha.bind fun x => makesDirs_pure (g x)

theorem makesDirs_ofExcept (r : Except Fault α) : (ofExcept r).MakesDirs :=
  (reads_ofExcept r).makesDirs

theorem makesDirs_makeDir (p : Path) : (makeDir p).MakesDirs := by
  refine fun h => addsDirs_bind ((reads_locate p).makesDirs h) fun place h₁ hlocate => ?_
  obtain ⟨-, hplace, rfl⟩ := locate_outcome_ok hlocate
  rw [outcome_get_bind]
  split
  · exact Host.AddsDirs.refl h₁
  · exact Host.AddsDirs.refl h₁
  · next hnone =>
    have hgains := Host.gainsDirs_put_directory hnone
    refine ⟨hgains, fun htidy => ⟨?_, hgains.keeps.dirs _ htidy.current⟩⟩
    exact htidy.rooted.put (by simp [hnone]) (htidy.isDir_above hplace) .directory

theorem makesDirs_forM_makeDir (steps : List Path) : (steps.forM makeDir).MakesDirs := by
  induction steps with
  | nil => exact makesDirs_pure ()
  | cons p steps ih => exact (makesDirs_makeDir p).bind fun _ => ih

theorem makesDirs_makeDirs (p : Path) : (makeDirs p).MakesDirs := by
  unfold makeDirs
  split
  · exact (reads_throw_bind _ _).makesDirs
  · refine reads_get.makesDirs.bind fun h => ?_
    split
    · exact (reads_failFile _ _).makesDirs
    · exact (reads_failFile _ _).makesDirs
    · exact makesDirs_forM_makeDir _

theorem makeDir_host_of_walk (hwalk : h.files.walk (h.base p) p.parts = .ok place)
    (hthere : h.files.get? place ≠ none) : ((makeDir p).outcome h).2 = h := by
  rw [makeDir, outcome_bind]
  rcases hlocate : (locate p).outcome h with ⟨e | goal, h₁⟩
  · exact (reads_locate p).host_eq hlocate
  · obtain ⟨-, hgoal, rfl⟩ := locate_outcome_ok hlocate
    obtain rfl : place = goal := Except.ok.inj (hwalk.symm.trans (Host.walk_of_locate hgoal))
    simp only
    rw [outcome_get_bind]
    split
    · rfl
    · rfl
    · next hnone => exact absurd hnone hthere

theorem forM_makeDir_host {steps : List Path}
    (hsteps : ∀ p ∈ steps, ((makeDir p).outcome h).2 = h) :
    ((steps.forM makeDir).outcome h).2 = h := by
  induction steps with
  | nil => rfl
  | cons p steps ih =>
    have hfirst := hsteps p List.mem_cons_self
    show ((makeDir p >>= fun _ => steps.forM makeDir).outcome h).2 = h
    rw [outcome_bind]
    rcases houtcome : (makeDir p).outcome h with ⟨e | x, h₁⟩
    · rw [houtcome] at hfirst
      exact hfirst
    · rw [houtcome] at hfirst
      obtain rfl : h₁ = h := hfirst
      exact ih fun q hq => hsteps q (List.mem_cons_of_mem _ hq)

theorem makeDirs_parent_host (hthere : h.files.get? place ≠ none)
    (hlocate : h.files.locate h.here p = .ok place) : ((makeDirs p.parent).outcome h).2 = h := by
  have hwalk := Host.walk_of_locate hlocate
  unfold makeDirs
  split
  · exact reads_throw_bind _ _ h
  · rw [outcome_get_bind]
    split
    · exact reads_failFile _ _ h
    · exact reads_failFile _ _ h
    · apply forM_makeDir_host
      intro q hq
      obtain ⟨n, hn, rfl⟩ := List.mem_map.mp hq
      have hn : n ≤ p.parts.dropLast.length := Nat.le_of_lt_succ (List.mem_range.mp hn)
      rw [List.length_dropLast] at hn
      rcases Nat.eq_zero_or_pos p.parts.length with hempty | hparts
      · -- The path without parts is its own parent.
        have hnil := List.eq_nil_of_length_eq_zero hempty
        rw [hnil] at hwalk
        have hself : h.files.walk (h.base p) (p.parent.parts.take n) = .ok place := by
          rw [Path.parent, hnil, List.dropLast_nil, List.take_nil, hwalk]
        exact makeDir_host_of_walk hself hthere
      · obtain ⟨mid, hmid, hdir⟩ := walk_take hwalk (n := n) (by omega)
        have hfront : h.files.walk (h.base p) (p.parent.parts.take n) = .ok mid := by
          rw [Path.parent, List.dropLast_eq_take, List.take_take, Nat.min_eq_left hn, hmid]
        apply makeDir_host_of_walk hfront
        rw [isDir_iff.mp hdir]
        exact Option.some_ne_none _

end Action

namespace Connection

open JarAtlas.Action

variable {h h' : Host} {p : Path} {r : Except Fault Connection}

theorem start_cases (hstart : (start p).outcome h = (r, h')) :
    (h.GainsDirs h' ∧ ((∃ c, r = .ok c) → h.files.get? (h.meant p) ≠ none)) ∨
    ((∃ c, r = .ok c) ∧ h.files.get? (h.meant p) = none ∧ h.Gains h' ∧
      h'.files.isFile (h.meant p)) := by
  rw [start_eq, outcome_bind] at hstart
  rcases houtcome : (makeDirs p.parent).outcome h with ⟨e | _, h₁⟩
  all_goals
    have hdirs := ((makesDirs_makeDirs p.parent).addsDirs houtcome).toGainsDirs
    simp only [houtcome] at hstart
  · cases hstart
    exact .inl ⟨hdirs, by simp⟩
  · -- The directories cannot have put a file where the path leads, so what holds of the place
    -- after they were made held of it before.
    rcases enter_cases hstart with ⟨rfl, e, rfl⟩ | ⟨rfl, -, -, place, hplace, hafter⟩
    · exact .inl ⟨hdirs, by simp⟩
    obtain rfl := Host.eq_meant_of_locate hplace
    rw [hdirs.meant_eq] at hafter
    rcases hafter with ⟨rfl, hfile⟩ | ⟨hnone, rfl⟩
    · refine .inl ⟨hdirs, fun _ => ?_⟩
      obtain ⟨content, time, hget⟩ := isFile_iff.mp (hdirs.files _ hfile)
      rw [hget]
      exact Option.some_ne_none _
    · have hbefore : h.files.get? (h.meant p) = none := by
        cases hget : h.files.get? (h.meant p) with
        | none => rfl
        | some node =>
          rw [hdirs.kept _ _ hget] at hnone
          cases hnone
      refine .inr ⟨⟨_, rfl⟩, hbefore, hdirs.toGains.trans (Host.gains_put hnone _ _), ?_⟩
      refine isFile_iff.mpr ⟨.bytes [], h₁.clock + 1, ?_⟩
      rw [Host.get?_storing (by simp [hnone]), if_pos rfl]

theorem start_host_of_isFile (hfile : h.isFile p = .ok true) : ((start p).outcome h).2 = h := by
  obtain ⟨content, -, place, time, hplace, hget⟩ := Host.isFile_eq_true_iff.mp hfile
  have hthere : h.files.get? place ≠ none := by
    rw [hget]
    exact Option.some_ne_none _
  have hdirs := makeDirs_parent_host hthere hplace
  rw [start_eq, outcome_bind]
  rcases houtcome : (makeDirs p.parent).outcome h with ⟨e | _, h₁⟩
  · rw [houtcome] at hdirs
    exact hdirs
  · rw [houtcome] at hdirs
    obtain rfl : h₁ = h := hdirs
    rcases henter : (enter p).outcome h₁ with ⟨r, h'⟩
    rcases enter_cases henter with ⟨rfl, -⟩ | ⟨-, -, -, goal, hgoal, ⟨rfl, -⟩ | ⟨hnone, -⟩⟩
    · exact congrArg Prod.snd henter
    · exact congrArg Prod.snd henter
    · obtain rfl := Except.ok.inj (hgoal.symm.trans hplace)
      exact absurd hnone hthere

end Connection

namespace Action

variable {α : Type} {h : Host} {p : Path}

theorem queryDatabase_host (p : Path) (f : Database → Except Fault α) (h : Host) :
    ((queryDatabase p f).outcome h).2 = ((start p).outcome h).2 := by
  rw [queryDatabase, outcome_bind]
  rcases hstart : (start p).outcome h with ⟨e | c, h₁⟩
  · rfl
  · exact (reads_view c).bind (fun _ => reads_ofExcept _) h₁

theorem queryDatabase_host_of_isFile (hfile : h.isFile p = .ok true)
    (f : Database → Except Fault α) : ((queryDatabase p f).outcome h).2 = h :=
  (queryDatabase_host p f h).trans (start_host_of_isFile hfile)

theorem makesDirs_isFile {found missing : Action α}
    (hfound : ∀ h : Host, h.isFile p = .ok true → h.AddsDirs (found.outcome h).2)
    (hmissing : missing.MakesDirs) :
    (do if ← isFile p then found else missing : Action α).MakesDirs := by
  intro h
  apply addsDirs_bind ((reads_isFile p).makesDirs h)
  intro isThere h₁ hlook
  rw [outcome_isFile] at hlook
  obtain ⟨hfile, rfl⟩ := Prod.mk.inj hlook
  cases isThere with
  | true => exact hfound h hfile
  | false => exact hmissing h

end Action

namespace Action

variable {α β : Type} {a : Action α} {target : Action (Option Path)} {h : Host}

/-- The action does what `target` does, and then opens the database that `target` names, if it names
one. -/
def OpensAfter (a : Action α) (target : Action (Option Path)) : Prop :=
  ∀ h, (a.outcome h).2 =
    match target.outcome h with
    | (.ok (some p), h₁) => ((Connection.start p).outcome h₁).2
    | (_, h₁) => h₁

theorem opensAfter_pure (x : α) : (pure x : Action α).OpensAfter (pure none) :=
  fun _ => rfl

theorem opensAfter_query (p : Path) (f : Database → Except Fault α) {next : α → Action β}
    (hnext : ∀ x, (next x).Reads) : (queryDatabase p f >>= next).OpensAfter (pure (some p)) := by
  intro h
  have hhost := queryDatabase_host p f h
  rw [outcome_bind]
  rcases houtcome : (queryDatabase p f).outcome h with ⟨e | x, h₁⟩
  · rw [houtcome] at hhost
    exact hhost
  · rw [houtcome] at hhost
    exact (hnext x h₁).trans hhost

theorem OpensAfter.bind (first : Action α) {f : α → Action β} {target : α → Action (Option Path)}
    (hf : ∀ x, (f x).OpensAfter (target x)) : (first >>= f).OpensAfter (first >>= target) := by
  intro h
  rw [outcome_bind, outcome_bind]
  rcases first.outcome h with ⟨e | x, h₁⟩
  · rfl
  · exact hf x h₁

theorem OpensAfter.ite {c : Prop} [Decidable c] {b : Action α} {other : Action (Option Path)}
    (ha : a.OpensAfter target) (hb : b.OpensAfter other) :
    (if c then a else b).OpensAfter (if c then target else other) := by
  by_cases hc : c
  · rw [if_pos hc, if_pos hc]
    exact ha
  · rw [if_neg hc, if_neg hc]
    exact hb

/-- Nothing is where the database should be that `target` names, and it can be opened there. -/
def MakesDatabase (target : Action (Option Path)) (h : Host) : Prop :=
  ∃ p h₁ c h₂, target.outcome h = (.ok (some p), h₁) ∧ h₁.files.get? (h₁.meant p) = none ∧
    (Connection.start p).outcome h₁ = (.ok c, h₂)

theorem not_makesDatabase {r : Except Fault (Option Path)} {h₁ : Host}
    (houtcome : target.outcome h = (r, h₁)) (hr : ∀ p, r ≠ .ok (some p)) :
    ¬ target.MakesDatabase h := by
  rintro ⟨p, h₃, c, h₄, htarget, -⟩
  rw [houtcome] at htarget
  exact hr p (Prod.mk.inj htarget).1

/-- A database is made where nothing was, or nothing but directories is made. -/
theorem OpensAfter.host_cases (hopens : a.OpensAfter target) (htarget : target.MakesDirs)
    (h : Host) :
    (¬ target.MakesDatabase h ∧ h.GainsDirs (a.outcome h).2) ∨
    (target.MakesDatabase h ∧ h.Gains (a.outcome h).2 ∧
      ∃ place, h.files.isFile place = false ∧ (a.outcome h).2.files.isFile place) := by
  rw [hopens h]
  rcases houtcome : target.outcome h with ⟨e | _ | p, h₁⟩
  all_goals
    have hdirs := (htarget.addsDirs houtcome).toGainsDirs
    dsimp only
  · exact .inl ⟨not_makesDatabase houtcome (by simp), hdirs⟩
  · exact .inl ⟨not_makesDatabase houtcome (by simp), hdirs⟩
  · rcases hstart : (start p).outcome h₁ with ⟨opened, h₂⟩
    rcases start_cases hstart with ⟨hmore, hthere⟩ | ⟨⟨c, rfl⟩, hnone, hmore, hfile⟩
    · refine .inl ⟨?_, hdirs.trans hmore⟩
      rintro ⟨q, h₃, c, h₄, htarget, hnone, hopened⟩
      rw [houtcome] at htarget
      obtain ⟨hq, rfl⟩ := Prod.mk.inj htarget
      obtain rfl : p = q := Option.some.inj (Except.ok.inj hq)
      rw [hstart] at hopened
      exact hthere ⟨c, (Prod.mk.inj hopened).1⟩ hnone
    · refine .inr ⟨⟨p, h₁, c, h₂, houtcome, hnone, hstart⟩, hdirs.toGains.trans hmore, ?_⟩
      refine ⟨h₁.meant p, ?_, hfile⟩
      rw [Bool.eq_false_iff]
      intro hbefore
      obtain ⟨content, time, hget⟩ := isFile_iff.mp hbefore
      rw [hdirs.kept _ _ hget] at hnone
      cases hnone

end Action

/-! ### A machine where a file has got another content -/

def Node.text? : Node → Option (List Char)
  | .file content _ => some content.text
  | .directory => none

namespace FileTree

variable {t : FileTree} {place : Place} {content : Content} {time : Nat}

theorem walk_put_file (hold : t.isFile place) (q : Place) (parts : List String) :
    (t.put place (.file content time)).walk q parts = t.walk q parts := by
  obtain ⟨oldContent, oldTime, hget⟩ := isFile_iff.mp hold
  have hne : place ≠ [] := place_ne_nil_of_get? t (by simp [hget])
  induction parts generalizing q with
  | nil => rfl
  | cons part parts ih =>
    rw [walk, walk, get?_put t hne]
    by_cases hq : q = place
    · rw [if_pos hq, hq, hget]
    · rw [if_neg hq]
      simp only [ih]

theorem locate_put_file (hold : t.isFile place) (here : Place) (p : Path) :
    (t.put place (.file content time)).locate here p = t.locate here p := by
  simp only [locate, walk_put_file hold]

def texts (nodes : List (Place × Node)) : List (Place × Option (List Char)) :=
  nodes.map fun n => (n.1, n.2.text?)

private theorem texts_replace {old node : Node} (hsame : node.text? = old.text?)
    {nodes : List (Place × Node)}
    (hold : (nodes.find? fun n => n.1 == place).map (·.2) = some old) :
    texts (put.replace place node nodes) = texts nodes := by
  induction nodes with
  | nil => simp at hold
  | cons n nodes ih =>
    by_cases hn : n.1 = place
    · have hnode : n.2 = old := by simpa [hn] using hold
      simp [put.replace, texts, hn, hnode, hsame]
    · have hrest := ih (by simpa [hn, List.find?_cons] using hold)
      simp only [put.replace, beq_iff_eq, hn, if_false]
      exact congrArg (_ :: ·) hrest

theorem texts_put {old : Node} (hold : t.get? place = some old) (hne : place ≠ []) (node : Node)
    (hsame : node.text? = old.text?) : texts (t.put place node).nodes = texts t.nodes := by
  refine texts_replace hsame ?_
  have hempty : place.isEmpty = false := by simpa using hne
  simpa [get?, hempty] using hold

theorem texts_below {t' : FileTree} (hsame : texts t'.nodes = texts t.nodes) (dir : Place) :
    texts (t'.below dir) = texts (t.below dir) := by
  -- The places alone decide the order, so texts may be read before or after.
  have hsorted (u : FileTree) : texts (u.below dir) =
      ((((texts u.nodes).filter fun n => dir.isPrefixOf n.1 && n.1 != dir).map fun n =>
        (Text.join "/" n.1, n)).mergeSort fun a b => decide (a.1 ≤ b.1)).map (·.2) := by
    have hsort := List.map_mergeSort
      (l := (u.nodes.filter fun n => dir.isPrefixOf n.1 && n.1 != dir).map fun n =>
        (Text.join "/" n.1, n))
      (f := fun k => (k.1, k.2.1, k.2.2.text?)) (r := fun a b => decide (a.1 ≤ b.1))
      (s := fun a b => decide (a.1 ≤ b.1)) fun _ _ _ _ => rfl
    rw [List.map_map] at hsort
    have hseconds := congrArg (List.map fun k => k.2) hsort
    rw [List.map_map] at hseconds
    simp only [texts, below, List.filter_map, List.map_map]
    exact hseconds
  rw [hsorted, hsorted, hsame]

end FileTree

def Host.refilled (h : Host) (p : Path) (content : Content) (time : Nat) : Host :=
  match h.files.locate h.here p with
  | .ok place => { h with files := h.files.put place (.file content time) }
  | .error _ => h

namespace Host

variable {h : Host} {p : Path} {place : Place}

theorem refilled_eq (hplace : h.files.locate h.here p = .ok place) (content : Content)
    (time : Nat) :
    h.refilled p content time = { h with files := h.files.put place (.file content time) } := by
  rw [refilled, hplace]

theorem grows_refilled (hplace : h.files.locate h.here p = .ok place)
    (hfile : h.files.isFile place) (content : Content) (time : Nat) :
    h.Grows (h.refilled p content time) := by
  obtain ⟨_, _, hget⟩ := isFile_iff.mp hfile
  rw [refilled_eq hplace]
  exact ⟨keeps_put (by simp [hget]) fun _ => ⟨content, time, rfl⟩, rfl⟩

theorem isDir_refilled (hplace : h.files.locate h.here p = .ok place)
    (hfile : h.files.isFile place) (content : Content) (time : Nat) (q : Path) :
    (h.refilled p content time).isDir q = h.isDir q := by
  obtain ⟨old, oldTime, hget⟩ := isFile_iff.mp hfile
  have hne : place ≠ [] := place_ne_nil_of_get? h.files (by simp [hget])
  rw [refilled_eq hplace]
  simp only [isDir, look, locate_put_file hfile]
  cases q.hasNull with
  | true => rfl
  | false =>
    cases h.files.locate h.here q with
    | error e => cases e <;> rfl
    | ok goal =>
      simp only [Bool.false_eq_true, if_false, get?_put _ hne]
      by_cases hgoal : goal = place
      · rw [if_pos hgoal, hgoal, hget]
        rfl
      · rw [if_neg hgoal]

theorem filesBelow_refilled {content old : Content} {oldTime : Nat}
    (hplace : h.files.locate h.here p = .ok place)
    (hget : h.files.get? place = some (.file old oldTime)) (htext : content.text = old.text)
    (time : Nat) (dir : Path) (ending : String) :
    ((h.refilled p content time).filesBelow dir ending).map (fun f => (f.1, f.2.text?)) =
      (h.filesBelow dir ending).map (fun f => (f.1, f.2.text?)) := by
  have hfile : h.files.isFile place := isFile_iff.mpr ⟨_, _, hget⟩
  have hne : place ≠ [] := place_ne_nil_of_get? h.files (by simp [hget])
  have hsame := texts_put hget hne (.file content time) (by simp [Node.text?, htext])
  rw [refilled_eq hplace]
  simp only [filesBelow, locate_put_file hfile]
  cases h.files.locate h.here dir with
  | error e => rfl
  | ok goal =>
    have hbelow := congrArg (List.filterMap fun f =>
      if (f.1.drop goal.length).getLast?.any (Text.endsWith · ending) then
        some (Path.mk dir.slashes (dir.parts ++ f.1.drop goal.length), f.2)
      else none) (texts_below hsame goal)
    simp only [texts, List.filterMap_map] at hbelow
    simp only [List.map_filterMap, Option.map_if]
    exact hbelow

end Host

end JarAtlas
