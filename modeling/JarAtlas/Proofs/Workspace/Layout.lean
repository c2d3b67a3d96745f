import JarAtlas.Proofs.Catalogue.Indexing
import JarAtlas.Proofs.Host.Gaining

/-!
Where the parts of a workspace are looked for. As long as the environment stays and nothing is
removed, a part is looked for where it was before, unless the directory that the environment names
for output is new.
-/

namespace JarAtlas

open JarAtlas.Action

/-- The action has the same outcome on both machines. -/
def Action.Agrees {α : Type} (a : Action α) (h h' : Host) : Prop :=
  (a.outcome h').1 = (a.outcome h).1

namespace Action

variable {α β : Type} {h h' : Host} {a : Action α} {f : α → Action β}

theorem agrees_pure (x : α) : (pure x : Action α).Agrees h h' :=
  rfl

theorem agrees_throw (e : Fault) : (throw e : Action α).Agrees h h' :=
  rfl

theorem agrees_ofExcept (r : Except Fault α) : (ofExcept r).Agrees h h' := by
  unfold Agrees
  rw [outcome_ofExcept, outcome_ofExcept]

theorem Agrees.bind_of_ok (ha : a.Agrees h h') (hreads : a.Reads)
    (hf : ∀ x, a.outcome h = (.ok x, h) → (f x).Agrees h h') : (a >>= f).Agrees h h' := by
  unfold Agrees at ha ⊢
  rw [outcome_bind, outcome_bind]
  rcases houtcome : a.outcome h with ⟨r, h₁⟩
  rcases houtcome' : a.outcome h' with ⟨r', h₁'⟩
  obtain rfl := hreads.host_eq houtcome
  obtain rfl := hreads.host_eq houtcome'
  rw [houtcome, houtcome'] at ha
  obtain rfl : r' = r := ha
  cases r' with
  | error e => rfl
  | ok x => exact hf x houtcome

theorem Agrees.bind (hreads : a.Reads) (ha : a.Agrees h h')
    (hf : ∀ x, (f x).Agrees h h') : (a >>= f).Agrees h h' :=
  ha.bind_of_ok hreads fun x _ => hf x

theorem Agrees.attempt (ha : a.Agrees h h') : (attempt a).Agrees h h' := by
  unfold Agrees at ha ⊢
  rw [outcome_attempt, outcome_attempt, ha]

theorem Agrees.outcome_ok {x : α} (ha : a.Agrees h h') (hreads : a.Reads)
    (hx : a.outcome h = (.ok x, h)) : a.outcome h' = (.ok x, h') := by
  have hvalue : (a.outcome h).1 = .ok x := by rw [hx]
  exact Prod.ext (ha.trans hvalue) (hreads h')

end Action

namespace Host

variable {h h' : Host} {p : Path}

/-- `h'` has the environment of `h`, with all its directories and files. -/
structure Preserves (h h' : Host) : Prop where
  env : h'.env = h.env
  here : h'.here = h.here
  files : h.files.Keeps h'.files

theorem Grows.preserves (hgrows : h.Grows h') : h.Preserves h' where
  env := by
    have hsame := congrArg env hgrows.setting
    exact hsame
  here := hgrows.here_eq
  files := hgrows.files

theorem Preserves.locate_eq (hkept : h.Preserves h') {place : Place}
    (hlocate : h.files.locate h.here p = .ok place) : h'.files.locate h'.here p = .ok place := by
  rw [hkept.here]
  exact FileTree.locate_eq hkept.files.dirs hlocate

theorem Preserves.envVar?_eq (hkept : h.Preserves h') (name : String) :
    h'.envVar? name = h.envVar? name := by
  rw [envVar?, envVar?, hkept.env]

theorem Preserves.given?_eq (hkept : h.Preserves h') (name : String) :
    h'.given? name = h.given? name := by
  rw [given?, given?, hkept.envVar?_eq]

theorem Preserves.agrees_resolve (hkept : h.Preserves h') (p : Path) :
    (Action.resolve p).Agrees h h' := by
  unfold Agrees
  rw [outcome_resolve, outcome_resolve, resolve, resolve, hkept.here]

theorem isDir_eq_true_iff :
    h.isDir p = .ok true ↔ ∃ place, p.hasNull = false ∧
      h.files.locate h.here p = .ok place ∧ h.files.isDir place := by
  simp only [FileTree.isDir_iff]
  constructor
  · intro hdir
    have hlook : h.look p = .ok (some .directory) := by
      unfold isDir at hdir
      rcases hlook : h.look p with e | _ | _ | _ <;>
        simp_all [bind, Except.bind, pure, Except.pure]
    obtain ⟨hnull, place, hplace, hget⟩ := locate_of_look hlook
    exact ⟨place, hnull, hplace, hget⟩
  · rintro ⟨place, hnull, hplace, hget⟩
    simp [isDir, look, hnull, hplace, hget, bind, Except.bind, pure, Except.pure]

theorem Preserves.isDir_eq_true (hkept : h.Preserves h') (hdir : h.isDir p = .ok true) :
    h'.isDir p = .ok true := by
  obtain ⟨place, hnull, hplace, hdir⟩ := isDir_eq_true_iff.mp hdir
  exact isDir_eq_true_iff.mpr
    ⟨place, hnull, hkept.locate_eq hplace, hkept.files.dirs place hdir⟩

end Host

namespace Layout

variable {h h' : Host}

/-- The output directory that the environment names, if it names one, is there. -/
def OutputIsThere (h : Host) : Prop :=
  ∀ s, h.given? "PRISM_OUTPUT_DIR" = some s → h.isDir (Path.parse s) = .ok true

/-- The output directory that the environment names is there on both machines or on neither. -/
def SameOutput (h h' : Host) : Prop :=
  ∀ s, h.given? "PRISM_OUTPUT_DIR" = some s → h'.isDir (Path.parse s) = h.isDir (Path.parse s)

theorem OutputIsThere.same (houtput : OutputIsThere h) (hkept : h.Preserves h') :
    SameOutput h h' := by
  intro s hgiven
  have hdir := houtput s hgiven
  rw [hkept.isDir_eq_true hdir, hdir]

theorem agrees_workspace (hkept : h.Preserves h') (houtput : SameOutput h h') (root : Path) :
    (workspace root).Agrees h h' := by
  unfold Agrees
  rw [workspace, outcome_get_bind, outcome_get_bind,
    hkept.given?_eq]
  cases hgiven : h.given? "PRISM_OUTPUT_DIR" with
  | none => exact agrees_pure _
  | some s =>
    have hdir : (isDir (Path.parse s)).Agrees h h' := by
      unfold Agrees
      rw [outcome_isDir, outcome_isDir, houtput s hgiven]
    refine Agrees.bind (reads_isDir _) hdir fun isDir => ?_
    split <;> exact agrees_pure _

theorem agrees_sources (hkept : h.Preserves h') (houtput : SameOutput h h') (root : Path)
    (version : String) : (sources root version).Agrees h h' :=
  Agrees.bind (reads_workspace root) (agrees_workspace hkept houtput root) fun _ => agrees_pure _

theorem agrees_namedBy? (hkept : h.Preserves h') (name : String) :
    (namedBy? name).Agrees h h' := by
  unfold Agrees
  rw [namedBy?, outcome_get_bind, outcome_get_bind,
    hkept.envVar?_eq]
  split
  · split
    · exact agrees_pure _
    · exact Agrees.bind (reads_resolve _) (hkept.agrees_resolve _) fun _ => agrees_pure _
  · exact agrees_pure _

theorem agrees_databases {root : Path} (hkept : h.Preserves h')
    (hworkspace : (workspace root).Agrees h h') : (databases root).Agrees h h' := by
  refine Agrees.bind (reads_namedBy? _) (agrees_namedBy? hkept _) fun named => ?_
  cases named with
  | some p => exact agrees_pure _
  | none => exact Agrees.bind (reads_workspace root) hworkspace fun _ => agrees_pure _

theorem agrees_catalogue {root : Path} (hkept : h.Preserves h')
    (hworkspace : (workspace root).Agrees h h') (version : String) :
    (catalogue root version).Agrees h h' := by
  refine Agrees.bind (reads_namedBy? _) (agrees_namedBy? hkept _) fun named => ?_
  cases named with
  | some p => exact agrees_pure _
  | none =>
    exact Agrees.bind (reads_databases root) (agrees_databases hkept hworkspace)
      fun _ => agrees_pure _

end Layout

/-! ### Paths that new directories do not redirect -/

open FileTree

namespace Host

variable {h h' : Host} {p : Path}

theorem Gains.preserves (hgains : h.Gains h') : h.Preserves h' :=
  ⟨hgains.env, hgains.here, hgains.keeps⟩

theorem look_of_locate {place : Place} (hnull : p.hasNull = false)
    (hlocate : h.files.locate h.here p = .ok place) : h.look p = .ok (h.files.get? place) := by
  simp only [look, hnull, Bool.false_eq_true, if_false, hlocate]

theorem look_constant_or (p : Path) :
    (∃ r, ∀ h : Host, h.look p = r) ∨
    p.hasNull = false ∧ ¬ FileTree.maxPathSize < p.text.utf8ByteSize := by
  cases hnull : p.hasNull with
  | true => exact .inl ⟨.ok none, fun h => by simp [look, hnull]⟩
  | false =>
    by_cases hlong : FileTree.maxPathSize < p.text.utf8ByteSize
    · refine .inl ⟨.error (.file .nameTooLong p.text), fun h => ?_⟩
      simp [look, hnull, FileTree.locate, hlong]
    · exact .inr ⟨rfl, hlong⟩

/-- The path leads straight down from a place that it reaches, through names that are not too
long. -/
def IsSteady (h : Host) (p : Path) : Prop :=
  ∃ front rest place, p.parts = front ++ rest ∧ h.files.walk (h.base p) front = .ok place ∧
    FileTree.LeadDown rest

theorem isSteady_absolute {parts : List String} (hdown : LeadDown parts) :
    h.IsSteady (.absolute parts) :=
  ⟨[], parts, [], rfl, rfl, hdown⟩

theorem IsSteady.mono (hsteady : h.IsSteady p) (hhere : h'.here = h.here)
    (hdirs : ∀ q, h.files.isDir q → h'.files.isDir q) : h'.IsSteady p := by
  obtain ⟨front, rest, place, hparts, hfront, hdown⟩ := hsteady
  refine ⟨front, rest, place, hparts, ?_, hdown⟩
  rw [base, hhere]
  exact walk_eq hdirs hfront

theorem IsSteady.gain (hsteady : h.IsSteady p) (hgains : h.Gains h') : h'.IsSteady p :=
  hsteady.mono hgains.here hgains.keeps.dirs

theorem IsSteady.locate_eq (hsteady : h.IsSteady p) (hrooted : h.files.Rooted)
    (hshort : ¬ FileTree.maxPathSize < p.text.utf8ByteSize)
    (hthere : h.files.get? (h.meant p) ≠ none) :
    h.files.locate h.here p = .ok (h.meant p) := by
  obtain ⟨front, rest, place, hparts, hfront, hdown⟩ := hsteady
  have hmeant : h.meant p = place ++ rest := by
    rw [meant, hparts, FileTree.reached_append, ← FileTree.eq_reached_of_walk hfront,
      FileTree.reached_of_leadDown hdown]
  have hwalk : h.files.walk (h.base p) p.parts = h.files.walk place rest := by
    rw [hparts, FileTree.walk_append_of_ok hfront]
  rw [hmeant] at hthere ⊢
  rw [FileTree.locate, if_neg hshort]
  exact hwalk.trans (hrooted.walk_down hdown hthere)

theorem IsSteady.look_cases (hsteady : h.IsSteady p) (hnull : p.hasNull = false)
    (hshort : ¬ maxPathSize < p.text.utf8ByteSize) :
    h.look p = .ok none ∨ h.look p = .ok (h.files.get? (h.meant p)) := by
  cases hlocate : h.files.locate h.here p with
  | ok place =>
    rw [look_of_locate hnull hlocate, eq_meant_of_locate hlocate]
    exact .inr rfl
  | error e =>
    obtain ⟨front, rest, place, hparts, hfront, hdown⟩ := hsteady
    have hwalk : h.files.walk (h.base p) p.parts = .error e := by
      rw [FileTree.locate, if_neg hshort] at hlocate
      exact hlocate
    rw [hparts, walk_append_of_ok hfront] at hwalk
    left
    simp only [look, hnull, Bool.false_eq_true, if_false, hlocate]
    split
    · next heq => cases heq
    · next heq =>
      rw [Except.error.inj heq] at hwalk
      exact absurd hwalk (walk_ne_nameTooLong hdown)
    · rfl

theorem IsSteady.look_eq (hsteady : h.IsSteady p) (hrooted : h.files.Rooted)
    (hnull : p.hasNull = false) (hshort : ¬ maxPathSize < p.text.utf8ByteSize) :
    h.look p = .ok (h.files.get? (h.meant p)) := by
  cases hget : h.files.get? (h.meant p) with
  | none =>
    rcases hsteady.look_cases hnull hshort with hlook | hlook
    · exact hlook
    · rw [hlook, hget]
  | some node =>
    have hlocate := hsteady.locate_eq hrooted hshort (by simp [hget])
    rw [look_of_locate hnull hlocate, hget]

/-- Where new directories change what a path leads to, there was nothing and now is a directory. -/
theorem IsSteady.look_gain (hsteady : h.IsSteady p) (hrooted : h.files.Rooted)
    (hgains : h.GainsDirs h') :
    h'.look p = h.look p ∨ h.look p = .ok none ∧ h'.look p = .ok (some .directory) ∧
      h'.files.isDir (h.meant p) ∧ h.files.isDir (h.meant p) = false := by
  rcases look_constant_or p with ⟨r, hr⟩ | ⟨hnull, hshort⟩
  · exact .inl (by rw [hr, hr])
  · rw [hsteady.look_eq hrooted hnull hshort]
    cases hget : h.files.get? (h.meant p) with
    | some node =>
      have hlocate := hsteady.locate_eq hrooted hshort (by simp [hget])
      rw [look_of_locate hnull (hgains.preserves.locate_eq hlocate), hgains.kept _ _ hget]
      exact .inl rfl
    | none =>
      -- On the other machine the path may stop short of its place even where something is.
      rcases (hsteady.gain hgains.toGains).look_cases hnull hshort with hlook | hlook
      · exact .inl hlook
      · rw [hlook, hgains.meant_eq]
        cases hget' : h'.files.get? (h.meant p) with
        | none => exact .inl rfl
        | some node =>
          cases node with
          | directory => exact .inr ⟨rfl, rfl, isDir_iff.mpr hget', by simp [FileTree.isDir, hget]⟩
          | file content time =>
            obtain ⟨old, t, hold⟩ := isFile_iff.mp
              (hgains.files _ (isFile_iff.mpr ⟨content, time, hget'⟩))
            rw [hold] at hget
            cases hget

theorem IsSteady.look_same (hsteady : h.IsSteady p) (hrooted : h.files.Rooted)
    (hgains : h.GainsDirs h')
    (hdir : h'.files.isDir (h.meant p) → h.files.isDir (h.meant p)) :
    h'.look p = h.look p := by
  rcases hsteady.look_gain hrooted hgains with hsame | ⟨-, -, hnew, hold⟩
  · exact hsame
  · rw [hdir hnew] at hold
    cases hold

theorem IsSteady.isFile_eq (hsteady : h.IsSteady p) (hrooted : h.files.Rooted)
    (hgains : h.GainsDirs h') : h'.isFile p = h.isFile p := by
  rcases hsteady.look_gain hrooted hgains with hsame | ⟨hnone, hdir, -⟩
  · rw [isFile, isFile, hsame]
  · rw [isFile, isFile, hnone, hdir]
    rfl

end Host

namespace Action

variable {h h' : Host} {p : Path}

theorem agrees_readJson (hlook : h'.look p = h.look p) : (readJson p).Agrees h h' := by
  have hthere : (isThere p).Agrees h h' := by
    unfold Agrees
    rw [outcome_isThere, outcome_isThere, Host.isThere, Host.isThere, hlook]
  refine hthere.bind_of_ok (reads_isThere p) fun isThere hfound => ?_
  rw [outcome_isThere, Host.isThere] at hfound
  cases isThere with
  | false => exact agrees_pure _
  | true =>
    obtain ⟨node, hnode⟩ : ∃ node, h.look p = .ok (some node) := by
      rcases hnode : h.look p with e | _ | node
      · simp [hnode, bind, Except.bind] at hfound
      · simp [hnode, bind, Except.bind, pure, Except.pure] at hfound
      · exact ⟨node, rfl⟩
    have hread : (readStrictText p).Agrees h h' := by
      refine Agrees.bind (reads_readContent p) ?_ fun content => ?_
      · unfold Agrees
        rw [readContent_outcome_of_look hnode, readContent_outcome_of_look (hlook.trans hnode)]
      · split
        · exact agrees_pure _
        · exact agrees_throw _
    refine Agrees.bind (reads_readStrictText p).attempt hread.attempt fun r => ?_
    split
    · split
      · exact agrees_pure _
      · exact agrees_pure _
      · exact agrees_throw _
      · exact agrees_throw _
    · exact agrees_pure _
    · exact agrees_throw _

end Action

namespace Settings

variable {h h' : Host} {root : Path}

theorem reads_load (root : Path) : (load root).Reads := by
  refine (reads_readJson _).bind fun r => ?_
  split <;> exact reads_pure _

theorem agrees_load (hlook : h'.look (path root) = h.look (path root)) :
    (load root).Agrees h h' := by
  refine Agrees.bind (reads_readJson _) (agrees_readJson hlook) fun r => ?_
  split <;> exact agrees_pure _

end Settings

end JarAtlas
