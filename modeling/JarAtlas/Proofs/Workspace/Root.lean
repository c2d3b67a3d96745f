import JarAtlas.Explore.Details
import JarAtlas.Proofs.Workspace.Layout

/-!
Finding the project directory. Unless it is given, it is looked for from the current directory
upwards, and where none is found the user's own one is made. On a machine with more directories it
is found at the same path, if none of them has the name of a settings file.
-/

namespace JarAtlas

open JarAtlas.Action FileTree

namespace Host

variable {watched : Place → Prop} {h k : Host} {p : Path} {place : Place}

/-- `k` has all that `h` has, and beyond that only directories, none of them at a watched place. On
`h` everything lies in a directory. -/
structure Within (watched : Place → Prop) (h k : Host) : Prop extends h.GainsDirs k where
  tidy : h.IsTidy
  unchanged : ∀ place, watched place → k.files.isDir place = true → h.files.isDir place = true

theorem Within.look_eq (hwithin : h.Within watched k) (hsteady : h.IsSteady p)
    (hwatched : watched (h.meant p)) : k.look p = h.look p :=
  hsteady.look_same hwithin.tidy.rooted hwithin.toGainsDirs (hwithin.unchanged _ hwatched)

theorem Within.put_directory (hwithin : h.Within watched k) {k₁ : Host}
    (hnone : h.files.get? place = none)
    (habove : h.files.isDir place.dropLast) (hgains : h.GainsDirs k₁)
    (hdir : k₁.files.get? place = some .directory)
    (hold : ∀ q, q ≠ place → k₁.files.isDir q → k.files.isDir q) :
    Within watched { h with files := h.files.put place .directory } k₁ := by
  have hnot : h.files.get? place ≠ some .directory := by simp [hnone]
  have hget (q : Place) := get?_put h.files (place_ne_nil_of_get? _ hnot) .directory q
  have hkept (q : Place) (hq : h.files.isDir q) : (h.files.put place .directory).isDir q := by
    rw [isDir_iff, hget]
    split
    · rfl
    · exact isDir_iff.mp hq
  refine ⟨⟨⟨hgains.env, hgains.here, ?_⟩, ?_⟩,
    ⟨hwithin.tidy.rooted.put hnot habove _, hkept _ hwithin.tidy.current⟩, ?_⟩
  · intro q node hq
    change (h.files.put place .directory).get? q = some node at hq
    rw [hget] at hq
    split at hq
    · next heq => rw [heq, hdir, ← hq]
    · exact hgains.kept q node hq
  · intro q hfile
    obtain ⟨content, time, hq⟩ := isFile_iff.mp (hgains.files q hfile)
    have hne : q ≠ place := by
      rintro rfl
      rw [FileTree.isFile, hdir] at hfile
      cases hfile
    exact isFile_iff.mpr ⟨content, time, by rw [hget, if_neg hne, hq]⟩
  · intro q hq hnew
    by_cases heq : q = place
    · exact isDir_iff.mpr (by rw [hget, if_pos heq])
    · exact hkept q (hwithin.unchanged q hq (hold q heq hnew))

end Host

namespace Action

variable {α β : Type} {watched : Place → Prop} {h k : Host} {a : Action α} {f : α → Action Bool}

/-- What the action achieves on `h` it also achieves on `k`, which keeps all that the first has. -/
def Follows (watched : Place → Prop) (a : Action α) (h k : Host) : Prop :=
  ∀ x h₁, a.outcome h = (.ok x, h₁) → ∃ k₁, a.outcome k = (.ok x, k₁) ∧ h₁.Within watched k₁

theorem Agrees.follows (ha : a.Agrees h k) (hreads : a.Reads)
    (hwithin : h.Within watched k) : a.Follows watched h k := by
  intro x h₁ hx
  obtain rfl := hreads.host_eq hx
  exact ⟨k, ha.outcome_ok hreads hx, hwithin⟩

theorem Follows.bind {f : α → Action β} (ha : a.Follows watched h k)
    (hf : ∀ x h₁ k₁, h₁.Within watched k₁ → (f x).Follows watched h₁ k₁) :
    (a >>= f).Follows watched h k := by
  intro y h₂ hy
  obtain ⟨x, h₁, hx, hrest⟩ := bind_ok_iff.mp hy
  obtain ⟨k₁, hx', hwithin⟩ := ha x h₁ hx
  rw [bind_of_ok hx']
  exact hf x h₁ k₁ hwithin y h₂ hrest

theorem follows_makeDir (hwithin : h.Within watched k) (p : Path) :
    (makeDir p).Follows watched h k := by
  intro x h₁ hmake
  obtain ⟨place, h₂, hlocate, hrest⟩ := bind_ok_iff.mp hmake
  obtain ⟨hnull, hplace, rfl⟩ := locate_outcome_ok hlocate
  have hlocate' : (locate p).outcome k = (.ok place, k) := by
    rw [locate_outcome hnull, hwithin.preserves.locate_eq hplace]
  rw [outcome_get_bind] at hrest
  rw [makeDir, bind_of_ok hlocate', outcome_get_bind]
  cases hget : h₂.files.get? place with
  | some node =>
    rw [hwithin.kept place node hget]
    rw [hget] at hrest
    cases node with
    | file content time => cases hrest
    | directory =>
      obtain ⟨-, rfl⟩ := pure_ok hrest
      exact ⟨k, rfl, hwithin⟩
  | none =>
    rw [hget] at hrest
    obtain rfl : { h₂ with files := h₂.files.put place .directory } = h₁ := (Prod.mk.inj hrest).2
    have hne : place ≠ [] := place_ne_nil_of_get? h₂.files (by simp [hget])
    have habove := hwithin.tidy.isDir_above hplace
    cases hget' : k.files.get? place with
    | some node =>
      cases node with
      | directory =>
        exact ⟨k, rfl, hwithin.put_directory hget habove hwithin.toGainsDirs hget'
          fun _ _ hq => hq⟩
      | file content time =>
        obtain ⟨old, t, hold⟩ := isFile_iff.mp
          (hwithin.files _ (isFile_iff.mpr ⟨content, time, hget'⟩))
        rw [hold] at hget
        cases hget
    | none =>
      have hmade (q : Place) := get?_put k.files hne .directory q
      refine ⟨_, rfl, hwithin.put_directory hget habove
        (hwithin.toGainsDirs.trans (Host.gainsDirs_put_directory hget')) ?_ ?_⟩
      · exact (hmade place).trans (if_pos rfl)
      · intro q hq hdir
        rw [isDir_iff] at hdir ⊢
        exact ((hmade q).trans (if_neg hq)).symm.trans hdir

theorem follows_forM_makeDir (hwithin : h.Within watched k) (steps : List Path) :
    (steps.forM makeDir).Follows watched h k := by
  induction steps generalizing h k with
  | nil => exact (agrees_pure ()).follows (reads_pure ()) hwithin
  | cons p steps ih =>
    exact Follows.bind (follows_makeDir hwithin p) fun _ _ _ hnext => ih hnext

theorem locate_of_forM_makeDir {steps : List Path} {h' : Host}
    (hrun : (steps.forM makeDir).outcome h = (.ok (), h')) {p : Path} (hp : p ∈ steps) :
    ∃ place, h'.files.locate h'.here p = .ok place := by
  induction steps generalizing h with
  | nil => cases hp
  | cons q steps ih =>
    obtain ⟨_, h₁, hfirst, hrest⟩ := bind_ok_iff.mp hrun
    rcases List.mem_cons.mp hp with rfl | hmem
    · obtain ⟨place, _, hlocate, -⟩ := bind_ok_iff.mp hfirst
      obtain ⟨-, hplace, -⟩ := locate_outcome_ok hlocate
      have hgains := (makesDirs_forM_makeDir (p :: steps)).addsDirs hrun
      exact ⟨place, hgains.preserves.locate_eq hplace⟩
    · exact ih hrest hmem

theorem follows_makeDirs (hwithin : h.Within watched k) (p : Path) :
    (makeDirs p).Follows watched h k := by
  intro _ h₁ hmake
  unfold makeDirs at hmake ⊢
  split at hmake
  · rw [outcome_throw_bind] at hmake
    cases hmake
  · next hnull =>
    rw [if_neg hnull, outcome_get_bind]
    rw [outcome_get_bind] at hmake
    split at hmake
    · cases hmake
    · cases hmake
    · obtain ⟨k₁, hrun, hafter⟩ := follows_forM_makeDir hwithin _ _ h₁ hmake
      -- The walk to the end of the path arrives afterwards, so all it could lack was a directory.
      have hend : p ∈ (List.range (p.parts.length + 1)).map fun n =>
          Path.mk p.slashes (p.parts.take n) :=
        List.mem_map.mpr ⟨p.parts.length, by simp, by rw [List.take_length]⟩
      obtain ⟨place, hplace⟩ := locate_of_forM_makeDir hrun hend
      have hgains := (makesDirs_forM_makeDir _).addsDirs hrun
      have hlocate : k.files.locate k.here p = .ok place ∨
          k.files.locate k.here p = .error .missing := by
        rw [hgains.here] at hplace
        unfold FileTree.locate at hplace ⊢
        split at hplace
        · cases hplace
        · next hshort =>
          rw [if_neg hshort]
          exact walk_cases_of_kept hgains.kept hplace
      rcases hlocate with hlocate | hlocate
      · rw [hlocate]
        exact ⟨k₁, hrun, hafter⟩
      · rw [hlocate]
        exact ⟨k₁, hrun, hafter⟩

theorem reads_findM? (hf : ∀ x, (f x).Reads) (items : List α) : (items.findM? f).Reads := by
  induction items with
  | nil => exact reads_pure _
  | cons x items ih =>
    refine (hf x).bind fun isFound => ?_
    cases isFound with
    | true => exact reads_pure _
    | false => exact ih

theorem agrees_findM? {items : List α} (hreads : ∀ x, (f x).Reads)
    (hf : ∀ x ∈ items, (f x).Agrees h k) : (items.findM? f).Agrees h k := by
  induction items with
  | nil => exact agrees_pure _
  | cons x items ih =>
    refine Agrees.bind (hreads x) (hf x List.mem_cons_self) fun isFound => ?_
    cases isFound with
    | true => exact agrees_pure _
    | false => exact ih fun y hy => hf y (List.mem_cons_of_mem _ hy)

end Action

section Root

variable {watched : Place → Prop} {h k : Host}

theorem reads_settingsAbove? (place : Place) : (settingsAbove? place).Reads :=
  reads_findM? (fun _ => reads_isThere _) _

theorem agrees_settingsAbove? (hwithin : h.Within watched k) {place : Place}
    (hdown : LeadDown place) (hmarks : ∀ q, watched (q ++ [settingsName])) :
    (settingsAbove? place).Agrees h k := by
  apply agrees_findM? fun _ => reads_isThere _
  intro front hfront
  obtain ⟨n, -, rfl⟩ := List.mem_map.mp hfront
  generalize place.length - n = m
  have hpath : LeadDown (place.take m ++ [settingsName]) := by
    intro part hpart
    rcases List.mem_append.mp hpart with hpart | hpart
    · exact hdown part (List.mem_of_mem_take hpart)
    · rw [List.mem_singleton.mp hpart]
      decide
  have hwatched : watched (h.meant (.absolute (place.take m ++ [settingsName]))) := by
    have hmeant : h.meant (.absolute (place.take m ++ [settingsName])) =
        place.take m ++ [settingsName] :=
      reached_of_leadDown hpath
    rw [hmeant]
    exact hmarks _
  have hlook := hwithin.look_eq (Host.isSteady_absolute hpath) hwatched
  unfold Agrees
  rw [outcome_isThere, outcome_isThere, Host.isThere, Host.isThere, hlook]

theorem Host.Preserves.home_eq (hkept : h.Preserves k) : k.home = h.home := by
  rw [home, home, hkept.envVar?_eq]

theorem follows_rootOr (hwithin : h.Within watched k) (hdown : LeadDown h.here)
    (hmarks : ∀ q, watched (q ++ [settingsName])) (given : Option Path) :
    (rootOr given).Follows watched h k := by
  cases given with
  | some root => exact (agrees_pure root).follows (reads_pure root) hwithin
  | none =>
    intro root h₁ hroot
    have hkept := hwithin.preserves
    rw [rootOr, projectRoot, outcome_get_bind] at hroot ⊢
    simp only [Option.filter_none] at hroot ⊢
    rw [hkept.given?_eq, hkept.here, hkept.home_eq]
    revert root h₁
    cases hset : h.given? "PRISM_WORKSPACE" with
    | some s => exact (hkept.agrees_resolve _).follows (reads_resolve _) hwithin
    | none =>
      refine Follows.bind ((agrees_settingsAbove? hwithin hdown hmarks).follows
        (reads_settingsAbove? _) hwithin) fun found h₂ k₂ hfound => ?_
      cases found with
      | some place => exact (agrees_pure _).follows (reads_pure _) hfound
      | none =>
        refine Follows.bind ((agrees_ofExcept _).follows (reads_ofExcept _) hfound)
          fun home h₃ k₃ hhome => ?_
        refine Follows.bind (follows_makeDirs hhome _) fun _ h₄ k₄ hmade => ?_
        exact (hmade.preserves.agrees_resolve _).follows (reads_resolve _) hmade

theorem makesDirs_projectRoot (given : Option String) (allowHome : Bool) :
    (projectRoot given allowHome).MakesDirs := by
  refine reads_get.makesDirs.bind fun h => ?_
  split
  · exact (reads_resolve _).makesDirs
  · split
    · exact (reads_resolve _).makesDirs
    · refine (reads_settingsAbove? _).makesDirs.bind fun found => ?_
      split
      · exact makesDirs_pure _
      · split
        · refine (makesDirs_ofExcept _).bind fun home => ?_
          exact (makesDirs_makeDirs _).bind fun _ => (reads_resolve _).makesDirs
        · exact makesDirs_pure _

theorem makesDirs_rootOr (root : Option Path) : (rootOr root).MakesDirs := by
  cases root with
  | some root => exact makesDirs_pure root
  | none => exact makesDirs_projectRoot none true

end Root

/-! ### Which versions count as indexed -/

open Settings Layout

namespace Host

variable {h h' : Host}

/-- A place where a new directory can change where a workspace is looked for: that of a settings
file, or of the directory that the environment names for output. -/
def IsLandmark (h : Host) (place : Place) : Prop :=
  place.getLast? = some settingsName ∨
    ∃ s, h.given? "PRISM_OUTPUT_DIR" = some s ∧ place = h.meant (Path.parse s)

def KeepsLandmarks (h h' : Host) : Prop :=
  ∀ place, h.IsLandmark place → h'.files.isDir place = true → h.files.isDir place = true

/-- A machine in order: everything on it lies in a directory, and so does the current directory. The
project directory is found, and all paths of the workspace lead straight down. -/
structure Settled (h : Host) (given : Option Path) (root : Path) : Prop where
  rooted : h.files.Rooted
  current : h.files.isDir h.here = true
  down : FileTree.LeadDown h.here
  finds : ((rootOr given).outcome h).1 = .ok root
  output : ∀ s, h.given? "PRISM_OUTPUT_DIR" = some s → h.IsSteady (Path.parse s)
  settings : h.IsSteady (Settings.path root)
  catalogues : ∀ (v : ServerVersion) p, ((Layout.catalogue root v.name).outcome
    ((rootOr given).outcome h).2).1 = .ok p → h.IsSteady p

theorem isLandmark_settings (h : Host) (place : Place) : h.IsLandmark (place ++ [settingsName]) :=
  .inl List.getLast?_concat

theorem isLandmark_path (h h₁ : Host) (root : Path) :
    h.IsLandmark (h₁.meant (path root)) := by
  have hparts : (path root).parts = root.parts ++ [settingsName] := rfl
  rw [meant, hparts, reached_append]
  exact h.isLandmark_settings _

theorem Within.sameOutput {h₁ k₁ : Host} (hwithin : h₁.Within h.IsLandmark k₁) (hgains : h.Gains h₁)
    (houtput : ∀ s, h.given? "PRISM_OUTPUT_DIR" = some s → h.IsSteady (Path.parse s)) :
    SameOutput h₁ k₁ := by
  intro s hgiven
  rw [hgains.preserves.given?_eq] at hgiven
  have hlook := hwithin.look_eq ((houtput s hgiven).gain hgains)
    (.inr ⟨s, hgiven, hgains.meant_eq _⟩)
  rw [isDir, isDir, hlook]

end Host

section Context

variable {h h' : Host} {given : Option Path} {root : Path} {α : Type}

theorem reads_filterAuxM {f : α → Action Bool} (hf : ∀ x, (f x).Reads)
    (items found : List α) : (items.filterAuxM f found).Reads := by
  induction items generalizing found with
  | nil => exact reads_pure _
  | cons x items ih => exact (hf x).bind fun _ => ih _

theorem agrees_filterAuxM {f : α → Action Bool} (hreads : ∀ x, (f x).Reads)
    (hf : ∀ x, (f x).Agrees h h') (items found : List α) :
    (items.filterAuxM f found).Agrees h h' := by
  induction items generalizing found with
  | nil => exact agrees_pure _
  | cons x items ih => exact Agrees.bind (hreads x) (hf x) fun _ => ih _

theorem reads_isIndexed (root : Path) (v : ServerVersion) :
    (do isFile (← catalogue root v.name) : Action Bool).Reads :=
  (reads_catalogue root v.name).bind fun p => reads_isFile p

theorem reads_indexedVersions (root : Path) : (indexedVersions root).Reads := by
  unfold indexedVersions List.filterM
  exact (reads_filterAuxM (reads_isIndexed root) _ _).bind_pure

theorem agrees_indexedVersions (hrooted : h.files.Rooted) (hgains : h.GainsDirs h')
    (houtput : SameOutput h h')
    (hsteady : ∀ (v : ServerVersion) p, ((catalogue root v.name).outcome h).1 = .ok p →
      h.IsSteady p) : (indexedVersions root).Agrees h h' := by
  have hreads := reads_isIndexed root
  refine Agrees.bind (reads_filterAuxM hreads _ _) ?_ fun _ => agrees_pure _
  apply agrees_filterAuxM hreads
  intro v
  have hcatalogue := agrees_catalogue hgains.preserves
    (agrees_workspace hgains.preserves houtput root) v.name
  refine hcatalogue.bind_of_ok (reads_catalogue root v.name) fun p hp => ?_
  unfold Agrees
  rw [outcome_isFile, outcome_isFile, (hsteady v p (congrArg Prod.fst hp)).isFile_eq hrooted hgains]

theorem agrees_showContext (hsettled : h.Settled given root) (hgains : h.GainsDirs h')
    (hlandmarks : h.KeepsLandmarks h') : (showContext given).Agrees h h' := by
  have hwithin : h.Within h.IsLandmark h' := ⟨hgains, ⟨hsettled.rooted, hsettled.current⟩, hlandmarks⟩
  have hfinds := hsettled.finds
  have hcatalogues := hsettled.catalogues
  have hfound := (makesDirs_rootOr given h).toGains
  rcases hroot : (rootOr given).outcome h with ⟨r, h₁⟩
  rw [hroot] at hfinds hcatalogues hfound
  obtain rfl : r = .ok root := hfinds
  -- Finding the project may make a directory, so the rest is read on the machines after that.
  obtain ⟨k₁, hroot', hwithin₁⟩ :=
    follows_rootOr hwithin hsettled.down h.isLandmark_settings given root h₁ hroot
  have hlook := hwithin₁.look_eq (hsettled.settings.gain hfound) (h.isLandmark_path h₁ root)
  have hload := agrees_load hlook
  have hindexed := agrees_indexedVersions hwithin₁.tidy.rooted hwithin₁.toGainsDirs
    (hwithin₁.sameOutput hfound hsettled.output) fun v p hp => (hcatalogues v p hp).gain hfound
  unfold Agrees showContext
  rw [bind_of_ok hroot, bind_of_ok hroot']
  refine Agrees.bind ?_ ?_ fun active => ?_
  · exact (reads_load root).bind fun _ => (reads_ofExcept _).bind_pure
  · exact Agrees.bind (reads_load root) hload fun _ =>
      Agrees.bind (reads_ofExcept _) (agrees_ofExcept _) fun _ => agrees_pure _
  · exact Agrees.bind (reads_indexedVersions root) hindexed fun _ => agrees_pure _

end Context

end JarAtlas
