import JarAtlas.Proofs.Commands.Edits

/-!
What commands leave alone in the settings. From settings without doubles on, and whatever commands
came before, a command that is refused leaves the settings file as it was, and a command that is
done changes no settings but those that it sets. Only where the settings hold a text that cannot be
written, saving fails; then the file may be cut off, and what is left of it says nothing.
-/

namespace JarAtlas

open JarAtlas.Action Json Settings

namespace Host

variable {h h' : Host} {root p : Path} {content other : Content} {settings : Json}

theorem Holds.unique (hholds : h.Holds p content) (hother : h.Holds p other) : content = other := by
  obtain ⟨time, hlook⟩ := hholds.look_eq
  obtain ⟨time', hlook'⟩ := hother.look_eq
  rw [hlook] at hlook'
  exact (Node.file.inj (Option.some.inj (Except.ok.inj hlook'))).1

theorem Gains.look_eq (hgains : h.Gains h') (hholds : h.Holds p content) : h'.look p = h.look p := by
  obtain ⟨hnull, place, time, hplace, hget⟩ := hholds
  have hplace' := hgains.preserves.locate_eq hplace
  simp [look, hnull, hplace, hplace', hget, hgains.kept _ _ hget]

/-- There is a settings file, and no double in what it says. -/
def HasExactSettings (h : Host) (root : Path) : Prop :=
  ∃ content, h.Holds (Settings.path root) content ∧
    ∀ cs v, content.strictText? = some cs → Json.parse cs = .ok v → v.all Json.isExact = true

/-- There is a settings file, but what it says is no JSON. -/
def HasBrokenSettings (h : Host) (root : Path) : Prop :=
  ∃ content cs, h.Holds (Settings.path root) content ∧ content.strictText? = some cs ∧
    ∀ v, Json.parse cs ≠ .ok v

theorem HasExactSettings.gain (hexact : h.HasExactSettings root) (hgains : h.GainsDirs h') :
    h'.HasExactSettings root := by
  obtain ⟨content, hholds, hsays⟩ := hexact
  exact ⟨content, hgains.toGains.holds hholds, hsays⟩

theorem HasSettings.gain (hsettings : h.HasSettings root settings)
    (hgains : h.GainsDirs h') : h'.HasSettings root settings := by
  obtain ⟨content, cs, hholds, hsays⟩ := hsettings
  exact ⟨content, cs, hgains.toGains.holds hholds, hsays⟩

theorem HasSettings.hasExactSettings (hsettings : h.HasSettings root settings)
    (hexact : settings.all isExact) : h.HasExactSettings root := by
  obtain ⟨content, cs, hholds, hcs, hparse⟩ := hsettings
  refine ⟨content, hholds, fun cs' v hcs' hparse' => ?_⟩
  rw [hcs] at hcs'
  cases hcs'
  rw [hparse] at hparse'
  exact Except.ok.inj hparse' ▸ hexact

theorem HasBrokenSettings.hasExactSettings (hbroken : h.HasBrokenSettings root) :
    h.HasExactSettings root := by
  obtain ⟨content, cs, hholds, hcs, hparse⟩ := hbroken
  refine ⟨content, hholds, fun cs' v hcs' hparse' => ?_⟩
  rw [hcs] at hcs'
  cases hcs'
  exact absurd hparse' (hparse v)

end Host

namespace Settings

variable {h h' : Host} {root : Path} {settings new : Json} {texts : List (String × String)}

theorem isExact_of_load (hexact : h.HasExactSettings root)
    (hload : (load root).outcome h = (.ok settings, h')) : settings.all isExact := by
  obtain ⟨content, hholds, hsays⟩ := hexact
  rcases load_cases hload with rfl | ⟨content', cs, hholds', hcs, hparse⟩
  · rfl
  · obtain rfl := hholds.unique hholds'
    exact hsays cs settings hcs hparse

theorem lookup_assignAll {key : String} {fields : List (String × Json)}
    (hkey : ∀ text ∈ texts, text.1 ≠ key) :
    lookup key (assignAll texts fields) = lookup key fields := by
  induction texts generalizing fields with
  | nil => rfl
  | cons text texts ih =>
    obtain ⟨hfirst, hrest⟩ := List.forall_mem_cons.mp hkey
    calc Json.lookup key (assignAll texts (Json.assign text.1 (.str text.2) fields))
        = Json.lookup key (Json.assign text.1 (.str text.2) fields) := ih hrest
      _ = lookup key fields := by rw [lookup_assign, if_neg (Ne.symm hfirst)]

/-- Settings without doubles are saved so that they are loaded again, or saving fails: then the file
is not written, or it is cut off. -/
theorem save_cases (hbound : new.isBounded maxDepth)
    (hexact : new.all isExact) {r : Except Fault Unit}
    (hsave : (save root new).outcome h = (r, h')) :
    (r = .ok () ∧ h'.HasSettings root new) ∨
    (r ≠ .ok () ∧ (h' = h ∨ h'.HasBrokenSettings root)) := by
  cases hcan : h.canWrite (path root) with
  | false =>
    obtain ⟨e, hfails⟩ := save_outcome_of_not_canWrite hcan new
    rw [hfails] at hsave
    cases hsave
    exact .inr ⟨nofun, .inl rfl⟩
  | true =>
    obtain ⟨place, hwrites⟩ := Host.canWrite_iff.mp hcan
    obtain ⟨r', hsaved, hwhole⟩ := save_outcome_of_writesAt hwrites new
    rw [hsaved] at hsave
    cases hsave
    rw [(writable_eq new).2, isUnmarked_render_iff .indented 0 hexact hbound] at hwhole
    cases hplain : new.all isPlain with
    | true =>
      refine .inl ⟨hwhole.mpr hplain, _, _, hwrites.holds _, strictText?_written hexact, ?_⟩
      have hunmarked := (isUnmarked_render_iff .indented 0 hexact hbound).mpr hplain
      rw [untilMark_eq_self hunmarked]
      exact parse_render .indented hbound hplain
    | false =>
      refine .inr ⟨fun hok => ?_, .inr ⟨_, _, hwrites.holds _, strictText?_written hexact,
        parse_untilMark_ne_ok .indented hbound hexact hplain⟩⟩
      rw [hwhole.mp hok] at hplain
      cases hplain

def DifferOnlyIn (keys : List String) (root : Path) (h h' : Host) : Prop :=
  ∃ fields fields', (load root).outcome h = (.ok (.obj fields), h) ∧
    (load root).outcome h' = (.ok (.obj fields'), h') ∧
    ∀ key, key ∉ keys → Json.lookup key fields' = Json.lookup key fields

end Settings

namespace Commands

variable {root : Path} {targets : List (List String)} {h h' : Host} {r : Except Fault Nat}

theorem save_assigned_cases {h₁ : Host} {loaded new : Json} {texts : List (String × String)}
    (hexact : h₁.HasExactSettings root)
    (hload : (load root).outcome h₁ = (.ok loaded, h₁))
    (hnew : Assigned texts loaded new) {result : Except Fault Unit}
    (hsave : (save root new).outcome h₁ = (result, h')) :
    (result = .ok () ∧ h'.HasSettings root new ∧ new.all isExact) ∨
    (result ≠ .ok () ∧ (h' = h₁ ∨ h'.HasBrokenSettings root)) := by
  obtain ⟨fields, rfl, rfl⟩ := hnew
  have hfields := all_assignAll (fun _ => rfl) texts (isExact_of_load hexact hload)
  have hbound := isBounded_assignAll texts (isBounded_of_load hload)
  rcases save_cases hbound hfields hsave with ⟨hok, hsettings⟩ | hfails
  · exact .inl ⟨hok, hsettings, hfields⟩
  · exact .inr hfails

theorem Edit.hasExactSettings (hedit : Edit root targets h r h') (hexact : h.HasExactSettings root) :
    h'.HasExactSettings root := by
  cases hedit with
  | untouched hgains _ => exact hexact.gain hgains
  | saved hbefore hload hnew _ hsave hafter _ =>
    rcases save_assigned_cases (hexact.gain hbefore) hload hnew hsave with
      ⟨-, hsettings, hfields⟩ | ⟨hnot, -⟩
    · exact (hsettings.gain hafter).hasExactSettings hfields
    · exact absurd rfl hnot
  | failed hbefore hload hnew hsave =>
    rcases save_assigned_cases (hexact.gain hbefore) hload hnew hsave with
      ⟨hok, -⟩ | ⟨-, rfl | hbroken⟩
    · cases hok
    · exact hexact.gain hbefore
    · exact hbroken.hasExactSettings

/-- What an edit does to settings without doubles: the file stays as it is, or the settings differ
in the keys of one list, or the file is cut off. -/
theorem Edit.cases (hedit : Edit root targets h r h') (hexact : h.HasExactSettings root) :
    (r ≠ .ok 0 ∧ h'.look (path root) = h.look (path root)) ∨
    ((∀ code, r = .ok code → code = 0) ∧
      ∃ keys ∈ targets, DifferOnlyIn keys root h h') ∨
    ((∃ e, r = .error e) ∧ h'.HasBrokenSettings root) := by
  obtain ⟨content, hholds, -⟩ := id hexact
  cases hedit with
  | untouched hgains hr => exact .inl ⟨hr, hgains.toGains.look_eq hholds⟩
  | saved hbefore hload hnew hkeys hsave hafter hr =>
    rcases save_assigned_cases (hexact.gain hbefore) hload hnew hsave with
      ⟨-, hsettings, -⟩ | ⟨hnot, -⟩
    · obtain ⟨fields, rfl, rfl⟩ := hnew
      obtain ⟨keys, htarget, hall⟩ := hkeys
      have hlook := (hbefore.toGains.look_eq hholds).symm
      have hearlier := (agrees_load hlook).outcome_ok (reads_load root) hload
      refine .inr (.inl ⟨hr, keys, htarget, fields, _, hearlier,
        load_of_hasSettings (hsettings.gain hafter), fun key hkey => ?_⟩)
      apply lookup_assignAll
      intro text htext hsame
      exact hkey (hsame ▸ hall text htext)
    · exact absurd rfl hnot
  | failed hbefore hload hnew hsave =>
    rcases save_assigned_cases (hexact.gain hbefore) hload hnew hsave with
      ⟨hok, -⟩ | ⟨-, rfl | hbroken⟩
    · cases hok
    · exact .inl ⟨nofun, hbefore.toGains.look_eq hholds⟩
    · exact .inr (.inr ⟨⟨_, rfl⟩, hbroken⟩)

def after (root : Path) (cs : List Change) (h : Host) : Host :=
  cs.foldl (fun h c => ((c.run root).outcome h).2) h

theorem hasExactSettings_after (hexact : h.HasExactSettings root) (cs : List Change) :
    (after root cs h).HasExactSettings root := by
  induction cs generalizing h with
  | nil => exact hexact
  | cons c cs ih => exact ih ((edits_run root c h).hasExactSettings hexact)

/-- Whatever commands were run before: a command that is refused leaves the settings file as it was,
and one that is done changes no setting but those of one of its lists of keys. -/
theorem settings_frame {fields : List (String × Json)}
    (hstart : h.HasSettings root (.obj fields))
    (hexact : (Json.obj fields).all Json.isExact = true) (before : List Change) (c : Change)
    (hrun : (c.run root).outcome (after root before h) = (r, h')) :
    (∀ code, r = .ok code → code ≠ 0 →
      h'.look (Settings.path root) = (after root before h).look (Settings.path root)) ∧
    (r = .ok 0 → ∃ keys ∈ c.targets, Settings.DifferOnlyIn keys root (after root before h) h') ∧
    (∀ e, r = .error e →
      h'.look (Settings.path root) = (after root before h).look (Settings.path root) ∨
      (∃ keys ∈ c.targets, Settings.DifferOnlyIn keys root (after root before h) h') ∨
      h'.HasBrokenSettings root) := by
  have hbefore := hasExactSettings_after (hstart.hasExactSettings hexact) before
  have hedit := edits_run root c (after root before h)
  rw [hrun] at hedit
  rcases hedit.cases hbefore with ⟨hnot, hlook⟩ | ⟨hzero, hdiffer⟩ | ⟨⟨e, rfl⟩, hbroken⟩
  · exact ⟨fun _ _ _ => hlook, fun hok => absurd hok hnot, fun _ _ => .inl hlook⟩
  · exact ⟨fun code hok hcode => absurd (hzero code hok) hcode, fun _ => hdiffer,
      fun _ _ => .inr (.inl hdiffer)⟩
  · exact ⟨nofun, nofun, fun _ _ => .inr (.inr hbroken)⟩

/-- A project with a language and a setting that no command knows. -/
def notedSettings : Json :=
  .obj [("lang", .str "es"), ("note", .arr [.int 1])]

def notedWorkspace : Host where
  files := ⟨[(["w"], .directory), (["w", settingsName], .file (.ofText notedSettings.pretty) 1)]⟩
  env := [("PRISM_WORKSPACE", "/w")]
  here := ["w"]

theorem hasSettings_notedWorkspace : notedWorkspace.HasSettings (.absolute ["w"]) notedSettings :=
  ⟨_, _, ⟨by decide, ["w", settingsName], 1, rfl, rfl⟩, strictText?_pretty rfl,
    parse_render .indented (by decide +kernel) rfl⟩

/-- A version that there is none of is refused, and a decompiler is set. -/
theorem settings_frame_notedWorkspace : ∃ refused done : Host,
    ((Change.use "beta").run (.absolute ["w"])).outcome notedWorkspace = (.ok 1, refused) ∧
    refused.look (.absolute ["w", settingsName]) =
      notedWorkspace.look (.absolute ["w", settingsName]) ∧
    ((Change.configure "decompiler" "JADX").run (.absolute ["w"])).outcome notedWorkspace =
      (.ok 0, done) ∧
    Settings.DifferOnlyIn ["decompiler"] (.absolute ["w"]) notedWorkspace done := by
  obtain ⟨refused, hrefused⟩ : ∃ refused,
      ((Change.use "beta").run (.absolute ["w"])).outcome notedWorkspace = (.ok 1, refused) :=
    ⟨_, Prod.ext (ok_of_toOption (by decide +kernel)) rfl⟩
  obtain ⟨done, hdone⟩ : ∃ done, ((Change.configure "decompiler" "JADX").run
      (.absolute ["w"])).outcome notedWorkspace = (.ok 0, done) :=
    ⟨_, Prod.ext (ok_of_toOption (by decide +kernel)) rfl⟩
  obtain ⟨hsame, -⟩ := settings_frame hasSettings_notedWorkspace rfl [] (.use "beta") hrefused
  obtain ⟨-, hdiffer, -⟩ := settings_frame hasSettings_notedWorkspace rfl []
    (.configure "decompiler" "JADX") hdone
  obtain ⟨keys, hkeys, honly⟩ := hdiffer rfl
  obtain rfl : keys = ["decompiler"] := by
    rw [Change.targets, if_neg (by decide)] at hkeys
    exact List.mem_singleton.mp hkeys
  exact ⟨refused, done, hrefused, hsame 1 rfl (by decide), hdone, honly⟩

end Commands

end JarAtlas
