import JarAtlas.Proofs.Workspace.Servers

/-!
Questions about settings whose file is damaged. A text that is no JSON counts as no settings, but
neither bytes that are no text nor JSON of another kind than an object are caught: the questions
are then not answered at all.
-/

namespace JarAtlas

open JarAtlas.Action Json

namespace Settings

/-- The fields that a settings file gives: those of an object, and none if it is a text but no
JSON. Any other content gives no fields. -/
def GivesFields (content : Content) (fields : List (String × Json)) : Prop :=
  ∃ cs, content.strictText? = some cs ∧
    (parse cs = .ok (.obj fields) ∨ parse cs = .error .malformed ∧ fields = [])

variable {α : Type} {h : Host} {root : Path} {content : Content} {fields : List (String × Json)}

theorem load_cases_of_holds (hholds : h.Holds (path root) content) :
    (∃ settings, (load root).outcome h = (.ok settings, h) ∧
      ∀ fields, settings = .obj fields ↔ GivesFields content fields) ∨
    (∃ e, (load root).outcome h = (.error e, h)) ∧ ∀ fields, ¬ GivesFields content fields := by
  have hread : (readStrictText (path root)).outcome h =
      (content.strictText?.elim (.error .badEncoding) .ok, h) := by
    rw [readStrictText, bind_of_ok (readContent_outcome_ok_iff.mpr hholds)]
    cases content.strictText? <;> rfl
  rw [load, readJson, outcome_bind, bind_of_ok hholds.isThere_eq, if_pos rfl,
    bind_of_ok (outcome_attempt _ _), hread]
  cases hcs : content.strictText? with
  | none => exact .inr ⟨⟨_, rfl⟩, by simp [GivesFields, hcs]⟩
  | some cs =>
    have hgives (fields) : GivesFields content fields ↔
        parse cs = .ok (.obj fields) ∨ parse cs = .error .malformed ∧ fields = [] := by
      simp [GivesFields, hcs]
    simp only [hgives, Option.elim_some]
    rcases parse cs with (_ | _ | _) | settings
    · exact .inl ⟨.obj [], rfl, by simp [eq_comm]⟩
    · exact .inr ⟨⟨_, rfl⟩, by simp⟩
    · exact .inr ⟨⟨_, rfl⟩, by simp⟩
    · exact .inl ⟨settings, rfl, by simp⟩

/-- A question that is put to the settings, and fails if they are no object. -/
theorem exists_answer_iff (hholds : h.Holds (path root) content) {next : Json → Action α}
    {P : List (String × Json) → Prop}
    (hfields : ∀ fields, (∃ x, (next (.obj fields)).outcome h = (.ok x, h)) ↔ P fields)
    (hother : ∀ v, (∀ fields, v ≠ .obj fields) → ∀ x, (next v).outcome h ≠ (.ok x, h)) :
    (∃ x, (load root >>= next).outcome h = (.ok x, h)) ↔
      ∃ fields, GivesFields content fields ∧ P fields := by
  rcases load_cases_of_holds hholds with ⟨settings, hload, hgives⟩ | ⟨⟨e, hload⟩, hnone⟩
  · rw [bind_of_ok hload]
    by_cases hobj : ∃ fields, settings = .obj fields
    · obtain ⟨fields, rfl⟩ := hobj
      simp [← hgives, ← hfields]
    · simp only [not_exists] at hobj
      refine iff_of_false (fun ⟨x, hx⟩ => hother settings hobj x hx) ?_
      rintro ⟨fields, hfound, -⟩
      exact hobj fields ((hgives fields).mpr hfound)
  · rw [outcome_bind, hload]
    exact iff_of_false (by simp) fun ⟨fields, hfound, _⟩ => hnone fields hfound

theorem given?_obj (fields : List (String × Json)) (name : String) :
    given? (.obj fields) name = .ok ((lookup name fields).filter isGiven) :=
  rfl

theorem field_of_ne_obj {v : Json} (hv : ∀ fields, v ≠ .obj fields) (name : String) :
    field v name = .error .noMember := by
  cases v with
  | obj fields => exact absurd rfl (hv fields)
  | _ => rfl

theorem given?_of_ne_obj {v : Json} (hv : ∀ fields, v ≠ .obj fields) (name : String) :
    given? v name = .error .noMember := by
  rw [given?, field_of_ne_obj hv]
  rfl

/-- Nothing is given, or a text. -/
def GivesText (stored : Option Json) : Prop :=
  ∀ v, stored = some v → v.isGiven → v.text?.isSome

/-- Nothing is given, or a text, and then a file of that name can be asked for. -/
def NamesFile (h : Host) (stored : Option Json) : Prop :=
  GivesText stored ∧ ∀ s, stored = some (.str s) → s ≠ "" →
    ∃ found, h.isFile (Path.parse s) = .ok found

theorem filter_isGiven_cases (stored : Option Json) :
    (∃ v, stored = some v ∧ v.isGiven ∧ stored.filter isGiven = some v) ∨
      stored.filter isGiven = none ∧ ∀ v, stored = some v → v.isGiven = false := by
  rcases given_or_not stored with ⟨v, rfl, hv⟩ | hnone
  · exact .inl ⟨v, rfl, hv, Option.filter_some_pos hv⟩
  · exact .inr ⟨Option.filter_eq_none_iff.mpr fun v hv => by simp [hnone v hv], hnone⟩

theorem exists_fileAt?_iff (name : String) (fields : List (String × Json)) :
    (∃ x, (ofExcept (path? (.obj fields) name) >>= fileAt?).outcome h = (.ok x, h)) ↔
      NamesFile h (lookup name fields) := by
  rw [fileAt?_outcome, path?, given?_obj]
  rcases filter_isGiven_cases (lookup name fields) with ⟨v, hv, hgiven, hsome⟩ | ⟨hnone, hgiven⟩
  · rw [hsome, hv]
    cases v with
    | str s =>
      have hs : s ≠ "" := by simpa [isGiven] using hgiven
      show (∃ x, (savedOr h (.ok (some (Path.parse s))) (.ok none), h) = _) ↔ _
      rcases hfile : h.isFile (Path.parse s) with e | _ | _ <;>
        simp [savedOr, NamesFile, GivesText, text?, hfile, hs]
    | torn s => exact iff_of_true ⟨none, rfl⟩ (by simp [NamesFile, GivesText, text?])
    | _ =>
      refine iff_of_false ?_ fun hnames => Bool.false_ne_true (hnames.1 _ rfl hgiven)
      rintro ⟨x, hx⟩
      cases hx
  · rw [hnone]
    refine iff_of_true ⟨none, rfl⟩ ⟨fun v hv => by simp [hgiven v hv], fun s hs hne => ?_⟩
    simpa [isGiven, hne] using hgiven _ hs

theorem exists_locale_iff (hholds : h.Holds (path root) content) :
    (∃ code, (Messages.locale root).outcome h = (.ok code, h)) ↔
      ∃ fields, GivesFields content fields ∧ GivesText (lookup "lang" fields) := by
  refine exists_answer_iff hholds (fun fields => ?_) fun v hv x => ?_
  · rw [given?_obj]
    rcases filter_isGiven_cases (lookup "lang" fields) with ⟨v, hv, hgiven, hsome⟩ | ⟨hnone, hgiven⟩
    · rw [hsome, hv]
      cases v with
      | str s => exact iff_of_true ⟨_, rfl⟩ (by simp [GivesText, text?])
      | torn s => exact iff_of_true ⟨_, rfl⟩ (by simp [GivesText, text?])
      | _ =>
        refine iff_of_false ?_ fun htext => Bool.false_ne_true (htext _ rfl hgiven)
        rintro ⟨x, hx⟩
        cases hx
    · rw [hnone]
      exact iff_of_true ⟨_, rfl⟩ fun v hv => by simp [hgiven v hv]
  · rw [given?_of_ne_obj hv]
    rintro ⟨⟩

theorem exists_activeVersion_iff (hholds : h.Holds (path root) content) :
    (∃ v, (activeVersion root).outcome h = (.ok v, h)) ↔ ∃ fields, GivesFields content fields := by
  have hanswer : (∃ v, (activeVersion root).outcome h = (.ok v, h)) ↔
      ∃ fields, GivesFields content fields ∧ True := by
    refine exists_answer_iff hholds (fun fields => ?_) fun v hv x => ?_
    · obtain ⟨active, hactive, -⟩ := activeVersion?_obj fields
      rw [hactive]
      exact iff_of_true ⟨_, rfl⟩ trivial
    · rw [activeVersion?, field_of_ne_obj hv]
      rintro ⟨⟩
  simpa only [and_true] using hanswer

/-- What becomes of the settings and of the questions about them, for every content of the settings
file. The fields are those of an object, or none if the file is a text but no JSON; for any other
content nothing is answered. -/
theorem answers_of_damaged_settings (hholds : h.Holds (path root) content) :
    (∀ fields, (load root).outcome h = (.ok (.obj fields), h) ↔ GivesFields content fields) ∧
    ((∃ v, (activeVersion root).outcome h = (.ok v, h)) ↔ ∃ fields, GivesFields content fields) ∧
    ((∃ jar, (jar? root).outcome h = (.ok jar, h)) ↔
      ∃ fields, GivesFields content fields ∧ NamesFile h (Json.lookup "jar_path" fields)) ∧
    ((∃ code, (Messages.locale root).outcome h = (.ok code, h)) ↔
      ∃ fields, GivesFields content fields ∧ GivesText (Json.lookup "lang" fields)) := by
  refine ⟨?_, exists_activeVersion_iff hholds, ?_, exists_locale_iff hholds⟩
  · rcases load_cases_of_holds hholds with ⟨settings, hload, hgives⟩ | ⟨⟨e, hload⟩, hnone⟩
    · simp [hload, ← hgives]
    · simp [hload, hnone]
  · refine exists_answer_iff hholds (exists_fileAt?_iff _) fun v hv x => ?_
    rw [fileAt?_outcome, path?, given?_of_ne_obj hv]
    rintro ⟨⟩

def damagedWorkspace (content : Content) : Host where
  files := ⟨[(["w"], .directory), (["w", settingsName], .file content 1)]⟩

theorem holds_damagedWorkspace (content : Content) :
    (damagedWorkspace content).Holds (path (.absolute ["w"])) content :=
  ⟨by decide, ["w", settingsName], 1, rfl, rfl⟩

/-- A byte that starts no character is not caught, and neither is an array. -/
theorem unanswered_damagedWorkspace :
    (∀ active, (activeVersion (.absolute ["w"])).outcome (damagedWorkspace (.bytes [255])) ≠
      (.ok active, damagedWorkspace (.bytes [255]))) ∧
    (∀ code, (Messages.locale (.absolute ["w"])).outcome (damagedWorkspace (.ofText "[]")) ≠
      (.ok code, damagedWorkspace (.ofText "[]"))) ∧
    ∃ jar, (jar? (.absolute ["w"])).outcome (damagedWorkspace (.ofText "[")) =
      (.ok jar, damagedWorkspace (.ofText "[")) := by
  have hbyte : ∀ fields, ¬ GivesFields (.bytes [255]) fields := by
    rintro fields ⟨cs, hcs, -⟩
    have hnone : (Content.bytes [255]).strictText? = none := by decide +kernel
    rw [hnone] at hcs
    cases hcs
  have harray : ∀ fields, ¬ GivesFields (.ofText "[]") fields := by
    rintro fields ⟨cs, hcs, hparse⟩
    have htext : (Content.ofText "[]").strictText? = some "[]".toList := by decide +kernel
    have harray : Json.parse "[]".toList = .ok (.arr []) := by rfl
    rw [htext] at hcs
    rw [← Option.some.inj hcs, harray] at hparse
    simp at hparse
  have hopen : GivesFields (.ofText "[") [] :=
    ⟨"[".toList, by decide +kernel, .inr ⟨by rfl, rfl⟩⟩
  refine ⟨fun active hactive => ?_, fun code hcode => ?_, ?_⟩
  · obtain ⟨fields, hfields⟩ := (answers_of_damaged_settings
      (holds_damagedWorkspace (.bytes [255]))).2.1.mp ⟨active, hactive⟩
    exact hbyte fields hfields
  · obtain ⟨fields, hfields, -⟩ := (answers_of_damaged_settings
      (holds_damagedWorkspace (.ofText "[]"))).2.2.2.mp ⟨code, hcode⟩
    exact harray fields hfields
  · exact (answers_of_damaged_settings (holds_damagedWorkspace (.ofText "["))).2.2.1.mpr
      ⟨[], hopen, nofun, nofun⟩

end Settings

end JarAtlas
