import JarAtlas.Proofs.Explore.Search
import JarAtlas.Tools.Toolbox

/-!
The class that the tool for classes is asked for. A full name is taken alone only if it has a dot.
Without one it is looked for in the package that is given beside it.
-/

namespace JarAtlas

open Action

namespace Tools

/-- A call of the tool for classes with all its arguments. -/
def classArguments (version source : Json) (full : String) (package name : Option String) :
    Arguments :=
  [("version", version), ("package", .ofText? package), ("class_name", .ofText? name),
    ("fqcn", .str full), ("include_source", source)]

def askClass (version source : Json) (full : String) (package name : Option String) :
    Action Json :=
  call "prism_get_class" (classArguments version source full package name)

/-- The answer for a class of a package. -/
def classAnswer (v : ServerVersion) (source : Bool) (package name : String) : Action Json := do
  if name == "" then return problem "missing_params" "Provide class_name or fqcn."
  else
    let found ← showClass none v (.str package) (.str name) source
    return reply found fun fields => .obj (("version", .str v.name) :: fields)

variable {version source : Json} {full : String} {package package' name name' : Option String}

theorem givenText_ofText? (o : Option String) : (Json.ofText? o).givenText = .ok (o.getD "") := by
  cases o with
  | none => rfl
  | some s =>
    by_cases hs : s = ""
    · subst hs
      rfl
    · simp [Json.ofText?, Json.givenText, Json.isGiven, hs, Json.asText]

theorem classNames_classArguments (hfull : Text.strip full ≠ "") :
    classNames (classArguments version source full package name) =
      .ok ((Query.splitName? (Text.strip full)).getD
        (Text.strip (package.getD ""), Text.strip full)) := by
  have htext (key : String) (o : Option String)
      (hvalue : (classArguments version source full package name).value key = .ofText? o) :
      (classArguments version source full package name).textOr key = .ok (o.getD "") := by
    rw [Arguments.textOr, hvalue, givenText_ofText?]
  have hempty : (Text.strip full == "") = false := by simpa using hfull
  rw [classNames, htext "package" package rfl, htext "class_name" name rfl,
    htext "fqcn" (some full) rfl]
  simp only [bind, Except.bind, Option.getD_some, hempty]
  cases Query.splitName? (Text.strip full) <;> rfl

theorem call_eq {key : String} {tool : Tool} {args bound : Arguments}
    (htool : (all.find? fun tool => tool.name == key) = some tool)
    (hbind : tool.parameters.bind args = .ok bound) :
    call key args = ready >>= fun _ => tool.run bound := by
  rw [call, htool]
  simp only [hbind]
  rfl

theorem bind_classArguments :
    Parameters.bind [needed "version", optional "package" .null, optional "class_name" .null,
      optional "fqcn" .null, optional "include_source" (.bool false)]
      (classArguments version source full package name) =
      .ok (classArguments version source full package name) := by
  rfl

theorem askClass_eq (hfull : Text.strip full ≠ "") :
    askClass version source full package name = (do
      let _ ← ready
      let names := (Query.splitName? (Text.strip full)).getD
        (Text.strip (package.getD ""), Text.strip full)
      classAnswer (.ofValue version) source.isGiven names.1 names.2) := by
  rw [askClass, call_eq rfl bind_classArguments]
  refine congrArg (ready >>= ·) (funext fun _ => ?_)
  have hversion : Tools.version (classArguments version source full package name) =
      .ofValue version := rfl
  have hflag : (classArguments version source full package name).flag "include_source" =
      source.isGiven := rfl
  show getClass _ = _
  rw [getClass, classNames_classArguments hfull, hversion, hflag]
  generalize (Query.splitName? (Text.strip full)).getD _ = names
  obtain ⟨package, name⟩ := names
  rfl

theorem trim_strip (s : String) : Text.trim (Text.strip s).toList = (Text.strip s).toList := by
  rw [Text.strip, String.toList_ofList]
  exact Text.trimBy_trimBy _ _

theorem strip_strip (s : String) : Text.strip (Text.strip s) = Text.strip s := by
  rw [Text.strip, trim_strip, String.ofList_toList]

theorem splitName?_strip_eq_none_iff :
    Query.splitName? (Text.strip full) = none ↔ '.' ∉ (Text.strip full).toList := by
  rw [Query.splitName?, trim_strip, Option.map_eq_none_iff]
  refine ⟨fun hnone hdot => ?_, Text.splitLast?_eq_none⟩
  obtain ⟨a, b, hsplit, hb⟩ := Text.exists_last_of_mem hdot
  rw [hsplit, Text.splitLast?_append hb] at hnone
  cases hnone

theorem answer_version_ne (fields : List (String × Json)) (p : Problem) :
    answer (.obj (("version", .str "release") :: fields)) ≠ answer p.toJson := by
  intro hsame
  have hchars := congrArg (fun s : String => s.toList[2]?) (Json.str.inj hsame)
  simp only [Json.compact, String.toList_ofList] at hchars
  have hchars : some 'v' = some 'e' := hchars
  cases hchars

/-- A catalogue with one class, in the package `a`. -/
def oneClass (name : String) : Catalogue where
  classes := ⟨[⟨1, "a", name, "class", "A.java", none, none⟩], 1⟩

def classMachine (name : String) : Host :=
  { releaseMachine (oneClass name) with
    env := [("PRISM_WORKSPACE", "/w")]
    toolbox := some ⟨[], ⟨.builtIn, []⟩⟩ }

theorem stores_classMachine (name : String) :
    (classMachine name).Stores smallDatabase { api := some (oneClass name) } := by
  obtain ⟨place, time, hopens, hfile⟩ := stores_releaseMachine (oneClass name)
  exact ⟨place, time, { hopens with dirs := ⟨hopens.dirs.noNull, hopens.dirs.dirs⟩ }, hfile⟩

theorem details_oneClass {name package : String} (hname : Text.strip name = name)
    (hpackage : Text.strip package = package) :
    Database.details { api := some (oneClass name) } (.str package) (.str name) =
      .ok (if package = "a" then
        some ⟨⟨1, "a", name, "class", "A.java", none, none⟩, [], []⟩ else none) := by
  rw [Database.details]
  simp only [Json.stripped, Json.asText, hpackage, hname, bind, Except.bind, pure, Except.pure]
  by_cases ha : "a" = package
  · subst ha
    simp [Database.catalogue, Database.part, Catalogue.details?, Catalogue.findClass?, oneClass,
      Catalogue.methodsOf, Catalogue.constantsOf, bind]
  · simp [Database.catalogue, Database.part, Catalogue.details?, Catalogue.findClass?, oneClass,
      ha, Ne.symm ha, bind]

theorem showClass_classMachine {name package : String} (hname : Text.strip name = name)
    (hpackage : Text.strip package = package) :
    (∃ fields h', (showClass none .release (.str package) (.str name) false).outcome
      (classMachine name) = (.ok (.ok fields), h')) ↔ package = "a" := by
  have hroot : (rootOr none).outcome (classMachine name) =
      (.ok (.absolute ["w"]), classMachine name) := rfl
  have hask : (askCatalogue (some (.absolute ["w"])) .release fun d =>
      d.details (.str package) (.str name)).outcome (classMachine name) = _ :=
    askCatalogue_outcome rfl rfl (stores_classMachine name) _
  rw [details_oneClass hname hpackage] at hask
  rw [showClass, bind_of_ok hroot, bind_of_ok hask]
  by_cases ha : package = "a"
  · rw [if_pos ha]
    exact iff_of_true ⟨_, _, rfl⟩ ha
  · rw [if_neg ha]
    refine iff_of_false ?_ ha
    rintro ⟨fields, h', hshow⟩
    obtain ⟨others, h₁, -, hrest⟩ := bind_ok_iff.mp hshow
    split at hrest <;> cases (pure_ok hrest).1

theorem classAnswer_classMachine {name package : String} (hname : Text.strip name = name)
    (hgiven : name ≠ "") (hpackage : Text.strip package = package) :
    (∃ fields, ((classAnswer .release false package name).outcome (classMachine name)).1 =
      .ok (answer (.obj (("version", .str "release") :: fields)))) ↔ package = "a" := by
  rw [classAnswer, if_neg (by simpa using hgiven), ← showClass_classMachine hname hpackage]
  constructor
  · rintro ⟨fields, hanswer⟩
    obtain ⟨found, h', hshow, hrest⟩ := bind_ok_iff.mp (Prod.ext hanswer rfl)
    have hreply := (pure_ok hrest).1
    cases found with
    | ok fields => exact ⟨fields, h', hshow⟩
    | error p => exact absurd hreply.symm (answer_version_ne fields p)
  · rintro ⟨fields, h', hshow⟩
    exact ⟨fields, by rw [bind_of_ok hshow]; rfl⟩

/-- Whatever is asked for beside a full name changes nothing exactly if that name has a dot. The
name of a class never does, and the package only by what it is without blanks around it. -/
theorem askClass_ignores_iff (full : String) (hfull : Text.strip full ≠ "") :
    ((∀ h version source package package' name name',
      ((askClass version source full package name).outcome h).1 =
        ((askClass version source full package' name').outcome h).1) ↔
      '.' ∈ (Text.strip full).toList) ∧
    ∀ version source package package' name name',
      Text.strip (package.getD "") = Text.strip (package'.getD "") →
      askClass version source full package name = askClass version source full package' name' := by
  refine ⟨⟨fun hsame => ?_, fun hdot h version source package package' name name' => ?_⟩, ?_⟩
  · -- Without a dot the class is found in one package and not in another one.
    by_contra hdot
    let m := classMachine (Text.strip full)
    have hready : ready.outcome m = (.ok ⟨[], ⟨.builtIn, []⟩⟩, m) := rfl
    have hanswer (package : String) (hpackage : Text.strip package = package) :
        (askClass (.str "release") (.bool false) full (some package) none).outcome m =
          (classAnswer .release false package (Text.strip full)).outcome m := by
      rw [askClass_eq hfull, splitName?_strip_eq_none_iff.mpr hdot, bind_of_ok hready]
      simp only [Option.getD_none, Option.getD_some, hpackage]
      rfl
    have hfound {package : String} (hpackage : Text.strip package = package) :=
      classAnswer_classMachine (strip_strip full) hfull hpackage
    obtain ⟨fields, hfirst⟩ := (hfound (by decide)).mpr rfl
    rw [← hanswer "a" (by decide), hsame m _ _ _ (some "b") _ none, hanswer "b" (by decide)]
      at hfirst
    exact absurd ((hfound (by decide)).mp ⟨fields, hfirst⟩) (by decide)
  · obtain ⟨names, hnames⟩ := Option.ne_none_iff_exists'.mp
      (splitName?_strip_eq_none_iff.not_left.mpr hdot)
    rw [askClass_eq hfull, askClass_eq hfull, hnames, Option.getD_some, Option.getD_some]
  · intro version source package package' name name' hpackage
    rw [askClass_eq hfull, askClass_eq hfull, hpackage]

/-- For the name `A` the package matters, and for `p.A` nothing does. -/
theorem askClass_ignores_dotted :
    (¬ ∀ h version source package package' name name',
      ((askClass version source "A" package name).outcome h).1 =
        ((askClass version source "A" package' name').outcome h).1) ∧
    ∀ h version source package package' name name',
      ((askClass version source "p.A" package name).outcome h).1 =
        ((askClass version source "p.A" package' name').outcome h).1 := by
  have hplain := askClass_ignores_iff "A" (by decide)
  have hdotted := askClass_ignores_iff "p.A" (by decide)
  exact ⟨fun hsame => absurd (hplain.1.mp hsame) (by decide), hdotted.1.mpr (by decide)⟩

end Tools

end JarAtlas
