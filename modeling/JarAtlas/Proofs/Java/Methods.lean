import JarAtlas.Proofs.Java.LegalHeaders

/-!
Methods as the language has them, and what is reported for them. A method is found exactly if its
return type is written without blanks, which leaves out every type with two arguments, and nothing
but the known modifiers comes before the type. It counts as static if the word stands anywhere in
its declaration, not only among the modifiers.
-/

open List

namespace JarAtlas.Java

open Text ClassType

/-! ### Return types -/

def dimensionText (n : Nat) : List Char :=
  (List.replicate n ['[', ']']).flatten

mutual

/-- A type as it is written, with a comma and a space between its arguments. -/
def ClassType.text : ClassType → List Char
  | .named name args => name.chars ++ args.text
  | .member outer name args => outer.text ++ '.' :: (name.chars ++ args.text)

def TypeArgs.text : TypeArgs → List Char
  | .nil => []
  | .cons arg rest => '<' :: (arg.text ++ rest.moreText)

def TypeArgs.moreText : TypeArgs → List Char
  | .nil => ['>']
  | .cons arg rest => ',' :: ' ' :: (arg.text ++ rest.moreText)

def TypeArg.text : TypeArg → List Char
  | .type element n => element.text ++ dimensionText n
  | .wildcard => ['?']
  | .bounded upper element n =>
    '?' :: ' ' :: ((if upper then Token.extendsWord.text else Token.superWord.text) ++
      ' ' :: (element.text ++ dimensionText n))

end

mutual

/-- Types of plain names with at most one argument each, and no wildcards. -/
def ClassType.IsSimple : ClassType → Prop
  | .named name args => name.IsPlain ∧ args.IsSimple
  | .member outer name args => outer.IsSimple ∧ name.IsPlain ∧ args.IsSimple

def TypeArgs.IsSimple : TypeArgs → Prop
  | .nil => True
  | .cons arg rest => arg.IsSimple ∧ rest = .nil

def TypeArg.IsSimple : TypeArg → Prop
  | .type element _ => element.IsSimple
  | .wildcard => False
  | .bounded _ _ _ => False

end

/-- The characters of simple types, which may include blanks but no other signs. -/
structure InSimpleTypes (p : Char → Bool) : Prop where
  identifier : ∀ c, isIdentifierChar c = true → p c = Text.isWord c
  signs : ∀ c ∈ ['<', '>', '[', ']', '.'], p c = true
  others : ∀ c ∈ [',', '?'], p c = false

namespace InSimpleTypes

variable {p : Char → Bool} (hp : InSimpleTypes p)

include hp

theorem name_iff (n : Identifier) : (∀ c ∈ n.chars, p c) ↔ n.IsPlain := by
  refine forall₂_congr fun c hc => ?_
  rw [hp.identifier c (n.isIdentifier c hc)]

theorem dimensionText (n : Nat) : ∀ c ∈ dimensionText n, p c := by
  intro c hc
  obtain ⟨part, hpart, hmem⟩ := mem_flatten.mp hc
  rw [eq_of_mem_replicate hpart] at hmem
  refine hp.signs c ?_
  rcases mem_pair.mp hmem with rfl | rfl <;> decide

end InSimpleTypes

-- A list of arguments is closed by a bracket, so the statement for arguments is also about what
-- comes after one of them.
mutual

variable {p : Char → Bool}

theorem ClassType.isSimple_iff (hp : InSimpleTypes p) :
    (c : ClassType) → (c.IsSimple ↔ ∀ ch ∈ c.text, p ch)
  | .named name args => by
      rw [IsSimple, text, forall_mem_append, hp.name_iff, (args.isSimple_iff hp).1]
  | .member outer name args => by
      have hdot : p '.' := hp.signs _ (by decide)
      rw [IsSimple, text, forall_mem_append, forall_mem_cons, forall_mem_append, hp.name_iff,
        (args.isSimple_iff hp).1, outer.isSimple_iff hp, and_iff_right hdot]

theorem TypeArgs.isSimple_iff (hp : InSimpleTypes p) :
    (as : TypeArgs) → (as.IsSimple ↔ ∀ ch ∈ as.text, p ch) ∧
      (as = .nil ↔ ∀ ch ∈ as.moreText, p ch)
  | .nil => by
      have hclosing : p '>' = true := hp.signs _ (by decide)
      simp [TypeArgs.IsSimple, TypeArgs.text, TypeArgs.moreText, hclosing]
  | .cons arg rest => by
      have hopening : p '<' = true := hp.signs _ (by decide)
      have hcomma : p ',' = false := hp.others _ (by decide)
      constructor
      · rw [TypeArgs.IsSimple, TypeArgs.text, forall_mem_cons, forall_mem_append,
          arg.isSimple_iff hp, (rest.isSimple_iff hp).2, and_iff_right hopening]
      · simp [TypeArgs.moreText, hcomma]

theorem TypeArg.isSimple_iff (hp : InSimpleTypes p) :
    (a : TypeArg) → (a.IsSimple ↔ ∀ ch ∈ a.text, p ch)
  | .type element n => by
      rw [TypeArg.IsSimple, TypeArg.text, forall_mem_append, element.isSimple_iff hp,
        and_iff_left (hp.dimensionText n)]
  | .wildcard => by
      have hquestion : p '?' = false := hp.others _ (by decide)
      simp [TypeArg.IsSimple, TypeArg.text, hquestion]
  | .bounded upper element n => by
      have hquestion : p '?' = false := hp.others _ (by decide)
      simp [TypeArg.IsSimple, TypeArg.text, hquestion]

end

theorem inSimpleTypes_isTypeChar : InSimpleTypes isTypeChar where
  identifier c hc := by
    rcases Bool.or_eq_true_iff.mp hc with hword | hdollar
    · simp [isTypeChar, hword]
    · rw [beq_iff_eq.mp hdollar]
      decide
  signs := by decide
  others := by decide

theorem inSimpleTypes_or_isBlank : InSimpleTypes fun c => isBlank c || isTypeChar c where
  identifier c hc := by
    rw [← inSimpleTypes_isTypeChar.identifier c hc]
    rcases Bool.or_eq_true_iff.mp hc with hword | hdollar
    · rw [isBlank_eq_false_of_isWord hword, Bool.false_or]
    · rw [beq_iff_eq.mp hdollar]
      decide
  signs := by decide
  others := by decide

theorem ClassType.text_ne_nil : (c : ClassType) → c.text ≠ []
  | .named name args => by
      rw [text]
      exact append_ne_nil_of_left_ne_nil name.ne_nil _
  | .member outer name args => by
      rw [text]
      exact append_ne_nil_of_left_ne_nil outer.text_ne_nil _

theorem ClassType.isSolid_text : (c : ClassType) → (rest : List Char) → IsSolid (c.text ++ rest)
  | .named name args, rest => by
      rw [text, append_assoc]
      exact (Token.word name).head_solid _
  | .member outer name args, rest => by
      rw [text, append_assoc]
      exact outer.isSolid_text _

/-! ### Declarations of methods -/

structure MethodDecl where
  tag : Option (List Char)
  /-- The words between `public` and the type: modifiers, other annotations, type parameters. -/
  between : List (List Char)
  type : ClassType
  dimensions : Nat
  name : Identifier
  params : List Char
  isName_tag : ∀ t ∈ tag, IsName t
  closing_params : ')' ∉ params

namespace MethodDecl

variable (f : MethodDecl)

def returns : List Char :=
  f.type.text ++ dimensionText f.dimensions

def words : List (List Char) :=
  (f.tag.map ('@' :: ·)).toList ++
    "public".toList :: (f.between ++ (Text.words f.returns ++ [f.name.chars]))

def signature : Signature :=
  ⟨f.tag.map ('@' :: ·), f.returns, f.name.chars, f.params⟩

/-- Methods with known modifiers only, a simple type and a plain name. -/
structure IsPlain (f : MethodDecl) : Prop where
  between : ∀ w ∈ f.between, w ∈ modifierWords
  type : f.type.IsSimple
  name : f.name.IsPlain

variable {f} {front : List Char}

theorem IsPlain.isType_returns (hf : f.IsPlain) : IsType f.returns := by
  refine isType_iff.mpr ⟨append_ne_nil_of_left_ne_nil f.type.text_ne_nil _, ?_⟩
  exact forall_mem_append.mpr ⟨(f.type.isSimple_iff inSimpleTypes_isTypeChar).mp hf.type,
    inSimpleTypes_isTypeChar.dimensionText f.dimensions⟩

theorem IsPlain.isSignature (hf : f.IsPlain) (hsolid : IsSolid front)
    (hwords : Text.words front = f.words) : IsSignature f.signature f.between front where
  solid := hsolid
  words := by
    rw [hwords, MethodDecl.words, hf.isType_returns.words_eq]
    rfl
  tag := by
    intro t ht
    obtain ⟨n, hn, rfl⟩ := Option.map_eq_some_iff.mp ht
    exact ⟨n, rfl, f.isName_tag n hn⟩
  modifiers := hf.between
  returns := hf.isType_returns
  name := ⟨f.name.ne_nil, hf.name⟩

theorem isPlain_of_isSignature {s : Signature} {modifiers : List (List Char)}
    (hs : IsSignature s modifiers front) (hwords : Text.words front = f.words) : f.IsPlain := by
  have htag : ∀ t ∈ f.tag.map ('@' :: ·), ∃ n, t = '@' :: n ∧ IsName n := by
    intro t ht
    obtain ⟨n, hn, rfl⟩ := Option.map_eq_some_iff.mp ht
    exact ⟨n, rfl, f.isName_tag n hn⟩
  obtain ⟨-, hrest⟩ := eq_of_public_words htag hs.tag (hwords.symm.trans hs.words)
  have hne : Text.words f.returns ≠ [] := fun hnil =>
    append_ne_nil_of_left_ne_nil f.type.text_ne_nil _
      (eq_nil_of_words_eq_nil (f.type.isSolid_text _) hnil)
  obtain ⟨earlier, last, hlast⟩ := eq_nil_or_concat' (Text.words f.returns) |>.resolve_left hne
  have hsplit : (f.between ++ earlier) ++ [last, f.name.chars] = modifiers ++ [s.returns, s.name] := by
    rw [← hrest, hlast]
    simp
  obtain ⟨hmodifiers, hpair⟩ := append_inj' hsplit rfl
  obtain ⟨rfl, hname⟩ : last = s.returns ∧ f.name.chars = s.name := by simpa using hpair
  have hknown : ∀ w ∈ f.between ++ earlier, w ∈ modifierWords := hmodifiers ▸ hs.modifiers
  have htypes : ∀ w ∈ modifierWords, IsType w := by decide
  refine ⟨fun w hw => hknown w (mem_append_left _ hw), ?_, fun c hc => hs.name.2 c (hname ▸ hc)⟩
  -- Each word of the return type is made of characters of simple types.
  refine (f.type.isSimple_iff inSimpleTypes_or_isBlank).mpr fun c hc => ?_
  cases hblank : isBlank c with
  | true => rfl
  | false =>
    rw [Bool.false_or]
    have hmem : c ∈ f.returns := mem_append_left _ hc
    obtain ⟨w, hw, hmem⟩ := (mem_iff_exists_word hblank).mp hmem
    rw [hlast] at hw
    rcases mem_append.mp hw with hw | hw
    · exact (htypes w (hknown w (mem_append_right _ hw))).typeChars c hmem
    · exact hs.returns.typeChars c (mem_singleton.mp hw ▸ hmem)

/-- A method is read exactly if it is plain, with its type, its name and its parameters. -/
theorem method_eq_some_iff (hsolid : IsSolid front) (hbracket : '(' ∉ front)
    (hwords : Text.words front = f.words) (after : List Char) :
    ((method (front ++ '(' :: (f.params ++ ')' :: after))).isSome ↔ f.IsPlain) ∧
      ∀ s rest, method (front ++ '(' :: (f.params ++ ')' :: after)) = some (s, rest) →
        s = f.signature := by
  have hplain {s : Signature} {rest : List Char}
      (hread : method (front ++ '(' :: (f.params ++ ')' :: after)) = some (s, rest)) :
      f.IsPlain := by
    obtain ⟨-, front', modifiers, htext, hs⟩ := Java.method_eq_some_iff.mp hread
    obtain rfl := eq_of_append_cons_eq hbracket (hs.notMem (by decide)) htext
    exact isPlain_of_isSignature hs hwords
  have hread (hf : f.IsPlain) := (hf.isSignature hsolid hwords).method f.closing_params after
  refine ⟨⟨fun hsome => ?_, fun hf => ?_⟩, fun s rest hsome => ?_⟩
  · obtain ⟨⟨s, rest⟩, hsome⟩ := Option.isSome_iff_exists.mp hsome
    exact hplain hsome
  · exact Option.isSome_iff_exists.mpr ⟨_, hread hf⟩
  · have hsame := hsome.symm.trans (hread (hplain hsome))
    exact (Prod.mk.inj (Option.some.inj hsame)).1

end MethodDecl

/-- The entry that is reported for the method at a place of a source, among those of a declaration.
-/
def MethodAt (cs : List Char) (a : Match Header) (position : Nat) (m : Method) : Prop :=
  ∃ o ∈ methodsAt cs a, o.start = position ∧ m = Method.ofMatch o

variable {cs : List Char} {position : Nat}

theorem mem_methods_of_methodAt (package : String) {a : Match Header} {m : Method}
    (hm : MethodAt cs a position m) : m ∈ (TypeDecl.ofMatch package cs a).methods := by
  obtain ⟨o, ho, -, rfl⟩ := hm
  rw [(members_ofMatch package cs a).1]
  exact mem_map_of_mem ho

/-- A method in the body of a type is found at its place exactly if it is plain and no other method
reaches over the place. -/
theorem method_reported_iff_isPlain (f : MethodDecl) {cs package before front after : List Char}
    {a : Match Header} (hpackage : packageOf? cs = some package) (ha : a ∈ scan header cs)
    (hbody : bodyFrom cs a.stop = before ++ (front ++ '(' :: (f.params ++ ')' :: after)))
    (hsolid : IsSolid front) (hbracket : '(' ∉ front) (hwords : Text.words front = f.words)
    (hname : f.name.chars ≠ a.value.name) :
    TypeDecl.ofMatch (String.ofList package) cs a ∈ extractChars cs ∧
    ((∃ m ∈ (TypeDecl.ofMatch (String.ofList package) cs a).methods,
        MethodAt cs a (a.stop + before.length) m) ↔
      f.IsPlain ∧ ∀ other ∈ scanFrom method a.stop (bodyFrom cs a.stop),
        ¬ other.Crosses (a.stop + before.length)) ∧
    (∀ m, MethodAt cs a (a.stop + before.length) m → m.name = String.ofList f.name.chars ∧
      m.returns = String.ofList f.returns ∧ m.params = String.ofList (Text.trim f.params)) ∧
    (Finished '(' ')' before → ∀ other ∈ scanFrom method a.stop (bodyFrom cs a.stop),
      ¬ other.Crosses (a.stop + before.length)) := by
  obtain ⟨hplain, hvalue⟩ := MethodDecl.method_eq_some_iff hsolid hbracket hwords after
  have hplace : (∃ o ∈ scanFrom method a.stop (bodyFrom cs a.stop),
      o.start = a.stop + before.length) ↔ f.IsPlain ∧
        ∀ other ∈ scanFrom method a.stop (bodyFrom cs a.stop),
          ¬ other.Crosses (a.stop + before.length) := by
    rw [hbody, ← hplain]
    exact exists_mem_scanFrom_iff endsWith_method before
  have hsignature {o : Match Signature} (ho : o ∈ scanFrom method a.stop (bodyFrom cs a.stop))
      (hstart : o.start = a.stop + before.length) : o.value = f.signature := by
    rw [hbody] at ho
    obtain ⟨rest, hread⟩ := recognise_of_mem_scanFrom endsWith_method ho hstart
    exact hvalue _ _ hread
  refine ⟨?_, ⟨?_, ?_⟩, ?_, fun hfinished => ?_⟩
  · exact mem_extractChars_of_reportedAt ⟨package, a, hpackage, ha, rfl, rfl⟩
  · rintro ⟨m, -, o, ho, hstart, -⟩
    exact hplace.mp ⟨o, mem_of_mem_filter ho, hstart⟩
  · intro hfound
    obtain ⟨o, ho, hstart⟩ := hplace.mpr hfound
    have hother : (o.value.name != a.value.name) = true := by
      rw [hsignature ho hstart]
      exact bne_iff_ne.mpr hname
    have hm : MethodAt cs a (a.stop + before.length) (Method.ofMatch o) :=
      ⟨o, mem_filter.mpr ⟨ho, hother⟩, hstart, rfl⟩
    exact ⟨_, mem_methods_of_methodAt _ hm, hm⟩
  · rintro m ⟨o, ho, hstart, rfl⟩
    simp only [Method.ofMatch, hsignature (mem_of_mem_filter ho) hstart]
    exact ⟨rfl, rfl, rfl⟩
  · have hsettled := hfinished.settled readsTo_method stopsAt_method []
    rw [hbody]
    exact hsettled.not_crosses a.stop _

def plainDecl (type : ClassType) : MethodDecl where
  tag := none
  between := []
  type := type
  dimensions := 0
  name := ⟨"f".toList, by decide, by decide⟩
  params := []
  isName_tag := by simp
  closing_params := by simp

def stringType : TypeArg :=
  .type (.named ⟨"String".toList, by decide, by decide⟩ .nil) 0

/-- A class with a method that returns a list, and one with a method that returns a map. -/
def listText : List Char :=
  "package p;\npublic class A \x7b\n  public List<String> f() \x7b\n  \x7d\n\x7d\n".toList

def mapText : List Char :=
  ("package p;\npublic class A \x7b\n  public Map<String, String> f() \x7b\n" ++ "  \x7d\n\x7d\n").toList

/-- The first method is found, and the second one is not. -/
theorem method_reported_plainDecl :
    (∃ a ∈ scan header listText, ∃ m, MethodAt listText a (a.stop + 3) m ∧ m.name = "f" ∧
      m.returns = "List<String>") ∧
    ∃ a ∈ scan header mapText, ∀ m, ¬ MethodAt mapText a (a.stop + 3) m := by
  constructor
  · let type : ClassType := .named ⟨"List".toList, by decide, by decide⟩ (.cons stringType .nil)
    obtain ⟨a, ha, hbody, hname⟩ : ∃ a ∈ scan header listText,
        bodyFrom listText a.stop = "\n  ".toList ++ ("public List<String> f".toList ++
          '(' :: ([] ++ ')' :: " \x7b\n  \x7d\n".toList)) ∧ "f".toList ≠ a.value.name := by
      decide +kernel
    have hplain : (plainDecl type).IsPlain := by
      have hall : (∀ c ∈ "List".toList, Text.isWord c = true) ∧
          (∀ c ∈ "String".toList, Text.isWord c = true) ∧
          ∀ c ∈ "f".toList, Text.isWord c = true := by decide
      refine ⟨by simp [plainDecl], ?_, hall.2.2⟩
      simp only [plainDecl, type, stringType, ClassType.IsSimple, TypeArgs.IsSimple,
        TypeArg.IsSimple, and_true]
      exact ⟨hall.1, hall.2.1⟩
    have hpackage : packageOf? listText = some ['p'] := rfl
    obtain ⟨-, hfound, hvalue, hfree⟩ :=
      method_reported_iff_isPlain (plainDecl type) hpackage ha hbody (isSolid_cons (by decide) _)
        (by decide) (by decide) hname
    have hfinished : Finished '(' ')' "\n  ".toList := by
      have hblank : ("\n  ".toList.reverse.dropWhile Text.isBlank).head? = none := rfl
      refine ⟨fun c hc => ?_, by decide⟩
      rw [hblank] at hc
      cases hc
    obtain ⟨m, -, hm⟩ := hfound.mpr ⟨hplain, hfree hfinished⟩
    obtain ⟨hname, hreturns, -⟩ := hvalue m hm
    exact ⟨a, ha, m, hm, hname, hreturns⟩
  · let type : ClassType :=
      .named ⟨"Map".toList, by decide, by decide⟩ (.cons stringType (.cons stringType .nil))
    obtain ⟨a, ha, hbody, hname⟩ : ∃ a ∈ scan header mapText,
        bodyFrom mapText a.stop = "\n  ".toList ++ ("public Map<String, String> f".toList ++
          '(' :: ([] ++ ')' :: " \x7b\n  \x7d\n".toList)) ∧ "f".toList ≠ a.value.name := by
      have htext : mapText = _ := toList_ofList_append _ _
      rw [htext]
      decide +kernel
    have hpackage : packageOf? mapText = some ['p'] := rfl
    obtain ⟨-, hfound, -⟩ :=
      method_reported_iff_isPlain (plainDecl type) hpackage ha hbody (isSolid_cons (by decide) _)
        (by decide) (by decide) hname
    refine ⟨a, ha, fun m hm => ?_⟩
    have htype := (hfound.mp ⟨m, mem_methods_of_methodAt _ hm, hm⟩).1.type
    simp [plainDecl, type, ClassType.IsSimple, TypeArgs.IsSimple] at htype

/-! ### Static methods -/

def Signature.parts (s : Signature) : List (List Char) :=
  s.tag.toList ++ [s.returns, s.name, s.params]

theorem IsSignature.occursIn_static {s : Signature} {modifiers : List (List Char)}
    {front : List Char} (hs : IsSignature s modifiers front) :
    occursIn "static".toList (front ++ '(' :: (s.params ++ [')'])) ↔
      "static".toList ∈ modifiers ∨
        ∃ part ∈ s.parts, occursIn "static".toList part := by
  have hmodifiers : modifiers.any (occursIn "static".toList) ↔ "static".toList ∈ modifiers := by
    have hword : ∀ w ∈ modifierWords, occursIn "static".toList w ↔ w = "static".toList := by
      decide
    rw [any_eq_true]
    constructor
    · rintro ⟨w, hw, hstatic⟩
      exact (hword w (hs.modifiers w hw)).mp hstatic ▸ hw
    · exact fun hmem => ⟨_, hmem, by decide⟩
  have hpublic : occursIn "static".toList "public".toList = false := by decide
  have hnil : occursIn "static".toList [] = false := by decide
  rw [occursIn_append_cons (by decide) (by decide),
    occursIn_append_cons (by decide) (by decide),
    occursIn_eq_any_words (by decide) (by decide) front, hs.words]
  simp only [any_append, any_cons, any_nil, hpublic, hnil, Bool.or_false,
    Bool.false_or, Bool.or_eq_true, hmodifiers, any_eq_true, Signature.parts,
    mem_append, mem_cons, not_mem_nil, or_false]
  constructor
  · rintro ((⟨t, ht, hstatic⟩ | hmem | hreturns | hname) | hparams)
    · exact .inr ⟨t, .inl ht, hstatic⟩
    · exact .inl hmem
    · exact .inr ⟨_, .inr (.inl rfl), hreturns⟩
    · exact .inr ⟨_, .inr (.inr (.inl rfl)), hname⟩
    · exact .inr ⟨_, .inr (.inr (.inr rfl)), hparams⟩
  · rintro (hmem | ⟨part, ht | rfl | rfl | rfl, hstatic⟩)
    · exact .inl (.inr (.inl hmem))
    · exact .inl (.inl ⟨part, ht, hstatic⟩)
    · exact .inl (.inr (.inr (.inl hstatic)))
    · exact .inl (.inr (.inr (.inr hstatic)))
    · exact .inr hstatic


def Match.HasModifiers (o : Match Signature) (modifiers : List (List Char)) : Prop :=
  ∃ front, o.covered = front ++ '(' :: (o.value.params ++ [')']) ∧
    IsSignature o.value modifiers front

theorem IsMatch.hasModifiers {o : Match Signature}
    (ho : IsMatch method position cs o) : ∃ modifiers, o.HasModifiers modifiers := by
  obtain ⟨-, rest, -, -, hread, -⟩ := ho
  obtain ⟨-, front, modifiers, htext, hs⟩ := method_eq_some_iff.mp hread
  refine ⟨modifiers, front, ?_, hs⟩
  have hsame : o.covered ++ rest = (front ++ '(' :: (o.value.params ++ [')'])) ++ rest := by
    rw [htext]
    simp
  exact append_cancel_right hsame

/-- A method is reported as static exactly if the word is one of its modifiers or occurs in its
annotation, type, name or parameters. -/
theorem isStatic_iff_occurs {cs : List Char} {d : TypeDecl} (hd : d ∈ extractChars cs) {m : Method}
    (hm : m ∈ d.methods) :
    ∃ o modifiers, m = Method.ofMatch o ∧ IsMatch method 0 cs o ∧ o.HasModifiers modifiers ∧
      (m.isStatic = true ↔ "static".toList ∈ modifiers ∨
        ∃ part ∈ o.value.parts, Text.occursIn "static".toList part = true) ∧
      ((m.isStatic = true ↔ "static".toList ∈ modifiers) ↔
        "static".toList ∈ modifiers ∨
          ∀ part ∈ o.value.parts, Text.occursIn "static".toList part = false) := by
  rw [extractChars] at hd
  split at hd
  · cases hd
  · next package _ =>
    obtain ⟨a, ha, rfl⟩ := mem_map.mp hd
    rw [(members_ofMatch _ cs a).1] at hm
    obtain ⟨o, ho, rfl⟩ := mem_map.mp hm
    have hmatch := ((mem_methodsAt_iff ha).mp ho).1
    obtain ⟨modifiers, hmodifiers⟩ := hmatch.hasModifiers
    have hstatic : (Method.ofMatch o).isStatic = true ↔ "static".toList ∈ modifiers ∨
        ∃ part ∈ o.value.parts, Text.occursIn "static".toList part = true := by
      obtain ⟨front, hcovered, hs⟩ := hmodifiers
      rw [Method.ofMatch, hcovered]
      exact hs.occursIn_static
    refine ⟨o, modifiers, rfl, hmatch, hmodifiers, hstatic, ?_⟩
    rw [hstatic]
    have hnone : (∀ part ∈ o.value.parts, Text.occursIn "static".toList part = false) ↔
        ¬ ∃ part ∈ o.value.parts, Text.occursIn "static".toList part = true := by
      simp
    rw [hnone, or_iff_left_iff_imp, or_comm]
    exact imp_iff_not_or

/-- A class with a method that is not static but has the word in its name. -/
def staticInitText : List Char :=
  "package p;\npublic class A \x7b\n  public void staticInit() \x7b\n  \x7d\n\x7d\n".toList

/-- The method is reported as static without such a modifier. -/
theorem isStatic_staticInitText :
    ∃ d ∈ extractChars staticInitText, ∃ m ∈ d.methods, m.isStatic = true ∧
      ∃ o modifiers, m = Method.ofMatch o ∧ o.HasModifiers modifiers ∧
        "static".toList ∉ modifiers := by
  obtain ⟨d, hd, m, hm, hstatic, hsnippet⟩ : ∃ d ∈ extractChars staticInitText,
      ∃ m ∈ d.methods, m.isStatic = true ∧ m.snippet.toList = "public void staticInit()".toList := by
    decide +kernel
  obtain ⟨o, modifiers, rfl, -, ⟨front, hcovered, hs⟩, -⟩ := isStatic_iff_occurs hd hm
  refine ⟨d, hd, _, hm, hstatic, o, modifiers, rfl, ⟨front, hcovered, hs⟩, fun hmem => ?_⟩
  have htrim : Text.trim o.covered = o.covered := by
    rw [hcovered]
    refine Text.trimBy_eq_self (hs.solid.append (isSolid_cons (by decide) _)) fun c hc => ?_
    obtain rfl : ')' = c := by simpa [List.getLast?_append, List.getLast?_cons] using hc
    decide
  have htext : "public void staticInit".toList ++ '(' :: ([] ++ [')']) =
      front ++ '(' :: (o.value.params ++ [')']) := by
    rw [← hcovered, ← htrim, ← String.toList_ofList (l := Text.trim o.covered)]
    exact hsnippet.symm
  obtain rfl := Text.eq_of_append_cons_eq (by decide) (hs.notMem (by decide)) htext
  have hnone : IsSignature ⟨none, "void".toList, "staticInit".toList, []⟩ []
      "public void staticInit".toList :=
    ⟨isSolid_cons (by decide) _, by decide, by simp, by simp, by decide, by decide⟩
  rw [← (hnone.unique hs).2.1] at hmem
  cases hmem

end JarAtlas.Java
