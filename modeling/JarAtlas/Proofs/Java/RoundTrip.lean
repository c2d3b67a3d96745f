import JarAtlas.Proofs.Java.Bodies
import JarAtlas.Proofs.Java.Header

/-!
Extraction undoes writing: what is extracted from a written source file is what the file was written
from, for any number and order of types and members.
-/

open List Option

namespace JarAtlas.Java

def IsPlain (c : Char) : Prop :=
  c ≠ '\x7b' ∧ c ≠ '\x7d'

instance (c : Char) : Decidable (IsPlain c) :=
  inferInstanceAs (Decidable (_ ∧ _))

theorem isPlain_of_isTypeChar {c : Char} (hc : isTypeChar c) : IsPlain c := by
  constructor <;> rintro rfl <;> exact absurd hc (by decide)

private theorem isPlain_spaced {words : List (List Char)}
    (hwords : ∀ w ∈ words, ∀ c ∈ w, IsPlain c) : ∀ c ∈ spaced words, IsPlain c := by
  intro c hc
  obtain ⟨w, hw, hmem⟩ := mem_flatMap.mp hc
  rcases mem_append.mp hmem with hmem | hmem
  · exact hwords w hw c hmem
  · rw [mem_singleton.mp hmem]
    decide

variable {cs package : List Char}

theorem IsType.isPlain (hcs : IsType cs) : ∀ c ∈ cs, IsPlain c :=
  fun c hc => isPlain_of_isTypeChar (hcs.typeChars c hc)

private theorem isPlain_public : ∀ c ∈ "public".toList, IsPlain c :=
  IsType.isPlain (by decide)

theorem MethodForm.isPlain_written (m : MethodForm) : ∀ c ∈ m.written, IsPlain c := by
  have htag : ∀ w ∈ m.tag.toList.map ('@' :: ·), ∀ c ∈ w, IsPlain c := by
    intro w hw
    obtain ⟨t, ht, rfl⟩ := mem_map.mp hw
    have hname := (m.isName_tag t (mem_toList.mp ht)).isType.isPlain
    exact forall_mem_cons.mpr ⟨by decide, hname⟩
  have hparams : ∀ c ∈ m.params, IsPlain c := fun c hc => (m.plain_params c hc).2
  simp only [MethodForm.written, forall_mem_append, forall_mem_cons]
  exact ⟨isPlain_spaced htag, isPlain_public, by decide,
    isPlain_spaced fun w hw => (m.isType_words w hw).isPlain, m.isName_name.isType.isPlain,
    by decide, hparams, by decide, forall_mem_nil _⟩

theorem ConstantForm.isPlain_written (k : ConstantForm) : ∀ c ∈ k.written, IsPlain c := by
  have hvalue : ∀ c ∈ k.value, IsPlain c := fun c hc => (k.plain_value c hc).2.2.2
  unfold ConstantForm.written
  simp only [forall_mem_append, forall_mem_cons]
  exact ⟨isPlain_public, by decide, isPlain_spaced fun w hw => (k.isType_words w hw).isPlain,
    by decide, by decide, hvalue, by decide, forall_mem_nil _⟩

theorem MemberForm.isPlain_line (member : MemberForm) (indent : Nat) :
    ∀ c ∈ member.line indent, IsPlain c := by
  have hspaces : ∀ c ∈ replicate indent ' ', IsPlain c := by
    intro c hc
    rw [eq_of_mem_replicate hc]
    decide
  cases member with
  | method m =>
    simp only [MemberForm.line, forall_mem_append, forall_mem_cons]
    exact ⟨hspaces, m.isPlain_written, by decide, by decide, forall_mem_nil _⟩
  | constant k =>
    simp only [MemberForm.line, forall_mem_append, forall_mem_cons]
    exact ⟨hspaces, k.isPlain_written, by decide, forall_mem_nil _⟩

theorem TypeForm.isPlain_body (t : TypeForm) (indent : Nat) :
    ∀ c ∈ t.body indent, IsPlain c := by
  rw [TypeForm.body, forall_mem_cons]
  refine ⟨by decide, fun c hc => ?_⟩
  obtain ⟨member, -, hmem⟩ := mem_flatMap.mp hc
  exact member.isPlain_line indent c hmem

theorem TypeDecl.ofMatch_written {after : List Char} {t : TypeForm} {indent stop : Nat}
    (hbody : cs.drop stop = t.body indent ++ '\x7d' :: after) (start : Nat) (covered : List Char) :
    TypeDecl.ofMatch (String.ofList package) cs
      ⟨start, stop, covered, ⟨t.kind, t.name, t.parent, t.interfaceNames?⟩⟩ =
      t.declared package := by
  have hnames {x : Option (List Char)} (hx : ∀ names ∈ x, IsClause names) :
      (x.map fun text => String.ofList (clauseNames text)) = x.map String.ofList := by
    cases x with
    | none => rfl
    | some names => rw [map_some, map_some, (hx names rfl).clauseNames]
  have hfrom : bodyFrom cs stop = t.body indent := by
    have hplain := t.isPlain_body indent
    rw [bodyFrom, hbody, untilClosed_append_of_notMem (fun hmem => (hplain _ hmem).1 rfl)
      (fun hmem => (hplain _ hmem).2 rfl)]
    exact append_nil _
  simp only [TypeDecl.ofMatch, hfrom, TypeForm.declared,
    hnames fun x hx => (t.isDotted_parent x hx).isClause, hnames t.isClause_interfaceNames?]
  rw [TypeForm.body, methodsIn_lines t.name_ne, constantsIn_lines]

theorem scanFrom_header_written (t : TypeForm) (indent position : Nat) (rest : List Char) :
    scanFrom header position (t.written indent ++ rest) =
      ⟨position, position + t.header.length, t.header,
        ⟨t.kind, t.name, t.parent, t.interfaceNames?⟩⟩ ::
        scanFrom header (position + (t.written indent).length) rest := by
  have hnone {c : Char} (hc : c ≠ 'p') (cs : List Char) : header (c :: cs) = none :=
    startsPublic_header.cons_eq_none hc cs
  have hquiet : Quiet header (t.body indent ++ ['\x7d', '\n']) rest :=
    .append (.cons (hnone (by decide) _) (quiet_header_lines t.members indent _))
      (.cons (hnone (by decide) _) (.cons (hnone (by decide) _) (.nil rest)))
  have hne : t.header ≠ [] := by
    unfold TypeForm.header
    exact append_ne_nil_of_left_ne_nil (by decide) _
  rw [TypeForm.written, append_assoc, scanFrom_match hne (header_written t _),
    hquiet.scanFrom_append]
  simp only [length_append, Nat.add_assoc]

theorem map_ofMatch_scanFrom (package : List Char) (types : List TypeForm) (indent : Nat)
    (front : List Char) :
    (scanFrom header front.length (types.flatMap (·.written indent))).map
        (TypeDecl.ofMatch (String.ofList package)
          (front ++ types.flatMap (·.written indent))) =
      types.map (·.declared package) := by
  -- Positions count from the start of the whole text, so the induction carries what comes before.
  induction types generalizing front with
  | nil => rfl
  | cons t types ih =>
    have hmore := ih (front ++ t.written indent)
    have hbody : (front ++ (t.written indent ++ types.flatMap (·.written indent))).drop
        (front.length + t.header.length) =
        t.body indent ++ '\x7d' :: '\n' :: types.flatMap (·.written indent) := by
      rw [← drop_drop, drop_left, TypeForm.written, append_assoc, drop_left, append_assoc]
      rfl
    rw [append_assoc, length_append] at hmore
    rw [flatMap_cons, scanFrom_header_written, map_cons, map_cons,
      TypeDecl.ofMatch_written hbody, hmore]

theorem packageOf?_written (hpackage : IsDotted package) (rest : List Char) :
    packageOf? ("package ".toList ++ (package ++ ';' :: rest)) = some package := by
  have hword : "package ".toList = "package".toList ++ [' '] := by decide
  have hstop : ∀ c ∈ (';' :: rest).head?, (Text.isWord c || c == '.') = false := by
    intro c hc
    obtain rfl : ';' = c := by simpa using hc
    decide
  have hread : packageClause ("package ".toList ++ (package ++ ';' :: rest)) =
      some (package, rest) := by
    rw [hword, append_assoc, singleton_append]
    simp only [packageClause, Option.bind_eq_bind, Option.pure_def]
    rw [after?_append, Option.bind_some, afterBlanks?_space (hpackage.isType.isSolid _),
      Option.bind_some, run?_append hpackage.1 hpackage.2 hstop, Option.bind_some, after?_cons,
      Option.bind_some]
  exact scanFirst?_of_front (append_ne_nil_of_left_ne_nil (by decide) _) hread

private theorem header_semicolon {w rest : List Char} (hw : ∀ c ∈ w, Text.isBlank c = false) :
    header (w ++ ';' :: rest) = none := by
  simp only [header, bind_eq_bind]
  cases hafter : after? "public".toList (w ++ ';' :: rest) with
  | none => rfl
  | some tail =>
    obtain ⟨more, rfl, rfl⟩ := after?_append_cons (by decide) hafter
    have hsolid : IsSolid (more ++ ';' :: rest) :=
      isSolid_append_cons (fun c hc => hw c (mem_append_right _ hc)) (by decide) rest
    rw [bind_some, afterBlanks?_eq_none hsolid, bind_none]

theorem quiet_header_package (hpackage : IsDotted package)
    (rest : List Char) : Quiet header ("package ".toList ++ (package ++ [';', '\n'])) rest := by
  have hword : "package ".toList = "package".toList ++ [' '] := by decide
  have hname : Quiet header package ([';', '\n'] ++ rest) :=
    fun b hb _ => header_semicolon fun c hc => hpackage.isType.notBlank c (hb.mem hc)
  have hend : Quiet header [';', '\n'] rest :=
    .cons (startsPublic_header.cons_eq_none (by decide) _)
      (.cons (startsPublic_header.cons_eq_none (by decide) _) (.nil rest))
  rw [hword]
  exact ((startsPublic_header.reaches ' ').quiet (by decide) (by decide) _).append
    (hname.append hend)

/-- Extraction undoes writing: from the text of a source file come exactly the types it was written
with, in their order, each with its kind, name, parent and interfaces, and with its methods and
constants in their order. -/
theorem extract_written (indent : Nat) (s : SourceForm) :
    extract (String.ofList (s.written indent)) = s.declared := by
  have hquiet := quiet_header_package s.isDotted_package (s.types.flatMap (·.written indent))
  have hpackage : packageOf? (s.written indent) = some s.package := by
    unfold SourceForm.written
    exact packageOf?_written s.isDotted_package _
  have htext : s.written indent = "package ".toList ++ (s.package ++ [';', '\n']) ++
      s.types.flatMap (·.written indent) := by
    unfold SourceForm.written
    rw [append_assoc, append_assoc]
  rw [extract, String.toList_ofList]
  simp only [extractChars, hpackage]
  rw [scan_eq_scanFrom, htext, hquiet.scanFrom_append, Nat.zero_add]
  exact map_ofMatch_scanFrom s.package s.types indent _

def sampleMethod : MethodForm where
  tag := some "Override".toList
  modifiers := [.isStatic, .isFinal]
  returns := "List<T[]>".toList
  name := "all".toList
  params := "int n, T[] xs".toList
  isName_tag := by
    intro t ht
    cases ht
    decide
  isType_returns := by decide
  isName_name := by decide
  trim_params := by decide
  plain_params := by decide
  free := by decide

def sampleConstant : ConstantForm where
  type := "int".toList
  name := "MAX".toList
  value := "@A static (1)".toList
  isType_type := by decide
  isName_name := by decide
  value_ne := by decide
  trim_value := by decide
  plain_value := by decide
  free := by decide

/-- A source file with the word `public` in the name of its package, and two types. -/
def sampleSource : SourceForm where
  package := "my.public".toList
  types := [
    { modifier := some .isFinal
      kind := .classType
      name := "Box".toList
      parent := some "base.Thing".toList
      interfaces := ["One".toList, "b.Two".toList]
      members := [.constant sampleConstant, .method sampleMethod]
      isName_name := by decide
      isDotted_parent := by
        intro x hx
        cases hx
        decide
      isDotted_interfaces := by
        intro x hx
        simp only [List.mem_cons, List.not_mem_nil, or_false] at hx
        rcases hx with rfl | rfl <;> decide
      name_ne := by
        intro m hm
        obtain rfl : m = sampleMethod := by simpa using hm
        decide },
    { modifier := none
      kind := .enumType
      name := "Empty".toList
      parent := none
      interfaces := []
      members := []
      isName_name := by decide
      isDotted_parent := by simp
      isDotted_interfaces := by simp
      name_ne := by simp }]
  isDotted_package := by decide

theorem extract_sampleSource :
    extract ("package my.public;\n" ++
      "public final class Box extends base.Thing implements One, b.Two \x7b\n" ++
      "  public static final int MAX = @A static (1);\n" ++
      "  @Override public static final List<T[]> all(int n, T[] xs);\n" ++
      "\x7d\n" ++
      "public enum Empty \x7b\n" ++
      "\x7d\n") =
    [{ package := "my.public"
       name := "Box"
       kind := .classType
       methods := [{
         name := "all"
         returns := "List<T[]>"
         params := "int n, T[] xs"
         isStatic := true
         tag := some "@Override"
         snippet := "@Override public static final List<T[]> all(int n, T[] xs)" }]
       parent := some "base.Thing"
       interfaces := some "One, b.Two"
       constants := [{
         name := "MAX"
         type := "int"
         value := "@A static (1)"
         snippet := "public static final int MAX = @A static (1);" }] },
     { package := "my.public"
       name := "Empty"
       kind := .enumType
       methods := []
       parent := none
       interfaces := none
       constants := [] }] :=
  calc extract _ = extract (String.ofList (sampleSource.written 2)) :=
        congrArg extract (by decide +kernel)
    _ = sampleSource.declared := extract_written 2 sampleSource
    _ = _ := by decide +kernel

end JarAtlas.Java
