import JarAtlas.Proofs.Java.Rendering

/-!
Headers of public types as the language has them: a modifier, a kind, a name, type parameters, the
components of a record, and clauses of types with arguments of any depth. A header is laid out as a
text by its tokens with blanks between them. A header is plain if nothing but the clauses comes
after its name, and the clauses are made of names, angle brackets, dots and commas alone.
-/

open List

namespace JarAtlas.Java

open Text

/-! ### Tokens -/

def isIdentifierChar (c : Char) : Bool :=
  Text.isWord c || c == '$'

structure Identifier where
  chars : List Char
  ne_nil : chars ≠ []
  isIdentifier : ∀ c ∈ chars, isIdentifierChar c = true

/-- The name is made of word characters alone. -/
def Identifier.IsPlain (n : Identifier) : Prop :=
  ∀ c ∈ n.chars, Text.isWord c = true

inductive Sign where
  | less
  | greater
  | dot
  | comma
  | question
  | ampersand
  | openSquare
  | closeSquare
  | openRound
  | closeRound
  | openCurly

def Sign.char : Sign → Char
  | less => '<'
  | greater => '>'
  | dot => '.'
  | comma => ','
  | question => '?'
  | ampersand => '&'
  | openSquare => '['
  | closeSquare => ']'
  | openRound => '('
  | closeRound => ')'
  | openCurly => '\x7b'

inductive Token where
  | word (w : Identifier)
  | sign (s : Sign)

namespace Token

def text : Token → List Char
  | word w => w.chars
  | sign s => [s.char]

def isWord : Token → Bool
  | word _ => true
  | sign _ => false

def publicWord : Token :=
  word ⟨"public".toList, by decide, by decide⟩

def extendsWord : Token :=
  word ⟨"extends".toList, by decide, by decide⟩

def superWord : Token :=
  word ⟨"super".toList, by decide, by decide⟩

def implementsWord : Token :=
  word ⟨"implements".toList, by decide, by decide⟩

def ofKind (kind : Kind) : Token :=
  word ⟨kind.word.toList, by cases kind <;> decide, by cases kind <;> decide⟩

def ofModifier (modifier : TypeModifier) : Token :=
  word ⟨modifier.word, by cases modifier <;> decide, by cases modifier <;> decide⟩

theorem text_ne_nil (t : Token) : t.text ≠ [] := by
  cases t with
  | word w => exact w.ne_nil
  | sign s => exact cons_ne_nil _ _

theorem isBlank_of_mem_text (t : Token) : ∀ c ∈ t.text, isBlank c = false := by
  intro c hc
  cases t with
  | word w =>
    rcases Bool.or_eq_true_iff.mp (w.isIdentifier c hc) with hword | hdollar
    · exact isBlank_eq_false_of_isWord hword
    · rw [beq_iff_eq.mp hdollar]
      decide
  | sign s =>
    obtain rfl := mem_singleton.mp hc
    cases s <;> decide

theorem head_solid (t : Token) (rest : List Char) :
    ∀ c ∈ (t.text ++ rest).head?, isBlank c = false := by
  intro c hc
  rw [head?_append_of_ne_nil _ t.text_ne_nil] at hc
  exact t.isBlank_of_mem_text c (mem_of_mem_head? hc)

/-- The token may stand in a clause as the search reads it. -/
def InClause (t : Token) : Prop :=
  ∀ c ∈ t.text, isClauseChar c = true

theorem inClause_word (w : Identifier) : (word w).InClause ↔ w.IsPlain := by
  refine forall₂_congr fun c hc => ⟨fun hclause => ?_, fun hword => by simp [isClauseChar, hword]⟩
  rcases Bool.or_eq_true_iff.mp (w.isIdentifier c hc) with hword | hdollar
  · exact hword
  · rw [beq_iff_eq.mp hdollar] at hclause
    exact absurd hclause (by decide)

theorem inClause_sign (s : Sign) : (sign s).InClause ↔ isClauseChar s.char := by
  simp [InClause, text]

end Token

/-! ### Layout -/

/-- A text made of tokens with blanks between them; two words are kept apart by at least one. -/
inductive Typeset : List Token → List Char → Prop where
  | nil : Typeset [] []
  | cons {t : Token} {ts : List Token} {gap text : List Char}
      (hblank : ∀ c ∈ gap, Text.isBlank c = true)
      (happart : t.isWord = true → (∃ u ∈ ts.head?, u.isWord = true) → gap ≠ [])
      (hrest : Typeset ts text) : Typeset (t :: ts) (t.text ++ (gap ++ text))

namespace Typeset

variable {ts : List Token} {text : List Char}

theorem spread (ts : List Token) : Typeset ts (ts.flatMap fun t => t.text ++ [' ']) := by
  induction ts with
  | nil => exact .nil
  | cons t ts ih =>
    rw [flatMap_cons, append_assoc]
    exact .cons (by decide) (fun _ _ => cons_ne_nil _ _) ih

theorem head_solid (htext : Typeset ts text) : ∀ c ∈ text.head?, isBlank c = false := by
  cases htext with
  | nil => simp
  | @cons t ts gap text _ _ _ => exact t.head_solid _

theorem ne_nil (htext : Typeset ts text) (hts : ts ≠ []) : text ≠ [] := by
  cases htext with
  | nil => exact absurd rfl hts
  | @cons t _ _ _ _ _ _ => exact append_ne_nil_of_left_ne_nil t.text_ne_nil _

theorem forall_mem_iff {p : Char → Bool} (hp : ∀ c, isBlank c → p c)
    (htext : Typeset ts text) :
    (∀ c ∈ text, p c) ↔ ∀ t ∈ ts, ∀ c ∈ t.text, p c := by
  induction htext with
  | nil => simp
  | cons hblank _ _ ih =>
    have hgap : ∀ c ∈ _, p c := fun c hc => hp c (hblank c hc)
    rw [forall_mem_append, forall_mem_append, forall_mem_cons, ih]
    exact and_congr_right fun _ => and_iff_right hgap

theorem brace_notMem (htext : Typeset ts text) (hts : Token.sign .openCurly ∉ ts) :
    '\x7b' ∉ text := by
  have hall : ∀ c ∈ text, (c != '\x7b') = true := by
    have hblank : ∀ c, isBlank c → (c != '\x7b') = true := by
      intro c hc
      rw [bne_iff_ne]
      rintro rfl
      exact absurd hc (by decide)
    refine (htext.forall_mem_iff hblank).mpr fun t ht c hc => ?_
    rw [bne_iff_ne]
    rintro rfl
    cases t with
    | word w => exact absurd (w.isIdentifier _ hc) (by decide)
    | sign s =>
      have hchar : '\x7b' = s.char := mem_singleton.mp hc
      cases s <;> first | exact hts ht | exact absurd hchar (by decide)
  exact fun hmem => absurd (hall _ hmem) (by decide)

theorem brace (htext : Typeset (ts ++ [.sign .openCurly]) text) :
    ∃ front gap, text = front ++ '\x7b' :: gap ∧ Typeset ts front := by
  induction ts generalizing text with
  | nil =>
    cases htext with
    | @cons _ _ gap text _ _ hrest =>
      cases hrest
      exact ⟨[], gap, by simp [Token.text, Sign.char], .nil⟩
  | cons t ts ih =>
    cases htext with
    | @cons _ _ gap text hblank happart hrest =>
      obtain ⟨front, gap', rfl, hfront⟩ := ih hrest
      refine ⟨t.text ++ (gap ++ front), gap', by simp, .cons hblank (fun ht hts => ?_) hfront⟩
      obtain ⟨u, hu, hword⟩ := hts
      exact happart ht ⟨u, mem_head?_append_of_mem_head? hu, hword⟩

end Typeset

/-! ### Types -/

mutual

/-- A class or an interface, maybe a member of another one, with type arguments. -/
inductive ClassType where
  | named (name : Identifier) (args : TypeArgs)
  | member (outer : ClassType) (name : Identifier) (args : TypeArgs)

inductive TypeArgs where
  | nil
  | cons (arg : TypeArg) (rest : TypeArgs)

/-- A type, an array of so many dimensions, or a wildcard, maybe with an upper or a lower bound. -/
inductive TypeArg where
  | type (element : ClassType) (dimensions : Nat)
  | wildcard
  | bounded (upper : Bool) (element : ClassType) (dimensions : Nat)

end

def dimensionTokens (n : Nat) : List Token :=
  (List.replicate n [Token.sign .openSquare, .sign .closeSquare]).flatten

mutual

def ClassType.tokens : ClassType → List Token
  | .named name args => .word name :: args.tokens
  | .member outer name args => outer.tokens ++ .sign .dot :: .word name :: args.tokens

def TypeArgs.tokens : TypeArgs → List Token
  | .nil => []
  | .cons arg rest => .sign .less :: (arg.tokens ++ rest.moreTokens)

def TypeArgs.moreTokens : TypeArgs → List Token
  | .nil => [.sign .greater]
  | .cons arg rest => .sign .comma :: (arg.tokens ++ rest.moreTokens)

def TypeArg.tokens : TypeArg → List Token
  | .type element n => element.tokens ++ dimensionTokens n
  | .wildcard => [.sign .question]
  | .bounded upper element n =>
    .sign .question :: (if upper then .extendsWord else .superWord) ::
      (element.tokens ++ dimensionTokens n)

end

mutual

/-- Types of plain names, without arrays and wildcards in their arguments. -/
def ClassType.IsPlain : ClassType → Prop
  | .named name args => name.IsPlain ∧ args.IsPlain
  | .member outer name args => outer.IsPlain ∧ name.IsPlain ∧ args.IsPlain

def TypeArgs.IsPlain : TypeArgs → Prop
  | .nil => True
  | .cons arg rest => arg.IsPlain ∧ rest.IsPlain

def TypeArg.IsPlain : TypeArg → Prop
  | .type element n => element.IsPlain ∧ n = 0
  | .wildcard => False
  | .bounded _ _ _ => False

end

theorem inClause_dimensionTokens (n : Nat) :
    (∀ t ∈ dimensionTokens n, t.InClause) ↔ n = 0 := by
  cases n with
  | zero => simp [dimensionTokens]
  | succ n =>
    have hsquare : ¬ (Token.sign .openSquare).InClause := by
      rw [Token.inClause_sign]
      decide
    simp [dimensionTokens, replicate_succ, hsquare]

private theorem inClause_signs :
    (Token.sign .dot).InClause ∧ (Token.sign .comma).InClause ∧ (Token.sign .less).InClause ∧
      (Token.sign .greater).InClause ∧ ¬ (Token.sign .question).InClause := by
  simp only [Token.inClause_sign]
  decide

-- The tokens of arguments are closed by a bracket, so the statement for arguments is about what
-- comes after the first one.
mutual

theorem ClassType.isPlain_iff : (c : ClassType) → (c.IsPlain ↔ ∀ t ∈ c.tokens, t.InClause)
  | .named name args => by
      simp only [ClassType.IsPlain, ClassType.tokens, forall_mem_cons, Token.inClause_word,
        args.isPlain_iff.1]
  | .member outer name args => by
      simp only [ClassType.IsPlain, ClassType.tokens, forall_mem_append, forall_mem_cons,
        Token.inClause_word, args.isPlain_iff.1, outer.isPlain_iff, inClause_signs, true_and]

theorem TypeArgs.isPlain_iff : (as : TypeArgs) →
    (as.IsPlain ↔ ∀ t ∈ as.tokens, t.InClause) ∧ (as.IsPlain ↔ ∀ t ∈ as.moreTokens, t.InClause)
  | .nil => by
      simp [TypeArgs.IsPlain, TypeArgs.tokens, TypeArgs.moreTokens, inClause_signs]
  | .cons arg rest => by
      simp only [TypeArgs.IsPlain, TypeArgs.tokens, TypeArgs.moreTokens, forall_mem_cons,
        forall_mem_append, inClause_signs, true_and, arg.isPlain_iff, rest.isPlain_iff.2, and_self]

theorem TypeArg.isPlain_iff : (a : TypeArg) → (a.IsPlain ↔ ∀ t ∈ a.tokens, t.InClause)
  | .type element n => by
      simp only [TypeArg.IsPlain, TypeArg.tokens, forall_mem_append, element.isPlain_iff,
        inClause_dimensionTokens]
  | .wildcard => by
      simp [TypeArg.IsPlain, TypeArg.tokens, inClause_signs]
  | .bounded upper element n => by
      simp [TypeArg.IsPlain, TypeArg.tokens, inClause_signs]

end

theorem openCurly_notMem_dimensionTokens (n : Nat) :
    Token.sign .openCurly ∉ dimensionTokens n := by
  intro hmem
  obtain ⟨part, hpart, hmem⟩ := mem_flatten.mp hmem
  rw [eq_of_mem_replicate hpart] at hmem
  simp at hmem

mutual

theorem ClassType.openCurly_notMem : (c : ClassType) → .sign .openCurly ∉ c.tokens
  | .named name args => by
      simp [ClassType.tokens, args.openCurly_notMem.1]
  | .member outer name args => by
      simp [ClassType.tokens, args.openCurly_notMem.1, outer.openCurly_notMem]

theorem TypeArgs.openCurly_notMem : (as : TypeArgs) →
    .sign .openCurly ∉ as.tokens ∧ .sign .openCurly ∉ as.moreTokens
  | .nil => by
      simp [TypeArgs.tokens, TypeArgs.moreTokens]
  | .cons arg rest => by
      simp [TypeArgs.tokens, TypeArgs.moreTokens, arg.openCurly_notMem, rest.openCurly_notMem.2]

theorem TypeArg.openCurly_notMem : (a : TypeArg) → .sign .openCurly ∉ a.tokens
  | .type element n => by
      simp [TypeArg.tokens, element.openCurly_notMem, openCurly_notMem_dimensionTokens]
  | .wildcard => by
      simp [TypeArg.tokens]
  | .bounded upper element n => by
      cases upper <;> simp [TypeArg.tokens, element.openCurly_notMem,
        openCurly_notMem_dimensionTokens, Token.extendsWord, Token.superWord]

end

theorem ClassType.head_isWord : (c : ClassType) → ∃ t ∈ c.tokens.head?, t.isWord = true
  | .named name _ => ⟨.word name, by simp [ClassType.tokens], rfl⟩
  | .member outer name args => by
      obtain ⟨t, ht, hword⟩ := outer.head_isWord
      refine ⟨t, ?_, hword⟩
      rw [ClassType.tokens]
      exact mem_head?_append_of_mem_head? ht

/-! ### Headers -/

structure TypeParam where
  name : Identifier
  bounds : List ClassType

structure Component where
  type : ClassType
  dimensions : Nat
  isVariadic : Bool
  name : Identifier

def separated (s : Sign) (parts : List (List Token)) : List Token :=
  [Token.sign s].intercalate parts

def clauseTokens (keyword : Token) (s : Sign) (types : List ClassType) : List Token :=
  if types.isEmpty then [] else keyword :: separated s (types.map ClassType.tokens)

def TypeParam.tokens (p : TypeParam) : List Token :=
  .word p.name :: clauseTokens .extendsWord .ampersand p.bounds

def Component.tokens (c : Component) : List Token :=
  c.type.tokens ++ (dimensionTokens c.dimensions ++
    ((if c.isVariadic then [Token.sign .dot, .sign .dot, .sign .dot] else []) ++
      [Token.word c.name]))

/-- The header of a public type by its parts. Names may be keywords, so there are more of these than
the language allows. -/
structure HeaderForm where
  modifier : Option TypeModifier
  kind : Kind
  name : Identifier
  typeParams : List TypeParam
  components : Option (List Component)
  parents : List ClassType
  interfaces : List ClassType
  isSome_components : components.isSome = true ↔ kind = .recordType
  typeParams_enum : kind = .enumType → typeParams = []
  parents_class : kind = .classType → parents.length ≤ 1
  parents_final : kind = .enumType ∨ kind = .recordType → parents = []
  interfaces_interface : kind = .interfaceType → interfaces = []

namespace HeaderForm

def typeParamTokens (f : HeaderForm) : List Token :=
  if f.typeParams.isEmpty then []
  else .sign .less :: (separated .comma (f.typeParams.map TypeParam.tokens) ++ [.sign .greater])

def componentTokens (f : HeaderForm) : List Token :=
  match f.components with
  | none => []
  | some cs => .sign .openRound ::
      (separated .comma (cs.map Component.tokens) ++ [.sign .closeRound])

def clauses (f : HeaderForm) : List Token :=
  clauseTokens .extendsWord .comma f.parents ++ clauseTokens .implementsWord .comma f.interfaces

def afterName (f : HeaderForm) : List Token :=
  f.typeParamTokens ++ (f.componentTokens ++ (f.clauses ++ [.sign .openCurly]))

def tokens (f : HeaderForm) : List Token :=
  .publicWord :: (f.modifier.toList.map Token.ofModifier ++
    .ofKind f.kind :: .word f.name :: f.afterName)

/-- Headers with nothing but clauses of plain types after a plain name. -/
structure IsPlain (f : HeaderForm) : Prop where
  name : f.name.IsPlain
  typeParams : f.typeParams = []
  components : f.components = none
  clauses : ∀ c ∈ f.parents ++ f.interfaces, c.IsPlain

end HeaderForm

variable {parts : List (List Token)}

theorem mem_separated_iff {s : Sign} {t : Token} :
    t ∈ separated s parts ↔ (2 ≤ parts.length ∧ t = .sign s) ∨ ∃ part ∈ parts, t ∈ part := by
  induction parts with
  | nil => simp [separated]
  | cons part parts ih =>
    cases parts with
    | nil => simp [separated]
    | cons next parts =>
      rw [separated] at ih
      rw [separated, intercalate_cons_cons, mem_append, mem_append, mem_singleton, ih]
      have hsize : 2 ≤ (part :: next :: parts).length := by
        simp only [length_cons]
        omega
      constructor
      · rintro ((hpart | hsign) | ⟨-, hsign⟩ | ⟨other, hother, ht⟩)
        · exact .inr ⟨part, mem_cons_self, hpart⟩
        · exact .inl ⟨hsize, hsign⟩
        · exact .inl ⟨hsize, hsign⟩
        · exact .inr ⟨other, mem_cons_of_mem part hother, ht⟩
      · rintro (⟨-, hsign⟩ | ⟨other, hother, ht⟩)
        · exact .inl (.inr hsign)
        · rcases mem_cons.mp hother with rfl | hother
          · exact .inl (.inl ht)
          · exact .inr (.inr ⟨other, hother, ht⟩)

theorem inClause_separated :
    (∀ t ∈ separated .comma parts, t.InClause) ↔ ∀ part ∈ parts, ∀ t ∈ part, t.InClause := by
  constructor
  · intro hall part hpart t ht
    exact hall t (mem_separated_iff.mpr (.inr ⟨part, hpart, ht⟩))
  · intro hall t ht
    rcases mem_separated_iff.mp ht with ⟨-, rfl⟩ | ⟨part, hpart, ht⟩
    · exact inClause_signs.2.1
    · exact hall part hpart t ht

theorem inClause_clauseTokens {keyword : Token} (hkeyword : keyword.InClause)
    (types : List ClassType) :
    (∀ t ∈ clauseTokens keyword .comma types, t.InClause) ↔ ∀ c ∈ types, c.IsPlain := by
  unfold clauseTokens
  split
  · next hempty => simp [isEmpty_iff.mp hempty]
  · simp only [forall_mem_cons, hkeyword, true_and, inClause_separated, forall_mem_map,
      ClassType.isPlain_iff]

theorem clauseTokens_eq (keyword : Token) (s : Sign) {types : List ClassType} (hne : types ≠ []) :
    ∃ ts, clauseTokens keyword s types = keyword :: ts ∧ ∃ u ∈ ts.head?, u.isWord := by
  cases types with
  | nil => exact absurd rfl hne
  | cons c types =>
    refine ⟨separated s (c.tokens :: types.map ClassType.tokens), rfl, ?_⟩
    obtain ⟨t, ht, hword⟩ := c.head_isWord
    refine ⟨t, ?_, hword⟩
    cases types with
    | nil => simpa [separated] using ht
    | cons next types =>
      rw [separated, map_cons, intercalate_cons_cons, append_assoc]
      exact mem_head?_append_of_mem_head? ht

namespace HeaderForm

variable (f : HeaderForm)

theorem inClause_clauses :
    (∀ t ∈ f.clauses, t.InClause) ↔ ∀ c ∈ f.parents ++ f.interfaces, c.IsPlain := by
  have hextends : Token.extendsWord.InClause := by
    have hall : ∀ c ∈ "extends".toList, isClauseChar c := by decide
    exact hall
  have himplements : Token.implementsWord.InClause := by
    have hall : ∀ c ∈ "implements".toList, isClauseChar c := by decide
    exact hall
  simp only [clauses, forall_mem_append, inClause_clauseTokens hextends,
    inClause_clauseTokens himplements]

theorem clauses_eq : f.clauses = [] ∨ ∃ keyword ts, f.clauses = keyword :: ts ∧
    (keyword = .extendsWord ∨ keyword = .implementsWord) ∧ ∃ u ∈ ts.head?, u.isWord := by
  by_cases hparents : f.parents = []
  · by_cases hinterfaces : f.interfaces = []
    · left
      simp [clauses, clauseTokens, hparents, hinterfaces]
    · right
      obtain ⟨ts, hts, hword⟩ := clauseTokens_eq .implementsWord .comma hinterfaces
      refine ⟨.implementsWord, ts, ?_, .inr rfl, hword⟩
      rw [clauses, hparents, hts]
      rfl
  · right
    obtain ⟨ts, hts, u, hu, hword⟩ := clauseTokens_eq .extendsWord .comma hparents
    refine ⟨.extendsWord, ts ++ clauseTokens .implementsWord .comma f.interfaces, ?_, .inl rfl, u,
      mem_head?_append_of_mem_head? hu, hword⟩
    rw [clauses, hts, cons_append]

end HeaderForm

end JarAtlas.Java
