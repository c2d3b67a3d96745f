import JarAtlas.Proofs.Java.Bodies
import JarAtlas.Proofs.Java.Header
import JarAtlas.Proofs.Java.HeaderForms

/-!
Which headers of public types are found: exactly the plain ones, at places that no other header
reaches over. Whatever comes between the name and the clauses, such as type parameters or the
components of a record, keeps the type and all its members out of what is extracted.
-/

open List Option

namespace JarAtlas.Java

open Text

/-! ### Reading a header -/

theorem Identifier.exists_dollar {n : Identifier} (hname : ¬ n.IsPlain) :
    ∃ u v, n.chars = u ++ '$' :: v ∧ ∀ c ∈ u, isWord c := by
  have hsplit : n.chars.takeWhile isWord ++ n.chars.dropWhile isWord = n.chars :=
    takeWhile_append_dropWhile
  have hall : ∀ c ∈ n.chars.takeWhile isWord, isWord c := fun _ => mem_takeWhile_imp
  cases hdrop : n.chars.dropWhile isWord with
  | nil =>
    rw [hdrop, append_nil] at hsplit
    rw [hsplit] at hall
    exact absurd hall hname
  | cons d v =>
    have hd : isWord d = false := by
      have hhead := head_dropWhile_not isWord (l := n.chars) (by simp [hdrop])
      simpa [hdrop] using hhead
    have hmem : d ∈ n.chars := (dropWhile_suffix _).mem (hdrop ▸ mem_cons_self)
    have hdollar : d = '$' := by
      have hchar := n.isIdentifier d hmem
      rw [isIdentifierChar, hd, Bool.false_or] at hchar
      exact beq_iff_eq.mp hchar
    rw [hdrop, hdollar] at hsplit
    exact ⟨_, v, hsplit.symm, hall⟩

section Reading

variable {gap rest : List Char} {n : Identifier} {cs : List Char}

theorem run?_plainName {ts : List Token} {tail : List Char} (hplain : n.IsPlain) (hts : ts ≠ [])
    (hgap : ∀ c ∈ gap, isBlank c) (happart : (∃ u ∈ ts.head?, u.isWord) → gap ≠ [])
    (htail : Typeset ts tail) (post : List Char) :
    run? isWord (n.chars ++ (gap ++ (tail ++ post))) =
      some (n.chars, gap ++ (tail ++ post)) := by
  refine run?_append n.ne_nil hplain fun c hc => ?_
  cases gap with
  | cons d gap =>
    obtain rfl : d = c := by simpa using hc
    exact isWord_eq_false_of_isBlank (hgap d mem_cons_self)
  | nil =>
    -- The next token is no word, since nothing keeps it apart from the name.
    cases htail with
    | nil => exact absurd rfl hts
    | @cons t _ _ _ _ _ _ =>
      cases t with
      | word w => exact absurd rfl (happart ⟨_, rfl, rfl⟩)
      | sign s =>
        obtain rfl : s.char = c := by simpa [Token.text] using hc
        cases s <;> decide

theorem afterBrace?_gap (hgap : ∀ c ∈ gap, isBlank c) (rest : List Char) :
    afterBrace? (gap ++ '\x7b' :: rest) = some rest := by
  rw [afterBrace?, dropWhile_isBlank_gap hgap (by simp; decide), after?_cons]

theorem clausesAndBrace?_eq_none (hgap : ∀ c ∈ gap, isBlank c) {c : Char}
    (hsolid : isBlank c = false) (hother : c ≠ 'e' ∧ c ≠ 'i' ∧ c ≠ '\x7b')
    (rest : List Char) : clausesAndBrace? (gap ++ c :: rest) = none := by
  have hhead : ∀ d ∈ (c :: rest).head?, isBlank d = false := by simpa using hsolid
  have hafter {d : Char} (hd : c ≠ d) (word : List Char) :
      after? (d :: word) (c :: rest) = none := by
    simp [after?, hd.symm]
  have hclause {β : Type} (next : List Char → Option β) {d : Char} (hd : c ≠ d)
      (word : List Char) : clause? (d :: word) next (gap ++ c :: rest) = none := by
    rw [clause?, bind_eq_bind]
    by_cases hne : gap = []
    · rw [hne, nil_append, afterBlanks?_eq_none hhead, bind_none]
    · rw [afterBlanks?_gap hne hgap hhead, bind_some, hafter hd]
      rfl
  have hbrace : afterBrace? (gap ++ c :: rest) = none := by
    rw [afterBrace?, dropWhile_isBlank_gap hgap hhead, hafter hother.2.2]
  have hextends : "extends".toList = 'e' :: "xtends".toList := by decide
  have himplements : "implements".toList = 'i' :: "mplements".toList := by decide
  simp only [clausesAndBrace?, implementsAndBrace?, hextends, himplements, hclause _ hother.1,
    hclause _ hother.2.1, hbrace, map_none]

theorem bind_of_not_isPlain {α : Type} (hname : ¬ n.IsPlain) {next : List Char × List Char →
      Option (List Char) × Option (List Char) × List Char → Option α} :
    ((run? isWord (n.chars ++ rest)).bind fun found =>
      (clausesAndBrace? found.2).bind (next found)) = none := by
  obtain ⟨u, v, hchars, hall⟩ := Identifier.exists_dollar hname
  have hdollar : clausesAndBrace? ([] ++ '$' :: (v ++ rest)) = none :=
    clausesAndBrace?_eq_none (by simp) (by decide) (by decide) _
  rw [hchars, append_assoc, cons_append]
  by_cases hu : u = []
  · have hrun : run? isWord ([] ++ '$' :: (v ++ rest)) = none := by
      have hstop : isWord '$' = false := by decide
      simp [run?, span_eq_takeWhile_dropWhile, hstop]
    rw [hu, hrun, bind_none]
  · rw [run?_append hu hall (by simp; decide), bind_some]
    rw [nil_append] at hdollar
    rw [hdollar, bind_none]

theorem implementsAndBrace?_isSome : (implementsAndBrace? cs).isSome ↔
    (clause? "implements".toList afterBrace? cs).isSome ∨
      (afterBrace? cs).isSome := by
  unfold implementsAndBrace?
  split
  · next hclause =>
    rw [hclause]
    simp only [isSome_some, true_or]
  · next hclause =>
    rw [hclause]
    simp only [isSome_map, isSome_none, Bool.false_eq_true, false_or]

theorem clausesAndBrace?_isSome : (clausesAndBrace? cs).isSome ↔
    (clause? "extends".toList implementsAndBrace? cs).isSome ∨
      (implementsAndBrace? cs).isSome := by
  unfold clausesAndBrace?
  split
  · next hclause =>
    rw [hclause]
    simp only [isSome_some, true_or]
  · next hclause =>
    rw [hclause]
    simp only [isSome_map, isSome_none, Bool.false_eq_true, false_or]

section Clause

variable {β : Type} {next : List Char → Option β} {x after : List Char}

theorem shortestClause?_isSome (hx : x ≠ []) (hchars : ∀ c ∈ x, isClauseChar c)
    (hnext : (next after).isSome) (done : List Char) :
    (shortestClause? next done (x ++ after)).isSome := by
  induction x generalizing done with
  | nil => exact absurd rfl hx
  | cons c x ih =>
    obtain ⟨hc, hchars⟩ := forall_mem_cons.mp hchars
    rw [cons_append, shortestClause?, if_pos hc]
    split
    · rfl
    · next hnone =>
      refine ih ?_ hchars (c :: done)
      rintro rfl
      rw [nil_append] at hnone
      simp [hnone] at hnext

theorem clause?_isSome {word gap gap' : List Char} (hword : IsType word) (hne : gap ≠ []) (hgap : ∀ c ∈ gap, isBlank c)
    (hne' : gap' ≠ []) (hgap' : ∀ c ∈ gap', isBlank c) (hx : x ≠ [])
    (hhead : ∀ c ∈ x.head?, isBlank c = false) (hchars : ∀ c ∈ x, isClauseChar c)
    (hnext : (next after).isSome) :
    (clause? word next (gap ++ (word ++ (gap' ++ (x ++ after))))).isSome := by
  have hsolid : IsSolid (x ++ after) := IsSolid.append_of_ne_nil hhead hx after
  obtain ⟨r, hread⟩ := isSome_iff_exists.mp (shortestClause?_isSome hx hchars hnext [])
  rw [clause?_gap hword hne hgap hne' hgap' hsolid hread]
  rfl

end Clause

theorem isClauseChar_of_isSome {front : List Char} (hgap : ∀ c ∈ gap, isBlank c)
    (hfront : '\x7b' ∉ front)
    (hsome : (clausesAndBrace? (gap ++ (front ++ '\x7b' :: rest))).isSome) :
    ∀ c ∈ front, isClauseChar c := by
  obtain ⟨⟨ext, impl, after⟩, hread⟩ := isSome_iff_exists.mp hsome
  obtain ⟨t, htext, ht⟩ := passes_clausesAndBrace? hread
  have hfirst : gap ++ front = t := by
    have hgap' : '\x7b' ∉ gap := fun hmem => absurd (hgap _ hmem) (by decide)
    have ht' : '\x7b' ∉ t := fun hmem => absurd (ht _ hmem) (by decide)
    rw [← append_assoc] at htext
    exact eq_of_append_cons_eq (by simp [hgap', hfront]) ht' htext
  exact fun c hc => ht c (hfirst ▸ mem_append_right gap hc)

theorem clausesAndBrace?_of_keyword {keyword : Token} {gap' x : List Char}
    (hkeyword : keyword = .extendsWord ∨ keyword = .implementsWord) (hne : gap ≠ [])
    (hgap : ∀ c ∈ gap, isBlank c) (hne' : gap' ≠ [])
    (hgap' : ∀ c ∈ gap', isBlank c) (hx : x ≠ [])
    (hhead : ∀ c ∈ x.head?, isBlank c = false) (hchars : ∀ c ∈ x, isClauseChar c) :
    (clausesAndBrace? (gap ++ (keyword.text ++ (gap' ++
      (x ++ '\x7b' :: rest))))).isSome := by
  have hword : IsType keyword.text := by
    have hboth : IsType "extends".toList ∧ IsType "implements".toList := by decide
    rcases hkeyword with rfl | rfl
    · exact hboth.1
    · exact hboth.2
  have hread {β : Type} {next : List Char → Option β}
      (hnext : (next ('\x7b' :: rest)).isSome) :
      (clause? keyword.text next (gap ++ (keyword.text ++ (gap' ++
        (x ++ '\x7b' :: rest))))).isSome :=
    clause?_isSome hword hne hgap hne' hgap' hx hhead hchars hnext
  have hend : (afterBrace? ([] ++ '\x7b' :: rest)).isSome := by
    rw [afterBrace?_gap (by simp)]
    rfl
  rcases hkeyword with rfl | rfl
  · exact clausesAndBrace?_isSome.mpr
      (.inl (hread (implementsAndBrace?_isSome.mpr (.inr hend))))
  · exact clausesAndBrace?_isSome.mpr
      (.inr (implementsAndBrace?_isSome.mpr (.inl (hread hend))))

end Reading

namespace HeaderForm

variable (f : HeaderForm) {text gap tail : List Char}

theorem openCurly_notMem_clauses : Token.sign .openCurly ∉ f.clauses := by
  have hclause (keyword : Identifier) (types : List ClassType) :
      Token.sign .openCurly ∉ clauseTokens (.word keyword) .comma types := by
    unfold clauseTokens
    split
    · simp
    · rw [mem_cons, mem_separated_iff]
      rintro (hsame | hsame | ⟨part, hpart, hmem⟩)
      · cases hsame
      · cases hsame.2
      · obtain ⟨c, -, rfl⟩ := mem_map.mp hpart
        exact c.openCurly_notMem hmem
  rw [clauses, mem_append, not_or]
  exact ⟨hclause _ _, hclause _ _⟩

theorem clausesAndBrace?_isSome_iff (hparams : f.typeParams = [])
    (hcomponents : f.components = none) (hgap : ∀ c ∈ gap, isBlank c)
    (happart : (∃ u ∈ f.afterName.head?, u.isWord) → gap ≠ [])
    (htail : Typeset f.afterName tail) (post : List Char) :
    (clausesAndBrace? (gap ++ (tail ++ post))).isSome ↔
      ∀ c ∈ f.parents ++ f.interfaces, c.IsPlain := by
  have hafter : f.afterName = f.clauses ++ [.sign .openCurly] := by
    rw [afterName, typeParamTokens, hparams, componentTokens, hcomponents]
    rfl
  rw [hafter] at htail happart
  obtain ⟨front, gap', rfl, hfront⟩ := htail.brace
  have hchars := hfront.forall_mem_iff fun _ => isClauseChar_of_isBlank
  rw [← f.inClause_clauses, append_assoc, cons_append]
  refine Iff.trans ⟨fun hsome => ?_, fun hclause => ?_⟩ hchars
  · exact isClauseChar_of_isSome hgap (hfront.brace_notMem f.openCurly_notMem_clauses) hsome
  · rcases f.clauses_eq with hnone | ⟨keyword, ts, hts, hkeyword, u, hu, hword⟩
    · rw [hnone] at hfront
      cases hfront
      refine clausesAndBrace?_isSome.mpr (.inr (implementsAndBrace?_isSome.mpr (.inr ?_)))
      rw [nil_append, afterBrace?_gap hgap]
      rfl
    · rw [hts] at hfront happart
      have hkeyword_word : keyword.isWord := by
        rcases hkeyword with rfl | rfl <;> rfl
      have hne : gap ≠ [] := happart ⟨keyword, rfl, hkeyword_word⟩
      cases hfront with
      | @cons _ _ between x hbetween hapart hx =>
        have hbetween_ne : between ≠ [] := hapart hkeyword_word ⟨u, hu, hword⟩
        have hx_ne : x ≠ [] := by
          obtain ⟨us, rfl⟩ := head?_eq_some_iff.mp hu
          exact hx.ne_nil (cons_ne_nil _ _)
        have hx_clause : ∀ c ∈ x, isClauseChar c := fun c hc =>
          hclause c (mem_append_right _ (mem_append_right _ hc))
        rw [append_assoc, append_assoc]
        exact clausesAndBrace?_of_keyword hkeyword hne hgap hbetween_ne hbetween hx_ne
          hx.head_solid hx_clause

theorem afterName_eq (hmore : f.typeParams ≠ [] ∨ f.components ≠ none) :
    ∃ s ts, f.afterName = .sign s :: ts ∧ (s = .less ∨ s = .openRound) := by
  by_cases hparams : f.typeParams = []
  · obtain ⟨cs, hcs⟩ := ne_none_iff_exists'.mp (hmore.resolve_left (not_not.mpr hparams))
    have hround : ∃ ts, f.afterName = .sign .openRound :: ts := by
      rw [afterName, typeParamTokens, hparams, componentTokens, hcs]
      exact ⟨_, rfl⟩
    obtain ⟨ts, hts⟩ := hround
    exact ⟨.openRound, ts, hts, .inr rfl⟩
  · have hless : ∃ ts, f.afterName = .sign .less :: ts := by
      rw [afterName, typeParamTokens, if_neg (by simpa using hparams)]
      exact ⟨_, rfl⟩
    obtain ⟨ts, hts⟩ := hless
    exact ⟨.less, ts, hts, .inl rfl⟩

theorem clausesAndBrace?_afterName (hgap : ∀ c ∈ gap, isBlank c)
    (happart : (∃ u ∈ f.afterName.head?, u.isWord) → gap ≠ [])
    (htail : Typeset f.afterName tail) (post : List Char) :
    (clausesAndBrace? (gap ++ (tail ++ post))).isSome ↔ f.typeParams = [] ∧
      f.components = none ∧ ∀ c ∈ f.parents ++ f.interfaces, c.IsPlain := by
  by_cases hmore : f.typeParams ≠ [] ∨ f.components ≠ none
  · obtain ⟨s, ts, hafter, hbracket⟩ := f.afterName_eq hmore
    rw [hafter] at htail
    have hnone : clausesAndBrace? (gap ++ (tail ++ post)) = none := by
      cases htail with
      | cons _ _ _ =>
        rw [Token.text, append_assoc, singleton_append, clausesAndBrace?_eq_none hgap]
        · rcases hbracket with rfl | rfl <;> decide
        · rcases hbracket with rfl | rfl <;> decide
    rw [hnone]
    tauto
  · obtain ⟨hparams, hcomponents⟩ := not_or.mp hmore
    have hparams := not_not.mp hparams
    have hcomponents := not_not.mp hcomponents
    rw [f.clausesAndBrace?_isSome_iff hparams hcomponents hgap happart htail]
    tauto

theorem exists_of_typeset_modifier {ts : List Token}
    (htext : Typeset (f.modifier.toList.map Token.ofModifier ++ .ofKind f.kind :: ts) text) :
    ∃ gap rest, text = f.modifier.elim [] (·.word ++ gap) ++ rest ∧
      (f.modifier.isSome → gap ≠ []) ∧ (∀ c ∈ gap, isBlank c) ∧
      Typeset (.ofKind f.kind :: ts) rest := by
  cases hmodifier : f.modifier with
  | none =>
    rw [hmodifier] at htext
    exact ⟨[], text, rfl, nofun, by simp, htext⟩
  | some modifier =>
    rw [hmodifier] at htext
    cases htext with
    | cons hgap happart hrest =>
      exact ⟨_, _, (append_assoc _ _ _).symm, fun _ => happart rfl ⟨_, rfl, rfl⟩, hgap, hrest⟩

theorem header_typeset (htext : Typeset f.tokens text) (post : List Char) :
    ∃ gap tail, (∀ c ∈ gap, isBlank c) ∧
      ((∃ u ∈ f.afterName.head?, u.isWord) → gap ≠ []) ∧ Typeset f.afterName tail ∧
      header (text ++ post) = (run? isWord (f.name.chars ++ (gap ++ (tail ++ post)))).bind
        fun found => (clausesAndBrace? found.2).bind
          fun read => some (⟨f.kind, found.1, read.1, read.2.1⟩, read.2.2) := by
  rw [tokens] at htext
  cases htext with
  | @cons _ _ gap₁ text₁ hgap₁ happart₁ hrest₁ =>
    have hne₁ : gap₁ ≠ [] := by
      refine happart₁ rfl ?_
      cases f.modifier with
      | none => exact ⟨_, rfl, rfl⟩
      | some modifier => exact ⟨_, rfl, rfl⟩
    obtain ⟨gap₂, text₂, rfl, hne₂, hgap₂, htext₂⟩ := f.exists_of_typeset_modifier hrest₁
    cases htext₂ with
    | @cons _ _ gap₃ text₃ hgap₃ happart₃ hrest₃ =>
      cases hrest₃ with
      | @cons _ _ gap tail hgap happart htail =>
        refine ⟨gap, tail, hgap, happart rfl, htail, ?_⟩
        simp only [append_assoc]
        exact header_gaps f.modifier f.kind hne₁ hgap₁ hne₂ hgap₂
          (happart₃ rfl ⟨_, rfl, rfl⟩) hgap₃ ((Token.word f.name).head_solid _)

theorem header_isSome_iff (htext : Typeset f.tokens text) (post : List Char) :
    ((header (text ++ post)).isSome ↔ f.IsPlain) ∧
      ∀ hd rest, header (text ++ post) = some (hd, rest) →
        hd.kind = f.kind ∧ hd.name = f.name.chars := by
  obtain ⟨gap, tail, hgap, happart, htail, hread⟩ := f.header_typeset htext post
  rw [hread]
  by_cases hname : f.name.IsPlain
  · have hne : f.afterName ≠ [] := by simp [afterName]
    rw [run?_plainName hname hne hgap happart htail, bind_some]
    constructor
    · have hclauses := f.clausesAndBrace?_afterName hgap happart htail post
      rw [isSome_bind]
      simp only [isSome_some, any_true]
      rw [hclauses]
      exact ⟨fun h => ⟨hname, h.1, h.2.1, h.2.2⟩, fun h => ⟨h.typeParams, h.components, h.clauses⟩⟩
    · intro hd rest hsome
      obtain ⟨found, -, hfound⟩ := bind_eq_some_iff.mp hsome
      cases hfound
      exact ⟨rfl, rfl⟩
  · rw [bind_of_not_isPlain hname]
    refine ⟨?_, fun hd rest hsome => ?_⟩
    · simp only [isSome_none, Bool.false_eq_true, false_iff]
      exact fun hplain => hname hplain.name
    · cases hsome

end HeaderForm

/-! ### Finding a header -/

/-- The entry that is reported for the header at a place of a source. -/
def ReportedAt (cs : List Char) (position : Nat) (d : TypeDecl) : Prop :=
  ∃ package m, packageOf? cs = some package ∧ m ∈ scan header cs ∧ m.start = position ∧
    d = TypeDecl.ofMatch (String.ofList package) cs m

variable {cs : List Char} {position : Nat}

theorem mem_extractChars_of_reportedAt {d : TypeDecl}
    (hd : ReportedAt cs position d) : d ∈ extractChars cs := by
  obtain ⟨package, m, hpackage, hm, -, rfl⟩ := hd
  rw [extractChars, hpackage]
  exact mem_map_of_mem hm

theorem exists_reportedAt_iff {package : List Char} (hpackage : packageOf? cs = some package) :
    (∃ d ∈ extractChars cs, ReportedAt cs position d) ↔
      ∃ m ∈ scan header cs, m.start = position := by
  constructor
  · rintro ⟨d, -, package, m, -, hm, hstart, -⟩
    exact ⟨m, hm, hstart⟩
  · rintro ⟨m, hm, hstart⟩
    have hd : ReportedAt cs position _ := ⟨package, m, hpackage, hm, hstart, rfl⟩
    exact ⟨_, mem_extractChars_of_reportedAt hd, hd⟩

/-- The last character that is not blank cannot be part of a header. -/
def SetOff (front : List Char) : Prop :=
  ∀ c ∈ (front.reverse.dropWhile Text.isBlank).head?, isWordsChar c = false

theorem not_crosses_of_setOff {front : List Char} (hfront : SetOff front) :
    ∀ other ∈ scan header (front ++ cs), ¬ other.Crosses front.length := by
  intro other hother hcross
  rw [← Nat.zero_add front.length] at hcross
  rcases readsTo_header.sign_or_last_of_crosses stopsAt_header hother hcross with
    ⟨before, between, -, hopen, hbrace⟩ | ⟨c, hlast, hword⟩
  · exact hopen hbrace
  · rw [hfront c hlast] at hword
    cases hword

/-- A header is found at its place exactly if it is plain and no other header reaches over the
place. No header of a record is found. -/
theorem header_reported_iff_isPlain (f : HeaderForm) {cs front text post package : List Char}
    (htext : Typeset f.tokens text) (hcs : cs = front ++ (text ++ post))
    (hpackage : packageOf? cs = some package) :
    ((∃ d ∈ extractChars cs, ReportedAt cs front.length d) ↔
      f.IsPlain ∧ ∀ other ∈ scan header cs, ¬ other.Crosses front.length) ∧
    (SetOff front → ∀ other ∈ scan header cs, ¬ other.Crosses front.length) ∧
    (∀ d, ReportedAt cs front.length d → d.kind = f.kind ∧ d.name = String.ofList f.name.chars) ∧
    (f.kind = .recordType → ∀ d, ¬ ReportedAt cs front.length d) := by
  subst hcs
  obtain ⟨hplain, hvalue⟩ := f.header_isSome_iff htext post
  have hplace :
      (∃ m ∈ scanFrom header 0 (front ++ (text ++ post)), m.start = 0 + front.length) ↔ _ :=
    exists_mem_scanFrom_iff endsWith_header front
  rw [hplain, Nat.zero_add, ← scan_eq_scanFrom] at hplace
  have hreported : (∃ d ∈ extractChars (front ++ (text ++ post)),
      ReportedAt (front ++ (text ++ post)) front.length d) ↔
      ∃ m ∈ scan header (front ++ (text ++ post)), m.start = front.length := by
    constructor
    · rintro ⟨d, -, package, m, -, hm, hstart, -⟩
      exact ⟨m, hm, hstart⟩
    · rintro ⟨m, hm, hstart⟩
      have hd : ReportedAt (front ++ (text ++ post)) front.length _ :=
        ⟨package, m, hpackage, hm, hstart, rfl⟩
      exact ⟨_, mem_extractChars_of_reportedAt hd, hd⟩
  refine ⟨hreported.trans hplace, not_crosses_of_setOff, fun d hd => ?_, fun hrecord d hd => ?_⟩
  · obtain ⟨package, m, -, hm, hstart, rfl⟩ := hd
    obtain ⟨rest, hread⟩ := recognise_of_mem_scanFrom endsWith_header hm (by omega)
    obtain ⟨hkind, hname⟩ := hvalue _ _ hread
    exact ⟨hkind, congrArg String.ofList hname⟩
  · obtain ⟨package, m, -, hm, hstart, -⟩ := hd
    have hnone := (hplace.mp ⟨m, hm, hstart⟩).1.components
    have hsome := f.isSome_components.mpr hrecord
    rw [hnone] at hsome
    cases hsome

/-- A class `Box` with the given type parameters and a parent with a type argument. -/
def boxHeader (typeParams : List TypeParam) : HeaderForm where
  modifier := some .isFinal
  kind := .classType
  name := ⟨"Box".toList, by decide, by decide⟩
  typeParams := typeParams
  components := none
  parents := [.named ⟨"Base".toList, by decide, by decide⟩
    (.cons (.type (.named ⟨"Item".toList, by decide, by decide⟩ .nil) 0) .nil)]
  interfaces := []
  isSome_components := by simp
  typeParams_enum := by simp
  parents_class := by simp
  parents_final := by simp
  interfaces_interface := by simp

def boxParam : TypeParam :=
  ⟨⟨"T".toList, by decide, by decide⟩, []⟩

def boxText (typeParams : List TypeParam) : List Char :=
  (boxHeader typeParams).tokens.flatMap fun t => t.text ++ [' ']

/-- The class is found without type parameters, and not with one. -/
theorem header_reported_boxHeader :
    (∃ d, ReportedAt ("package p;\n".toList ++ (boxText [] ++ ['\x7d'])) 11 d ∧
      d.kind = .classType ∧ d.name = "Box") ∧
    ∀ d, ¬ ReportedAt ("package p;\n".toList ++ (boxText [boxParam] ++ ['\x7d'])) 11 d := by
  have hpackage (typeParams : List TypeParam) :
      packageOf? ("package p;\n".toList ++ (boxText typeParams ++ ['\x7d'])) = some ['p'] := rfl
  constructor
  · have hname : (boxHeader []).name.IsPlain := by
      have hall : ∀ c ∈ "Box".toList, Text.isWord c = true := by decide
      exact hall
    have hparent : ∀ c ∈ (boxHeader []).parents ++ (boxHeader []).interfaces, c.IsPlain := by
      have hall : (∀ c ∈ "Base".toList, Text.isWord c = true) ∧
          ∀ c ∈ "Item".toList, Text.isWord c = true := by decide
      simp only [boxHeader, append_nil, forall_mem_singleton, ClassType.IsPlain,
        TypeArgs.IsPlain, TypeArg.IsPlain, and_true]
      exact hall
    obtain ⟨hfound, hfree, hvalue, -⟩ :=
      header_reported_iff_isPlain (boxHeader []) (.spread _) rfl (hpackage [])
    have hsetOff : SetOff "package p;\n".toList := by
      have hlast : ("package p;\n".toList.reverse.dropWhile Text.isBlank).head? = some ';' := rfl
      rw [SetOff, hlast]
      simp only [Option.mem_some_iff, forall_eq']
      decide
    obtain ⟨d, -, hd⟩ := hfound.mpr ⟨⟨hname, rfl, rfl, hparent⟩, hfree hsetOff⟩
    exact ⟨d, hd, hvalue d hd⟩
  · intro d hd
    obtain ⟨hfound, -⟩ :=
      header_reported_iff_isPlain (boxHeader [boxParam]) (.spread _) rfl (hpackage [boxParam])
    have hplain := (hfound.mp ⟨d, mem_extractChars_of_reportedAt hd, hd⟩).1
    cases hplain.typeParams

end JarAtlas.Java
