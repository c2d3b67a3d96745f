import JarAtlas.Proofs.Java.Members

/-!
Package clauses and headers of types: the names that are read from them hold no blanks, and a header
is read as it was written.
-/

open List Option

namespace JarAtlas.Java

open Text TypeForm

variable {cs rest : List Char} {source : String} {d : TypeDecl}

theorem packageClause_name {name : List Char} (hread : packageClause cs = some (name, rest)) :
    IsDotted name := by
  simp only [packageClause, Option.bind_eq_bind, Option.bind_eq_some_iff, Option.pure_def,
    some.injEq, Prod.mk.injEq] at hread
  obtain ⟨_, -, _, -, ⟨found, _⟩, hrun, _, -, rfl, -⟩ := hread
  exact ⟨run?_ne_nil hrun, (run?_eq_some hrun).2⟩

theorem header_name {hd : Header} (hread : header cs = some (hd, rest)) : IsName hd.name := by
  simp only [header, Option.bind_eq_bind, Option.bind_eq_some_iff, Option.pure_def,
    some.injEq, Prod.mk.injEq] at hread
  obtain ⟨_, -, _, -, ⟨kind, _⟩, -, _, -, ⟨found, _⟩, hrun, ⟨_, _, _⟩, -, rfl, -⟩ := hread
  exact ⟨run?_ne_nil hrun, (run?_eq_some hrun).2⟩

theorem names_of_mem_extract (hd : d ∈ extract source) :
    IsDotted d.package.toList ∧ IsName d.name.toList := by
  simp only [extract, extractChars] at hd
  split at hd
  · simp at hd
  · next package hpackage =>
    obtain ⟨m, hm, rfl⟩ := mem_map.mp hd
    obtain ⟨_, _, hclause⟩ := exists_of_scanFirst? hpackage
    obtain ⟨_, _, -, -, hheader, -⟩ := isMatch_of_mem_scanFrom endsWith_header hm
    constructor
    · simp only [TypeDecl.ofMatch, String.toList_ofList]
      exact packageClause_name hclause
    · simp only [TypeDecl.ofMatch, String.toList_ofList]
      exact header_name hheader

theorem IsDotted.forall_mem {P : Char → Prop} (hcs : IsDotted cs) (hword : ∀ c, isWord c → P c)
    (hdot : P '.') : ∀ c ∈ cs, P c := by
  intro c hc
  rcases Bool.or_eq_true_iff.mp (hcs.2 c hc) with hc | hc
  · exact hword c hc
  · rwa [beq_iff_eq.mp hc]

theorem IsDotted.notBlank (hcs : IsDotted cs) : ∀ c ∈ cs, isBlank c = false :=
  hcs.forall_mem (fun _ => isBlank_eq_false_of_isWord) (by decide)

theorem strip_of_forall {s : String} (hsolid : ∀ c ∈ s.toList, isBlank c = false) :
    strip s = s := by
  rw [strip, trim, trimBy_eq_self_of_forall hsolid, String.ofList_toList]

theorem strip_key_of_mem_extract (hd : d ∈ extract source) :
    strip d.package = d.package ∧ strip d.name = d.name := by
  obtain ⟨hpackage, hname⟩ := names_of_mem_extract hd
  exact ⟨strip_of_forall hpackage.notBlank,
    strip_of_forall fun c hc => isBlank_eq_false_of_isWord (hname.2 c hc)⟩

/-- What an `extends` or `implements` clause is written with: plain names, commas and spaces, and no
blank at the ends. -/
structure IsClause (cs : List Char) : Prop where
  ne_nil : cs ≠ []
  chars : ∀ c ∈ cs, (Text.isWord c || ['.', ',', ' '].contains c) = true
  head : ∀ c ∈ cs.head?, Text.isBlank c = false
  last : ∀ c ∈ cs.getLast?, Text.isBlank c = false

theorem IsDotted.isType (hcs : IsDotted cs) : IsType cs :=
  ⟨hcs.1, hcs.forall_mem (fun _ hword => by rw [hword, Bool.true_or]) (by decide)⟩

theorem IsDotted.isClause (hcs : IsDotted cs) : IsClause cs where
  ne_nil := hcs.1
  chars := hcs.forall_mem (fun _ hword => by rw [hword, Bool.true_or]) (by decide)
  head := fun c hc => hcs.notBlank c (mem_of_mem_head? hc)
  last := fun c hc => hcs.notBlank c (mem_of_getLast? hc)

namespace IsClause

theorem append {x cs : List Char} (hx : IsDotted x) (hcs : IsClause cs) :
    IsClause (x ++ ([',', ' '] ++ cs)) where
  ne_nil := by simp [hx.1]
  chars := forall_mem_append.mpr
    ⟨hx.isClause.chars, forall_mem_append.mpr ⟨by decide, hcs.chars⟩⟩
  head := by
    rw [head?_append_of_ne_nil _ hx.1]
    exact hx.isClause.head
  last := by
    rw [← append_assoc, getLast?_append_of_ne_nil _ hcs.ne_nil]
    exact hcs.last

theorem intercalate {names : List (List Char)} (hne : names ≠ [])
    (hnames : ∀ x ∈ names, IsDotted x) : IsClause ([',', ' '].intercalate names) := by
  induction names with
  | nil => exact absurd rfl hne
  | cons x names ih =>
    have hx := hnames x mem_cons_self
    cases names with
    | nil =>
      rw [intercalate_singleton]
      exact hx.isClause
    | cons y names =>
      rw [intercalate_cons_cons, append_assoc]
      exact .append hx (ih (cons_ne_nil _ _)
        fun z hz => hnames z (mem_cons_of_mem x hz))

variable {cs : List Char}

theorem isClauseChar (hcs : IsClause cs) : ∀ c ∈ cs, Java.isClauseChar c := by
  intro c hc
  have hsep : ∀ c ∈ ['.', ',', ' '], Java.isClauseChar c := by decide
  rcases Bool.or_eq_true_iff.mp (hcs.chars c hc) with hword | hmem
  · simp [Java.isClauseChar, hword]
  · exact hsep c (contains_iff_mem.mp hmem)

theorem notMem (hcs : IsClause cs) {c : Char}
    (hc : (isWord c || ['.', ',', ' '].contains c) = false) : c ∉ cs := by
  intro hmem
  rw [hcs.chars c hmem] at hc
  exact absurd hc (by decide)

theorem exists_solid (hcs : IsClause cs) {u : List Char} (hu : u <:+ cs) (hne : u ≠ []) :
    ∃ c ∈ u, isBlank c = false := by
  refine ⟨u.getLast hne, getLast_mem hne, hcs.last _ ?_⟩
  rw [hu.getLast hne, getLast?_eq_getLast_of_ne_nil]
  rfl

end IsClause

section TypeArguments

private theorem dropTypeArguments_go_done (skip : Nat) (done cs : List Char) :
    dropTypeArguments.go skip done cs = done.reverse ++ dropTypeArguments.go skip [] cs := by
  induction cs generalizing skip done with
  | nil => simp [dropTypeArguments.go]
  | cons c cs ih =>
    cases skip with
    | succ skip => exact ih skip done
    | zero =>
      simp only [dropTypeArguments.go]
      split
      · split
        · exact ih _ done
        · rw [ih 0 (c :: done), ih 0 [c]]
          simp
      · rw [ih 0 (c :: done), ih 0 [c]]
        simp

private theorem dropTypeArguments_go_skip (t rest : List Char) :
    dropTypeArguments.go t.length [] (t ++ rest) = dropTypeArguments rest := by
  induction t with
  | nil => rfl
  | cons c t ih => exact ih

theorem dropTypeArguments_cons {c : Char} (hc : c ≠ '<') (cs : List Char) :
    dropTypeArguments (c :: cs) = c :: dropTypeArguments cs := by
  have hfirst : (c == '<') = false := beq_eq_false_iff_ne.mpr hc
  simp only [dropTypeArguments, dropTypeArguments.go, hfirst, Bool.false_eq_true, if_false]
  rw [dropTypeArguments_go_done]
  rfl

theorem dropTypeArguments_less (cs : List Char) :
    (∃ inner rest, cs = inner ++ '>' :: rest ∧ '>' ∉ inner ∧ '\n' ∉ inner ∧
      dropTypeArguments ('<' :: cs) = dropTypeArguments rest) ∨
    ((∀ inner rest, cs = inner ++ '>' :: rest → '>' ∉ inner → '\n' ∈ inner) ∧
      dropTypeArguments ('<' :: cs) = '<' :: dropTypeArguments cs) := by
  have hsplit := takeWhile_append_dropWhile (p := fun d => d != '>' && d != '\n') (l := cs)
  have hinner : ∀ c ∈ cs.takeWhile (fun d => d != '>' && d != '\n'), c ≠ '>' ∧ c ≠ '\n' := by
    intro c hc
    simpa using mem_takeWhile_imp hc
  have hkeep : dropTypeArguments.go 0 ['<'] cs = '<' :: dropTypeArguments cs :=
    dropTypeArguments_go_done 0 ['<'] cs
  simp only [dropTypeArguments, dropTypeArguments.go, beq_self_eq_true, if_true,
    span_eq_takeWhile_dropWhile]
  -- The next closing bracket or end of a line decides.
  cases hrest : cs.dropWhile (fun d => d != '>' && d != '\n') with
  | nil =>
    rw [hrest, append_nil] at hsplit
    refine .inr ⟨fun inner rest hcs _ => ?_, hkeep⟩
    exact absurd rfl (hinner '>' (by rw [hsplit, hcs]; simp)).1
  | cons c rest =>
    have hnext : c = '>' ∨ c = '\n' := by
      have hhead := head_dropWhile_not (fun d => d != '>' && d != '\n') (l := cs)
        (by simp [hrest])
      simpa only [hrest, head_cons, Bool.and_eq_false_iff, bne_eq_false_iff_eq] using hhead
    rw [hrest] at hsplit
    rcases hnext with rfl | rfl
    · refine .inl ⟨_, rest, hsplit.symm, fun hmem => (hinner _ hmem).1 rfl,
        fun hmem => (hinner _ hmem).2 rfl, ?_⟩
      have hskip := dropTypeArguments_go_skip
        (cs.takeWhile (fun d => d != '>' && d != '\n') ++ ['>']) rest
      rw [append_assoc, singleton_append, hsplit, length_append] at hskip
      exact hskip
    · refine .inr ⟨fun inner after hcs _ => ?_, hkeep⟩
      generalize cs.takeWhile (fun d => d != '>' && d != '\n') = line at hsplit hinner
      have hline : '>' ∉ line ++ ['\n'] := by
        rw [mem_append, not_or]
        exact ⟨fun hmem => (hinner _ hmem).1 rfl, by decide⟩
      have hboth : line ++ ['\n'] <+: inner ++ '>' :: after :=
        ⟨rest, by rw [← hcs, ← hsplit, append_assoc, singleton_append]⟩
      have hfront := prefix_of_prefix_append_cons hline hboth
      exact hfront.subset (mem_append_right _ (mem_singleton_self _))

theorem dropTypeArguments_append_of_notMem {t : List Char} (ht : '<' ∉ t) (rest : List Char) :
    dropTypeArguments (t ++ rest) = t ++ dropTypeArguments rest := by
  induction t with
  | nil => rfl
  | cons c t ih =>
    obtain ⟨hc, hmore⟩ := ne_and_not_mem_of_not_mem_cons ht
    rw [cons_append, dropTypeArguments_cons (Ne.symm hc), ih hmore, cons_append]

theorem dropTypeArguments_eq_self {cs : List Char} (hcs : '<' ∉ cs) :
    dropTypeArguments cs = cs := by
  have hrest := dropTypeArguments_append_of_notMem hcs []
  rw [append_nil] at hrest
  exact hrest.trans (append_nil cs)

end TypeArguments

theorem IsClause.clauseNames (hcs : IsClause cs) : Java.clauseNames cs = cs := by
  have htrim : trim cs = cs := trimBy_eq_self hcs.head hcs.last
  rw [Java.clauseNames, htrim, dropTypeArguments_eq_self (hcs.notMem (by decide)), htrim]

section

variable {β : Type} {next : List Char → Option β} {b : β} {x after word : List Char}

theorem shortestClause?_append (hx : x ≠ []) (hchars : ∀ c ∈ x, isClauseChar c)
    (hnext : next after = some b) (hearlier : ∀ u, u <:+ x → u ≠ [] → next (u ++ after) = none)
    (done : List Char) : shortestClause? next done (x ++ after) = some (done.reverse ++ x, b) := by
  induction x generalizing done with
  | nil => exact absurd rfl hx
  | cons c x ih =>
    have hc : isClauseChar c := hchars c mem_cons_self
    cases x with
    | nil => simp [shortestClause?, hc, hnext]
    | cons d x =>
      have hnone : next (d :: x ++ after) = none :=
        hearlier (d :: x) (suffix_cons c _) (cons_ne_nil _ _)
      have hmore := ih (cons_ne_nil _ _)
        (fun e he => hchars e (mem_cons_of_mem c he))
        (fun u hu => hearlier u (hu.trans (suffix_cons c _))) (c :: done)
      rw [cons_append, shortestClause?, if_pos hc, hnone]
      simpa using hmore

theorem clause?_gap {gap gap' rest : List Char} {r : List Char × β} (hword : IsType word)
    (hne : gap ≠ []) (hgap : ∀ c ∈ gap, isBlank c) (hne' : gap' ≠ [])
    (hgap' : ∀ c ∈ gap', isBlank c) (hsolid : IsSolid rest)
    (hread : shortestClause? next [] rest = some r) :
    clause? word next (gap ++ (word ++ (gap' ++ rest))) = some r := by
  have hspan : (gap' ++ rest).takeWhile isBlank = gap' := by
    have hstop : rest.takeWhile isBlank = [] := by
      cases rest with
      | nil => rfl
      | cons c rest => simp [hsolid c rfl]
    rw [takeWhile_append_of_pos hgap', hstop, append_nil]
  obtain ⟨n, hn⟩ : ∃ n, gap'.length = n + 1 :=
    Nat.exists_eq_succ_of_ne_zero (length_pos_iff.mpr hne').ne'
  simp only [clause?, bind_eq_bind]
  rw [afterBlanks?_gap hne hgap (hword.isSolid _), bind_some, after?_append,
    bind_some, hspan, hn, range_succ, reverse_append, reverse_singleton,
    singleton_append, findSome?_cons, ← hn, drop_left, hread]

private theorem clause?_written (hword : IsType word) (hx : IsClause x)
    (hnext : next after = some b) (hearlier : ∀ u, u <:+ x → u ≠ [] → next (u ++ after) = none) :
    clause? word next (' ' :: (word ++ ' ' :: (x ++ after))) = some (x, b) := by
  have hspace : ∀ c ∈ [' '], isBlank c := by decide
  have hsolid : IsSolid (x ++ after) := IsSolid.append_of_ne_nil hx.head hx.ne_nil after
  exact clause?_gap hword (cons_ne_nil _ _) hspace (cons_ne_nil ' ' []) hspace hsolid
    (shortestClause?_append hx.ne_nil hx.isClauseChar hnext hearlier [])

end

variable {u x : List Char}

theorem afterBrace?_eq_none (hbrace : '\x7b' ∉ u) (hsolid : ∃ c ∈ u, isBlank c = false)
    (rest : List Char) : afterBrace? (u ++ rest) = none := by
  induction u with
  | nil => simp at hsolid
  | cons d u ih =>
    obtain ⟨hd, hmore⟩ := ne_and_not_mem_of_not_mem_cons hbrace
    cases hblank : isBlank d with
    | false =>
      rw [afterBrace?, cons_append, dropWhile_cons_of_neg (by simp [hblank])]
      simp [after?, hd]
    | true =>
      have hlater : ∃ c ∈ u, isBlank c = false := by
        obtain ⟨c, hc, hcsolid⟩ := hsolid
        rcases mem_cons.mp hc with rfl | hc
        · simp [hblank] at hcsolid
        · exact ⟨c, hc, hcsolid⟩
      have hrest := ih hmore hlater
      rw [afterBrace?, cons_append, dropWhile_cons_of_pos hblank]
      exact hrest

theorem implementsAndBrace?_eq_none (hu : IsDotted u)
    (rest : List Char) : implementsAndBrace? (u ++ rest) = none := by
  have hclause : clause? "implements".toList afterBrace? (u ++ rest) = none := by
    rw [clause?, afterBlanks?_eq_none (hu.isType.isSolid rest)]
    rfl
  have hbrace : afterBrace? (u ++ rest) = none :=
    afterBrace?_eq_none (hu.isClause.notMem (by decide))
      (hu.isClause.exists_solid (suffix_refl u) hu.1) rest
  simp only [implementsAndBrace?, hclause, hbrace, map_none]

private theorem implementsAndBrace?_written (hx : IsClause x) (rest : List Char) :
    implementsAndBrace? (" implements ".toList ++ (x ++ ' ' :: '\x7b' :: rest)) =
      some (some x, rest) := by
  have hclause : clause? "implements".toList afterBrace?
      (' ' :: ("implements".toList ++ ' ' :: (x ++ ' ' :: '\x7b' :: rest))) = some (x, rest) := by
    refine clause?_written (by decide) hx rfl fun u hu hne => ?_
    exact afterBrace?_eq_none (fun hmem => hx.notMem (by decide) (hu.mem hmem))
      (hx.exists_solid hu hne) _
  have hword : " implements ".toList = ' ' :: ("implements".toList ++ [' ']) := by decide
  rw [hword, cons_append, append_assoc, singleton_append, implementsAndBrace?, hclause]

private theorem clausesAndBrace?_extends {after : List Char} (hx : IsDotted x)
    {impl : Option (List Char)} (hafter : implementsAndBrace? after = some (impl, rest)) :
    clausesAndBrace? (" extends ".toList ++ (x ++ after)) = some (some x, impl, rest) := by
  have hclause : clause? "extends".toList implementsAndBrace?
      (' ' :: ("extends".toList ++ ' ' :: (x ++ after))) = some (x, impl, rest) := by
    refine clause?_written (by decide) hx.isClause hafter fun u hu hne => ?_
    exact implementsAndBrace?_eq_none ⟨hne, fun c hc => hx.2 c (hu.mem hc)⟩ after
  have hword : " extends ".toList = ' ' :: ("extends".toList ++ [' ']) := by decide
  rw [hword, cons_append, append_assoc, singleton_append, clausesAndBrace?, hclause]

theorem TypeForm.isClause_interfaceNames? (t : TypeForm) :
    ∀ names ∈ t.interfaceNames?, IsClause names := by
  intro names hnames
  unfold interfaceNames? at hnames
  split at hnames
  · simp at hnames
  · next hne =>
    cases hnames
    exact .intercalate (by simpa using hne) t.isDotted_interfaces

theorem clausesAndBrace?_written (t : TypeForm) (rest : List Char) :
    clausesAndBrace? (t.clauses ++ ' ' :: '\x7b' :: rest) =
      some (t.parent, t.interfaceNames?, rest) := by
  have himpl : implementsAndBrace? (clause " implements ".toList t.interfaceNames? ++
      ' ' :: '\x7b' :: rest) = some (t.interfaceNames?, rest) := by
    have hclause := t.isClause_interfaceNames?
    cases hnames : t.interfaceNames? with
    | none => rfl
    | some names =>
      rw [clause, append_assoc]
      exact implementsAndBrace?_written (hclause names hnames) rest
  rw [clauses, append_assoc]
  cases hparent : t.parent with
  | some x =>
    rw [clause, append_assoc]
    exact clausesAndBrace?_extends (t.isDotted_parent x hparent) himpl
  | none =>
    have hnone : clause? "extends".toList implementsAndBrace?
        (clause " implements ".toList t.interfaceNames? ++ ' ' :: '\x7b' :: rest) =
        none := by
      cases t.interfaceNames? <;> rfl
    rw [clause, nil_append]
    simp only [clausesAndBrace?, hnone, himpl, map_some]

theorem Kind.isType_word (kind : Kind) : IsType kind.word.toList := by
  cases kind <;> decide

theorem afterTypeModifier_gap (modifier : TypeModifier) (kind : Kind) {gap : List Char}
    (hne : gap ≠ []) (hgap : ∀ c ∈ gap, isBlank c) (rest : List Char) :
    afterTypeModifier (modifier.word ++ (gap ++ (kind.word.toList ++ rest))) =
      kind.word.toList ++ rest := by
  have hskip (word : List Char) :
      (after? word (word ++ (gap ++ (kind.word.toList ++ rest)))).bind afterBlanks? =
        some (kind.word.toList ++ rest) := by
    rw [after?_append, bind_some]
    exact afterBlanks?_gap hne hgap (kind.isType_word.isSolid rest)
  cases modifier with
  | isAbstract =>
    have hword : TypeModifier.isAbstract.word = "abstract".toList := rfl
    rw [afterTypeModifier, hword]
    beta_reduce
    rw [hskip, orElse_some, getD_some]
  | isFinal =>
    have hword : TypeModifier.isFinal.word = "final".toList := rfl
    have hother : (after? "abstract".toList
        ("final".toList ++ (gap ++ (kind.word.toList ++ rest)))).bind afterBlanks? = none := by
      simp [after?]
    rw [afterTypeModifier, hword]
    beta_reduce
    rw [hother, hskip, orElse_none, getD_some]

theorem header_gaps (modifier : Option TypeModifier) (kind : Kind) {gap₁ gap₂ gap₃ : List Char}
    (hne₁ : gap₁ ≠ []) (hgap₁ : ∀ c ∈ gap₁, isBlank c)
    (hne₂ : modifier.isSome → gap₂ ≠ []) (hgap₂ : ∀ c ∈ gap₂, isBlank c)
    (hne₃ : gap₃ ≠ []) (hgap₃ : ∀ c ∈ gap₃, isBlank c) (hrest : IsSolid rest) :
    header ("public".toList ++ (gap₁ ++ (modifier.elim [] (·.word ++ gap₂) ++
      (kind.word.toList ++ (gap₃ ++ rest))))) =
      (run? isWord rest).bind fun found => (clausesAndBrace? found.2).bind
        fun read => some (⟨kind, found.1, read.1, read.2.1⟩, read.2.2) := by
  have hmodifier (x : List Char) :
      IsSolid (modifier.elim [] (·.word ++ gap₂) ++ (kind.word.toList ++ x)) ∧
        afterTypeModifier (modifier.elim [] (·.word ++ gap₂) ++ (kind.word.toList ++ x)) =
          kind.word.toList ++ x := by
    cases modifier with
    | none =>
      refine ⟨kind.isType_word.isSolid x, ?_⟩
      cases kind <;> rfl
    | some modifier =>
      rw [Option.elim_some, append_assoc]
      refine ⟨?_, afterTypeModifier_gap modifier kind (hne₂ rfl) hgap₂ x⟩
      cases modifier <;> exact isSolid_cons (by decide) _
  have hkind (x : List Char) : kindWord? (kind.word.toList ++ x) = some (kind, x) := by
    cases kind <;> rfl
  simp only [header, Option.bind_eq_bind, Option.pure_def]
  rw [after?_append, Option.bind_some, afterBlanks?_gap hne₁ hgap₁ (hmodifier _).1, Option.bind_some,
    (hmodifier _).2, hkind, Option.bind_some, afterBlanks?_gap hne₃ hgap₃ hrest, Option.bind_some]

theorem header_written (t : TypeForm) (rest : List Char) :
    header (t.header ++ rest) = some (⟨t.kind, t.name, t.parent, t.interfaceNames?⟩, rest) := by
  have hname : run? isWord (t.name ++ (t.clauses ++ ' ' :: '\x7b' :: rest)) =
      some (t.name, t.clauses ++ ' ' :: '\x7b' :: rest) := by
    have hhead : (t.clauses ++ ' ' :: '\x7b' :: rest).head? = some ' ' := by
      unfold TypeForm.clauses
      cases t.parent <;> cases t.interfaceNames? <;> rfl
    refine run?_append t.isName_name.1 t.isName_name.2 fun c hc => ?_
    obtain rfl : ' ' = c := by simpa [hhead] using hc
    decide
  have hspace : [' '] ≠ [] ∧ ∀ c ∈ [' '], isBlank c := by decide
  have hread := header_gaps t.modifier t.kind hspace.1 hspace.2 (fun _ => hspace.1) hspace.2 hspace.1
    hspace.2 (t.isName_name.isType.isSolid (t.clauses ++ ' ' :: '\x7b' :: rest))
  rw [hname, bind_some, clausesAndBrace?_written, bind_some] at hread
  rw [← hread]
  unfold TypeForm.header
  cases t.modifier <;> simp [-String.reduceToList]

end JarAtlas.Java
