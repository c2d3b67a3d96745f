import JarAtlas.Proofs.Java.LegalHeaders

/-!
What is reported as the parent of a type whose `extends` clause has type arguments. The arguments are
left out from each opening bracket to the next closing one on the line, so they go without a trace
exactly if they are not nested and stand on one line. Of nested arguments, closing brackets are left
behind: a stretch takes away one of them, and the first stretch at least two opening ones.
-/

open List Option

namespace JarAtlas.Java

open Text

/-! ### Leaving out type arguments -/

/-- What is left of a text: a stretch from an opening bracket to the next closing one goes if it
stands on one line, and everything else stays. -/
inductive Leaves : List Char → List Char → Prop where
  | nil : Leaves [] []
  | keep {c : Char} {cs left : List Char}
      (hline : c = '<' → ∀ inner rest, cs = inner ++ '>' :: rest → '>' ∉ inner → '\n' ∈ inner)
      (hrest : Leaves cs left) : Leaves (c :: cs) (c :: left)
  | stretch {inner rest left : List Char} (hinner : '>' ∉ inner) (hline : '\n' ∉ inner)
      (hrest : Leaves rest left) : Leaves ('<' :: (inner ++ '>' :: rest)) left

theorem leaves_dropTypeArguments (cs : List Char) : Leaves cs (dropTypeArguments cs) := by
  induction hn : cs.length using Nat.strong_induction_on generalizing cs with
  | _ n ih =>
    subst hn
    cases cs with
    | nil => exact .nil
    | cons c cs =>
      have hmore := ih cs.length (Nat.lt_succ_self _) cs rfl
      by_cases hc : c = '<'
      · subst hc
        rcases dropTypeArguments_less cs with
          ⟨inner, rest, rfl, hinner, hline, hdrop⟩ | ⟨hline, hkeep⟩
        · rw [hdrop]
          refine .stretch hinner hline (ih rest.length ?_ rest rfl)
          simp only [length_cons, length_append]
          omega
        · rw [hkeep]
          exact .keep (fun _ => hline) hmore
      · rw [dropTypeArguments_cons hc]
        exact .keep (fun h => absurd h hc) hmore

private theorem exists_first_closing {x u inner rest : List Char}
    (hsplit : x ++ '>' :: u = inner ++ '>' :: rest) (hinner : '>' ∉ inner) :
    ∃ rest', x ++ ['>'] = inner ++ '>' :: rest' := by
  have hfront : inner <+: x := prefix_of_prefix_append_cons hinner ⟨'>' :: rest, hsplit.symm⟩
  obtain ⟨more, rfl⟩ := hfront
  rw [append_assoc] at hsplit
  have hmore := append_cancel_left hsplit
  cases more with
  | nil => exact ⟨[], by simp⟩
  | cons c more =>
    obtain rfl : c = '>' := (cons.inj hmore).1
    exact ⟨more ++ ['>'], by simp⟩

namespace Leaves

variable {cs left : List Char}

theorem dropTypeArguments_eq (hleaves : Leaves cs left) : dropTypeArguments cs = left := by
  induction hleaves with
  | nil => rfl
  | @keep c cs left hline _ ih =>
    by_cases hc : c = '<'
    · subst hc
      rcases dropTypeArguments_less cs with ⟨inner, rest, hcs, hinner, hfree, -⟩ | ⟨-, hkeep⟩
      · exact absurd (hline rfl inner rest hcs hinner) hfree
      · rw [hkeep, ih]
    · rw [dropTypeArguments_cons hc, ih]
  | @stretch inner rest left hinner hline _ ih =>
    rcases dropTypeArguments_less (inner ++ '>' :: rest) with
      ⟨inner', rest', hsplit, hinner', -, hdrop⟩ | ⟨hkept, -⟩
    · obtain rfl := eq_of_append_cons_eq hinner hinner' hsplit
      obtain rfl := (cons.inj (append_cancel_left hsplit)).2
      rw [hdrop, ih]
    · exact absurd (hkept inner rest rfl hinner) hline

theorem append {x u left' : List Char} (hx : Leaves (x ++ ['>']) left) (hu : Leaves u left') :
    Leaves (x ++ '>' :: u) (left ++ left') := by
  generalize hcs : x ++ ['>'] = cs at hx
  induction hx generalizing x with
  | nil => simp at hcs
  | keep hline hrest ih =>
    cases x with
    | nil =>
      obtain ⟨rfl, rfl⟩ := cons.inj hcs
      cases hrest
      exact .keep (fun h => absurd h (by decide)) hu
    | cons d y =>
      obtain ⟨rfl, rfl⟩ := cons.inj hcs
      refine .keep (fun hc inner rest hsplit hinner => ?_) (ih rfl)
      obtain ⟨rest', hsplit'⟩ := exists_first_closing hsplit hinner
      exact hline hc inner rest' hsplit' hinner
  | @stretch inner rest left hinner hline hrest ih =>
    cases x with
    | nil => exact absurd (cons.inj hcs).1 (by decide)
    | cons d y =>
      obtain ⟨rfl, hy⟩ := cons.inj hcs
      rcases eq_nil_or_concat rest with rfl | ⟨z, e, rfl⟩
      · obtain ⟨rfl, -⟩ := append_inj' hy rfl
        cases hrest
        exact .stretch hinner hline hu
      · have hz : y ++ ['>'] = (inner ++ '>' :: z) ++ [e] := by simpa using hy
        obtain ⟨rfl, he⟩ := append_inj' hz rfl
        obtain rfl : '>' = e := by simpa using he
        have hmore := ih (x := z) (by simp)
        simpa using stretch hinner hline hmore

theorem count_le (hleaves : Leaves cs left) :
    left.count '<' + cs.count '>' ≤ left.count '>' + cs.count '<' := by
  induction hleaves with
  | nil => exact Nat.le_refl _
  | keep _ _ ih =>
    simp only [count_cons]
    omega
  | @stretch inner rest _ hinner _ _ ih =>
    have hclosing : ('<' :: (inner ++ '>' :: rest)).count '>' = rest.count '>' + 1 := by
      rw [count_cons_of_ne (by decide), count_append,
        count_eq_zero_of_not_mem hinner, count_cons_self, Nat.zero_add]
    have hopening : ('<' :: (inner ++ '>' :: rest)).count '<' =
        inner.count '<' + rest.count '<' + 1 := by
      rw [count_cons_self, count_append, count_cons_of_ne (by decide)]
    omega

theorem of_arguments {inner : List Char} (hinner : Balanced '<' '>' inner)
    (hleaves : Leaves ('<' :: (inner ++ ['>'])) left) :
    ('<' ∉ inner ∧ '\n' ∉ inner → left = []) ∧
      (¬ ('<' ∉ inner ∧ '\n' ∉ inner) → '<' ∈ left ∨ '>' ∈ left) := by
  have hpair : '<' ∉ inner ↔ '>' ∉ inner := by
    rw [← count_eq_zero, ← count_eq_zero, hinner.closed]
  generalize hcs : inner ++ ['>'] = cs at hleaves
  cases hleaves with
  | keep hline _ =>
    refine ⟨fun hflat => ?_, fun _ => .inl mem_cons_self⟩
    exact absurd (hline rfl inner [] hcs.symm (hpair.mp hflat.1)) hflat.2
  | @stretch first rest _ hfirst hline hrest =>
    refine ⟨fun hflat => ?_, fun hnested => .inr ?_⟩
    · obtain rfl := eq_of_append_cons_eq (hpair.mp hflat.1) hfirst hcs
      obtain rfl := (cons.inj (append_cancel_left hcs)).2
      cases hrest
      rfl
    · -- The first stretch takes away two opening brackets and one closing bracket.
      have hmem : '>' ∈ inner := by
        by_contra hnone
        obtain rfl := eq_of_append_cons_eq hnone hfirst hcs
        exact hnested ⟨hpair.mpr hnone, hline⟩
      obtain ⟨first', rest', rfl, hfirst'⟩ := eq_append_cons_of_mem hmem
      rw [append_assoc] at hcs
      obtain rfl := eq_of_append_cons_eq hfirst' hfirst hcs
      obtain rfl : rest' ++ ['>'] = rest := (cons.inj (append_cancel_left hcs)).2
      have hopened := hinner.opened (first' ++ ['>'])
        ⟨rest', by rw [append_assoc, singleton_append]⟩
      have hclosed := hinner.closed
      have hle := hrest.count_le
      have hzero := count_eq_zero_of_not_mem hfirst'
      have hsigns : ['>'].count '>' = 1 ∧ ['>'].count '<' = 0 := ⟨rfl, rfl⟩
      simp only [count_append, ← singleton_append (x := '>') (l := rest'), hsigns,
        hzero] at hopened hclosed hle
      exact count_pos_iff.mp (by omega)

end Leaves

/-! ### Parents with type arguments -/

/-- The text of a parent: a name and type arguments of any depth, made of the characters that a clause
may hold. -/
structure ParentClause where
  name : List Char
  gap : List Char
  inner : List Char
  isDotted_name : IsDotted name
  blank_gap : ∀ c ∈ gap, Text.isBlank c = true
  clause_inner : ∀ c ∈ inner, isClauseChar c = true
  balanced_inner : Balanced '<' '>' inner
  /-- The keyword of the next clause is no part of the parent. -/
  keyword_free : "implements".toList ∉ Text.words (name ++ (gap ++ '<' :: (inner ++ ['>'])))

namespace ParentClause

variable (p : ParentClause)

def text : List Char :=
  p.name ++ (p.gap ++ '<' :: (p.inner ++ ['>']))

/-- The arguments have no arguments themselves, and stand on one line. -/
def IsFlat : Prop :=
  '<' ∉ p.inner ∧ '\n' ∉ p.inner

theorem text_eq : p.text = (p.name ++ (p.gap ++ '<' :: p.inner)) ++ ['>'] := by
  simp [text]

theorem isSolid_text (rest : List Char) : IsSolid (p.text ++ rest) := by
  rw [text, append_assoc]
  exact p.isDotted_name.isType.isSolid _

theorem isClauseChar_text : ∀ c ∈ p.text, isClauseChar c := by
  have hsigns : isClauseChar '<' = true ∧ isClauseChar '>' = true := by decide
  simp only [text, forall_mem_append, forall_mem_cons]
  exact ⟨p.isDotted_name.isClause.isClauseChar, fun c hc => isClauseChar_of_isBlank (p.blank_gap c hc),
    hsigns.1, p.clause_inner, hsigns.2, by simp⟩

theorem leaves_text : ∃ left, Leaves p.text (p.name ++ (p.gap ++ left)) ∧ (p.IsFlat → left = []) ∧
    (¬ p.IsFlat → '<' ∈ left ∨ '>' ∈ left) := by
  have hleaves := leaves_dropTypeArguments ('<' :: (p.inner ++ ['>']))
  refine ⟨_, ?_, hleaves.of_arguments p.balanced_inner⟩
  have hname : '<' ∉ p.name := p.isDotted_name.isClause.notMem (by decide)
  have hgap : '<' ∉ p.gap := fun hmem => absurd (p.blank_gap _ hmem) (by decide)
  rw [← dropTypeArguments_append_of_notMem hgap, ← dropTypeArguments_append_of_notMem hname]
  exact leaves_dropTypeArguments p.text

theorem clauseNames_text : (p.IsFlat → clauseNames p.text = p.name) ∧
    (¬ p.IsFlat → '<' ∈ clauseNames p.text ∨ '>' ∈ clauseNames p.text) := by
  obtain ⟨left, hleaves, hflat, hnested⟩ := p.leaves_text
  have htrim : trim p.text = p.text := by
    have hsolid := p.isSolid_text []
    rw [append_nil] at hsolid
    refine trimBy_eq_self hsolid fun c hc => ?_
    rw [text_eq, getLast?_concat] at hc
    cases hc
    decide
  rw [clauseNames, htrim, hleaves.dropTypeArguments_eq]
  refine ⟨fun h => ?_, fun h => ?_⟩
  · rw [hflat h, append_nil]
    exact trimBy_append_gap p.isDotted_name.notBlank p.blank_gap
  · have hmem {c : Char} (hc : c ∈ left) (hsolid : isBlank c = false) :
        c ∈ trim (p.name ++ (p.gap ++ left)) :=
      mem_trimBy_of_mem (mem_append_right _ (mem_append_right _ hc)) hsolid
    exact (hnested h).imp (hmem · (by decide)) (hmem · (by decide))

theorem brackets_notMem_clauseNames_iff :
    '<' ∉ clauseNames p.text ∧ '>' ∉ clauseNames p.text ↔ p.IsFlat := by
  obtain ⟨hflat, hnested⟩ := p.clauseNames_text
  constructor
  · intro hfree
    by_contra hother
    rcases hnested hother with hmem | hmem
    · exact hfree.1 hmem
    · exact hfree.2 hmem
  · intro h
    rw [hflat h]
    have hname {c : Char} := p.isDotted_name.isClause.notMem (c := c)
    exact ⟨hname (by decide), hname (by decide)⟩

theorem clauseNames_text_eq_iff : clauseNames p.text = p.name ↔ p.IsFlat := by
  refine ⟨fun hname => ?_, p.clauseNames_text.1⟩
  rw [← p.brackets_notMem_clauseNames_iff, hname]
  have hname {c : Char} := p.isDotted_name.isClause.notMem (c := c)
  exact ⟨hname (by decide), hname (by decide)⟩

theorem clauseNames_text_append {c : Char} (hc : isBlank c = false) (hother : c ≠ '<')
    (w : List Char) : clauseNames (p.text ++ c :: w) ≠ p.name := by
  obtain ⟨left, hleaves, -⟩ := p.leaves_text
  have hend : trim (p.text ++ c :: w) = _ := trimBy_append_cons (p.isSolid_text [c]) hc w
  rw [clauseNames, hend]
  generalize (w.reverse.dropWhile isBlank).reverse = v
  -- The text of the parent ends with a bracket, so the rest is read on its own.
  have hdrop : dropTypeArguments (p.text ++ c :: v) =
      (p.name ++ (p.gap ++ left)) ++ c :: dropTypeArguments v := by
    rw [text_eq] at hleaves ⊢
    rw [append_assoc, singleton_append, ← dropTypeArguments_cons hother]
    exact (hleaves.append (leaves_dropTypeArguments (c :: v))).dropTypeArguments_eq
  have hsolid : IsSolid (p.name ++ (p.gap ++ left) ++ [c]) := by
    rw [append_assoc]
    exact p.isDotted_name.isType.isSolid _
  rw [hdrop, trim, trimBy_append_cons hsolid hc]
  intro hname
  have hlength := congrArg length hname
  simp only [length_append, length_cons] at hlength
  omega

end ParentClause

/-- What comes after the parent: an `implements` clause, if there is one, and the opening brace. -/
structure HeaderEnd where
  gap : List Char
  interfaces : Option (List Char × List Char)
  blank_gap : ∀ c ∈ gap, Text.isBlank c = true
  blank_interfaces : ∀ i ∈ interfaces, i.1 ≠ [] ∧ ∀ c ∈ i.1, Text.isBlank c = true
  clause_interfaces : ∀ i ∈ interfaces, i.2 ≠ [] ∧ IsSolid i.2 ∧ ∀ c ∈ i.2, isClauseChar c = true

namespace HeaderEnd

variable (e : HeaderEnd)

def clause : List Char :=
  e.interfaces.elim [] fun i => "implements".toList ++ (i.1 ++ i.2)

def text : List Char :=
  e.gap ++ (e.clause ++ ['\x7b'])

/-- A blank stands between the parent and the next clause. -/
def IsApart : Prop :=
  e.interfaces = none ∨ e.gap ≠ []

variable {e}

theorem implementsAndBrace?_of_isApart (he : e.IsApart) (post : List Char) :
    (implementsAndBrace? (e.text ++ post)).isSome := by
  rw [implementsAndBrace?_isSome, text, clause]
  have hblank := e.blank_interfaces
  have hclause := e.clause_interfaces
  cases hinterfaces : e.interfaces with
  | none =>
    right
    rw [elim_none, nil_append, append_assoc, singleton_append, afterBrace?_gap e.blank_gap]
    rfl
  | some i =>
    left
    obtain ⟨gap, names⟩ := i
    obtain ⟨hne', hgap'⟩ := hblank _ hinterfaces
    obtain ⟨hnames, hhead, hchars⟩ := hclause _ hinterfaces
    have hne : e.gap ≠ [] := he.resolve_left (by simp [hinterfaces])
    have hbrace : (afterBrace? ([] ++ '\x7b' :: post)).isSome := by
      rw [afterBrace?_gap (by simp)]
      rfl
    have hread := clause?_isSome (by decide : IsType "implements".toList) hne e.blank_gap hne' hgap'
      hnames hhead hchars hbrace
    simpa only [elim_some, append_assoc, nil_append, cons_append] using hread

theorem text_of_not_isApart (he : ¬ e.IsApart) : ∃ w, e.text = "implements".toList ++ w := by
  obtain ⟨hsome, hgap⟩ := not_or.mp he
  obtain ⟨i, hi⟩ := ne_none_iff_exists'.mp hsome
  refine ⟨i.1 ++ i.2 ++ ['\x7b'], ?_⟩
  rw [text, clause, hi, not_not.mp hgap, elim_some]
  simp only [nil_append, append_assoc]

theorem exists_clause (e : HeaderEnd) :
    ∃ x, e.text = x ++ ['\x7b'] ∧ ∀ c ∈ x, isClauseChar c := by
  have hword : ∀ c ∈ "implements".toList, isClauseChar c := by decide
  refine ⟨e.gap ++ e.clause, by rw [text, append_assoc], forall_mem_append.mpr
    ⟨fun c hc => isClauseChar_of_isBlank (e.blank_gap c hc), ?_⟩⟩
  have hblank := e.blank_interfaces
  have hclause := e.clause_interfaces
  rw [clause]
  cases hinterfaces : e.interfaces with
  | none => simp
  | some i =>
    rw [elim_some, forall_mem_append, forall_mem_append]
    exact ⟨hword, fun c hc => isClauseChar_of_isBlank ((hblank i hinterfaces).2 c hc),
      (hclause i hinterfaces).2.2⟩

end HeaderEnd

variable {text after u : List Char}

private theorem mem_words_of_gap {v gap tail : List Char} {c d : Char} (htext : v ++ [c] <:+ text)
    (hc : isBlank c = false) (hafter : isWord c = false ∨ ∀ e ∈ after.head?, isWord e = false)
    (hne : gap ≠ []) (hgap : ∀ e ∈ gap, isBlank e) (hd : isBlank d)
    (hsplit : v ++ [c] ++ after = gap ++ ("implements".toList ++ d :: tail)) :
    "implements".toList ∈ words text := by
  have hletters : ∀ e ∈ "implements".toList, isWord e := by decide
  have hwords : words "implements".toList = ["implements".toList] := by decide
  obtain ⟨before, rfl⟩ := htext
  have hnotgap : ∀ e ∈ gap, e ≠ c := by
    rintro e he rfl
    rw [hgap e he] at hc
    cases hc
  rw [← append_assoc gap] at hsplit
  rcases append_eq_append_iff.mp hsplit with ⟨rest, hword, hrest⟩ | ⟨rest, hword, hrest⟩
  · cases rest with
    | nil =>
      rw [append_nil] at hword
      rw [← hword, words_append_gap hne hgap, hwords]
      simp
    | cons e rest =>
      -- The keyword would start in the last word of the clause and end after it.
      exfalso
      rcases append_eq_append_iff.mp hword with ⟨x, hx, hlast⟩ | ⟨x, hx, -⟩
      · have he : isWord e := hletters e (by rw [hlast]; simp)
        have hcword : isWord c := by
          rcases eq_nil_or_concat x with rfl | ⟨y, z, rfl⟩
          · exact absurd rfl (hnotgap c (by rw [append_nil] at hx; rw [← hx]; simp))
          · rw [concat_eq_append, ← append_assoc] at hx
            obtain rfl : c = z := by simpa using (append_inj' hx rfl).2
            exact hletters c (by rw [hlast]; simp)
        rcases hafter with hfalse | hfalse
        · rw [hcword] at hfalse
          cases hfalse
        · rw [hfalse e (by rw [hrest]; simp)] at he
          cases he
      · exact hnotgap c (by rw [hx]; simp) rfl
  · cases rest with
    | nil =>
      rw [append_nil] at hword
      rw [hword, words_append_gap hne hgap, hwords]
      simp
    | cons e rest =>
      obtain ⟨rfl, -⟩ := cons.inj hrest
      rw [hword, append_assoc, words_append_gap hne hgap, words_append_cons hd, hwords]
      simp

theorem implementsAndBrace?_eq_none_of_words (hchars : ∀ c ∈ text, isClauseChar c)
    (hlast : ∀ c ∈ text.getLast?, isBlank c = false) (hkeyword : "implements".toList ∉ words text)
    (hafter : (∀ c ∈ text.getLast?, isWord c = false) ∨
      ∀ c ∈ after.head?, isWord c = false) (hu : u <:+ text)
    (hne : u ≠ []) : implementsAndBrace? (u ++ after) = none := by
  obtain ⟨v, c, rfl⟩ := (eq_nil_or_concat' u).resolve_left hne
  have hc : c ∈ text.getLast? := by
    obtain ⟨before, rfl⟩ := hu
    simp [← append_assoc]
  have hbrace : afterBrace? (v ++ [c] ++ after) = none := by
    refine afterBrace?_eq_none (fun hmem => ?_) ⟨c, by simp, hlast c hc⟩ after
    exact absurd (hchars _ (hu.mem hmem)) (by decide)
  have hclause : clause? "implements".toList afterBrace? (v ++ [c] ++ after) = none := by
    cases hread : clause? "implements".toList afterBrace? (v ++ [c] ++ after) with
    | none => rfl
    | some r =>
      exfalso
      simp only [clause?, bind_eq_bind, bind_eq_some_iff] at hread
      obtain ⟨r₁, hblanks, r₂, hword, hfound⟩ := hread
      obtain ⟨gap, hgap_ne, htext, hgap⟩ := afterBlanks?_eq_some hblanks
      obtain ⟨n, hn, -⟩ := exists_of_findSome?_eq_some hfound
      obtain ⟨d, tail, rfl, hd⟩ : ∃ d tail, r₂ = d :: tail ∧ isBlank d := by
        cases r₂ with
        | nil => simp at hn
        | cons d tail =>
          refine ⟨d, tail, rfl, ?_⟩
          by_contra hd
          simp [takeWhile_cons_of_neg hd] at hn
      rw [after?_eq_some hword] at htext
      exact hkeyword (mem_words_of_gap hu (hlast c hc) (hafter.imp_left (· c hc)) hgap_ne hgap hd
        htext)
  simp only [implementsAndBrace?, hclause, hbrace, map_none]

theorem ParentClause.implementsAndBrace?_eq_none (p : ParentClause) (hu : u <:+ p.text)
    (hne : u ≠ []) (after : List Char) : implementsAndBrace? (u ++ after) = none := by
  have hlast : p.text.getLast? = some '>' := by
    rw [p.text_eq, getLast?_concat]
  refine implementsAndBrace?_eq_none_of_words p.isClauseChar_text ?_ p.keyword_free (.inl ?_) hu hne
  all_goals
    rw [hlast]
    simp only [mem_some_iff, forall_eq']
    decide

section Clause

variable {β : Type} {next : List Char → Option β}

theorem shortestClause?_skip {x after : List Char} (hchars : ∀ c ∈ x, isClauseChar c)
    (hnext : ∀ u, u <:+ x → next (u ++ after) = none) (done : List Char) :
    shortestClause? next done (x ++ after) = shortestClause? next (x.reverse ++ done) after := by
  induction x generalizing done with
  | nil => rfl
  | cons c x ih =>
    obtain ⟨hc, hchars⟩ := forall_mem_cons.mp hchars
    have hmore := ih hchars (fun u hu => hnext u (hu.trans (suffix_cons c x))) (c :: done)
    rw [cons_append, shortestClause?, if_pos hc, hnext x (suffix_cons c x)]
    simpa using hmore

theorem shortestClause?_eq_some {done cs text : List Char} {c : Char} {b : β}
    (hread : shortestClause? next done (c :: cs) = some (text, b)) :
    ∃ w, text = done.reverse ++ c :: w := by
  induction cs generalizing done c with
  | nil =>
    simp only [shortestClause?] at hread
    split at hread
    · split at hread
      · cases hread
        exact ⟨[], by simp⟩
      · cases hread
    · cases hread
  | cons d cs ih =>
    rw [shortestClause?] at hread
    split at hread
    · split at hread
      · cases hread
        exact ⟨[], by simp⟩
      · obtain ⟨w, rfl⟩ := ih hread
        exact ⟨d :: w, by simp⟩
    · cases hread

end Clause

theorem shortestClause?_parent (p : ParentClause) (e : HeaderEnd) (post : List Char) :
    ∃ text read, shortestClause? implementsAndBrace? [] (p.text ++ (e.text ++ post)) =
        some (text, read) ∧ (e.IsApart → text = p.text) ∧
      (¬ e.IsApart → ∃ w, text = p.text ++ 'i' :: w) := by
  have hne : p.text ≠ [] := by simp [ParentClause.text]
  by_cases he : e.IsApart
  · obtain ⟨read, hread⟩ := isSome_iff_exists.mp (HeaderEnd.implementsAndBrace?_of_isApart he post)
    refine ⟨p.text, read, ?_, fun _ => rfl, fun h => absurd he h⟩
    exact shortestClause?_append hne p.isClauseChar_text hread
      (fun u hu hne => p.implementsAndBrace?_eq_none hu hne _) []
  · obtain ⟨w, hw⟩ := HeaderEnd.text_of_not_isApart he
    obtain ⟨x, hx, hchars⟩ := e.exists_clause
    have hword : IsDotted "implements".toList := by decide
    have hnext (u : List Char) (hu : u <:+ p.text) :
        implementsAndBrace? (u ++ (e.text ++ post)) = none := by
      by_cases hu_ne : u = []
      · rw [hu_ne, nil_append, hw, append_assoc]
        exact implementsAndBrace?_eq_none hword _
      · exact p.implementsAndBrace?_eq_none hu hu_ne _
    have hskip := shortestClause?_skip p.isClauseChar_text hnext []
    have hbrace : (implementsAndBrace? ('\x7b' :: post)).isSome := by
      refine implementsAndBrace?_isSome.mpr (.inr ?_)
      have hread : afterBrace? ([] ++ '\x7b' :: post) = some post := afterBrace?_gap (by simp) post
      rw [nil_append] at hread
      rw [hread]
      rfl
    have hsome := shortestClause?_isSome (append_ne_nil_of_left_ne_nil hne x)
      (forall_mem_append.mpr ⟨p.isClauseChar_text, hchars⟩) hbrace []
    have htext : p.text ++ x ++ '\x7b' :: post = p.text ++ (e.text ++ post) := by
      rw [hx]
      simp only [append_assoc, singleton_append]
    rw [htext] at hsome
    obtain ⟨⟨text, read⟩, hread⟩ := isSome_iff_exists.mp hsome
    refine ⟨text, read, hread, fun h => absurd h he, fun _ => ?_⟩
    have hletters : "implements".toList = 'i' :: "mplements".toList := by decide
    rw [hskip, hw, hletters, append_assoc, cons_append] at hread
    obtain ⟨v, rfl⟩ := shortestClause?_eq_some hread
    exact ⟨v, by simp⟩

/-! ### Headers with a parent -/

variable {modifier : Option TypeModifier} {kind : Kind} {name front gap : List Char}

theorem exists_header_eq {keyword : List Char} (hsolid : IsSolid front)
    (hwords : words front = "public".toList :: (modifier.toList.map TypeModifier.word ++
      [kind.word.toList, name, keyword])) (hname : IsName name) (hne : gap ≠ [])
    (hgap : ∀ c ∈ gap, isBlank c) (rest : List Char) :
    ∃ gap₁ gap₂, gap₁ ≠ [] ∧ (∀ c ∈ gap₁, isBlank c) ∧ gap₂ ≠ [] ∧
      (∀ c ∈ gap₂, isBlank c) ∧ header (front ++ (gap ++ rest)) =
        (clausesAndBrace? (gap₁ ++ (keyword ++ (gap₂ ++ rest)))).bind
          fun read => some (⟨kind, name, read.1, read.2.1⟩, read.2.2) := by
  obtain ⟨gap₁, rest₁, rfl, hgap₁, hrest₁, hwords₁, hne₁⟩ := exists_word hsolid hwords
  -- What comes after the modifier starts with the kind.
  obtain ⟨gap₂, rest₂, rfl, hne₂, hgap₂, hrest₂, hwords₂⟩ : ∃ gap₂ rest₂,
      rest₁ = modifier.elim [] (·.word ++ gap₂) ++ rest₂ ∧ (modifier.isSome → gap₂ ≠ []) ∧
        (∀ c ∈ gap₂, isBlank c) ∧ IsSolid rest₂ ∧
        words rest₂ = [kind.word.toList, name, keyword] := by
    cases modifier with
    | none => exact ⟨[], rest₁, rfl, nofun, by simp, hrest₁, hwords₁⟩
    | some modifier =>
      obtain ⟨gap₂, rest₂, rfl, hgap₂, hrest₂, hwords₂, hne₂⟩ := exists_word hrest₁ hwords₁
      exact ⟨gap₂, rest₂, (append_assoc _ _ _).symm, fun _ => hne₂ (cons_ne_nil _ _), hgap₂,
        hrest₂, hwords₂⟩
  obtain ⟨gap₃, rest₃, rfl, hgap₃, hrest₃, hwords₃, hne₃⟩ := exists_word hrest₂ hwords₂
  obtain ⟨gap₄, rest₄, rfl, hgap₄, hrest₄, hwords₄, hne₄⟩ := exists_word hrest₃ hwords₃
  obtain ⟨gap₅, rest₅, rfl, hgap₅, hrest₅, hwords₅, -⟩ := exists_word hrest₄ hwords₄
  obtain rfl := eq_nil_of_words_eq_nil hrest₅ hwords₅
  have hheader := header_gaps modifier kind (hne₁ (by simp)) hgap₁ hne₂ hgap₂
    (hne₃ (cons_ne_nil _ _)) hgap₃ (hname.isType.isSolid
      (gap₄ ++ (keyword ++ ((gap₅ ++ gap) ++ rest))))
  rw [run?_gap (fun _ => isWord_eq_false_of_isBlank) hname.1 hname.2
    (hne₄ (cons_ne_nil _ _)) hgap₄, bind_some] at hheader
  refine ⟨gap₄, gap₅ ++ gap, hne₄ (cons_ne_nil _ _), hgap₄,
    append_ne_nil_of_right_ne_nil gap₅ hne, forall_mem_append.mpr ⟨hgap₅, hgap⟩, ?_⟩
  rw [← hheader]
  simp only [append_assoc, append_nil]

theorem header_eq_of_extends {rest text after : List Char} {impl : Option (List Char)}
    (hsolid : IsSolid front)
    (hwords : words front = "public".toList :: (modifier.toList.map TypeModifier.word ++
      [kind.word.toList, name, "extends".toList])) (hname : IsName name) (hne : gap ≠ [])
    (hgap : ∀ c ∈ gap, isBlank c) (hrest : IsSolid rest)
    (hread : shortestClause? implementsAndBrace? [] rest = some (text, impl, after)) :
    header (front ++ (gap ++ rest)) = some (⟨kind, name, some text, impl⟩, after) := by
  obtain ⟨gap₁, gap₂, hne₁, hgap₁, hne₂, hgap₂, hheader⟩ :=
    exists_header_eq hsolid hwords hname hne hgap rest
  have hclause := clause?_gap (by decide : IsType "extends".toList) hne₁ hgap₁ hne₂ hgap₂ hrest hread
  simp only [clausesAndBrace?, hclause, bind_some] at hheader
  exact hheader

/-- The parent of a header that is found is the name alone exactly if the type arguments are not
nested, stand on one line and are kept apart from the next clause. -/
theorem parent_eq_name_iff (p : ParentClause) (e : HeaderEnd) {modifier : Option TypeModifier}
    {kind : Kind} {cs package before front name gap post : List Char}
    (hpackage : packageOf? cs = some package)
    (hcs : cs = before ++ (front ++ (gap ++ (p.text ++ (e.text ++ post)))))
    (hsolid : IsSolid front)
    (hwords : Text.words front = "public".toList :: (modifier.toList.map TypeModifier.word ++
      [kind.word.toList, name, "extends".toList]))
    (hname : IsName name) (hne : gap ≠ []) (hgap : ∀ c ∈ gap, Text.isBlank c = true) :
    ((∃ d ∈ extractChars cs, ReportedAt cs before.length d) ↔
      ∀ other ∈ scan header cs, ¬ other.Crosses before.length) ∧
    (SetOff before → ∀ other ∈ scan header cs, ¬ other.Crosses before.length) ∧
    ∀ d, ReportedAt cs before.length d → d.kind = kind ∧ d.name = String.ofList name ∧
      ∃ parent, d.parent = some (String.ofList parent) ∧
        (parent = p.name ↔ p.IsFlat ∧ e.IsApart) ∧
        (e.IsApart → ('<' ∉ parent ∧ '>' ∉ parent ↔ p.IsFlat)) := by
  subst hcs
  obtain ⟨text, ⟨impl, after⟩, hclause, hapart, hglued⟩ := shortestClause?_parent p e post
  have hread := header_eq_of_extends hsolid hwords hname hne hgap (p.isSolid_text _) hclause
  generalize front ++ (gap ++ (p.text ++ (e.text ++ post))) = rest at hread hpackage ⊢
  have hplace : (∃ m ∈ scan header (before ++ rest), m.start = 0 + before.length) ↔ _ :=
    exists_mem_scanFrom_iff endsWith_header before
  rw [Nat.zero_add, hread] at hplace
  refine ⟨?_, not_crosses_of_setOff, fun d hd => ?_⟩
  · rw [exists_reportedAt_iff hpackage, hplace]
    exact and_iff_right rfl
  · obtain ⟨package, m, -, hm, hstart, rfl⟩ := hd
    obtain ⟨rest', hread'⟩ := recognise_of_mem_scanFrom endsWith_header hm (by omega)
    obtain ⟨hvalue, -⟩ := Prod.mk.inj (Option.some.inj (hread.symm.trans hread'))
    refine ⟨?_, ?_, clauseNames text, ?_, ?_, fun he => ?_⟩
    · rw [TypeDecl.ofMatch, ← hvalue]
    · rw [TypeDecl.ofMatch, ← hvalue]
    · rw [TypeDecl.ofMatch, ← hvalue, Option.map_some]
    · by_cases he : e.IsApart
      · rw [hapart he, p.clauseNames_text_eq_iff, and_iff_left he]
      · obtain ⟨w, rfl⟩ := hglued he
        have hmore := p.clauseNames_text_append (by decide : Text.isBlank 'i' = false) (by decide) w
        exact ⟨fun h => absurd h hmore, fun h => absurd h.2 he⟩
    · rw [hapart he]
      exact p.brackets_notMem_clauseNames_iff

def braceEnd : HeaderEnd where
  gap := [' ']
  interfaces := none
  blank_gap := by decide
  blank_interfaces := by simp
  clause_interfaces := by simp

/-- A source with a class that has the given parent. -/
def parentText (p : ParentClause) : List Char :=
  "package p;\n".toList ++ ("public class A extends".toList ++ ([' '] ++
    (p.text ++ (braceEnd.text ++ ['\x7d']))))

def flatParent : ParentClause where
  name := "Base".toList
  gap := []
  inner := "Item".toList
  isDotted_name := by decide
  blank_gap := by simp
  clause_inner := by decide
  balanced_inner := by decide
  keyword_free := by decide

def nestedParent : ParentClause where
  name := "Base".toList
  gap := []
  inner := "List<Item>".toList
  isDotted_name := by decide
  blank_gap := by simp
  clause_inner := by decide
  balanced_inner := by decide
  keyword_free := by decide

/-- The parent is its name with a flat argument, and a bracket remains of a nested one. -/
theorem parent_eq_name_parentText :
    (∃ d ∈ extractChars (parentText flatParent), d.parent = some "Base") ∧
    ∃ d ∈ extractChars (parentText nestedParent), ∃ parent, d.parent = some (String.ofList parent) ∧
      parent ≠ "Base".toList ∧ ('<' ∈ parent ∨ '>' ∈ parent) := by
  have hfound (p : ParentClause) (hpackage : packageOf? (parentText p) = some ['p']) :
      ∃ d ∈ extractChars (parentText p), ∃ parent, d.parent = some (String.ofList parent) ∧
        (parent = p.name ↔ p.IsFlat) ∧ ('<' ∉ parent ∧ '>' ∉ parent ↔ p.IsFlat) := by
    have hname : IsName ['A'] := by decide
    have hspace : ∀ c ∈ [' '], Text.isBlank c = true := by decide
    have hsetOff : SetOff "package p;\n".toList := by
      have hlast : ("package p;\n".toList.reverse.dropWhile Text.isBlank).head? = some ';' := rfl
      rw [SetOff, hlast]
      simp only [Option.mem_some_iff, forall_eq']
      decide
    have hapart : braceEnd.IsApart := .inl rfl
    have hwords : Text.words "public class A extends".toList =
        "public".toList :: ((none : Option TypeModifier).toList.map TypeModifier.word ++
          [Kind.classType.word.toList, ['A'], "extends".toList]) := by decide
    obtain ⟨hreported, hfree, hparent⟩ := parent_eq_name_iff p braceEnd hpackage rfl
      (isSolid_cons (by decide) _) hwords hname (cons_ne_nil _ _) hspace
    obtain ⟨d, hd, hplace⟩ := hreported.mpr (hfree hsetOff)
    obtain ⟨-, -, parent, hsome, heq, hbrackets⟩ := hparent d hplace
    refine ⟨d, hd, parent, hsome, ?_, hbrackets hapart⟩
    rw [heq, and_iff_left hapart]
  constructor
  · obtain ⟨d, hd, parent, hsome, heq, -⟩ := hfound flatParent rfl
    have hflat : flatParent.IsFlat := by
      have hall : '<' ∉ "Item".toList ∧ '\n' ∉ "Item".toList := by decide
      exact hall
    refine ⟨d, hd, ?_⟩
    rw [hsome, heq.mpr hflat]
    rfl
  · obtain ⟨d, hd, parent, hsome, heq, hbrackets⟩ := hfound nestedParent rfl
    have hnested : ¬ nestedParent.IsFlat := by
      have hmem : '<' ∈ "List<Item>".toList := by decide
      exact fun h => h.1 hmem
    refine ⟨d, hd, parent, hsome, fun h => hnested (heq.mp h), ?_⟩
    by_contra hnone
    exact hnested (hbrackets.mp (not_or.mp hnone))

end JarAtlas.Java
