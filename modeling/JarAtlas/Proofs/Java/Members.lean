import JarAtlas.Proofs.Java.Rendering
import JarAtlas.Proofs.Java.Scan

/-!
Members as they are read. A method is recognised by the words up to its bracket: an annotation,
`public`, modifiers, a type and a name, with any blanks between them. So what a method or a constant
was written from is what is read back, whatever comes after it.
-/

open List

namespace JarAtlas.Java

open Text

variable {a cs rest w returns name params front : List Char} {c : Char} {s : Signature}
  {modifiers : List (List Char)}

/-- Nothing, or a character that is not blank, is in front. -/
def IsSolid (cs : List Char) : Prop :=
  ∀ c ∈ cs.head?, Text.isBlank c = false

theorem isSolid_cons (hc : isBlank c = false) (cs : List Char) : IsSolid (c :: cs) := by
  rintro d ⟨⟩
  exact hc

theorem isSolid_append (ha : a ≠ []) (hall : ∀ c ∈ a, isBlank c = false) (b : List Char) :
    IsSolid (a ++ b) := by
  obtain ⟨c, a, rfl⟩ := exists_cons_of_ne_nil ha
  exact isSolid_cons (hall c mem_cons_self) _

theorem isSolid_append_cons (hall : ∀ c ∈ a, isBlank c = false) (hc : isBlank c = false)
    (b : List Char) : IsSolid (a ++ c :: b) := by
  cases a with
  | nil => exact isSolid_cons hc b
  | cons d a => exact isSolid_cons (hall d mem_cons_self) _

theorem IsSolid.append_of_ne_nil (ha : IsSolid a) (hne : a ≠ []) (b : List Char) :
    IsSolid (a ++ b) := by
  intro c hc
  rw [head?_append_of_ne_nil _ hne] at hc
  exact ha c hc

theorem IsSolid.append {b : List Char} (ha : IsSolid a) (hb : IsSolid b) : IsSolid (a ++ b) := by
  cases a with
  | nil => exact hb
  | cons c a => exact isSolid_cons (ha c rfl) (a ++ b)

theorem IsSolid.bracket (ha : IsSolid a) (b : List Char) : IsSolid (a ++ '(' :: b) :=
  ha.append (isSolid_cons (by decide) b)

theorem isTypeChar_eq (c : Char) :
    isTypeChar c = (isWord c || ['<', '>', '[', ']', '.'].contains c) := by
  rw [Bool.eq_iff_iff]
  simp [isTypeChar, or_assoc]

theorem isTypeChar_eq_false_of_isBlank (hc : isBlank c) : isTypeChar c = false :=
  eq_false_of_isBlank (by decide +kernel) hc

theorem isBlank_eq_false_of_isTypeChar (hc : isTypeChar c) : isBlank c = false := by
  cases hblank : isBlank c with
  | false => rfl
  | true => simp [isTypeChar_eq_false_of_isBlank hblank] at hc

theorem isType_iff : IsType cs ↔ cs ≠ [] ∧ ∀ c ∈ cs, isTypeChar c := by
  simp only [IsType, isTypeChar_eq]

theorem IsType.typeChars (hcs : IsType cs) : ∀ c ∈ cs, isTypeChar c :=
  (isType_iff.mp hcs).2

theorem IsType.notBlank (hcs : IsType cs) : ∀ c ∈ cs, isBlank c = false :=
  fun c hc => isBlank_eq_false_of_isTypeChar (hcs.typeChars c hc)

theorem IsType.isSolid (hcs : IsType cs) (rest : List Char) : IsSolid (cs ++ rest) :=
  isSolid_append hcs.1 hcs.notBlank rest

theorem IsName.isType (hcs : IsName cs) : IsType cs :=
  ⟨hcs.1, fun c hc => by simp [hcs.2 c hc]⟩

theorem Modifier.isType_word (m : Modifier) : IsType m.word := by
  cases m <;> decide

theorem run?_type (hcs : IsType cs) (hc : isTypeChar c = false) :
    run? isTypeChar (cs ++ c :: rest) = some (cs, c :: rest) :=
  run?_append hcs.1 hcs.typeChars (by simpa using hc)

theorem run?_name (hcs : IsName cs) (hc : isWord c = false) :
    run? isWord (cs ++ c :: rest) = some (cs, c :: rest) :=
  run?_append hcs.1 hcs.2 (by simpa using hc)

theorem after?_append_cons {word tail : List Char} {sep : Char} (hsep : sep ∉ word)
    (hafter : after? word (w ++ sep :: rest) = some tail) :
    ∃ more, w = word ++ more ∧ tail = more ++ sep :: rest := by
  have htext := after?_eq_some hafter
  have hstart : word <+: w := prefix_of_prefix_append_cons hsep ⟨tail, htext.symm⟩
  obtain ⟨more, rfl⟩ := hstart
  refine ⟨more, rfl, ?_⟩
  rw [append_assoc] at htext
  exact (append_cancel_left htext).symm

/-! ### Words -/

theorem exists_word {ws : List (List Char)} (hsolid : IsSolid cs) (hwords : words cs = w :: ws)
    :
    ∃ gap rest, cs = w ++ (gap ++ rest) ∧ (∀ c ∈ gap, isBlank c) ∧ IsSolid rest ∧
      words rest = ws ∧ (ws ≠ [] → gap ≠ []) :=
  exists_of_words_eq_cons hsolid hwords

theorem IsType.words_eq (hcs : IsType cs) : words cs = [cs] :=
  words_solid hcs.1 hcs.notBlank

def Leads (words : List (List Char)) (front : List Char) : Prop :=
  ∀ t, Text.words (front ++ t) = words ++ Text.words t

namespace Leads

theorem nil : Leads [] [] :=
  fun _ => rfl

theorem append {ws vs : List (List Char)} {a b : List Char} (ha : Leads ws a)
    (hb : Leads vs b) : Leads (ws ++ vs) (a ++ b) := by
  intro t
  rw [append_assoc, ha, hb, append_assoc]

theorem word {w gap : List Char} (hw : w ≠ []) (hsolid : ∀ c ∈ w, isBlank c = false)
    (hne : gap ≠ []) (hgap : ∀ c ∈ gap, isBlank c) : Leads [w] (w ++ gap) := by
  intro t
  rw [append_assoc, words_append_gap hne hgap, words_solid hw hsolid]

theorem spaced {words : List (List Char)}
    (hwords : ∀ w ∈ words, w ≠ [] ∧ ∀ c ∈ w, isBlank c = false) :
    Leads words (spaced words) := by
  induction words with
  | nil => exact nil
  | cons w words ih =>
    obtain ⟨⟨hne, hsolid⟩, hwords⟩ := forall_mem_cons.mp hwords
    exact (word hne hsolid (cons_ne_nil ' ' []) (by decide)).append (ih hwords)

end Leads

/-! ### Signatures -/

/-- The text of a method up to its bracket: an annotation, `public`, the modifiers, a type and a name,
with blanks between them. -/
structure IsSignature (s : Signature) (modifiers : List (List Char)) (front : List Char) : Prop where
  solid : IsSolid front
  words : Text.words front =
    s.tag.toList ++ "public".toList :: (modifiers ++ [s.returns, s.name])
  tag : ∀ t ∈ s.tag, ∃ n, t = '@' :: n ∧ IsName n
  modifiers : ∀ w ∈ modifiers, w ∈ modifierWords
  returns : IsType s.returns
  name : IsName s.name

theorem typeNameParams?_eq_some (hread : typeNameParams? cs = some ((returns, name, params), rest))
    :
    ∃ front, cs = front ++ '(' :: (params ++ ')' :: rest) ∧ ')' ∉ params ∧
      words front = [returns, name] ∧ IsType returns ∧ IsName name := by
  simp only [typeNameParams?, Option.bind_eq_bind, Option.bind_eq_some_iff,
    span_eq_takeWhile_dropWhile, Option.pure_def, Option.some.injEq, Prod.mk.injEq] at hread
  obtain ⟨⟨type, r₁⟩, hrun, r₂, hblanks, ⟨word, r₃⟩, hrun', r₄, hopen, r₅, hclose, ⟨rfl, rfl, rfl⟩,
    rfl⟩ := hread
  obtain ⟨rfl, htype⟩ := run?_eq_some hrun
  obtain ⟨gap, hne, rfl, hgap⟩ := afterBlanks?_eq_some hblanks
  obtain ⟨rfl, hword⟩ := run?_eq_some hrun'
  have hreturns : IsType type := isType_iff.mpr ⟨run?_ne_nil hrun, htype⟩
  have hname : IsName word := ⟨run?_ne_nil hrun', hword⟩
  refine ⟨type ++ (gap ++ (word ++ r₃.takeWhile isBlank)), ?_, ?_, ?_, hreturns, hname⟩
  · have htail := after?_eq_some hopen
    have hparams := after?_eq_some hclose
    rw [singleton_append] at htail hparams
    rw [← hparams, takeWhile_append_dropWhile, ← htail]
    simp only [append_assoc, takeWhile_append_dropWhile]
  · intro hmem
    simpa using mem_takeWhile_imp hmem
  · have hend : words (word ++ r₃.takeWhile isBlank) = [word] := by
      by_cases hnil : r₃.takeWhile isBlank = []
      · rw [hnil, append_nil, hname.isType.words_eq]
      · have hsplit := words_append_gap hnil (fun _ => mem_takeWhile_imp) word []
        rw [append_nil, hname.isType.words_eq] at hsplit
        exact hsplit
    rw [words_append_gap hne hgap, hreturns.words_eq, hend]
    rfl

private theorem notBlank_modifierWords :
    ∀ word ∈ modifierWords, ∀ c ∈ word, isBlank c = false := by
  decide

theorem exists_of_mem_modifierRests {fuel : Nat} (hrest : rest ∈ modifierRests fuel cs) :
    ∃ modifiers front, cs = front ++ rest ∧ Leads modifiers front ∧
      ∀ w ∈ modifiers, w ∈ modifierWords := by
  have hhere {cs : List Char} (h : rest ∈ [cs]) : ∃ modifiers front, cs = front ++ rest ∧
      Leads modifiers front ∧ ∀ w ∈ modifiers, w ∈ modifierWords := by
    obtain rfl := mem_singleton.mp h
    exact ⟨[], [], rfl, Leads.nil, by simp⟩
  induction fuel generalizing cs with
  | zero => exact hhere hrest
  | succ fuel ih =>
    simp only [modifierRests] at hrest
    split at hrest
    · next next hnext =>
      rcases mem_append.mp hrest with hrest | hrest
      · obtain ⟨word, hword, hafter⟩ := exists_of_findSome?_eq_some hnext
        obtain ⟨tail, htail, hblanks⟩ := Option.bind_eq_some_iff.mp hafter
        obtain ⟨gap, hne, rfl, hgap⟩ := afterBlanks?_eq_some hblanks
        obtain ⟨modifiers, front, rfl, hleads, hmodifiers⟩ := ih hrest
        have hword_ne : ∀ w ∈ modifierWords, w ≠ [] := by decide
        refine ⟨word :: modifiers, (word ++ gap) ++ front, ?_,
          (Leads.word (hword_ne word hword) (notBlank_modifierWords word hword) hne
            hgap).append hleads, forall_mem_cons.mpr ⟨hword, hmodifiers⟩⟩
        rw [after?_eq_some htail]
        simp only [append_assoc]
      · exact hhere hrest
    · exact hhere hrest

variable {tag : Option (List Char)}

theorem publicMethod?_eq_some (hread : publicMethod? tag cs = some (s, rest)) :
    s.tag = tag ∧ ')' ∉ s.params ∧ IsType s.returns ∧ IsName s.name ∧
      ∃ front modifiers, cs = front ++ '(' :: (s.params ++ ')' :: rest) ∧ IsSolid front ∧
        words front = "public".toList :: (modifiers ++ [s.returns, s.name]) ∧
        ∀ w ∈ modifiers, w ∈ modifierWords := by
  simp only [publicMethod?, Option.bind_eq_bind, Option.bind_eq_some_iff, Option.pure_def,
    Option.some.injEq, Prod.mk.injEq] at hread
  obtain ⟨r₁, hpublic, r₂, hblanks, ⟨⟨type, name, params⟩, _⟩, hfound, rfl, rfl⟩ := hread
  obtain ⟨r₃, hr₃, hsome⟩ := exists_of_findSome?_eq_some hfound
  obtain ⟨modifiers, lead, rfl, hlead, hmodifiers⟩ := exists_of_mem_modifierRests hr₃
  obtain ⟨front, rfl, hparams, hwords, hreturns, hname⟩ := typeNameParams?_eq_some hsome
  obtain ⟨gap, hne, rfl, hgap⟩ := afterBlanks?_eq_some hblanks
  refine ⟨rfl, hparams, hreturns, hname, ("public".toList ++ gap) ++ (lead ++ front), modifiers,
    ?_, ?_, ?_, hmodifiers⟩
  · rw [after?_eq_some hpublic]
    simp only [append_assoc]
  · rw [append_assoc]
    exact isSolid_append (by decide) (by decide) _
  · have hpublic : Leads ["public".toList] ("public".toList ++ gap) :=
      Leads.word (by decide) (by decide) hne hgap
    rw [hpublic, hlead, hwords, singleton_append]

theorem tag?_eq_some {tag : List Char} (hread : tag? cs = some (tag, rest)) :
    ∃ name gap, tag = '@' :: name ∧ IsName name ∧ gap ≠ [] ∧
      (∀ c ∈ gap, isBlank c) ∧ cs = tag ++ (gap ++ rest) := by
  simp only [tag?, Option.bind_eq_bind, Option.bind_eq_some_iff, Option.pure_def,
    Option.some.injEq, Prod.mk.injEq] at hread
  obtain ⟨tail, hat, ⟨name, after⟩, hrun, _, hblanks, rfl, rfl⟩ := hread
  obtain ⟨rfl, hname⟩ := run?_eq_some hrun
  obtain ⟨gap, hne, rfl, hgap⟩ := afterBlanks?_eq_some hblanks
  refine ⟨name, gap, rfl, ⟨run?_ne_nil hrun, hname⟩, hne, hgap, ?_⟩
  rw [after?_eq_some hat]
  rfl

theorem notBlank_tag (hname : IsName name) : ∀ c ∈ '@' :: name, isBlank c = false :=
  forall_mem_cons.mpr ⟨by decide, hname.isType.notBlank⟩

theorem isSignature_of_method (hread : method cs = some (s, rest)) :
    ')' ∉ s.params ∧ ∃ front modifiers, cs = front ++ '(' :: (s.params ++ ')' :: rest) ∧
      IsSignature s modifiers front := by
  unfold method at hread
  split at hread
  · next tag mid htag =>
    obtain ⟨hsame, hparams, hreturns, hname, front, modifiers, rfl, -, hwords, hmodifiers⟩ :=
      publicMethod?_eq_some hread
    obtain ⟨word, gap, rfl, hword, hne, hgap, rfl⟩ := tag?_eq_some htag
    refine ⟨hparams, ('@' :: word ++ gap) ++ front, modifiers, ?_, isSolid_cons (by decide) _, ?_,
      ?_, hmodifiers, hreturns, hname⟩
    · simp only [append_assoc]
    · rw [Leads.word (cons_ne_nil _ _) (notBlank_tag hword) hne hgap, hwords, hsame]
      rfl
    · intro t ht
      rw [hsame, Option.mem_some_iff] at ht
      exact ⟨word, ht.symm, hword⟩
  · obtain ⟨hsame, hparams, hreturns, hname, front, modifiers, rfl, hsolid, hwords, hmodifiers⟩ :=
      publicMethod?_eq_some hread
    refine ⟨hparams, front, modifiers, rfl, hsolid, ?_, ?_, hmodifiers, hreturns, hname⟩
    · rw [hwords, hsame]
      rfl
    · simp [hsame]

theorem endsWith_method : EndsWith ')' method := by
  intro cs s rest hread
  obtain ⟨-, front, -, rfl, -⟩ := isSignature_of_method hread
  exact ⟨front ++ '(' :: s.params, by simp⟩

theorem eq_of_public_words {tag' : Option (List Char)} {ws ws' : List (List Char)}
    (htag : ∀ t ∈ tag, ∃ n, t = '@' :: n ∧ IsName n)
    (htag' : ∀ t ∈ tag', ∃ n, t = '@' :: n ∧ IsName n)
    (hwords : tag.toList ++ "public".toList :: ws = tag'.toList ++ "public".toList :: ws') :
    tag = tag' ∧ ws = ws' := by
  have hat {t : List Char} (ht : ∃ n, t = '@' :: n ∧ IsName n) : t ≠ "public".toList := by
    rintro rfl
    obtain ⟨n, hn, -⟩ := ht
    exact absurd (cons.inj hn).1 (by decide)
  cases tag with
  | none =>
    cases tag' with
    | none => exact ⟨rfl, (cons.inj hwords).2⟩
    | some t => exact absurd (cons.inj hwords).1.symm (hat (htag' t rfl))
  | some t =>
    cases tag' with
    | none => exact absurd (cons.inj hwords).1 (hat (htag t rfl))
    | some t' =>
      obtain ⟨rfl, hmore⟩ := cons.inj hwords
      exact ⟨rfl, (cons.inj hmore).2⟩

namespace IsSignature

variable {s : Signature} {modifiers : List (List Char)} {front : List Char}

theorem chars (hs : IsSignature s modifiers front) :
    ∀ c ∈ front, isWordsChar c ∨ c = '@' := by
  intro c hc
  cases hblank : isBlank c with
  | true => exact .inl (by simp [isWordsChar, hblank])
  | false =>
    obtain ⟨w, hw, hmem⟩ := (mem_iff_exists_word hblank).mp hc
    have htype (hw : IsType w) : isWordsChar c := isWordsChar_of_isType (hw.typeChars c hmem)
    have hwords : ∀ w ∈ modifierWords, IsType w := by decide
    rw [hs.words] at hw
    simp only [mem_append, mem_cons, not_mem_nil, or_false, Option.mem_toList] at hw
    rcases hw with htag | rfl | hmodifier | rfl | rfl
    · obtain ⟨n, rfl, hn⟩ := hs.tag w htag
      rcases mem_cons.mp hmem with rfl | hmem
      · exact .inr rfl
      · exact .inl (isWordsChar_of_isWord (hn.2 c hmem))
    · exact .inl (htype (by decide))
    · exact .inl (htype (hwords w (hs.modifiers w hmodifier)))
    · exact .inl (htype hs.returns)
    · exact .inl (htype hs.name.isType)

theorem notMem (hs : IsSignature s modifiers front) {c : Char}
    (hc : isWordsChar c = false ∧ c ≠ '@') : c ∉ front := by
  intro hmem
  rcases hs.chars c hmem with hword | hat
  · rw [hc.1] at hword
    cases hword
  · exact hc.2 hat

theorem unique {s' : Signature} {modifiers' : List (List Char)}
    (hs : IsSignature s modifiers front)
    (hs' : IsSignature s' modifiers' front) :
    s.tag = s'.tag ∧ modifiers = modifiers' ∧ s.returns = s'.returns ∧ s.name = s'.name := by
  obtain ⟨htag, hrest⟩ := eq_of_public_words hs.tag hs'.tag (hs.words.symm.trans hs'.words)
  obtain ⟨hmodifiers, hlast⟩ := append_inj' hrest rfl
  refine ⟨htag, hmodifiers, ?_⟩
  simpa using hlast

end IsSignature

private theorem after?_bind_gap {word gap : List Char} (hword : ∀ c ∈ word, isBlank c = false)
    (hw : ∀ c ∈ w, isBlank c = false) (hne : gap ≠ [])
    (hgap : ∀ c ∈ gap, isBlank c) (hrest : IsSolid rest) :
    (after? word (w ++ (gap ++ rest))).bind afterBlanks? =
      if word = w then some rest else none := by
  by_cases hsame : word = w
  · rw [if_pos hsame, hsame, after?_append, Option.bind_some, afterBlanks?_gap hne hgap hrest]
  · rw [if_neg hsame]
    obtain ⟨sep, gap, rfl⟩ := exists_cons_of_ne_nil hne
    cases hafter : after? word (w ++ (sep :: gap ++ rest)) with
    | none => rfl
    | some tail =>
      have hsep : sep ∉ word := fun hmem => by
        simpa [hword sep hmem] using hgap sep mem_cons_self
      obtain ⟨more, rfl, rfl⟩ := after?_append_cons hsep hafter
      have hmore : more ≠ [] := by
        rintro rfl
        simp at hsame
      rw [Option.bind_some]
      exact afterBlanks?_eq_none
        (isSolid_append hmore (fun c hc => hw c (mem_append_right _ hc)) _)

theorem afterModifier?_gap {gap : List Char} (hw : ∀ c ∈ w, isBlank c = false) (hne : gap ≠ [])
    (hgap : ∀ c ∈ gap, isBlank c) (hrest : IsSolid rest) :
    afterModifier? (w ++ (gap ++ rest)) = if w ∈ modifierWords then some rest else none := by
  have hwords := notBlank_modifierWords
  unfold afterModifier?
  generalize modifierWords = words at hwords ⊢
  induction words with
  | nil => rfl
  | cons word words ih =>
    rw [findSome?_cons, after?_bind_gap (hwords word mem_cons_self) hw hne hgap hrest]
    by_cases hsame : word = w
    · simp [hsame]
    · have hother : w ≠ word := fun h => hsame h.symm
      simp [hsame, hother, ih fun u hu => hwords u (mem_cons_of_mem _ hu)]

theorem typeNameParams?_of_words (hsolid : IsSolid front)
    (hwords : words front = [returns, name]) (hreturns : IsType returns) (hname : IsName name)
    (hparams : ')' ∉ params) (rest : List Char) :
    typeNameParams? (front ++ '(' :: (params ++ ')' :: rest)) =
      some ((returns, name, params), rest) := by
  obtain ⟨gap, after, rfl, hgap, hafter, hwords, hne⟩ := exists_word hsolid hwords
  have hne := hne (cons_ne_nil _ _)
  obtain ⟨gap', after', rfl, hgap', hafter', hwords', -⟩ := exists_word hafter hwords
  obtain rfl := eq_nil_of_words_eq_nil hafter' hwords'
  have htext : returns ++ (gap ++ (name ++ (gap' ++ []))) ++ '(' :: (params ++ ')' :: rest) =
      returns ++ (gap ++ (name ++ (gap' ++ '(' :: (params ++ ')' :: rest)))) := by
    simp
  have hword : run? isWord (name ++ (gap' ++ '(' :: (params ++ ')' :: rest))) =
      some (name, gap' ++ '(' :: (params ++ ')' :: rest)) := by
    refine run?_append hname.1 hname.2 fun c hc => ?_
    cases gap' with
    | nil =>
      obtain rfl : '(' = c := by simpa using hc
      decide
    | cons d gap' =>
      obtain rfl : d = c := by simpa using hc
      exact isWord_eq_false_of_isBlank (hgap' d mem_cons_self)
  have hspan : (params ++ ')' :: rest).span (· != ')') = (params, ')' :: rest) :=
    span_append (fun c hc => bne_iff_ne.mpr fun h => hparams (h ▸ hc)) (by simp)
  simp only [htext, typeNameParams?, Option.bind_eq_bind, Option.pure_def]
  rw [run?_gap (fun _ => isTypeChar_eq_false_of_isBlank) hreturns.1 hreturns.typeChars hne hgap,
    Option.bind_some, afterBlanks?_gap hne hgap (hname.isType.isSolid _), Option.bind_some,
    hword, Option.bind_some, dropWhile_isBlank_gap hgap' (isSolid_cons (by decide) _), after?_cons,
    Option.bind_some, hspan]
  simp only [after?_cons, Option.bind_some]

theorem self_mem_modifierRests (fuel : Nat) (cs : List Char) : cs ∈ modifierRests fuel cs := by
  cases fuel with
  | zero => exact mem_singleton_self cs
  | succ fuel =>
    rw [modifierRests]
    split <;> simp

theorem findSome?_modifierRests_isSome (hsolid : IsSolid front)
    (hwords : words front = modifiers ++ [returns, name])
    (hmodifiers : ∀ w ∈ modifiers, w ∈ modifierWords) (hreturns : IsType returns)
    (hname : IsName name) (hparams : ')' ∉ params) (rest : List Char) (fuel : Nat)
    (hfuel : front.length ≤ fuel) :
    ((modifierRests fuel (front ++ '(' :: (params ++ ')' :: rest))).findSome?
      typeNameParams?).isSome := by
  induction modifiers generalizing front fuel with
  | nil =>
    rw [findSome?_isSome_iff]
    refine ⟨_, self_mem_modifierRests fuel _, ?_⟩
    rw [typeNameParams?_of_words hsolid hwords hreturns hname hparams]
    rfl
  | cons w modifiers ih =>
    obtain ⟨hw, hmodifiers⟩ := forall_mem_cons.mp hmodifiers
    rw [cons_append] at hwords
    obtain ⟨gap, after, rfl, hgap, hafter, hwords, hne⟩ := exists_word hsolid hwords
    have hne := hne (by simp)
    have hlength := length_pos_iff.mpr hne
    simp only [length_append] at hfuel
    obtain ⟨fuel, rfl⟩ : ∃ n, fuel = n + 1 := Nat.exists_eq_succ_of_ne_zero (by omega)
    have hread := afterModifier?_gap (notBlank_modifierWords w hw) hne hgap
      (hafter.bracket (params ++ ')' :: rest))
    rw [if_pos hw] at hread
    have hmore := ih hafter hwords hmodifiers fuel (by omega)
    simp only [append_assoc, modifierRests, hread, findSome?_append, Option.isSome_or,
      hmore, Bool.true_or]

theorem publicMethod?_isSome (hsolid : IsSolid front)
    (hwords : words front = "public".toList :: (modifiers ++ [returns, name]))
    (hmodifiers : ∀ w ∈ modifiers, w ∈ modifierWords) (hreturns : IsType returns)
    (hname : IsName name) (hparams : ')' ∉ params) (tag : Option (List Char)) (rest : List Char) :
    (publicMethod? tag (front ++ '(' :: (params ++ ')' :: rest))).isSome := by
  obtain ⟨gap, after, rfl, hgap, hafter, hwords, hne⟩ := exists_word hsolid hwords
  have hne := hne (by simp)
  have hfound := findSome?_modifierRests_isSome hafter hwords hmodifiers hreturns hname hparams rest
    (after ++ '(' :: (params ++ ')' :: rest)).length (by simp)
  simp only [publicMethod?, Option.bind_eq_bind, append_assoc]
  rw [after?_append, Option.bind_some, afterBlanks?_gap hne hgap (hafter.bracket _),
    Option.bind_some, Option.isSome_bind]
  simpa using hfound

theorem IsSignature.method (hs : IsSignature s modifiers front) (hparams : ')' ∉ s.params)
    (rest : List Char) :
    Java.method (front ++ '(' :: (s.params ++ ')' :: rest)) = some (s, rest) := by
  have hsome : (Java.method (front ++ '(' :: (s.params ++ ')' :: rest))).isSome := by
    have hwords := hs.words
    cases htag : s.tag with
    | none =>
      rw [htag, Option.toList_none, nil_append] at hwords
      have hnone : tag? (front ++ '(' :: (s.params ++ ')' :: rest)) = none := by
        obtain ⟨gap, after, rfl, -⟩ := exists_word hs.solid hwords
        rw [append_assoc]
        rfl
      simp only [Java.method, hnone]
      exact publicMethod?_isSome hs.solid hwords hs.modifiers hs.returns hs.name hparams none rest
    | some t =>
      obtain ⟨n, rfl, hn⟩ := hs.tag t htag
      rw [htag, Option.toList_some, singleton_append] at hwords
      obtain ⟨gap, after, rfl, hgap, hafter, hwords, hne⟩ := exists_word hs.solid hwords
      have hne := hne (cons_ne_nil _ _)
      have htag : tag? ('@' :: n ++ (gap ++ after) ++ '(' :: (s.params ++ ')' :: rest)) =
          some ('@' :: n, after ++ '(' :: (s.params ++ ')' :: rest)) := by
        simp only [tag?, Option.bind_eq_bind, Option.pure_def, cons_append, append_assoc]
        rw [after?_cons, Option.bind_some, run?_gap (fun _ => isWord_eq_false_of_isBlank)
          hn.1 hn.2 hne hgap, Option.bind_some, afterBlanks?_gap hne hgap (hafter.bracket _),
          Option.bind_some]
      simp only [Java.method, htag]
      exact publicMethod?_isSome hafter hwords hs.modifiers hs.returns hs.name hparams _ rest
  obtain ⟨⟨s', rest'⟩, hread⟩ := Option.isSome_iff_exists.mp hsome
  obtain ⟨hparams', front', modifiers', htext, hs'⟩ := isSignature_of_method hread
  have hbracket : isWordsChar '(' = false ∧ '(' ≠ '@' := by decide
  obtain rfl := eq_of_append_cons_eq (hs.notMem hbracket) (hs'.notMem hbracket) htext
  have htail := (List.cons.inj (append_cancel_left htext)).2
  have hsame := eq_of_append_cons_eq hparams hparams' htail
  rw [hsame] at htail
  obtain rfl := (List.cons.inj (append_cancel_left htail)).2
  obtain ⟨htag, -, hreturns, hname⟩ := hs.unique hs'
  rw [hread]
  obtain ⟨tag, returns, name, params⟩ := s
  obtain ⟨tag', returns', name', params'⟩ := s'
  simp_all

theorem method_eq_some_iff :
    method cs = some (s, rest) ↔ ')' ∉ s.params ∧ ∃ front modifiers,
      cs = front ++ '(' :: (s.params ++ ')' :: rest) ∧ IsSignature s modifiers front := by
  refine ⟨isSignature_of_method, ?_⟩
  rintro ⟨hparams, front, modifiers, rfl, hs⟩
  exact hs.method hparams rest

/-! ### Written members -/

theorem MethodForm.isType_words (m : MethodForm) : ∀ w ∈ m.words, IsType w := by
  intro w hw
  rcases mem_append.mp hw with hw | hw
  · obtain ⟨modifier, -, rfl⟩ := mem_map.mp hw
    exact modifier.isType_word
  · rw [mem_singleton.mp hw]
    exact m.isType_returns

theorem MethodForm.isSignature (m : MethodForm) :
    IsSignature ⟨m.tag.map ('@' :: ·), m.returns, m.name, m.params⟩
      (m.modifiers.map Modifier.word)
      (spaced (m.tag.toList.map ('@' :: ·)) ++
        ("public".toList ++ ' ' :: (spaced m.words ++ m.name))) where
  solid := by
    cases m.tag with
    | none => exact isSolid_append (a := "public".toList) (by decide) (by decide) _
    | some t => exact isSolid_cons (by decide) _
  words := by
    have htag : Leads (m.tag.toList.map ('@' :: ·)) (spaced (m.tag.toList.map ('@' :: ·))) := by
      refine .spaced fun w hw => ?_
      obtain ⟨t, ht, rfl⟩ := mem_map.mp hw
      exact ⟨cons_ne_nil _ _, notBlank_tag (m.isName_tag t (Option.mem_toList.mp ht))⟩
    have hwords : Leads m.words (spaced m.words) :=
      .spaced fun w hw => ⟨(m.isType_words w hw).1, (m.isType_words w hw).notBlank⟩
    have hpublic : Leads ["public".toList] ("public".toList ++ [' ']) :=
      .word (by decide) (by decide) (cons_ne_nil ' ' []) (by decide)
    have htext : "public".toList ++ ' ' :: (spaced m.words ++ m.name) =
        ("public".toList ++ [' ']) ++ (spaced m.words ++ m.name) := by
      rw [append_assoc, singleton_append]
    rw [htag, htext, hpublic, hwords, m.isName_name.isType.words_eq, MethodForm.words]
    cases m.tag <;> simp
  tag := by
    intro t ht
    obtain ⟨n, hn, rfl⟩ := Option.map_eq_some_iff.mp ht
    exact ⟨n, rfl, m.isName_tag n hn⟩
  modifiers := by
    intro w hw
    obtain ⟨modifier, -, rfl⟩ := mem_map.mp hw
    cases modifier <;> decide
  returns := m.isType_returns
  name := m.isName_name

theorem method_written (m : MethodForm) (rest : List Char) :
    method (m.written ++ rest) =
      some (⟨m.tag.map ('@' :: ·), m.returns, m.name, m.params⟩, rest) := by
  have hparams : ')' ∉ m.params := fun hmem => (m.plain_params _ hmem).1 rfl
  have hread := m.isSignature.method hparams rest
  rw [MethodForm.written]
  simpa only [append_assoc, cons_append, nil_append] using hread

theorem constant_spaced {type value : List Char} (htype : IsType type) (hname : IsName name)
    (hne : value ≠ []) (hsolid : IsSolid value) (hplain : ∀ c ∈ value, c ≠ ';' ∧ c ≠ '\n')
    (rest : List Char) :
    constant ("public".toList ++ ' ' :: (spaced ["static".toList, "final".toList, type, name] ++
      '=' :: ' ' :: (value ++ ';' :: rest))) = some (⟨type, name, value⟩, rest) := by
  have hspan : (value ++ ';' :: rest).span (fun c => c != ';' && c != '\n') =
      (value, ';' :: rest) :=
    span_append (fun c hc => by simp [hplain c hc]) (by simp)
  have hequals : (' ' :: '=' :: ' ' :: (value ++ ';' :: rest)).dropWhile isBlank =
      '=' :: ' ' :: (value ++ ';' :: rest) := rfl
  have hgap : (' ' :: (value ++ ';' :: rest)).dropWhile isBlank = value ++ ';' :: rest :=
    Option.some.inj (afterBlanks?_space (hsolid.append_of_ne_nil hne _))
  simp only [spaced_cons, spaced_nil, append_assoc, cons_append, nil_append,
    constant, Option.bind_eq_bind, Option.pure_def]
  rw [after?_append, Option.bind_some,
    afterBlanks?_space (isSolid_append (by decide) (by decide) _), Option.bind_some, after?_append,
    Option.bind_some, afterBlanks?_space (isSolid_append (by decide) (by decide) _),
    Option.bind_some, after?_append, Option.bind_some, afterBlanks?_space (htype.isSolid _),
    Option.bind_some, run?_type htype (by decide), Option.bind_some,
    afterBlanks?_space (hname.isType.isSolid _), Option.bind_some, run?_name hname (by decide),
    Option.bind_some, hequals, after?_cons, Option.bind_some, hgap, hspan]
  simp only [after?_cons, Option.bind_some]

theorem constant_written (k : ConstantForm) (rest : List Char) :
    constant (k.written ++ rest) = some (⟨k.type, k.name, k.value⟩, rest) := by
  have hplain (c : Char) (hc : c ∈ k.value) : c ≠ ';' ∧ c ≠ '\n' := by
    obtain ⟨hsemicolon, -, hnewline, -⟩ := k.plain_value c hc
    exact ⟨hsemicolon, hnewline⟩
  have hread := constant_spaced k.isType_type k.isName_name k.value_ne
    (head_of_trimBy_eq k.trim_value) hplain rest
  unfold ConstantForm.written ConstantForm.words
  simpa only [append_assoc, cons_append, nil_append] using hread

end JarAtlas.Java
