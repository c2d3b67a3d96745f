import JarAtlas.Proofs.Java.Members

/-!
Lines of members as the searches for declarations see them. Each search finds the members of its own
sort where they start, and nothing at any other character: a declaration needs the word `public`,
which a line holds only once, and from there the line stops to be words at a character that tells
its sort.
-/

open List

namespace JarAtlas.Java

open Text MemberForm

variable {t : List Char} {sign d : Char} {c sep : Char} {words : List (List Char)}

variable {α : Type} {recognise : Recogniser α}

def ReachesPublic (sep : Char) (recognise : Recogniser α) : Prop :=
  ∀ cs, recognise cs ≠ none → ∃ front, front ++ "public".toList <+: cs ∧ sep ∉ front

def StartsPublic (recognise : Recogniser α) : Prop :=
  ∀ cs, recognise cs ≠ none → "public".toList <+: cs

theorem StartsPublic.reaches (hstarts : StartsPublic recognise) (sep : Char) :
    ReachesPublic sep recognise :=
  fun cs hcs => ⟨[], hstarts cs hcs, not_mem_nil⟩

theorem StartsPublic.cons_eq_none (hstarts : StartsPublic recognise) (hc : c ≠ 'p')
    (cs : List Char) : recognise (c :: cs) = none := by
  by_contra hsome
  obtain ⟨tail, htail⟩ := hstarts (c :: cs) hsome
  exact hc (cons.inj htail).1.symm

theorem ReachesPublic.quiet (hreaches : ReachesPublic sep recognise) (hsep : sep ∉ "public".toList)
    (hfree : occursIn "public".toList t = false)
    (rest : List Char) : Quiet recognise (t ++ [sep]) rest := by
  intro b hb hne
  by_contra hsome
  obtain ⟨front, hstart, hfront⟩ := hreaches _ hsome
  obtain ⟨u, hu⟩ := hb
  rcases eq_nil_or_concat b with rfl | ⟨b', d, rfl⟩
  · exact hne rfl
  · rw [concat_eq_append] at hu hstart
    rw [← append_assoc] at hu
    obtain ⟨rfl, hd⟩ := append_inj' hu rfl
    obtain rfl : d = sep := by simpa using hd
    have hall : d ∉ front ++ "public".toList := by
      rw [mem_append]
      exact not_or.mpr ⟨hfront, hsep⟩
    -- The separator is neither in `front` nor in the word, so both end before it, inside `b'`.
    rw [append_assoc, singleton_append] at hstart
    obtain ⟨tail, rfl⟩ := prefix_of_prefix_append_cons hall hstart
    refine occursIn_eq_false_iff.mp hfree ⟨u ++ front, tail, ?_⟩
    simp only [append_assoc]

theorem ReachesPublic.quiet_public (hreaches : ReachesPublic sep recognise)
    (hsep : sep ∉ "public".toList) {rest : List Char} (hfree : occursIn "public".toList t = false)
    (hhere : recognise ("public".toList ++ ' ' :: (t ++ sep :: rest)) = none) :
    Quiet recognise ("public".toList ++ ' ' :: (t ++ [sep])) rest := by
  have htail : occursIn "public".toList ("ublic".toList ++ ' ' :: t) = false := by
    rw [occursIn_append_cons (by decide) (by decide), hfree]
    decide
  -- After its first letter the word is not whole any more, and it does not come again.
  have hlater := hreaches.quiet hsep htail rest
  have hword : "public".toList = 'p' :: "ublic".toList := by decide
  rw [hword, cons_append] at hhere ⊢
  rw [append_assoc, cons_append] at hlater
  refine .cons ?_ hlater
  rw [append_assoc, cons_append, append_assoc, singleton_append]
  exact hhere

private theorem startsPublic_bind (next : List Char → Option (α × List Char)) :
    StartsPublic fun cs => (after? "public".toList cs).bind next := by
  intro cs hcs
  obtain ⟨found, hread⟩ := Option.ne_none_iff_exists'.mp hcs
  obtain ⟨tail, hafter, -⟩ := Option.bind_eq_some_iff.mp hread
  exact ⟨tail, (after?_eq_some hafter).symm⟩

theorem startsPublic_header : StartsPublic header :=
  startsPublic_bind _

theorem startsPublic_constant : StartsPublic constant :=
  startsPublic_bind _

theorem startsPublic_publicMethod? (tag : Option (List Char)) :
    StartsPublic (publicMethod? tag) :=
  startsPublic_bind _

theorem reachesPublic_method : ReachesPublic ';' method := by
  intro cs hcs
  unfold method at hcs
  split at hcs
  · next name rest htag =>
    obtain ⟨word, gap, rfl, hword, -, hgap, rfl⟩ := tag?_eq_some htag
    obtain ⟨more, rfl⟩ := startsPublic_publicMethod? (some ('@' :: word)) rest hcs
    refine ⟨'@' :: (word ++ gap), ⟨more, by simp⟩, ?_⟩
    simp only [mem_cons, mem_append, not_or]
    exact ⟨by decide, fun hmem => absurd (hword.2 _ hmem) (by decide),
      fun hmem => absurd (hgap _ hmem) (by decide)⟩
  · exact (startsPublic_publicMethod? none).reaches ';' cs hcs

theorem method_cons_eq_none (hp : c ≠ 'p') (hat : c ≠ '@') (cs : List Char) :
    method (c :: cs) = none := by
  unfold method
  split
  · next name rest htag =>
    obtain ⟨word, gap, rfl, -, -, -, htext⟩ := tag?_eq_some htag
    exact absurd (cons.inj htext).1 hat
  · exact (startsPublic_publicMethod? none).cons_eq_none hp cs

theorem skips_spaced (hwords : ∀ w ∈ words, IsType w)
    (rest : List Char) : Skips (spaced words ++ rest) rest := by
  induction words with
  | nil => exact .refl rest
  | cons w words ih =>
    have hword : Skips (w ++ ' ' :: (spaced words ++ rest)) (' ' :: (spaced words ++ rest)) :=
      ⟨w, rfl, fun c hc => isWordsChar_of_isType ((hwords w mem_cons_self).typeChars c hc)⟩
    have hspace : Skips (' ' :: (spaced words ++ rest)) (spaced words ++ rest) :=
      ⟨[' '], rfl, by decide⟩
    rw [spaced_cons, append_assoc, cons_append]
    exact (hword.trans hspace).trans (ih fun u hu => hwords u (mem_cons_of_mem w hu))

private theorem skips_public (hwords : ∀ w ∈ words, IsType w)
    (rest : List Char) : Skips ("public".toList ++ ' ' :: (spaced words ++ rest)) rest := by
  have hall : ∀ w ∈ "public".toList :: words, IsType w := by
    intro w hw
    rcases mem_cons.mp hw with rfl | hw
    · decide
    · exact hwords w hw
  have hskips := skips_spaced hall rest
  rwa [spaced_cons, append_assoc, cons_append] at hskips

theorem MethodForm.skips (m : MethodForm) (rest : List Char) :
    Skips ("public".toList ++ ' ' :: (spaced m.words ++ (m.name ++ '(' :: rest)))
      ('(' :: rest) := by
  refine (skips_public m.isType_words _).trans ⟨m.name, rfl, fun c hc => ?_⟩
  exact isWordsChar_of_isWord (m.isName_name.2 c hc)

theorem ConstantForm.isType_words (k : ConstantForm) : ∀ w ∈ k.words, IsType w := by
  simp only [words, forall_mem_cons]
  exact ⟨by decide, by decide, k.isType_type, k.isName_name.isType,
    forall_mem_nil _⟩

theorem ConstantForm.skips (k : ConstantForm) (rest : List Char) :
    Skips ("public".toList ++ ' ' :: (spaced k.words ++ '=' :: rest)) ('=' :: rest) :=
  skips_public k.isType_words _

theorem occursIn_spaced {word : List Char} (hspace : ' ' ∉ word) (hne : word ≠ [])
    (words : List (List Char)) (rest : List Char) :
    occursIn word (spaced words ++ rest) =
      (words.any (occursIn word) || occursIn word rest) := by
  induction words with
  | nil => simp
  | cons w words ih =>
    rw [spaced_cons, append_assoc, cons_append,
      occursIn_append_cons hspace hne, ih, any_cons, Bool.or_assoc]

namespace MethodForm

variable (m : MethodForm)

theorem occursIn_signature {word : List Char}
    (hword : word = "public".toList ∨ word = "static".toList) :
    occursIn word (spaced m.words ++ (m.name ++ '(' :: (m.params ++ [')']))) =
      m.modifiers.any fun modifier => occursIn word modifier.word := by
  have hplain : ' ' ∉ word ∧ '(' ∉ word ∧ ')' ∉ word ∧ word ≠ [] ∧ occursIn word [] = false := by
    rcases hword with rfl | rfl <;> decide
  obtain ⟨hspace, hopen, hclose, hne, hnil⟩ := hplain
  have hfree : ∀ part ∈ [m.returns, m.name, m.params], occursIn word part = false := by
    intro part hpart
    obtain ⟨hpublic, hstatic⟩ := m.free part (mem_append_right _ hpart)
    rcases hword with rfl | rfl
    · exact hpublic
    · exact hstatic
  simp only [forall_mem_cons] at hfree
  obtain ⟨hreturns, hname, hparams, -⟩ := hfree
  rw [occursIn_spaced hspace hne, occursIn_append_cons hopen hne,
    occursIn_append_cons hclose hne, hname, hparams, hnil]
  simp only [words, any_append, any_map, any_cons, any_nil, hreturns, Bool.or_false]
  rfl

theorem public_notIn_signature :
    occursIn "public".toList (spaced m.words ++ (m.name ++ '(' :: (m.params ++ [')']))) =
      false := by
  rw [m.occursIn_signature (.inl rfl), any_eq_false]
  intro modifier _
  cases modifier <;> decide

theorem free_tag {t : List Char} (ht : t ∈ m.tag) :
    occursIn "public".toList ('@' :: t) = false ∧
      occursIn "static".toList ('@' :: t) = false := by
  obtain ⟨hpublic, hstatic⟩ := m.free t (mem_append_left _ (Option.mem_toList.mpr ht))
  rw [occursIn_cons (by decide) (by decide), occursIn_cons (by decide) (by decide)]
  exact ⟨hpublic, hstatic⟩

theorem occursIn_static :
    occursIn "static".toList m.written = m.modifiers.contains .isStatic := by
  have htag : (m.tag.toList.map ('@' :: ·)).any (occursIn "static".toList) = false := by
    rw [any_eq_false]
    intro word hword
    obtain ⟨t, ht, rfl⟩ := mem_map.mp hword
    rw [(m.free_tag (Option.mem_toList.mp ht)).2]
    decide
  have hmodifiers : (m.modifiers.any fun modifier =>
      occursIn "static".toList modifier.word) = m.modifiers.contains .isStatic := by
    rw [contains_eq_any_beq]
    congr 1
    funext modifier
    cases modifier <;> decide
  have hpublic : occursIn "static".toList "public".toList = false := by decide
  rw [written, occursIn_spaced (by decide) (by decide), htag,
    occursIn_append_cons (by decide) (by decide), hpublic, m.occursIn_signature (.inr rfl),
    hmodifiers, Bool.false_or, Bool.false_or]

private theorem getLast?_written : m.written.getLast? = some ')' := by
  unfold written
  generalize "public".toList = start
  simp [getLast?_append, getLast?_cons]

theorem trim_written : trim m.written = m.written := by
  refine trimBy_eq_self ?_ fun c hc => ?_
  · unfold written
    cases m.tag with
    | none => exact isSolid_append (a := "public".toList) (by decide) (by decide) _
    | some t => exact isSolid_cons (by decide) _
  · obtain rfl : ')' = c := by simpa [m.getLast?_written] using hc
    decide

end MethodForm

namespace ConstantForm

variable (k : ConstantForm)

theorem public_notIn_assignment :
    occursIn "public".toList (spaced k.words ++ '=' :: ' ' :: k.value) = false := by
  have hfree := k.free
  simp only [forall_mem_cons] at hfree
  obtain ⟨htype, hname, hvalue, -⟩ := hfree
  have hwords : k.words.any (occursIn "public".toList) = false := by
    have hplain : occursIn "public".toList "static".toList = false ∧
        occursIn "public".toList "final".toList = false := by
      decide
    simp only [words, any_cons, any_nil, hplain.1, hplain.2, htype, hname, Bool.or_false]
  rw [occursIn_spaced (by decide) (by decide), hwords, occursIn_cons (by decide) (by decide),
    occursIn_cons (by decide) (by decide), hvalue]
  decide

private theorem getLast?_written : k.written.getLast? = some ';' := by
  unfold written
  generalize "public".toList = start
  simp [getLast?_append, getLast?_cons]

theorem trim_written : trim k.written = k.written := by
  refine trimBy_eq_self (isSolid_append (by decide) (by decide) _) fun c hc => ?_
  obtain rfl : ';' = c := by simpa [k.getLast?_written] using hc
  decide

end ConstantForm

/-- What is recognised is made of characters in `p` up to `sign`, and starts with one that is not
blank. -/
def StopsAt (p : Char → Prop) (sign : Char) (recognise : Recogniser α) : Prop :=
  ∀ cs value rest, recognise cs = some (value, rest) →
    ∃ front tail, cs = front ++ sign :: tail ∧ front ≠ [] ∧ IsSolid front ∧ ∀ c ∈ front, p c

variable {p : Char → Prop} {name : List Char}

theorem StopsAt.eq_none (hstops : StopsAt p sign recognise) (hd : ¬ p d) (hne : d ≠ sign)
    (ht : sign ∉ t) (rest : List Char) : recognise (t ++ d :: rest) = none := by
  rw [Option.eq_none_iff_forall_not_mem]
  rintro ⟨value, after⟩ hread
  obtain ⟨front, tail, htext, -, -, hfront⟩ := hstops _ _ _ hread
  obtain rfl := eq_of_append_cons_eq ht (fun hmem => hd (hfront d hmem)) htext
  exact hne (cons.inj (append_cancel_left htext)).1

theorem StopsAt.eq_none_of_skips (hstops : StopsAt p sign recognise)
    (hsign : isWordsChar sign = false) (hd : ¬ p d) (hne : d ≠ sign) {cs tail : List Char}
    (hskips : Skips cs (d :: tail)) : recognise cs = none := by
  obtain ⟨t, rfl, ht⟩ := hskips
  refine hstops.eq_none hd hne (fun hmem => ?_) tail
  have hword := ht sign hmem
  rw [hsign] at hword
  cases hword

theorem StartsPublic.stopsAt (hstarts : StartsPublic recognise) (hsign : sign ≠ 'p')
    (hskips : ∀ {cs value rest}, recognise cs = some (value, rest) →
      ∃ tail, Skips cs (sign :: tail)) : StopsAt (isWordsChar ·) sign recognise := by
  intro cs value rest hread
  obtain ⟨tail, front, rfl, hfront⟩ := hskips hread
  obtain ⟨more, hmore⟩ := hstarts (front ++ sign :: tail) (by simp [hread])
  cases front with
  | nil => exact absurd (cons.inj hmore).1.symm hsign
  | cons c front =>
    obtain rfl : 'p' = c := (cons.inj hmore).1
    exact ⟨_, tail, rfl, cons_ne_nil _ _, isSolid_cons (by decide) _, hfront⟩

theorem stopsAt_header : StopsAt (isWordsChar ·) '\x7b' header :=
  startsPublic_header.stopsAt (by decide) fun hread => ⟨_, skips_header hread⟩

theorem stopsAt_constant : StopsAt (isWordsChar ·) '=' constant :=
  startsPublic_constant.stopsAt (by decide) fun hread =>
    have ⟨_, hskips⟩ := skips_constant hread
    ⟨_, hskips⟩

theorem stopsAt_method : StopsAt (fun c => isWordsChar c = true ∨ c = '@') '(' method := by
  intro cs s rest hread
  obtain ⟨-, front, modifiers, rfl, hs⟩ := isSignature_of_method hread
  refine ⟨front, _, rfl, ?_, hs.solid, hs.chars⟩
  rintro rfl
  have hpublic : "public".toList ∈ words [] := by
    rw [hs.words]
    exact mem_append_right _ mem_cons_self
  exact absurd hpublic (by decide)

private theorem quiet_spaces (hspace : ∀ cs, recognise (' ' :: cs) = none) (indent : Nat)
    (rest : List Char) : Quiet recognise (replicate indent ' ') rest := by
  refine .of_forall (fun c hc cs => ?_) rest
  rw [eq_of_mem_replicate hc]
  exact hspace cs

theorem StartsPublic.quiet_method (hstarts : StartsPublic recognise)
    (hstops : StopsAt (isWordsChar ·) d recognise) (hd : isWordsChar d = false)
    (hne : '(' ≠ d) (m : MethodForm) (indent : Nat) (rest : List Char) :
    Quiet recognise ((MemberForm.method m).line indent) rest := by
  have hline (a b c s : List Char) : a ++ (b ++ (c ++ ' ' :: s) ++ [';', '\n']) =
      a ++ (b ++ (c ++ ' ' :: (s ++ [';']) ++ ['\n'])) := by
    simp
  have htag (after : List Char) : Quiet recognise (spaced (m.tag.toList.map ('@' :: ·))) after := by
    cases htag : m.tag with
    | none => exact .nil after
    | some t =>
      rw [Option.toList_some, map_singleton, spaced_cons, spaced_nil]
      exact (hstarts.reaches ' ').quiet (by decide) (m.free_tag htag).1 after
  have hhere (after : List Char) : recognise ("public".toList ++ ' ' ::
      (spaced m.words ++ (m.name ++ '(' :: (m.params ++ [')'])) ++ ';' :: after)) = none := by
    rw [append_assoc, append_assoc, cons_append]
    exact hstops.eq_none_of_skips hd (by decide) hne (m.skips _)
  -- Four stretches: the indentation, the annotation, from `public` to the semicolon, the line end.
  rw [MemberForm.line, MethodForm.written, hline]
  refine (quiet_spaces (hstarts.cons_eq_none (by decide)) indent _).append <| (htag _).append <|
    Quiet.append ?_ (.cons (hstarts.cons_eq_none (by decide) _) (.nil rest))
  exact (hstarts.reaches ';').quiet_public (by decide) m.public_notIn_signature (hhere _)

theorem ReachesPublic.quiet_constant (hreaches : ReachesPublic ';' recognise)
    (hspace : ∀ cs, recognise (' ' :: cs) = none) (hnewline : ∀ cs, recognise ('\n' :: cs) = none)
    (k : ConstantForm) (hother : ∀ tail, recognise ("public".toList ++ ' ' ::
      (spaced k.words ++ '=' :: tail)) = none) (indent : Nat) (rest : List Char) :
    Quiet recognise ((MemberForm.constant k).line indent) rest := by
  have htext (w s v : List Char) : w ++ ' ' :: (s ++ '=' :: ' ' :: (v ++ [';'])) =
      w ++ ' ' :: (s ++ '=' :: ' ' :: v ++ [';']) := by
    simp
  have hhere (after : List Char) : recognise ("public".toList ++ ' ' ::
      (spaced k.words ++ '=' :: ' ' :: k.value ++ ';' :: after)) = none := by
    rw [append_assoc, cons_append]
    exact hother _
  rw [MemberForm.line]
  unfold ConstantForm.written
  rw [htext]
  refine (quiet_spaces hspace indent _).append <|
    Quiet.append ?_ (.cons (hnewline _) (.nil rest))
  exact hreaches.quiet_public (by decide) k.public_notIn_assignment (hhere _)

theorem quiet_header_line (member : MemberForm) (indent : Nat) (rest : List Char) :
    Quiet header (member.line indent) rest := by
  cases member with
  | method m =>
    exact startsPublic_header.quiet_method stopsAt_header (by decide) (by decide) m indent rest
  | constant k =>
    refine (startsPublic_header.reaches ';').quiet_constant
      (startsPublic_header.cons_eq_none (by decide))
      (startsPublic_header.cons_eq_none (by decide)) k (fun tail => ?_) indent rest
    exact stopsAt_header.eq_none_of_skips (by decide) (by decide) (by decide) (k.skips tail)

theorem quiet_header_lines (members : List MemberForm) (indent : Nat) (rest : List Char) :
    Quiet header (members.flatMap (·.line indent)) rest := by
  induction members with
  | nil => exact .nil rest
  | cons member members ih =>
    rw [flatMap_cons]
    exact (quiet_header_line member indent _).append ih

theorem Constant.ofMatch_written (k : ConstantForm) (start stop : Nat) :
    Constant.ofMatch ⟨start, stop, k.written, ⟨k.type, k.name, k.value⟩⟩ = k.declared := by
  have hquotes : trimBy (· == '"') k.value = k.value :=
    trimBy_eq_self_of_forall fun c hc => by simpa using (k.plain_value c hc).2.1
  simp only [Constant.ofMatch, ConstantForm.declared, k.trim_written, k.trim_value, hquotes]

theorem scanFrom_constant_line (member : MemberForm) (indent position : Nat) (rest : List Char) :
    (scanFrom constant position (member.line indent ++ rest)).map Constant.ofMatch =
      member.constant?.toList ++
        (scanFrom constant (position + (member.line indent).length) rest).map
          Constant.ofMatch := by
  cases member with
  | method m =>
    have hquiet := startsPublic_constant.quiet_method stopsAt_constant (by decide) (by decide) m
      indent rest
    rw [hquiet.scanFrom_append]
    rfl
  | constant k =>
    have hspaces := quiet_spaces (startsPublic_constant.cons_eq_none (by decide)) indent
      (k.written ++ '\n' :: rest)
    have hread := constant_written k ('\n' :: rest)
    have hne : k.written ≠ [] := by
      intro h
      simpa [h] using k.getLast?_written
    have hline : (MemberForm.constant k).line indent ++ rest =
        List.replicate indent ' ' ++ (k.written ++ '\n' :: rest) := by
      rw [MemberForm.line, append_assoc, append_assoc, singleton_append]
    rw [hline, hspaces.scanFrom_append, scanFrom_match hne hread,
      scanFrom_cons (startsPublic_constant.cons_eq_none (by decide) rest), map_cons,
      Constant.ofMatch_written]
    simp only [line, constant?, length_append, length_cons,
      length_nil, Option.toList_some, singleton_append, Nat.add_assoc]

theorem constantsIn_lines (members : List MemberForm) (indent : Nat) :
    constantsIn ('\n' :: members.flatMap (·.line indent)) =
      members.filterMap (·.constant?) := by
  have hlines (position : Nat) : (scanFrom constant position
      (members.flatMap (·.line indent))).map Constant.ofMatch =
      members.filterMap (·.constant?) := by
    induction members generalizing position with
    | nil => rfl
    | cons member members ih =>
      rw [flatMap_cons, scanFrom_constant_line, ih, filterMap_cons]
      cases member.constant? <;> rfl
  rw [constantsIn, scan_eq_scanFrom,
    scanFrom_cons (startsPublic_constant.cons_eq_none (by decide) _), hlines]

theorem quiet_method_constant (k : ConstantForm) (indent : Nat) (rest : List Char) :
    Quiet method ((MemberForm.constant k).line indent) rest := by
  refine reachesPublic_method.quiet_constant (method_cons_eq_none (by decide) (by decide))
    (method_cons_eq_none (by decide) (by decide)) k (fun tail => ?_) indent rest
  exact stopsAt_method.eq_none_of_skips (by decide) (by decide) (by decide) (k.skips tail)

theorem Method.ofMatch_written (m : MethodForm) (start stop : Nat) :
    Method.ofMatch ⟨start, stop, m.written,
      ⟨m.tag.map ('@' :: ·), m.returns, m.name, m.params⟩⟩ = m.declared := by
  simp only [Method.ofMatch, MethodForm.declared, m.trim_written, m.trim_params,
    m.occursIn_static, Option.map_map]
  rfl

theorem scanFrom_method_line {member : MemberForm} (hname : ∀ m, member = .method m → m.name ≠ name)
    (indent position : Nat) (rest : List Char) :
    ((scanFrom method position (member.line indent ++ rest)).filter
        fun x => x.value.name != name).map Method.ofMatch =
      member.method?.toList ++
        ((scanFrom method (position + (member.line indent).length) rest).filter
          fun x => x.value.name != name).map Method.ofMatch := by
  cases member with
  | method m =>
    have hspaces := quiet_spaces (method_cons_eq_none (by decide) (by decide)) indent
      (m.written ++ ';' :: '\n' :: rest)
    have hread := method_written m (';' :: '\n' :: rest)
    have hne : m.written ≠ [] := by
      intro h
      simpa [h] using m.getLast?_written
    have hline : (MemberForm.method m).line indent ++ rest =
        List.replicate indent ' ' ++ (m.written ++ ';' :: '\n' :: rest) := by
      rw [MemberForm.line, append_assoc, append_assoc, cons_append, singleton_append]
    have hother : (m.name != name) = true := bne_iff_ne.mpr (hname m rfl)
    rw [hline, hspaces.scanFrom_append, scanFrom_match hne hread,
      scanFrom_cons (method_cons_eq_none (by decide) (by decide) _),
      scanFrom_cons (method_cons_eq_none (by decide) (by decide) _),
      filter_cons_of_pos (by exact hother), map_cons, Method.ofMatch_written]
    simp only [line, method?, length_append, length_cons,
      length_nil, Option.toList_some, singleton_append, Nat.add_assoc]
  | constant k =>
    rw [(quiet_method_constant k indent rest).scanFrom_append]
    rfl

theorem methodsIn_lines {members : List MemberForm}
    (hname : ∀ m, .method m ∈ members → m.name ≠ name) (indent : Nat) :
    methodsIn name ('\n' :: members.flatMap (·.line indent)) =
      members.filterMap (·.method?) := by
  have hlines (position : Nat) : ((scanFrom method position
      (members.flatMap (·.line indent))).filter fun x => x.value.name != name).map
        Method.ofMatch = members.filterMap (·.method?) := by
    induction members generalizing position with
    | nil => rfl
    | cons member members ih =>
      have hfirst : ∀ m, member = .method m → m.name ≠ name :=
        fun m hm => hname m (hm ▸ mem_cons_self)
      have hmore : ∀ m, .method m ∈ members → m.name ≠ name :=
        fun m hm => hname m (mem_cons_of_mem member hm)
      rw [flatMap_cons, scanFrom_method_line hfirst, ih hmore, filterMap_cons]
      cases member.method? <;> rfl
  rw [methodsIn, scan_eq_scanFrom, scanFrom_cons (method_cons_eq_none (by decide) (by decide) _),
    hlines]

end JarAtlas.Java
