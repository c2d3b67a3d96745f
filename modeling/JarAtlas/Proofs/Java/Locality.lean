import JarAtlas.Proofs.Java.Lines

/-!
How far a declaration is read. A package clause and a constant end at the first semicolon, a header
at the first opening brace and a method at the first closing bracket, and reading never looks beyond.
So what is found in a text is found in every longer text, up to a declaration that is still open at
the end of the shorter one.
-/

open List

namespace JarAtlas.Java

open Text Java

variable {t : List Char}

variable {α β γ δ : Type}

/-! ### Reading in two texts -/

/-- Two texts that are the same up to their first `d`, which the given texts follow. -/
def Agree (d : Char) (s s' cs cs' : List Char) : Prop :=
  ∃ t, d ∉ t ∧ cs = t ++ d :: s ∧ cs' = t ++ d :: s'

/-- What reading a text gives in two texts that agree: the same, with texts left that agree. -/
def AgreeAfter (d : Char) (s s' : List Char) (r r' : α × List Char) : Prop :=
  r.1 = r'.1 ∧ Agree d s s' r.2 r'.2

/-- Reading ends where the texts differ. -/
def SameEnd (s s' : List Char) (r r' : α × List Char) : Prop :=
  r.1 = r'.1 ∧ r.2 = s ∧ r'.2 = s'

theorem rel_bind {R : α → β → Prop} {S : γ → δ → Prop} {x : Option α} {y : Option β}
    {f : α → Option γ} {g : β → Option δ} (hxy : Option.Rel R x y)
    (hfg : ∀ a b, R a b → Option.Rel S (f a) (g b)) : Option.Rel S (x.bind f) (y.bind g) := by
  cases hxy with
  | none => exact .none
  | some hab => exact hfg _ _ hab

theorem rel_map {R : α → β → Prop} {S : γ → δ → Prop} {x : Option α} {y : Option β}
    {f : α → γ} {g : β → δ} (hxy : Option.Rel R x y) (hfg : ∀ a b, R a b → S (f a) (g b)) :
    Option.Rel S (x.map f) (y.map g) := by
  cases hxy with
  | none => exact .none
  | some hab => exact .some (hfg _ _ hab)

theorem rel_findSome? {ι : Type} {R : α → β → Prop} {f : ι → Option α} {g : ι → Option β}
    (is : List ι) (hfg : ∀ i ∈ is, Option.Rel R (f i) (g i)) :
    Option.Rel R (is.findSome? f) (is.findSome? g) := by
  induction is with
  | nil => exact .none
  | cons i is ih =>
    obtain ⟨hi, his⟩ := forall_mem_cons.mp hfg
    rw [findSome?_cons, findSome?_cons]
    cases hf : f i <;> cases hg : g i <;> rw [hf, hg] at hi <;> cases hi
    · exact ih his
    · next hab => exact .some hab

namespace Agree

variable {p : Char → Bool}

variable {d : Char} {s s' cs cs' : List Char}

theorem dropWhile (hp : p d = false) (hcs : Agree d s s' cs cs') :
    Agree d s s' (cs.dropWhile p) (cs'.dropWhile p) := by
  obtain ⟨t, ht, rfl, rfl⟩ := hcs
  refine ⟨t.dropWhile p, fun hmem => ht ((dropWhile_suffix p).mem hmem),
    (takeWhile_dropWhile_append_cons hp t s).2, (takeWhile_dropWhile_append_cons hp t s').2⟩

theorem takeWhile_eq (hp : p d = false) (hcs : Agree d s s' cs cs') :
    cs.takeWhile p = cs'.takeWhile p := by
  obtain ⟨t, -, rfl, rfl⟩ := hcs
  rw [(takeWhile_dropWhile_append_cons hp t s).1, (takeWhile_dropWhile_append_cons hp t s').1]

theorem drop (hp : p d = false) (hcs : Agree d s s' cs cs') {n : Nat}
    (hn : n ≤ (cs.takeWhile p).length) : Agree d s s' (cs.drop n) (cs'.drop n) := by
  obtain ⟨t, ht, rfl, rfl⟩ := hcs
  have hlength : n ≤ t.length := by
    rw [(takeWhile_dropWhile_append_cons hp t s).1] at hn
    exact Nat.le_trans hn ( takeWhile_prefix p).length_le
  rw [drop_append_of_le_length hlength, drop_append_of_le_length hlength]
  exact ⟨t.drop n, fun hmem => ht (mem_of_mem_drop hmem), rfl, rfl⟩

theorem after? {word : List Char} (hword : d ∉ word) (hcs : Agree d s s' cs cs') :
    Option.Rel (Agree d s s') (after? word cs) (after? word cs') := by
  obtain ⟨t, ht, rfl, rfl⟩ := hcs
  by_cases hfront : word <+: t
  · obtain ⟨more, rfl⟩ := hfront
    rw [append_assoc, append_assoc, after?_append, after?_append]
    exact .some ⟨more, fun hmem => ht (mem_append_right _ hmem), rfl, rfl⟩
  · have hnone (u : List Char) : after? word (t ++ d :: u) = none := by
      cases hafter : after? word (t ++ d :: u) with
      | none => rfl
      | some tail =>
        obtain ⟨more, rfl, -⟩ := after?_append_cons hword hafter
        exact absurd (prefix_append word more) hfront
    rw [hnone, hnone]
    exact .none

theorem after?_last (hcs : Agree d s s' cs cs') :
    Option.Rel (fun r r' => r = s ∧ r' = s') (Java.after? [d] cs) (Java.after? [d] cs') := by
  obtain ⟨t, ht, rfl, rfl⟩ := hcs
  cases t with
  | nil =>
    rw [nil_append, nil_append, after?_cons, after?_cons]
    exact .some ⟨rfl, rfl⟩
  | cons c t =>
    have hc : d ≠ c := fun h => ht (h ▸ mem_cons_self)
    have hnone (u : List Char) : Java.after? [d] (c :: t ++ d :: u) = none := by
      simp [Java.after?, hc]
    rw [hnone, hnone]
    exact .none

theorem afterBlanks? (hd : isBlank d = false) (hcs : Agree d s s' cs cs') :
    Option.Rel (Agree d s s') (afterBlanks? cs) (afterBlanks? cs') := by
  obtain ⟨t, ht, rfl, rfl⟩ := hcs
  cases t with
  | nil =>
    rw [nil_append, nil_append, afterBlanks?_eq_none (by simpa using hd),
      afterBlanks?_eq_none (by simpa using hd)]
    exact .none
  | cons c t =>
    have hmore : Agree d s s' (t ++ d :: s) (t ++ d :: s') :=
      ⟨t, fun hmem => ht (mem_cons_of_mem c hmem), rfl, rfl⟩
    simp only [cons_append, afterBlanks?]
    split
    · exact .some (hmore.dropWhile hd)
    · exact .none

theorem run? (hp : p d = false) (hcs : Agree d s s' cs cs') :
    Option.Rel (AgreeAfter d s s') (run? p cs) (run? p cs') := by
  have hrest := hcs.dropWhile hp
  simp only [Java.run?, span_eq_takeWhile_dropWhile, hcs.takeWhile_eq hp]
  cases cs'.takeWhile p with
  | nil => exact .none
  | cons c found => exact .some ⟨rfl, hrest⟩

end Agree

/-- What is recognised ends with the first `d` of the text, and is the same whatever comes after it.
-/
def ReadsTo (d : Char) (recognise : Recogniser α) : Prop :=
  ∀ cs value rest, recognise cs = some (value, rest) →
    ∃ t, d ∉ t ∧ cs = t ++ d :: rest ∧ ∀ s, recognise (t ++ d :: s) = some (value, s)

theorem ReadsTo.of_agree {d : Char} {recognise : Recogniser α} (hends : EndsWith d recognise)
    (hagree : ∀ s s' cs cs', Agree d s s' cs cs' →
      Option.Rel (SameEnd s s') (recognise cs) (recognise cs')) : ReadsTo d recognise := by
  intro cs value rest hread
  obtain ⟨u, hu⟩ := hends cs value rest hread
  obtain ⟨t, s, rfl, ht⟩ := eq_append_cons_of_mem (hu ▸ by simp : d ∈ cs)
  have hsame (s' : List Char) := hagree s s' _ _ ⟨t, ht, rfl, rfl⟩
  simp only [hread] at hsame
  have hvalue (s' : List Char) : rest = s ∧ recognise (t ++ d :: s') = some (value, s') := by
    have hrel := hsame s'
    cases hfound : recognise (t ++ d :: s') with
    | none =>
      rw [hfound] at hrel
      cases hrel
    | some found =>
      rw [hfound] at hrel
      obtain ⟨value', rest'⟩ := found
      cases hrel with
      | some hend =>
        obtain ⟨rfl, rfl, rfl⟩ := hend
        exact ⟨rfl, rfl⟩
  exact ⟨t, ht, by rw [(hvalue s).1], fun s' => (hvalue s').2⟩

/-! ### The readers of declarations -/

section Readers

variable {s s' cs cs' : List Char}

theorem readsTo_packageClause : ReadsTo ';' packageClause := by
  refine .of_agree ?_ fun s s' cs cs' hcs => ?_
  · intro cs name rest hread
    simp only [packageClause, Option.bind_eq_bind, Option.bind_eq_some_iff, Option.pure_def,
      Option.some.injEq, Prod.mk.injEq] at hread
    obtain ⟨r₁, h₁, r₂, h₂, ⟨found, r₃⟩, h₃, _, h₄, -, rfl⟩ := hread
    obtain ⟨gap, -, rfl, -⟩ := afterBlanks?_eq_some h₂
    refine ⟨"package".toList ++ (gap ++ found), ?_⟩
    obtain ⟨rfl, -⟩ := run?_eq_some h₃
    have hend : r₃ = [';'] ++ _ := after?_eq_some h₄
    rw [after?_eq_some h₁, hend]
    simp only [append_assoc, singleton_append]
  · simp only [packageClause, Option.bind_eq_bind]
    refine rel_bind (hcs.after? (by decide)) fun r₁ r₁' h₁ => ?_
    refine rel_bind (h₁.afterBlanks? (by decide)) fun r₂ r₂' h₂ => ?_
    refine rel_bind (h₂.run? (by decide)) ?_
    rintro ⟨name, r₃⟩ ⟨-, r₃'⟩ ⟨rfl, h₃⟩
    refine rel_bind h₃.after?_last ?_
    rintro - - ⟨rfl, rfl⟩
    exact .some ⟨rfl, rfl, rfl⟩

theorem readsTo_method : ReadsTo ')' method := by
  intro cs v rest hread
  obtain ⟨hparams, front, modifiers, rfl, hs⟩ := method_eq_some_iff.mp hread
  refine ⟨front ++ '(' :: v.params, ?_, by simp, fun s => ?_⟩
  · rw [mem_append, mem_cons, not_or, not_or]
    exact ⟨hs.notMem (by decide), by decide, hparams⟩
  · rw [append_assoc, cons_append]
    exact hs.method hparams s

theorem readsTo_constant : ReadsTo ';' constant := by
  refine .of_agree endsWith_constant fun s s' cs cs' hcs => ?_
  have hblank : isBlank ';' = false := by decide
  simp only [constant, Option.bind_eq_bind, span_eq_takeWhile_dropWhile]
  refine rel_bind (hcs.after? (by decide)) fun r₁ r₁' h₁ => ?_
  refine rel_bind (h₁.afterBlanks? hblank) fun r₂ r₂' h₂ => ?_
  refine rel_bind (h₂.after? (by decide)) fun r₃ r₃' h₃ => ?_
  refine rel_bind (h₃.afterBlanks? hblank) fun r₄ r₄' h₄ => ?_
  refine rel_bind (h₄.after? (by decide)) fun r₅ r₅' h₅ => ?_
  refine rel_bind (h₅.afterBlanks? hblank) fun r₆ r₆' h₆ => ?_
  refine rel_bind (h₆.run? (by decide)) ?_
  rintro ⟨type, r₇⟩ ⟨-, r₇'⟩ ⟨rfl, h₇⟩
  refine rel_bind (h₇.afterBlanks? hblank) fun r₈ r₈' h₈ => rel_bind (h₈.run? (by decide)) ?_
  rintro ⟨name, r₉⟩ ⟨-, r₉'⟩ ⟨rfl, h₉⟩
  refine rel_bind ((h₉.dropWhile hblank).after? (by decide)) fun r r' h => ?_
  have hvalue := h.dropWhile hblank
  rw [hvalue.takeWhile_eq (by decide)]
  refine rel_bind (hvalue.dropWhile (by decide)).after?_last ?_
  rintro - - ⟨rfl, rfl⟩
  exact .some ⟨rfl, rfl, rfl⟩

private theorem agree_shortestClause? {S : β → γ → Prop} {next : List Char → Option β}
    {next' : List Char → Option γ} (hcs : Agree '\x7b' s s' cs cs')
    (hnext : ∀ x y, Agree '\x7b' s s' x y → Option.Rel S (next x) (next' y)) (done : List Char) :
    Option.Rel (fun r r' => r.1 = r'.1 ∧ S r.2 r'.2) (shortestClause? next done cs)
      (shortestClause? next' done cs') := by
  obtain ⟨t, ht, rfl, rfl⟩ := hcs
  induction t generalizing done with
  | nil => exact .none
  | cons c t ih =>
    have hmore : '\x7b' ∉ t := fun hmem => ht (mem_cons_of_mem c hmem)
    have hrel := hnext _ _ ⟨t, hmore, rfl, rfl⟩
    simp only [cons_append, shortestClause?]
    split
    · cases hx : next (t ++ '\x7b' :: s) <;> cases hy : next' (t ++ '\x7b' :: s') <;>
        rw [hx, hy] at hrel <;> cases hrel
      · exact ih (c :: done) hmore
      · next hab => exact .some ⟨rfl, hab⟩
    · exact .none

private theorem agree_clause? {S : β → γ → Prop} {next : List Char → Option β}
    {next' : List Char → Option γ} {word : List Char} (hword : '\x7b' ∉ word)
    (hcs : Agree '\x7b' s s' cs cs')
    (hnext : ∀ x y, Agree '\x7b' s s' x y → Option.Rel S (next x) (next' y)) :
    Option.Rel (fun r r' => r.1 = r'.1 ∧ S r.2 r'.2) (clause? word next cs)
      (clause? word next' cs') := by
  have hblank : isBlank '\x7b' = false := by decide
  simp only [clause?, Option.bind_eq_bind]
  refine rel_bind (hcs.afterBlanks? hblank) fun r₁ r₁' h₁ =>
    rel_bind (h₁.after? hword) fun r₂ r₂' h₂ => ?_
  rw [← h₂.takeWhile_eq hblank]
  refine rel_findSome? _ fun n hn => ?_
  rw [mem_reverse, mem_range] at hn
  exact agree_shortestClause? (h₂.drop hblank hn) hnext []

private theorem agree_afterBrace? (hcs : Agree '\x7b' s s' cs cs') :
    Option.Rel (fun r r' => r = s ∧ r' = s') (afterBrace? cs) (afterBrace? cs') :=
  (hcs.dropWhile (by decide)).after?_last

private theorem agree_implementsAndBrace? (hcs : Agree '\x7b' s s' cs cs') :
    Option.Rel (SameEnd s s') (implementsAndBrace? cs) (implementsAndBrace? cs') := by
  have hword : '\x7b' ∉ "implements".toList := by decide
  have hclause := agree_clause? hword hcs fun x y hxy => agree_afterBrace? hxy
  simp only [implementsAndBrace?]
  cases hx : clause? "implements".toList afterBrace? cs <;>
    cases hy : clause? "implements".toList afterBrace? cs' <;>
    rw [hx, hy] at hclause <;> cases hclause
  · refine rel_map (agree_afterBrace? hcs) ?_
    rintro - - ⟨rfl, rfl⟩
    exact ⟨rfl, rfl, rfl⟩
  · next a b hab =>
    obtain ⟨hsame, hrest, hrest'⟩ := hab
    exact .some ⟨congrArg some hsame, hrest, hrest'⟩

private theorem agree_clausesAndBrace? (hcs : Agree '\x7b' s s' cs cs') :
    Option.Rel (fun r r' => r.1 = r'.1 ∧ SameEnd s s' r.2 r'.2) (clausesAndBrace? cs)
      (clausesAndBrace? cs') := by
  have hword : '\x7b' ∉ "extends".toList := by decide
  have hclause := agree_clause? hword hcs fun x y hxy => agree_implementsAndBrace? hxy
  simp only [clausesAndBrace?]
  cases hx : clause? "extends".toList implementsAndBrace? cs <;>
    cases hy : clause? "extends".toList implementsAndBrace? cs' <;>
    rw [hx, hy] at hclause <;> cases hclause
  · exact rel_map (agree_implementsAndBrace? hcs) fun a b hab => ⟨rfl, hab⟩
  · next a b hab =>
    obtain ⟨hsame, hrest⟩ := hab
    exact .some ⟨congrArg some hsame, hrest⟩

private theorem agree_afterTypeModifier (hcs : Agree '\x7b' s s' cs cs') :
    Agree '\x7b' s s' (afterTypeModifier cs) (afterTypeModifier cs') := by
  have hskip (word : List Char) (hword : '\x7b' ∉ word) :
      Option.Rel (Agree '\x7b' s s') ((after? word cs).bind afterBlanks?)
        ((after? word cs').bind afterBlanks?) :=
    rel_bind (hcs.after? hword) fun _ _ hrest => hrest.afterBlanks? (by decide)
  have habstract := hskip "abstract".toList (by decide)
  have hfinal := hskip "final".toList (by decide)
  simp only [afterTypeModifier]
  generalize (after? "abstract".toList cs).bind afterBlanks? = x at habstract ⊢
  generalize (after? "abstract".toList cs').bind afterBlanks? = y at habstract ⊢
  generalize (after? "final".toList cs).bind afterBlanks? = u at hfinal ⊢
  generalize (after? "final".toList cs').bind afterBlanks? = v at hfinal ⊢
  cases habstract with
  | some hrest => exact hrest
  | none =>
    cases hfinal with
    | some hrest => exact hrest
    | none => exact hcs

private theorem agree_kindWord? (hcs : Agree '\x7b' s s' cs cs') :
    Option.Rel (AgreeAfter '\x7b' s s') (kindWord? cs) (kindWord? cs') := by
  refine rel_findSome? _ fun kind _ => ?_
  have hword : '\x7b' ∉ kind.word.toList := by
    cases kind <;> decide
  exact rel_map (hcs.after? hword) fun a b hab => ⟨rfl, hab⟩

theorem readsTo_header : ReadsTo '\x7b' header := by
  refine .of_agree endsWith_header fun s s' cs cs' hcs => ?_
  have hblank : isBlank '\x7b' = false := by decide
  simp only [header, Option.bind_eq_bind]
  refine rel_bind (hcs.after? (by decide)) fun r₁ r₁' h₁ => ?_
  refine rel_bind (h₁.afterBlanks? hblank) fun r₂ r₂' h₂ => ?_
  refine rel_bind (agree_kindWord? (agree_afterTypeModifier h₂)) ?_
  rintro ⟨kind, r₃⟩ ⟨-, r₃'⟩ ⟨rfl, h₃⟩
  refine rel_bind (h₃.afterBlanks? hblank) fun r₄ r₄' h₄ => rel_bind (h₄.run? (by decide)) ?_
  rintro ⟨name, r₅⟩ ⟨-, r₅'⟩ ⟨rfl, h₅⟩
  refine rel_bind (agree_clausesAndBrace? h₅) ?_
  rintro ⟨ext, impl, r₆⟩ ⟨-, -, r₆'⟩ ⟨rfl, rfl, rfl, rfl⟩
  exact .some ⟨rfl, rfl, rfl⟩

end Readers

/-! ### Searching in a longer text -/

section Searching

variable {rest : List Char} {position : Nat}

variable {d : Char} {recognise : Recogniser α} (hreads : ReadsTo d recognise)

include hreads

theorem ReadsTo.endsWith : EndsWith d recognise := by
  intro cs value rest hread
  obtain ⟨t, -, ht, -⟩ := hreads cs value rest hread
  exact ⟨t, ht⟩

theorem ReadsTo.replace {s : List Char} {value : α} (hread : recognise (t ++ s) = some (value, s))
    (s' : List Char) : recognise (t ++ s') = some (value, s') := by
  obtain ⟨u, -, hu, hread'⟩ := hreads _ _ _ hread
  obtain rfl : t = u ++ [d] := by
    rw [← singleton_append, ← append_assoc] at hu
    exact append_cancel_right hu
  rw [append_assoc, singleton_append]
  exact hread' s'

theorem ReadsTo.isMatch_iff {front body after : List Char} {m : Match α} :
    IsMatch recognise front.length body m ↔ IsMatch recognise 0 (front ++ (body ++ after)) m ∧
      front.length ≤ m.start ∧ m.stop ≤ front.length + body.length := by
  constructor
  · intro hm
    refine ⟨?_, hm.le_start, hm.stop_le⟩
    obtain ⟨u, rest, rfl, hne, hread, hstart, hstop⟩ := hm
    refine ⟨front ++ u, rest ++ after, by simp only [append_assoc], hne,
      hreads.replace hread _, ?_, hstop⟩
    rw [hstart, length_append, Nat.zero_add]
  · rintro ⟨hm, hlate, hearly⟩
    obtain ⟨u, rest, htext, hne, hread, hstart, hstop⟩ :=
      hm.of_append (t := front) (by rwa [Nat.zero_add])
    obtain ⟨more, hmore⟩ : u ++ m.covered <+: body := by
      refine prefix_of_prefix_length_le ⟨rest, ?_⟩ (prefix_append body after) ?_
      · rw [htext, append_assoc]
      · rw [length_append]
        omega
    refine ⟨u, more, ?_, hne, hreads.replace hread more, by omega, hstop⟩
    rw [← hmore, append_assoc]

theorem ReadsTo.of_append {after : List Char} {value : α}
    (hread : recognise (t ++ rest) = some (value, after)) :
    (d ∈ t ∧ ∃ left, after = left ++ rest ∧ recognise t = some (value, left)) ∨
      d ∉ t ∧ ∃ u, t ++ rest = u ++ after ∧ t.length < u.length := by
  obtain ⟨u, hu, htext, hmore⟩ := hreads _ _ _ hread
  rw [append_cons] at htext
  by_cases hshort : (u ++ [d]).length ≤ t.length
  · left
    obtain ⟨left, rfl⟩ : u ++ [d] <+: t :=
      prefix_of_prefix_length_le ⟨after, htext.symm⟩ (prefix_append _ rest) hshort
    rw [append_assoc] at htext
    refine ⟨by simp, left, (append_cancel_left htext).symm, ?_⟩
    rw [append_assoc, singleton_append]
    exact hmore left
  · right
    refine ⟨fun hmem => hu ?_, u ++ [d], htext, by omega⟩
    have hfront : t <+: u := by
      rw [append_assoc] at htext
      refine prefix_of_prefix_length_le (prefix_append _ rest) ⟨_, htext.symm⟩ ?_
      rw [length_append, length_singleton] at hshort
      omega
    exact hfront.subset hmem

theorem ReadsTo.lt_stop_iff {u : List Char} {m : Match α}
    (hm : IsMatch recognise position (u ++ (t ++ rest)) m) (hstart : m.start = position + u.length) :
    m.start + t.length < m.stop ↔ d ∉ t := by
  obtain ⟨front, after, htext, -, hread, hfront, hstop⟩ := hm
  obtain ⟨-, htext⟩ := append_inj htext (by omega)
  have hlength := congrArg length htext
  rw [← htext] at hread
  rcases hreads.of_append hread with ⟨hmem, left, rfl, -⟩ | ⟨hfree, w, hw, hlong⟩
  · simp only [length_append] at hlength
    exact ⟨fun h => absurd h (by omega), fun h => absurd hmem h⟩
  · have hlength' := congrArg length hw
    simp only [length_append] at hlength hlength'
    exact ⟨fun _ => hfree, fun _ => by omega⟩

theorem ReadsTo.exists_of_crosses {m : Match α} (hm : m ∈ scanFrom recognise position (t ++ rest))
    (hcross : m.Crosses (position + t.length)) :
    ∃ before between after, t = before ++ between ∧ m.start = position + before.length ∧
      between ≠ [] ∧ d ∉ between ∧ recognise (between ++ rest) = some (m.value, after) := by
  obtain ⟨hbefore, hbeyond⟩ := hcross
  obtain ⟨before, after, htext, -, hread, hstart, -⟩ := isMatch_of_mem_scanFrom hreads.endsWith hm
  obtain ⟨between, rfl⟩ : before <+: t :=
    prefix_of_prefix_length_le (htext ▸ prefix_append _ _) (prefix_append t rest)
      (by omega)
  rw [append_assoc] at htext hm
  rw [length_append] at hbefore hbeyond
  rw [← append_cancel_left htext] at hread
  have hmatch := isMatch_of_mem_scanFrom hreads.endsWith hm
  exact ⟨before, between, after, rfl, hstart, ne_nil_of_length_pos (by omega),
    (hreads.lt_stop_iff hmatch hstart).mp (by omega), hread⟩

theorem ReadsTo.mem_of_crosses {u : List Char} {m : Match α}
    (hm : m ∈ scanFrom recognise position (u ++ (t ++ rest)))
    (hcross : m.Crosses (position + u.length)) (hshort : m.stop ≤ position + (u ++ t).length) :
    d ∈ t := by
  obtain ⟨before, between, after, rfl, hstart, -, hfree, -⟩ := hreads.exists_of_crosses hm hcross
  have hmatch := isMatch_of_mem_scanFrom hreads.endsWith hm
  by_contra hnone
  have htext : before ++ between ++ (t ++ rest) = before ++ ((between ++ t) ++ rest) := by simp
  rw [htext] at hmatch
  have hlong := (hreads.lt_stop_iff hmatch hstart).mpr (by simp [hfree, hnone])
  simp only [length_append] at hshort hlong
  omega

theorem ReadsTo.scanFrom_eq_nil (ht : d ∉ t) (position : Nat) :
    scanFrom recognise position t = [] := by
  rw [eq_nil_iff_forall_not_mem]
  intro m hm
  obtain ⟨front, rest, rfl, -, hread, -⟩ := isMatch_of_mem_scanFrom hreads.endsWith hm
  obtain ⟨u, hu⟩ := hreads.endsWith _ _ _ hread
  exact ht (by simp [hu])

/-- A search goes through two texts in a row as through each of them, unless something that it finds
reaches from the first into the second one. -/
theorem ReadsTo.scanFrom_append (position : Nat) (t rest : List Char) :
    scanFrom recognise position (t ++ rest) =
        scanFrom recognise position t ++ scanFrom recognise (position + t.length) rest ∨
      ∃ m more, scanFrom recognise position (t ++ rest) =
        scanFrom recognise position t ++ m :: more ∧ m.Crosses (position + t.length) := by
  have hscan := scans_scanFrom hreads.endsWith position t
  generalize hms : scanFrom recognise position t = ms at hscan ⊢
  induction hscan with
  | done => exact .inl rfl
  | @pass position c cs ms hnone _ ih =>
    rw [scanFrom_cons hnone] at hms
    rw [cons_append]
    cases hread : recognise (c :: (cs ++ rest)) with
    | none =>
      rw [scanFrom_cons hread, length_cons, Nat.add_comm cs.length, ← Nat.add_assoc]
      exact ih hms
    | some found =>
      -- The first text does not hold the character that ends what is recognised.
      rcases hreads.of_append (t := c :: cs) hread with ⟨-, left, -, hhere⟩ |
        ⟨hfree, u, htext, hlong⟩
      · rw [hnone] at hhere
        cases hhere
      · have hne : u ≠ [] := ne_nil_of_length_pos (by omega)
        rw [← hms, hreads.scanFrom_eq_nil (fun hmem => hfree (mem_cons_of_mem c hmem)),
          nil_append, ← cons_append, htext]
        rw [← cons_append, htext] at hread
        rw [scanFrom_match hne hread]
        refine .inr ⟨_, _, rfl, ?_, ?_⟩
        · simp
        · simp only
          omega
  | @found position u left value ms hne hread _ ih =>
    rw [scanFrom_match hne hread, cons.injEq] at hms
    rw [append_assoc, scanFrom_match hne (hreads.replace hread _), length_append, ← Nat.add_assoc]
    rcases ih hms.2 with hboth | ⟨m, more, hboth, hcross⟩
    · exact .inl (by rw [hboth, cons_append])
    · exact .inr ⟨m, more, by rw [hboth, cons_append], hcross⟩

theorem ReadsTo.scanFrom_prefix (position : Nat) (t rest : List Char) :
    scanFrom recognise position t <+: scanFrom recognise position (t ++ rest) := by
  rcases hreads.scanFrom_append position t rest with hboth | ⟨other, more, hboth, -⟩
  · exact ⟨_, hboth.symm⟩
  · exact ⟨_, hboth.symm⟩

theorem ReadsTo.scanFrom_append_of_not_crosses
    (hfree : ∀ m ∈ scanFrom recognise position (t ++ rest), ¬ m.Crosses (position + t.length)) :
    scanFrom recognise position (t ++ rest) =
      scanFrom recognise position t ++ scanFrom recognise (position + t.length) rest := by
  rcases hreads.scanFrom_append position t rest with hboth | ⟨other, more, hboth, hcross⟩
  · exact hboth
  · exact absurd hcross (hfree other (by simp [hboth]))

theorem ReadsTo.scanFirst?_append {value : α} (hfirst : scanFirst? recognise t = some value)
    (rest : List Char) : scanFirst? recognise (t ++ rest) = some value := by
  rw [(scans_scanFrom hreads.endsWith 0 _).scanFirst?_eq] at hfirst ⊢
  obtain ⟨m, hm, rfl⟩ := Option.map_eq_some_iff.mp hfirst
  obtain ⟨ms, hms⟩ := head?_eq_some_iff.mp hm
  obtain ⟨more, hmore⟩ := hreads.scanFrom_prefix 0 t rest
  rw [← hmore, hms]
  rfl

end Searching

/-! ### Places that nothing reaches over -/

/-- Nothing that is found in a text reaches over its end if `next` follows, whatever comes after that.
-/
def Settled (recognise : Recogniser α) (t next : List Char) : Prop :=
  ∀ rest, ∀ m ∈ scan recognise (t ++ (next ++ rest)), ¬ m.Crosses t.length

theorem not_crosses_of_scan {recognise : Recogniser α} {cs : List Char} {place : Nat}
    (hfree : ∀ m ∈ scan recognise cs, ¬ m.Crosses place) (position : Nat) :
    ∀ m ∈ scanFrom recognise position cs, ¬ m.Crosses (position + place) := by
  intro m hm hcross
  rw [← Nat.zero_add position, scanFrom_add 0 position] at hm
  obtain ⟨other, hother, rfl⟩ := mem_map.mp hm
  obtain ⟨hbefore, hbeyond⟩ := hcross
  simp only [Match.shift] at hbefore hbeyond
  exact hfree other hother ⟨by omega, by omega⟩

theorem Settled.not_crosses {recognise : Recogniser α} {next : List Char}
    (ht : Settled recognise t next) (position : Nat) (rest : List Char) :
    ∀ m ∈ scanFrom recognise position (t ++ (next ++ rest)), ¬ m.Crosses (position + t.length) :=
  not_crosses_of_scan (ht rest) position

theorem settled_nil (recognise : Recogniser α) (next : List Char) : Settled recognise [] next :=
  fun _ _ _ hcross => Nat.not_lt_zero _ hcross.1

/-- No declaration is left open: the last character that is not blank is no part of words, and each
sign has a closing sign after it. -/
structure Finished (sign closing : Char) (t : List Char) : Prop where
  last : ∀ c ∈ (t.reverse.dropWhile Text.isBlank).head?, isWordsChar c = false ∧ c ≠ '@'
  closed : sign ∉ t.reverse.takeWhile (· != closing)

theorem exists_last_solid {between : List Char} (hne : between ≠ []) (hsolid : IsSolid between)
    (before : List Char) :
    ∃ c ∈ between, c ∈ ((before ++ between).reverse.dropWhile isBlank).head? := by
  have hdrop : between.reverse.dropWhile isBlank ≠ [] := by
    obtain ⟨c, tail, rfl⟩ := exists_cons_of_ne_nil hne
    intro hnil
    have hblank := dropWhile_eq_nil_iff.mp hnil c (by simp)
    rw [hsolid c rfl] at hblank
    cases hblank
  rw [reverse_append, dropWhile_append, if_neg (by simpa using hdrop),
    head?_append_of_ne_nil _ hdrop]
  exact ⟨_, mem_reverse.mp ((dropWhile_suffix _).mem (head_mem hdrop)),
    head_mem_head? hdrop⟩

/-- What reaches over the end of a stretch has its sign in the stretch, or the last character of the
stretch that is not blank is one of those that come before the sign. -/
theorem ReadsTo.sign_or_last_of_crosses {p : Char → Prop} {sign closing : Char}
    {recognise : Recogniser α} (hreads : ReadsTo closing recognise)
    (hstops : StopsAt p sign recognise) {position : Nat} {rest : List Char} {m : Match α}
    (hm : m ∈ scanFrom recognise position (t ++ rest)) (hcross : m.Crosses (position + t.length)) :
    (∃ before between, t = before ++ between ∧ closing ∉ between ∧ sign ∈ between) ∨
      ∃ c ∈ (t.reverse.dropWhile isBlank).head?, p c := by
  obtain ⟨before, between, after, rfl, -, hne, hopen, hread⟩ := hreads.exists_of_crosses hm hcross
  by_cases hsign : sign ∈ between
  · exact .inl ⟨before, between, rfl, hopen, hsign⟩
  · right
    obtain ⟨front, tail, htext, -, hsolid, hfront⟩ := hstops _ _ _ hread
    obtain ⟨more, rfl⟩ : between <+: front :=
      prefix_of_prefix_append_cons hsign (htext ▸ prefix_append _ _)
    have hsolid' : IsSolid between := by
      intro c hc
      exact hsolid c (by rw [head?_append_of_ne_nil _ hne]; exact hc)
    obtain ⟨c, hc, hlast⟩ := exists_last_solid hne hsolid' before
    exact ⟨c, hlast, hfront c (mem_append_left _ hc)⟩

theorem Finished.settled {sign closing : Char} {recognise : Recogniser α}
    (ht : Finished sign closing t) (hreads : ReadsTo closing recognise)
    (hstops : StopsAt (fun c => isWordsChar c = true ∨ c = '@') sign recognise) (next : List Char) :
    Settled recognise t next := by
  intro rest m hm hcross
  rw [← Nat.zero_add t.length] at hcross
  rcases hreads.sign_or_last_of_crosses hstops hm hcross with
    ⟨before, between, rfl, hopen, hsign⟩ | ⟨c, hlast, hword | hat⟩
  · refine ht.closed ?_
    have hall : ∀ c ∈ between.reverse, (c != closing) = true := fun c hc =>
      bne_iff_ne.mpr fun h => hopen (h ▸ mem_reverse.mp hc)
    rw [reverse_append, takeWhile_append_of_pos hall]
    exact mem_append_left _ (mem_reverse.mpr hsign)
  · rw [(ht.last c hlast).1] at hword
    cases hword
  · exact (ht.last c hlast).2 hat

end JarAtlas.Java
