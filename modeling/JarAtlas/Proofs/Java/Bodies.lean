import JarAtlas.Proofs.Java.Locality

/-!
The bodies of declarations and the members that are reported for them. A body ends at the brace that
closes it, so of two bodies in a text one is inside the other or they are apart, however the braces
stand. Members of a nested declaration lie in the bodies around it as well, and are reported there
too.
-/

open List

namespace JarAtlas.Java

def Opened (opening closing : Char) (t : List Char) : Prop :=
  ∀ u, u <+: t → u.count closing ≤ u.count opening

/-- Every closing sign closes one that was opened before it, and all of them are closed. -/
structure Balanced (opening closing : Char) (t : List Char) : Prop where
  opened : Opened opening closing t
  closed : t.count closing = t.count opening

instance (opening closing : Char) (t : List Char) : Decidable (Balanced opening closing t) :=
  decidable_of_iff ((∀ u ∈ t.inits, u.count closing ≤ u.count opening) ∧
      t.count closing = t.count opening)
    ⟨fun h => ⟨fun u hu => h.1 u (mem_inits u t |>.mpr hu), h.2⟩,
      fun h => ⟨fun u hu => h.opened u (mem_inits u t |>.mp hu), h.closed⟩⟩

/-! ### Bodies -/

private theorem count_cons_eq (b c : Char) (t : List Char) :
    (c :: t).count b = [c].count b + t.count b := by
  rw [← singleton_append, count_append]

/-- What stands at the front of a text before `depth + 1` braces are closed that were not opened in
it; without such a closing brace, the whole text. -/
structure IsBody (depth : Nat) (text body : List Char) : Prop where
  front : body <+: text
  opened : ∀ t, t <+: body → t.count '\x7d' ≤ t.count '\x7b' + depth
  closed : body = text ∨
    ∃ rest, text = body ++ '\x7d' :: rest ∧ body.count '\x7d' = body.count '\x7b' + depth

namespace IsBody

variable {depth inner : Nat} {text body : List Char}

theorem nil : IsBody depth [] [] where
  front := nil_prefix
  opened := by simp
  closed := .inl rfl

theorem cons {c : Char} (hbody : IsBody inner text body)
    (hcount : [c].count '\x7d' + inner = [c].count '\x7b' + depth) :
    IsBody depth (c :: text) (c :: body) := by
  refine ⟨cons_prefix_cons.mpr ⟨rfl, hbody.front⟩, fun t ht => ?_, ?_⟩
  · rcases prefix_cons_iff.mp ht with rfl | ⟨u, rfl, hu⟩
    · simp
    · have hle := hbody.opened u hu
      rw [count_cons_eq '\x7d', count_cons_eq '\x7b']
      omega
  · rcases hbody.closed with rfl | ⟨rest, rfl, heq⟩
    · exact .inl rfl
    · refine .inr ⟨rest, rfl, ?_⟩
      rw [count_cons_eq '\x7d', count_cons_eq '\x7b']
      omega

end IsBody

theorem untilClosed_done (depth : Nat) (done cs : List Char) :
    untilClosed depth done cs = done.reverse ++ untilClosed depth [] cs := by
  induction cs generalizing depth done with
  | nil => simp [untilClosed]
  | cons c cs ih =>
    simp only [untilClosed]
    split
    · rw [ih (depth + 1) (c :: done), ih (depth + 1) [c]]
      simp
    · split
      · cases depth with
        | zero => simp
        | succ depth =>
          simp only
          rw [ih depth (c :: done), ih depth [c]]
          simp
      · rw [ih depth (c :: done), ih depth [c]]
        simp

theorem untilClosed_cons (depth : Nat) (c : Char) (cs : List Char) :
    (c = '\x7d' ∧ depth = 0 ∧ untilClosed depth [] (c :: cs) = []) ∨
      ∃ inner, [c].count '\x7d' + inner = [c].count '\x7b' + depth ∧
        untilClosed depth [] (c :: cs) = c :: untilClosed inner [] cs := by
  have hstep (inner : Nat) : untilClosed inner [c] cs = c :: untilClosed inner [] cs :=
    untilClosed_done inner [c] cs
  by_cases hopen : c = '\x7b'
  · subst hopen
    exact .inr ⟨depth + 1, by simp [Nat.add_comm], hstep (depth + 1)⟩
  · by_cases hclose : c = '\x7d'
    · subst hclose
      cases depth with
      | zero => exact .inl ⟨rfl, rfl, rfl⟩
      | succ depth => exact .inr ⟨depth, by simp [Nat.add_comm], hstep depth⟩
    · refine .inr ⟨depth, by simp [hopen, hclose], ?_⟩
      simpa [untilClosed, hopen, hclose] using hstep depth

theorem isBody_untilClosed (depth : Nat) (cs : List Char) :
    IsBody depth cs (untilClosed depth [] cs) := by
  induction cs generalizing depth with
  | nil => exact .nil
  | cons c cs ih =>
    rcases untilClosed_cons depth c cs with ⟨rfl, rfl, hread⟩ | ⟨inner, hcount, hread⟩
    · rw [hread]
      exact ⟨ nil_prefix, by simp, .inr ⟨cs, rfl, rfl⟩⟩
    · rw [hread]
      exact (ih inner).cons hcount

theorem isPrefix_untilClosed (depth more : Nat) (cs : List Char) :
    untilClosed depth [] cs <+: untilClosed (depth + more) [] cs := by
  induction cs generalizing depth with
  | nil => exact nil_prefix
  | cons c cs ih =>
    rcases untilClosed_cons depth c cs with ⟨-, -, hread⟩ | ⟨inner, hcount, hread⟩
    · rw [hread]
      exact nil_prefix
    · rcases untilClosed_cons (depth + more) c cs with ⟨rfl, hzero, -⟩ | ⟨inner', hcount', hread'⟩
      · simp at hcount
        omega
      · obtain rfl : inner' = inner + more := by omega
        rw [hread, hread']
        exact cons_prefix_cons.mpr ⟨rfl, ih inner⟩

variable {t : List Char}

theorem untilClosed_append {depth : Nat}
    (hopened : ∀ u, u <+: t → u.count '\x7d' ≤ u.count '\x7b' + depth) (rest : List Char) :
    untilClosed depth [] (t ++ rest) =
      t ++ untilClosed (depth + t.count '\x7b' - t.count '\x7d') [] rest := by
  induction t generalizing depth with
  | nil => rfl
  | cons c t ih =>
    have hmore (u : List Char) (hu : u <+: t) :
        [c].count '\x7d' + u.count '\x7d' ≤ [c].count '\x7b' + u.count '\x7b' + depth := by
      have hle := hopened (c :: u) (cons_prefix_cons.mpr ⟨rfl, hu⟩)
      rwa [count_cons_eq '\x7d', count_cons_eq '\x7b'] at hle
    rcases untilClosed_cons depth c (t ++ rest) with ⟨rfl, rfl, -⟩ | ⟨inner, hcount, hread⟩
    · exact absurd (hmore [] nil_prefix) (by decide)
    · have hdepth : depth + (c :: t).count '\x7b' - (c :: t).count '\x7d' =
          inner + t.count '\x7b' - t.count '\x7d' := by
        rw [count_cons_eq '\x7d', count_cons_eq '\x7b']
        omega
      rw [cons_append, hread, hdepth, ih fun u hu => by have hle := hmore u hu; omega]
      rfl

theorem Opened.untilClosed_append (ht : Opened '\x7b' '\x7d' t) (depth : Nat)
    (rest : List Char) : untilClosed depth [] (t ++ rest) =
      t ++ untilClosed (depth + t.count '\x7b' - t.count '\x7d') [] rest :=
  Java.untilClosed_append (fun u hu => Nat.le_trans (ht u hu) (Nat.le_add_right _ _)) rest

theorem untilClosed_append_of_notMem (hopening : '\x7b' ∉ t) (hclosing : '\x7d' ∉ t) (depth : Nat)
    (rest : List Char) : untilClosed depth [] (t ++ rest) = t ++ untilClosed depth [] rest := by
  have hopened : Opened '\x7b' '\x7d' t := by
    intro u hu
    rw [count_eq_zero_of_not_mem fun hmem => hclosing (hu.subset hmem)]
    exact Nat.zero_le _
  rw [hopened.untilClosed_append, count_eq_zero_of_not_mem hopening,
    count_eq_zero_of_not_mem hclosing]
  rfl

theorem untilClosed_of_notMem (hopening : '\x7b' ∉ t) (hclosing : '\x7d' ∉ t)
    (depth : Nat) : untilClosed depth [] t = t := by
  have hread := untilClosed_append_of_notMem hopening hclosing depth []
  rw [append_nil] at hread
  exact hread.trans (append_nil t)

theorem isBody_bodyFrom (cs : List Char) (start : Nat) :
    IsBody 0 (cs.drop start) (bodyFrom cs start) :=
  isBody_untilClosed 0 _

/-! ### Places -/

structure Span where
  start : Nat
  stop : Nat
  deriving DecidableEq, Repr

namespace Span

def Inside (s t : Span) : Prop :=
  t.start ≤ s.start ∧ s.stop ≤ t.stop

def Apart (s t : Span) : Prop :=
  s.stop ≤ t.start ∨ t.stop ≤ s.start

def Contains (s : Span) (position : Nat) : Prop :=
  s.start ≤ position ∧ position < s.stop

instance (s t : Span) : Decidable (s.Inside t) :=
  inferInstanceAs (Decidable (_ ∧ _))

instance (s t : Span) : Decidable (s.Apart t) :=
  inferInstanceAs (Decidable (_ ∨ _))

instance (s : Span) (position : Nat) : Decidable (s.Contains position) :=
  inferInstanceAs (Decidable (_ ∧ _))

end Span

def bodySpan (cs : List Char) (m : Match Header) : Span :=
  ⟨m.stop - 1, m.stop + (bodyFrom cs m.stop).length⟩

section Bodies

variable {cs : List Char} {a b : Match Header}

theorem header_place (ha : a ∈ scan header cs) :
    ∃ front words, cs = front ++ (words ++ '\x7b' :: cs.drop a.stop) ∧ a.start = front.length ∧
      a.stop = front.length + (words.length + 1) ∧ ∀ c ∈ words, isWordsChar c := by
  obtain ⟨front, rest, htext, -, hread, hstart, hstop⟩ := isMatch_of_mem_scanFrom endsWith_header ha
  obtain ⟨words, hwords, hall⟩ := skips_header hread
  have hcovered : a.covered = words ++ ['\x7b'] := by
    rw [← singleton_append, ← append_assoc] at hwords
    exact append_cancel_right hwords
  have hlength : a.stop = front.length + (words.length + 1) := by
    rw [hstop, hstart, hcovered, length_append, length_singleton]
    omega
  have hrest : cs.drop a.stop = rest := by
    rw [htext, hcovered, ← append_assoc]
    refine drop_left' ?_
    rw [length_append, length_append, length_singleton, hlength]
  refine ⟨front, words, ?_, by omega, hlength, hall⟩
  rw [hrest, ← hwords]
  exact htext

/-- Of two declarations, the body of the later one is inside that of the earlier one, or comes after
it together with its header. -/
theorem inside_or_before (hb : b ∈ scan header cs)
    (hbefore : a.stop ≤ b.start) :
    (bodySpan cs b).Inside (bodySpan cs a) ∨ (bodySpan cs a).stop ≤ b.start := by
  obtain ⟨front, words, htext, hstart, hstop, hwords⟩ := header_place hb
  have hbody := isBody_bodyFrom cs a.stop
  -- What comes between the two headers, the words of the second one, and its body.
  have hafter : cs.drop a.stop = front.drop a.stop ++ (words ++ '\x7b' :: cs.drop b.stop) := by
    conv_lhs => rw [htext]
    exact drop_append_of_le_length (by omega)
  have hgap : (front.drop a.stop).length = front.length - a.stop := length_drop
  by_cases hopened : Opened '\x7b' '\x7d' (front.drop a.stop)
  · left
    have hwords_free {c : Char} (hc : isWordsChar c = false) : c ∉ words := fun hmem => by
      simp [hwords c hmem] at hc
    have hread (depth : Nat) : untilClosed depth [] ('\x7b' :: cs.drop b.stop) =
        '\x7b' :: untilClosed (depth + 1) [] (cs.drop b.stop) :=
      untilClosed_done (depth + 1) ['\x7b'] _
    have houter := congrArg length (hopened.untilClosed_append 0 (words ++
      '\x7b' :: cs.drop b.stop))
    rw [← hafter, untilClosed_append_of_notMem (hwords_free (by decide)) (hwords_free (by decide)),
      hread] at houter
    generalize 0 + (front.drop a.stop).count '\x7b' - (front.drop a.stop).count '\x7d' = depth
      at houter
    have hinner := (isPrefix_untilClosed 0 (depth + 1) (cs.drop b.stop)).length_le
    rw [Nat.zero_add] at hinner
    simp only [length_append, length_cons] at houter
    simp only [bodySpan, Span.Inside, bodyFrom]
    omega
  · right
    simp only [Opened, not_forall, not_le] at hopened
    obtain ⟨u, hu, hclosed⟩ := hopened
    by_contra hlate
    simp only [bodySpan] at hlate
    have hlength := hu.length_le
    have hfront : u <+: bodyFrom cs a.stop := by
      refine prefix_of_prefix_length_le ?_ hbody.front (by omega)
      rw [hafter]
      exact hu.trans (prefix_append _ _)
    have hle := hbody.opened u hfront
    omega

theorem apart_or_inside (ha : a ∈ scan header cs) (hb : b ∈ scan header cs) :
    (bodySpan cs a).Apart (bodySpan cs b) ∨ (bodySpan cs a).Inside (bodySpan cs b) ∨
      (bodySpan cs b).Inside (bodySpan cs a) := by
  have hastart := start_lt_stop_of_mem_scanFrom endsWith_header ha
  have hbstart := start_lt_stop_of_mem_scanFrom endsWith_header hb
  rcases order_of_mem_scanFrom endsWith_header ha hb with rfl | hfirst | hsecond
  · exact .inr (.inl ⟨Nat.le_refl _, Nat.le_refl _⟩)
  · rcases inside_or_before hb hfirst with hinside | hbefore
    · exact .inr (.inr hinside)
    · exact .inl (.inl (Nat.le_trans hbefore (Nat.le_sub_one_of_lt hbstart)))
  · rcases inside_or_before ha hsecond with hinside | hbefore
    · exact .inr (.inl hinside)
    · exact .inl (.inr (Nat.le_trans hbefore (Nat.le_sub_one_of_lt hastart)))

end Bodies

/-! ### Members -/

/-- The methods that are reported for a declaration, each with its place in the whole text. -/
def methodsAt (cs : List Char) (m : Match Header) : List (Match Signature) :=
  (scanFrom method m.stop (bodyFrom cs m.stop)).filter fun o => o.value.name != m.value.name

/-- The constants that are reported for a declaration, each with its place in the whole text. -/
def constantsAt (cs : List Char) (m : Match Header) : List (Match Assignment) :=
  scanFrom constant m.stop (bodyFrom cs m.stop)

theorem map_scanFrom_method (name : List Char) (position : Nat) (body : List Char) :
    ((scanFrom method position body).filter fun o => o.value.name != name).map Method.ofMatch =
      methodsIn name body := by
  rw [← Nat.zero_add position, scanFrom_add, filter_map, map_map]
  rfl

theorem map_scanFrom_constant (position : Nat) (body : List Char) :
    (scanFrom constant position body).map Constant.ofMatch = constantsIn body := by
  rw [← Nat.zero_add position, scanFrom_add, map_map]
  rfl

theorem members_ofMatch (package : String) (cs : List Char) (m : Match Header) :
    (TypeDecl.ofMatch package cs m).methods = (methodsAt cs m).map Method.ofMatch ∧
      (TypeDecl.ofMatch package cs m).constants = (constantsAt cs m).map Constant.ofMatch :=
  ⟨(map_scanFrom_method _ _ _).symm, (map_scanFrom_constant _ _).symm⟩

section Members

variable {cs : List Char} {a b : Match Header} {α : Type} {o o' : Match α}

/-- Something lies in the body of a declaration. -/
def Match.LiesIn (o : Match α) (cs : List Char) (m : Match Header) : Prop :=
  m.stop ≤ o.start ∧ o.stop ≤ (bodySpan cs m).stop

theorem IsMatch.liesIn {recognise : Recogniser α}
    (ho : IsMatch recognise a.stop (bodyFrom cs a.stop) o) : o.LiesIn cs a :=
  ⟨ho.le_start, ho.stop_le⟩

theorem liesIn_of_mem_methodsAt {o : Match Signature} (ho : o ∈ methodsAt cs a) : o.LiesIn cs a :=
  (isMatch_of_mem_scanFrom endsWith_method (mem_of_mem_filter ho)).liesIn

theorem liesIn_of_mem_constantsAt {o : Match Assignment} (ho : o ∈ constantsAt cs a) :
    o.LiesIn cs a :=
  (isMatch_of_mem_scanFrom endsWith_constant ho).liesIn

theorem Match.LiesIn.stop_lt_start (ho : o.LiesIn cs a) (ho' : o'.LiesIn cs b)
    (hb : b ∈ scan header cs) (hbefore : (bodySpan cs a).stop ≤ b.start) : o.stop < o'.start :=
  calc o.stop ≤ b.start := Nat.le_trans ho.2 hbefore
    _ < b.stop := start_lt_stop_of_mem_scanFrom endsWith_header hb
    _ ≤ o'.start := ho'.1

end Members

/-- Of the bodies of two declarations in a text, one is inside the other or they are apart, whether
the braces are balanced or not, and the members of a declaration lie in its body. -/
theorem bodies_apart_or_inside (package : String) (cs : List Char) {a b : Match Header}
    (ha : a ∈ scan header cs) (hb : b ∈ scan header cs) :
    IsBody 0 (cs.drop a.stop) (bodyFrom cs a.stop) ∧
    ((bodySpan cs a).Apart (bodySpan cs b) ∨ (bodySpan cs a).Inside (bodySpan cs b) ∨
      (bodySpan cs b).Inside (bodySpan cs a)) ∧
    ((TypeDecl.ofMatch package cs a).methods = (methodsAt cs a).map Method.ofMatch ∧
      ∀ o ∈ methodsAt cs a, o.LiesIn cs a) ∧
    ((TypeDecl.ofMatch package cs a).constants = (constantsAt cs a).map Constant.ofMatch ∧
      ∀ o ∈ constantsAt cs a, o.LiesIn cs a) ∧
    (a.start < b.start → ¬ (bodySpan cs b).Inside (bodySpan cs a) →
      (bodySpan cs a).stop ≤ b.start ∧
      (∀ o ∈ methodsAt cs a, ∀ o' ∈ methodsAt cs b, o.stop < o'.start) ∧
      ∀ o ∈ constantsAt cs a, ∀ o' ∈ constantsAt cs b, o.stop < o'.start) := by
  obtain ⟨hmethods, hconstants⟩ := members_ofMatch package cs a
  refine ⟨isBody_bodyFrom cs a.stop, apart_or_inside ha hb,
    ⟨hmethods, fun o => liesIn_of_mem_methodsAt⟩, ⟨hconstants, fun o => liesIn_of_mem_constantsAt⟩,
    fun hstart houtside => ?_⟩
  have hbefore : (bodySpan cs a).stop ≤ b.start := by
    rcases order_of_mem_scanFrom endsWith_header ha hb with rfl | hfirst | hsecond
    · exact absurd hstart (Nat.lt_irrefl _)
    · exact (inside_or_before hb hfirst).resolve_left houtside
    · have hbstart := start_lt_stop_of_mem_scanFrom endsWith_header hb
      omega
  exact ⟨hbefore,
    fun o ho o' ho' =>
      (liesIn_of_mem_methodsAt ho).stop_lt_start (liesIn_of_mem_methodsAt ho') hb hbefore,
    fun o ho o' ho' =>
      (liesIn_of_mem_constantsAt ho).stop_lt_start (liesIn_of_mem_constantsAt ho') hb hbefore⟩

/-- The characters of two texts in a row. Written with it, a text need not be read back from its
bytes when it is evaluated. -/
theorem toList_ofList_append (cs ds : List Char) :
    (String.ofList cs ++ String.ofList ds).toList = cs ++ ds := by
  rw [String.toList_append, String.toList_ofList, String.toList_ofList]

/-- A type with a type nested in it, and a type after it whose body is never closed. -/
def openText : List Char :=
  ("package p;\npublic class A \x7b\n  public class In \x7b\n    public int f();\n  \x7d\n" ++
    "  public int g();\n\x7d\npublic class B \x7b\n  public int h();\n").toList

theorem bodies_apart_openText :
    ∃ a ∈ scan header openText, ∃ b ∈ scan header openText,
      a.start < b.start ∧ ¬ (bodySpan openText b).Inside (bodySpan openText a) ∧
      (methodsAt openText a).length = 2 ∧ (methodsAt openText b).length = 1 ∧
      ∀ o ∈ methodsAt openText a, ∀ o' ∈ methodsAt openText b, o.stop < o'.start := by
  have hpair : ∃ a ∈ scan header openText, ∃ b ∈ scan header openText,
      a.start < b.start ∧ ¬ (bodySpan openText b).Inside (bodySpan openText a) ∧
      (methodsAt openText a).length = 2 ∧ (methodsAt openText b).length = 1 := by
    have htext : openText = _ := toList_ofList_append _ _
    rw [htext]
    decide +kernel
  obtain ⟨a, ha, b, hb, hstart, houtside, hsizes⟩ := hpair
  obtain ⟨-, -, -, -, hfollows⟩ := bodies_apart_or_inside "p" openText ha hb
  obtain ⟨-, hmethods, -⟩ := hfollows hstart houtside
  exact ⟨a, ha, b, hb, hstart, houtside, hsizes.1, hsizes.2, hmethods⟩

/-! ### For which declarations a method is reported -/

section Attribution

variable {cs : List Char} {a b : Match Header} {o : Match Signature}

theorem isMatch_bodyFrom_iff {α : Type} {d : Char} {recognise : Recogniser α} {o : Match α}
    (hreads : ReadsTo d recognise) (ha : a ∈ scan header cs) :
    IsMatch recognise a.stop (bodyFrom cs a.stop) o ↔ IsMatch recognise 0 cs o ∧ o.LiesIn cs a := by
  obtain ⟨after, hafter⟩ := (isBody_bodyFrom cs a.stop).front
  have hfront : (cs.take a.stop).length = a.stop := by
    have hstop := (isMatch_of_mem_scanFrom endsWith_header ha).stop_le
    rw [length_take]
    omega
  have htext : cs.take a.stop ++ (bodyFrom cs a.stop ++ after) = cs := by
    rw [hafter, take_append_drop]
  have hiff : IsMatch recognise (cs.take a.stop).length (bodyFrom cs a.stop) o ↔
      IsMatch recognise 0 (cs.take a.stop ++ (bodyFrom cs a.stop ++ after)) o ∧ _ ∧ _ :=
    hreads.isMatch_iff
  rw [htext, hfront] at hiff
  exact hiff

/-- A method of the text is reported for a declaration if it lies in the body, has not the name of
the declaration and does not start in another method that was read before it. -/
theorem mem_methodsAt_iff (ha : a ∈ scan header cs) :
    o ∈ methodsAt cs a ↔ IsMatch method 0 cs o ∧ o.LiesIn cs a ∧ o.value.name ≠ a.value.name ∧
      ∀ other ∈ scanFrom method a.stop (bodyFrom cs a.stop), ¬ other.Crosses o.start := by
  rw [methodsAt, mem_filter, mem_scanFrom_iff endsWith_method,
    isMatch_bodyFrom_iff readsTo_method ha, bne_iff_ne]
  tauto

theorem contains_of_mem_methodsAt (ho : o ∈ methodsAt cs a) :
    (bodySpan cs a).Contains o.start := by
  have hlies := liesIn_of_mem_methodsAt ho
  have hstop := start_lt_stop_of_mem_scanFrom endsWith_method (mem_of_mem_filter ho)
  exact ⟨Nat.le_trans (Nat.sub_le _ _) hlies.1, Nat.lt_of_lt_of_le hstop hlies.2⟩

theorem Match.LiesIn.of_inside (ho : o.LiesIn cs b) (hb : b ∈ scan header cs)
    (hinside : (bodySpan cs b).Inside (bodySpan cs a)) : o.LiesIn cs a := by
  have hstop := start_lt_stop_of_mem_scanFrom endsWith_header hb
  obtain ⟨hstart, hend⟩ := hinside
  simp only [bodySpan] at hstart
  exact ⟨by have := ho.1; omega, Nat.le_trans ho.2 hend⟩

end Attribution

/-- Each method is reported for one declaration only, the innermost of those in whose bodies it
starts. -/
def ReportsInnermost (cs : List Char) : Prop :=
  ∀ a ∈ scan header cs, ∀ o ∈ methodsAt cs a,
    (∀ b ∈ scan header cs, (bodySpan cs b).Contains o.start →
      (bodySpan cs a).Inside (bodySpan cs b)) ∧
    ∀ b ∈ scan header cs, o ∈ methodsAt cs b → b = a

theorem eq_of_inside {cs : List Char} {a b : Match Header} (ha : a ∈ scan header cs)
    (hb : b ∈ scan header cs) (hab : (bodySpan cs a).Inside (bodySpan cs b))
    (hba : (bodySpan cs b).Inside (bodySpan cs a)) : a = b := by
  have hastop := start_lt_stop_of_mem_scanFrom endsWith_header ha
  have hbstop := start_lt_stop_of_mem_scanFrom endsWith_header hb
  have hfirst := hab.1
  have hsecond := hba.1
  simp only [bodySpan] at hfirst hsecond
  rcases order_of_mem_scanFrom endsWith_header ha hb with hsame | hbefore | hafter
  · exact hsame
  · omega
  · omega

theorem reportsInnermost_iff (cs : List Char) :
    ReportsInnermost cs ↔ ∀ a ∈ scan header cs, ∀ b ∈ scan header cs, a ≠ b →
      (bodySpan cs b).Inside (bodySpan cs a) →
      ∀ o ∈ methodsAt cs a, ¬ (bodySpan cs b).Contains o.start := by
  constructor
  · intro hall a ha b hb hne hinside o ho hcontains
    exact hne (eq_of_inside ha hb ((hall a ha o ho).1 b hb hcontains) hinside)
  · intro hnested
    have hinnermost (a : Match Header) (ha : a ∈ scan header cs) (o : Match Signature)
        (ho : o ∈ methodsAt cs a) (b : Match Header) (hb : b ∈ scan header cs)
        (hcontains : (bodySpan cs b).Contains o.start) :
        (bodySpan cs a).Inside (bodySpan cs b) := by
      obtain ⟨hstart, hstop⟩ := hcontains
      obtain ⟨hstart', hstop'⟩ := contains_of_mem_methodsAt ho
      rcases apart_or_inside ha hb with happart | hinside | hinside
      · rcases happart with hbefore | hafter <;> omega
      · exact hinside
      · by_cases hsame : a = b
        · rw [hsame]
          exact ⟨Nat.le_refl _, Nat.le_refl _⟩
        · exact absurd ⟨hstart, hstop⟩ (hnested a ha b hb hsame hinside o ho)
    refine fun a ha o ho => ⟨hinnermost a ha o ho, fun b hb hob => ?_⟩
    exact eq_of_inside hb ha
      (hinnermost b hb o hob a ha (contains_of_mem_methodsAt ho))
      (hinnermost a ha o ho b hb (contains_of_mem_methodsAt hob))

/-- What is reported for a declaration are the methods that lie in its body, at any depth. So a
method of a nested declaration is reported for the outer one as well. -/
theorem methods_reported_at_every_depth (package : String) (cs : List Char) :
    (∀ a ∈ scan header cs,
      (TypeDecl.ofMatch package cs a).methods = (methodsAt cs a).map Method.ofMatch ∧
      ∀ o, o ∈ methodsAt cs a ↔
        IsMatch method 0 cs o ∧ o.LiesIn cs a ∧ o.value.name ≠ a.value.name ∧
          ∀ other ∈ scanFrom method a.stop (bodyFrom cs a.stop), ¬ other.Crosses o.start) ∧
    (∀ a ∈ scan header cs, ∀ b ∈ scan header cs, (bodySpan cs b).Inside (bodySpan cs a) →
      ∀ o ∈ methodsAt cs b, (o ∈ methodsAt cs a ↔ o.value.name ≠ a.value.name ∧
        ∀ other ∈ scanFrom method a.stop (bodyFrom cs a.stop), ¬ other.Crosses o.start)) ∧
    (ReportsInnermost cs ↔ ∀ a ∈ scan header cs, ∀ b ∈ scan header cs, a ≠ b →
      (bodySpan cs b).Inside (bodySpan cs a) →
      ∀ o ∈ methodsAt cs a, ¬ (bodySpan cs b).Contains o.start) := by
  refine ⟨fun a ha => ⟨(members_ofMatch package cs a).1, fun o => mem_methodsAt_iff ha⟩, ?_,
    reportsInnermost_iff cs⟩
  intro a ha b hb hinside o ho
  obtain ⟨hmatch, hlies, -⟩ := (mem_methodsAt_iff hb).mp ho
  rw [mem_methodsAt_iff ha]
  exact ⟨fun h => h.2.2, fun h => ⟨hmatch, hlies.of_inside hb hinside, h⟩⟩

/-- A type with one method, nested in a type without methods of its own. -/
def nestedText : List Char :=
  ("package p;\npublic class A \x7b\n  public class B \x7b\n    public void f() \x7b\n    \x7d\n" ++
    "  \x7d\n\x7d\n").toList

theorem methods_reported_nestedText :
    (∃ a ∈ scan header nestedText, ∃ b ∈ scan header nestedText, a ≠ b ∧
      ∃ o ∈ methodsAt nestedText b, o ∈ methodsAt nestedText a) ∧
    ¬ ReportsInnermost nestedText := by
  obtain ⟨a, ha, b, hb, hstart, hinside, o, ho, hname, hfree⟩ :
      ∃ a ∈ scan header nestedText, ∃ b ∈ scan header nestedText, a.start < b.start ∧
        (bodySpan nestedText b).Inside (bodySpan nestedText a) ∧
        ∃ o ∈ methodsAt nestedText b, o.value.name ≠ a.value.name ∧
          ∀ other ∈ scanFrom method a.stop (bodyFrom nestedText a.stop),
            ¬ other.Crosses o.start := by
    have htext : nestedText = _ := toList_ofList_append _ _
    rw [htext]
    decide +kernel
  have hne : a ≠ b := fun h => absurd hstart (by rw [h]; exact Nat.lt_irrefl _)
  obtain ⟨-, houter, hinnermost⟩ := methods_reported_at_every_depth "p" nestedText
  have hboth : o ∈ methodsAt nestedText a := (houter a ha b hb hinside o ho).mpr ⟨hname, hfree⟩
  refine ⟨⟨a, ha, b, hb, hne, o, ho, hboth⟩, fun hall => ?_⟩
  exact hinnermost.mp hall a ha b hb hne hinside o hboth (contains_of_mem_methodsAt ho)

end JarAtlas.Java
