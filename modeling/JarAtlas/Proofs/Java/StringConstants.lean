import JarAtlas.Proofs.Java.LegalHeaders

/-!
Constants whose values are quoted strings. Nothing that reads a body knows about quotes, so a string
is read as it stands exactly if it has no semicolon, its braces are balanced and no method that starts
in it is open at its end. Otherwise there is a place where the value is cut, or where the members after
the constant change with the string.
-/

open List

namespace JarAtlas.Java

open Text

/-! ### Methods that are open at a quote -/

/-- A method starts in the string, and its parameters do not end there. -/
def OpensMethod (s : List Char) : Prop :=
  ∃ u front params v modifiers, s = u ++ (front ++ '(' :: params) ∧
    IsSignature v modifiers front ∧ ')' ∉ params

section Open

variable {position : Nat} {s y : List Char} {m : Match Signature}

theorem exists_open_of_crosses (hm : m ∈ scanFrom method position (s ++ '"' :: y))
    (hcross : m.Crosses (position + s.length)) :
    ∃ u front params modifiers, s = u ++ (front ++ '(' :: params) ∧
      m.start = position + u.length ∧ IsSignature m.value modifiers front ∧
      ')' ∉ front ++ '(' :: params := by
  obtain ⟨u, t, rest, rfl, hstart, -, hclosing, hread⟩ := readsTo_method.exists_of_crosses hm hcross
  -- The quote cannot stand before the bracket that opens the parameters.
  have hbracket : '(' ∈ t := by
    by_contra hfree
    rw [stopsAt_method.eq_none (by decide) (by decide) hfree] at hread
    cases hread
  obtain ⟨-, front, modifiers, htext, hv⟩ := method_eq_some_iff.mp hread
  obtain ⟨front', params, rfl, hfront'⟩ := eq_append_cons_of_mem hbracket
  rw [append_assoc] at htext
  obtain rfl := eq_of_append_cons_eq hfront' (hv.notMem (by decide)) htext
  exact ⟨u, front', params, modifiers, rfl, hstart, hv, hclosing⟩

theorem opensMethod_of_crosses (hm : m ∈ scanFrom method position (s ++ '"' :: y))
    (hcross : m.Crosses (position + s.length)) : OpensMethod s := by
  obtain ⟨u, front, params, modifiers, hsplit, -, hv, hopen⟩ := exists_open_of_crosses hm hcross
  exact ⟨u, front, params, m.value, modifiers, hsplit, hv, fun hmem => hopen (by simp [hmem])⟩

theorem OpensMethod.exists_crosses (hs : OpensMethod s) (hy : ')' ∈ y) (position : Nat) :
    ∃ m ∈ scanFrom method position (s ++ '"' :: y), m.Crosses (position + s.length) := by
  by_contra! hfree
  obtain ⟨u, front, params, v, modifiers, rfl, hv, hparams⟩ := hs
  obtain ⟨w, after, rfl, hw⟩ := eq_append_cons_of_mem hy
  have hopen : ')' ∉ front ++ '(' :: params := by
    rw [mem_append, mem_cons, not_or, not_or]
    exact ⟨hv.notMem (by decide), by decide, hparams⟩
  have hread : (method ((front ++ '(' :: params) ++ '"' :: (w ++ ')' :: after))).isSome := by
    have hv' : IsSignature { v with params := params ++ '"' :: w } modifiers front := { hv with }
    have hparams' : ')' ∉ params ++ '"' :: w := by
      rw [mem_append, mem_cons, not_or, not_or]
      exact ⟨hparams, by decide, hw⟩
    have hread := hv'.method hparams' after
    simp only [append_assoc, cons_append] at hread ⊢
    rw [hread]
    rfl
  -- A method that reached into the signature would end in it or in the parameters.
  have hplace : ∀ other ∈ scanFrom method position
      (u ++ ((front ++ '(' :: params) ++ '"' :: (w ++ ')' :: after))),
      ¬ other.Crosses (position + u.length) := by
    intro other hother hcross
    refine hopen (readsTo_method.mem_of_crosses hother hcross ?_)
    by_contra hlong
    obtain ⟨hbefore, -⟩ := hcross
    rw [← append_assoc] at hother
    refine hfree other hother ⟨?_, by omega⟩
    rw [length_append]
    omega
  obtain ⟨m, hm, hstart⟩ := (exists_mem_scanFrom_iff endsWith_method u).mpr ⟨hread, hplace⟩
  have hlong := (readsTo_method.lt_stop_iff (isMatch_of_mem_scanFrom endsWith_method hm)
    hstart).mpr hopen
  have hstop := start_lt_stop_of_mem_scanFrom endsWith_method hm
  rw [← append_assoc] at hm
  refine hfree m hm ⟨?_, ?_⟩ <;>
    simp only [length_append, length_cons] at hlong ⊢ <;> omega

theorem exists_crosses_iff (hy : ')' ∈ y) (position : Nat) :
    (∃ m ∈ scanFrom method position (s ++ '"' :: y), m.Crosses (position + s.length)) ↔
      OpensMethod s :=
  ⟨fun ⟨_, hm, hcross⟩ => opensMethod_of_crosses hm hcross, fun hs => hs.exists_crosses hy position⟩

instance (s : List Char) : Decidable (OpensMethod s) :=
  decidable_of_iff (∃ m ∈ scanFrom method 0 (s ++ ['"', ')']), m.Crosses (0 + s.length))
    (exists_crosses_iff (mem_singleton_self _) 0)

theorem start_lt_of_crosses {w : List Char} (hw : ')' ∉ w)
    (hm : m ∈ scanFrom method position (s ++ '"' :: (w ++ [')'])))
    (hcross : m.Crosses (position + s.length)) :
    ∀ o ∈ scanFrom method position (s ++ '"' :: (w ++ [')'])), o.start < position + s.length := by
  intro o ho
  obtain ⟨u, front, params, -, rfl, hstart, -, hopen⟩ := exists_open_of_crosses hm hcross
  generalize front ++ '(' :: params = t at *
  have htext : (u ++ t) ++ '"' :: (w ++ [')']) = u ++ ((t ++ '"' :: w) ++ [')']) := by simp
  have hmatch := isMatch_of_mem_scanFrom endsWith_method hm
  have hfree : ')' ∉ t ++ '"' :: w := by
    rw [mem_append, mem_cons, not_or, not_or]
    exact ⟨hopen, by decide, hw⟩
  have hstop : m.start + (t ++ '"' :: w).length < m.stop := by
    rw [htext] at hmatch
    exact (readsTo_method.lt_stop_iff hmatch hstart).mpr hfree
  have hend := (isMatch_of_mem_scanFrom endsWith_method ho).stop_le
  have hlength := start_lt_stop_of_mem_scanFrom endsWith_method ho
  obtain ⟨hbefore, -⟩ := hcross
  simp only [length_append, length_cons, length_nil] at hstop hend hbefore ⊢
  rcases order_of_mem_scanFrom endsWith_method hm ho with rfl | hfirst | hsecond <;> omega

end Open

/-! ### Harmless strings -/

/-- A string that is read as it stands, and changes nothing after it. -/
structure Harmless (s : List Char) : Prop where
  semicolon : ';' ∉ s
  braces : Balanced '\x7b' '\x7d' s
  methods : ¬ OpensMethod s

instance (s : List Char) : Decidable (Harmless s) :=
  decidable_of_iff (';' ∉ s ∧ Balanced '\x7b' '\x7d' s ∧ ¬ OpensMethod s)
    ⟨fun h => ⟨h.1, h.2.1, h.2.2⟩, fun h => ⟨h.semicolon, h.braces, h.methods⟩⟩

theorem harmless_nil : Harmless [] := by
  decide

variable {s name : List Char}

theorem settled_quote (hs : ¬ OpensMethod s) : Settled method s ['"'] := by
  intro rest m hm hcross
  rw [← Nat.zero_add s.length] at hcross
  exact hs (opensMethod_of_crosses hm hcross)

/-! ### Constants with a string -/

def stringLead (name : List Char) : List Char :=
  "public".toList ++ ' ' :: (spaced ["static".toList, "final".toList, "String".toList, name] ++
    ['=', ' ', '"'])

-- Evaluating the words takes long, so the definition is opened by this equation.
theorem stringLead_eq (name : List Char) :
    stringLead name = "public".toList ++ ' ' ::
      (spaced ["static".toList, "final".toList, "String".toList, name] ++ ['=', ' ', '"']) :=
  rfl

/-- `public static final String NAME = "STRING";` -/
def stringConstant (name s : List Char) : List Char :=
  stringLead name ++ (s ++ ['"', ';'])

theorem constant_stringLead {t : List Char} (hname : IsName name) (ht : ∀ c ∈ t, c ≠ ';' ∧ c ≠ '\n')
    (rest : List Char) :
    constant (stringLead name ++ (t ++ ';' :: rest)) =
      some (⟨"String".toList, name, '"' :: t⟩, rest) := by
  have htype : IsType "String".toList := by decide
  have hplain : ∀ c ∈ '"' :: t, c ≠ ';' ∧ c ≠ '\n' := forall_mem_cons.mpr ⟨by decide, ht⟩
  have hread := constant_spaced htype hname (cons_ne_nil '"' t) (isSolid_cons (by decide) t)
    hplain rest
  rw [stringLead_eq]
  simpa only [append_assoc, cons_append, nil_append] using hread

theorem constant_stringLead_eq_none {n : Identifier} (hname : ¬ n.IsPlain) (rest : List Char) :
    constant (stringLead n.chars ++ rest) = none := by
  obtain ⟨u, v, hsplit, hu⟩ := Identifier.exists_dollar hname
  have hequals : '=' ∉ "public".toList ++
      ' ' :: (spaced ["static".toList, "final".toList, "String".toList] ++ u) := by
    have hfree : '=' ∉ "public".toList ∧ '=' ∉ "static".toList ∧ '=' ∉ "final".toList ∧
        '=' ∉ "String".toList := by decide
    have hu' : '=' ∉ u := fun hmem => absurd (hu _ hmem) (by decide)
    simp [hfree, hu', -String.reduceToList]
  have hdollar : ¬ isWordsChar '$' := by decide
  have hnone := stopsAt_constant.eq_none hdollar (by decide) hequals
    (v ++ ' ' :: '=' :: ' ' :: '"' :: rest)
  rw [stringLead_eq, hsplit]
  simpa only [spaced_cons, spaced_nil, append_assoc, cons_append, nil_append]
    using hnone

theorem notMem_stringLead {c : Char} (hname : c ∉ name) (hwords : isWordsChar c = false)
    (hlast : c ∉ ['=', ' ', '"']) : c ∉ stringLead name := by
  have hword {w : List Char} (hw : ∀ x ∈ w, isWordsChar x) : c ∉ w := fun hmem =>
    absurd (hw c hmem) (by simp [hwords])
  have hspace : c ≠ ' ' := fun h => hlast (by simp [h])
  have hpublic : c ∉ "public".toList := hword (by decide)
  have hstatic : c ∉ "static".toList := hword (by decide)
  have hfinal : c ∉ "final".toList := hword (by decide)
  have hstring : c ∉ "String".toList := hword (by decide)
  rw [stringLead_eq]
  simp only [spaced_cons, spaced_nil, mem_append, mem_cons, not_or] at hlast ⊢
  exact ⟨hpublic, hspace, ⟨hstatic, hspace, hfinal, hspace, hstring, hspace, hname, hspace,
    not_mem_nil⟩, hlast⟩

theorem quiet_stringLead (hname : '(' ∉ name) (rest : List Char) :
    Quiet method (stringLead name) rest := by
  intro b hb hne
  obtain ⟨front, d, rfl⟩ := (eq_nil_or_concat b).resolve_left hne
  rw [concat_eq_append] at hb ⊢
  have hbracket : '(' ∉ front := fun hmem =>
    notMem_stringLead hname (by decide) (by decide) (hb.mem (mem_append_left _ hmem))
  obtain rfl : d = '"' := by
    obtain ⟨a, ha⟩ := hb
    have hlead : stringLead name = ("public".toList ++ ' ' ::
        (spaced ["static".toList, "final".toList, "String".toList, name] ++ ['=', ' '])) ++ ['"'] := by
      simp only [stringLead_eq, append_assoc, cons_append, nil_append]
    rw [hlead, ← append_assoc] at ha
    exact (cons.inj (append_inj' ha rfl).2).1
  rw [append_assoc]
  exact stopsAt_method.eq_none (by decide) (by decide) hbracket rest

theorem trim_quoted (hs : '"' ∉ s) :
    trimBy (· == '"') (trim ('"' :: (s ++ ['"']))) = s := by
  have htrim : trim ('"' :: (s ++ ['"'])) = '"' :: (s ++ ['"']) := by
    refine trimBy_eq_self (fun c hc => ?_) fun c hc => ?_
    · obtain rfl : '"' = c := by simpa using hc
      decide
    · rw [← cons_append, getLast?_concat] at hc
      obtain rfl : '"' = c := by simpa using hc
      decide
  have hfront : trimBy (· == '"') ('"' :: (s ++ ['"'])) = trimBy (· == '"') (s ++ ['"']) := rfl
  rw [htrim, hfront]
  exact trimBy_append_gap (fun c hc => beq_eq_false_iff_ne.mpr fun h => hs (h ▸ hc))
    (by simp)

/-! ### Places in a body -/

/-- A place in the body of a type where a constant with a string is declared: it is not in a body that
has been closed before, and no method and no constant reaches over it from before. -/
structure ConstantPlace where
  before : List Char
  after : List Char
  name : Identifier
  package : List Char
  decl : Match Header
  packaged : packageOf? before = some package
  found : decl ∈ scan header before
  opened : Opened '\x7b' '\x7d' (before.drop decl.stop)
  methods : Settled method (before.drop decl.stop) (stringLead name.chars)
  constants : Settled constant (before.drop decl.stop) (stringLead name.chars)

namespace ConstantPlace

variable (p : ConstantPlace) (s : List Char) {α : Type}

def inner : List Char :=
  p.before.drop p.decl.stop

def written : List Char :=
  stringConstant p.name.chars s

def text : List Char :=
  p.before ++ (p.written s ++ p.after)

def type : TypeDecl :=
  TypeDecl.ofMatch (String.ofList p.package) (p.text s) p.decl

def declared : Constant where
  name := String.ofList p.name.chars
  type := "String"
  value := String.ofList s
  snippet := String.ofList (p.written s)

/-- The constant is reported, for the place where it stands. -/
def Reports : Prop :=
  ∃ o ∈ constantsAt (p.text s) p.decl, o.start = p.before.length ∧
    Constant.ofMatch o = p.declared s

def stop : Nat :=
  p.before.length + (p.written s).length

def laterMethods : List Method :=
  ((methodsAt (p.text s) p.decl).filter fun o => decide (p.stop s ≤ o.start)).map Method.ofMatch

def laterConstants : List Constant :=
  ((constantsAt (p.text s) p.decl).filter fun o => decide (p.stop s ≤ o.start)).map Constant.ofMatch

/-- The constant is reported as it was declared, and what is declared after it is reported as if the
string were empty. -/
structure ReadsAs : Prop where
  reported : p.Reports s
  methods : p.laterMethods s = p.laterMethods []
  constants : p.laterConstants s = p.laterConstants []

def entry : Match Assignment :=
  ⟨p.before.length, p.stop s, p.written s, ⟨"String".toList, p.name.chars, '"' :: (s ++ ['"'])⟩⟩

def tail : List Char :=
  untilClosed (p.inner.count '\x7b' - p.inner.count '\x7d' + s.count '\x7b' - s.count '\x7d') []
    p.after

variable {p s}

theorem length_inner : p.decl.stop + p.inner.length = p.before.length := by
  have hstop := (isMatch_of_mem_scanFrom endsWith_header p.found).stop_le
  rw [inner, length_drop]
  omega

theorem mem_scan_text : p.decl ∈ scan header (p.text s) :=
  (readsTo_header.scanFrom_prefix 0 _ _).subset p.found

theorem type_mem_extractChars : p.type s ∈ extractChars (p.text s) :=
  mem_extractChars_of_reportedAt ⟨p.package, p.decl,
    readsTo_packageClause.scanFirst?_append p.packaged _, mem_scan_text, rfl, rfl⟩

theorem drop_text : (p.text s).drop p.decl.stop = p.inner ++ (p.written s ++ p.after) := by
  have hlength : p.decl.stop + p.inner.length = p.before.length := length_inner
  rw [text, inner, drop_append_of_le_length (by omega)]

private theorem notMem_name {c : Char} (hc : isIdentifierChar c = false) : c ∉ p.name.chars :=
  fun hmem => absurd (p.name.isIdentifier c hmem) (by simp [hc])

private theorem braces_notMem_lead (p : ConstantPlace) :
    '\x7b' ∉ stringLead p.name.chars ∧ '\x7d' ∉ stringLead p.name.chars :=
  ⟨notMem_stringLead (notMem_name (by decide)) (by decide) (by decide),
    notMem_stringLead (notMem_name (by decide)) (by decide) (by decide)⟩

theorem bodyFrom_text (hopened : Opened '\x7b' '\x7d' s) :
    bodyFrom (p.text s) p.decl.stop = p.inner ++ (p.written s ++ p.tail s) := by
  obtain ⟨hopening, hclosing⟩ := braces_notMem_lead p
  have hinner : Opened '\x7b' '\x7d' p.inner := p.opened
  rw [bodyFrom, drop_text, hinner.untilClosed_append, Nat.zero_add, tail, written, stringConstant,
    append_assoc, append_assoc, untilClosed_append_of_notMem hopening hclosing,
    hopened.untilClosed_append, untilClosed_append_of_notMem (by decide) (by decide)]
  simp only [append_assoc]

theorem written_append (rest : List Char) :
    p.written s ++ rest = stringLead p.name.chars ++ (s ++ '"' :: ';' :: rest) := by
  simp only [written, stringConstant, append_assoc, cons_append, nil_append]

theorem trim_written : trim (p.written s) = p.written s := by
  refine trimBy_eq_self (fun c hc => ?_) fun c hc => ?_
  · rw [written, stringConstant, stringLead_eq, append_assoc] at hc
    exact isSolid_append (by decide) (by decide) _ c hc
  · have hlast : p.written s = (stringLead p.name.chars ++ (s ++ ['"'])) ++ [';'] := by
      simp only [written, stringConstant, append_assoc, cons_append, nil_append]
    rw [hlast, getLast?_concat] at hc
    obtain rfl : ';' = c := by simpa using hc
    decide

theorem scanFrom_bodyFrom_text {d : Char} {recognise : Recogniser α} (hreads : ReadsTo d recognise)
    (hsettled : Settled recognise p.inner (stringLead p.name.chars))
    (hopened : Opened '\x7b' '\x7d' s) :
    scanFrom recognise p.decl.stop (bodyFrom (p.text s) p.decl.stop) =
      scanFrom recognise p.decl.stop p.inner ++
        scanFrom recognise p.before.length (p.written s ++ p.tail s) := by
  rw [bodyFrom_text hopened, written_append, ← length_inner]
  exact hreads.scanFrom_append_of_not_crosses (hsettled.not_crosses _ _)

/-! ### The constant and what comes after it -/

private theorem filter_start_append {place : Nat} {early late : List (Match α)}
    (hearly : ∀ o ∈ early, o.start < place) (hlate : ∀ o ∈ late, place ≤ o.start) :
    (early ++ late).filter (fun o => decide (place ≤ o.start)) = late := by
  have hnone : early.filter (fun o => decide (place ≤ o.start)) = [] :=
    filter_eq_nil_iff.mpr fun o ho => by simpa using hearly o ho
  have hall : late.filter (fun o => decide (place ≤ o.start)) = late :=
    filter_eq_self.mpr fun o ho => by simpa using hlate o ho
  rw [filter_append, hnone, hall, nil_append]

section Place

variable {o : Match Assignment} (ho : o ∈ constantsAt (p.text s) p.decl)
  (hstart : o.start = p.before.length)

include ho hstart

theorem isMatch_of_mem_constantsAt :
    IsMatch constant p.before.length (p.written s ++ p.after) o := by
  obtain ⟨hmatch, -⟩ := (isMatch_bodyFrom_iff readsTo_constant mem_scan_text).mp
    (isMatch_of_mem_scanFrom endsWith_constant ho)
  have hplace := IsMatch.of_append (t := p.before) hmatch (by omega)
  rwa [Nat.zero_add] at hplace

theorem eq_of_mem_constantsAt (hname : p.name.IsPlain) {t rest : List Char}
    (ht : ∀ c ∈ t, c ≠ ';' ∧ c ≠ '\n')
    (htext : s ++ '"' :: ';' :: p.after = t ++ ';' :: rest) :
    o = ⟨p.before.length, p.before.length + (stringLead p.name.chars ++ (t ++ [';'])).length,
      stringLead p.name.chars ++ (t ++ [';']), ⟨"String".toList, p.name.chars, '"' :: t⟩⟩ := by
  have hmatch := isMatch_of_mem_constantsAt ho hstart
  have hsplit : stringLead p.name.chars ++ (t ++ ';' :: rest) =
      (stringLead p.name.chars ++ (t ++ [';'])) ++ rest := by
    simp only [append_assoc, singleton_append]
  have hread := constant_stringLead ⟨p.name.ne_nil, hname⟩ ht rest
  rw [hsplit] at hread
  rw [written_append, htext, hsplit] at hmatch
  exact hmatch.eq_of_start hread hstart

end Place

theorem not_reports_of_semicolon (hname : p.name.IsPlain) (hs : '\n' ∉ s) (hmem : ';' ∈ s) :
    ¬ p.Reports s := by
  rintro ⟨o, ho, hstart, hentry⟩
  obtain ⟨t, rest, hsplit, ht⟩ := eq_append_cons_of_mem hmem
  have hplain (c : Char) (hc : c ∈ t) : c ≠ ';' ∧ c ≠ '\n' :=
    ⟨fun h => ht (h ▸ hc), fun h => hs (by rw [hsplit]; exact mem_append_left _ (h ▸ hc))⟩
  have htext : s ++ '"' :: ';' :: p.after = t ++ ';' :: (rest ++ '"' :: ';' :: p.after) := by
    simp [hsplit]
  have hvalue := congrArg Constant.value hentry
  rw [eq_of_mem_constantsAt ho hstart hname hplain htext] at hvalue
  rw [← String.ofList_inj.mp hvalue] at hmem
  rcases mem_cons.mp (mem_of_mem_trimBy (mem_of_mem_trimBy hmem)) with hquote | hmem
  · exact absurd hquote (by decide)
  · exact ht hmem

theorem not_reports_of_not_isPlain (hname : ¬ p.name.IsPlain) : ¬ p.Reports s := by
  rintro ⟨o, ho, hstart, -⟩
  obtain ⟨front, rest, htext, -, hread, hfront, -⟩ := isMatch_of_mem_constantsAt ho hstart
  obtain rfl : front = [] := length_eq_zero_iff.mp (by omega)
  rw [nil_append] at htext
  rw [← htext, written_append, constant_stringLead_eq_none hname] at hread
  cases hread

theorem count_le_of_reports (hname : p.name.IsPlain) (hs : ∀ c ∈ s, c ≠ ';' ∧ c ≠ '\n')
    (hreports : p.Reports s) {u : List Char} (hu : u <+: s) :
    p.inner.count '\x7d' + u.count '\x7d' ≤ p.inner.count '\x7b' + u.count '\x7b' := by
  obtain ⟨o, ho, hstart, -⟩ := hreports
  have hquoted : ∀ c ∈ s ++ ['"'], c ≠ ';' ∧ c ≠ '\n' := forall_mem_append.mpr ⟨hs, by decide⟩
  have htext : s ++ '"' :: ';' :: p.after = (s ++ ['"']) ++ ';' :: p.after := by simp
  have hstop : o.stop ≤ p.decl.stop + (bodyFrom (p.text s) p.decl.stop).length :=
    (liesIn_of_mem_constantsAt ho).2
  rw [eq_of_mem_constantsAt ho hstart hname hquoted htext] at hstop
  have hbody := isBody_bodyFrom (p.text s) p.decl.stop
  have hfront : p.inner ++ (stringLead p.name.chars ++ u) <+: bodyFrom (p.text s) p.decl.stop := by
    refine prefix_of_prefix_length_le ?_ hbody.front ?_
    · rw [drop_text, written_append, prefix_append_right_inj, prefix_append_right_inj]
      exact hu.trans (prefix_append _ _)
    · have hlength : p.decl.stop + p.inner.length = p.before.length := length_inner
      have hshort := hu.length_le
      simp only [length_append] at hstop ⊢
      omega
  have hle := hbody.opened _ hfront
  obtain ⟨hopening, hclosing⟩ := braces_notMem_lead p
  simpa only [count_append, count_eq_zero_of_not_mem hopening,
    count_eq_zero_of_not_mem hclosing, Nat.zero_add, Nat.add_zero] using hle

theorem constantsAt_text (hname : p.name.IsPlain) (hs : ∀ c ∈ s, c ≠ ';' ∧ c ≠ '\n')
    (hopened : Opened '\x7b' '\x7d' s) :
    constantsAt (p.text s) p.decl = scanFrom constant p.decl.stop p.inner ++
      p.entry s :: scanFrom constant (p.stop s) (p.tail s) := by
  have hread : constant (p.written s ++ p.tail s) =
      some (⟨"String".toList, p.name.chars, '"' :: (s ++ ['"'])⟩, p.tail s) := by
    have hquoted : ∀ c ∈ s ++ ['"'], c ≠ ';' ∧ c ≠ '\n' := forall_mem_append.mpr ⟨hs, by decide⟩
    have hlead := constant_stringLead ⟨p.name.ne_nil, hname⟩ hquoted (p.tail s)
    rw [written_append]
    simpa only [append_assoc, singleton_append] using hlead
  have hne : p.written s ≠ [] := by simp [written, stringConstant]
  rw [constantsAt, scanFrom_bodyFrom_text readsTo_constant p.constants hopened,
    scanFrom_match hne hread]
  rfl

private theorem start_lt_stop {α : Type} {d : Char} {recognise : Recogniser α}
    (hends : EndsWith d recognise) {o : Match α}
    (ho : o ∈ scanFrom recognise p.decl.stop p.inner) : o.start < p.stop s := by
  have hmatch := isMatch_of_mem_scanFrom hends ho
  calc o.start < o.stop := hmatch.start_lt_stop
    _ ≤ p.decl.stop + p.inner.length := hmatch.stop_le
    _ = p.before.length := length_inner
    _ ≤ p.stop s := Nat.le_add_right _ _

theorem laterConstants_eq (hname : p.name.IsPlain) (hs : ∀ c ∈ s, c ≠ ';' ∧ c ≠ '\n')
    (hopened : Opened '\x7b' '\x7d' s) :
    p.laterConstants s = constantsIn (p.tail s) := by
  have hlength : p.before.length < p.stop s := by
    simp only [stop, written, stringConstant, length_append, length_cons]
    omega
  rw [laterConstants, constantsAt_text hname hs hopened, append_cons, filter_start_append,
    map_scanFrom_constant]
  · intro o ho
    rcases mem_append.mp ho with ho | ho
    · exact start_lt_stop endsWith_constant ho
    · rw [mem_singleton.mp ho]
      exact hlength
  · exact fun o ho => (isMatch_of_mem_scanFrom endsWith_constant ho).le_start

theorem reports_of_opened (hname : p.name.IsPlain) (hs : ∀ c ∈ s, c ≠ ';' ∧ c ≠ '\n')
    (hquote : '"' ∉ s) (hopened : Opened '\x7b' '\x7d' s) :
    p.Reports s := by
  refine ⟨p.entry s, ?_, rfl, ?_⟩
  · rw [constantsAt_text hname hs hopened]
    exact mem_append_right _ mem_cons_self
  · simp only [Constant.ofMatch, entry, declared, trim_quoted hquote, trim_written]
    rfl

theorem scanFrom_method_text (hopened : Opened '\x7b' '\x7d' s) :
    scanFrom method p.decl.stop (bodyFrom (p.text s) p.decl.stop) =
      scanFrom method p.decl.stop p.inner ++
        scanFrom method (p.before.length + (stringLead p.name.chars).length)
          (s ++ '"' :: ';' :: p.tail s) := by
  have hbracket : '(' ∉ p.name.chars := notMem_name (by decide)
  rw [scanFrom_bodyFrom_text readsTo_method p.methods hopened, written_append,
    (quiet_stringLead hbracket _).scanFrom_append]

theorem stop_eq :
    p.stop s = p.before.length + (stringLead p.name.chars).length + s.length + 1 + 1 := by
  simp only [stop, written, stringConstant, length_append, length_cons, length_nil]
  omega

theorem laterMethods_eq (hopened : Opened '\x7b' '\x7d' s)
    (hs : Settled method s ['"']) : p.laterMethods s = methodsIn p.decl.value.name (p.tail s) := by
  have hafter : scanFrom method (p.before.length + (stringLead p.name.chars).length)
      (s ++ '"' :: ';' :: p.tail s) =
        scanFrom method (p.before.length + (stringLead p.name.chars).length) s ++
          scanFrom method (p.stop s) (p.tail s) := by
    have hfree := hs.not_crosses (p.before.length + (stringLead p.name.chars).length)
      (';' :: p.tail s)
    rw [singleton_append] at hfree
    rw [readsTo_method.scanFrom_append_of_not_crosses hfree,
      scanFrom_cons (method_cons_eq_none (by decide) (by decide) _),
      scanFrom_cons (method_cons_eq_none (by decide) (by decide) _), stop_eq]
  rw [laterMethods, methodsAt, scanFrom_method_text hopened, hafter, ← append_assoc,
    filter_append, filter_start_append, map_scanFrom_method]
  · intro o ho
    rcases mem_append.mp (mem_of_mem_filter ho) with ho | ho
    · exact start_lt_stop endsWith_method ho
    · have hmatch := isMatch_of_mem_scanFrom endsWith_method ho
      have hlength := hmatch.start_lt_stop
      have hend := hmatch.stop_le
      rw [stop_eq]
      omega
  · exact fun o ho => (isMatch_of_mem_scanFrom endsWith_method (mem_of_mem_filter ho)).le_start

theorem laterMethods_eq_nil (hopened : Opened '\x7b' '\x7d' s)
    (hs : OpensMethod s) {w : List Char} (htail : p.tail s = w ++ [')']) (hw : ')' ∉ w) :
    p.laterMethods s = [] := by
  have hmem : ')' ∈ (';' :: w) ++ [')'] := by simp
  have hfree : ')' ∉ ';' :: w := by simp [hw]
  obtain ⟨m, hm, hcross⟩ := hs.exists_crosses hmem
    (p.before.length + (stringLead p.name.chars).length)
  have hearly := start_lt_of_crosses hfree hm hcross
  rw [laterMethods, methodsAt, scanFrom_method_text hopened, htail, map_eq_nil_iff,
    filter_eq_nil_iff]
  intro o ho
  have hstart : o.start < p.stop s := by
    rcases mem_append.mp (mem_of_mem_filter ho) with ho | ho
    · exact start_lt_stop endsWith_method ho
    · have hlt := hearly o ho
      rw [stop_eq]
      omega
  simpa using hstart

theorem readsAs_of_harmless (hname : p.name.IsPlain) (hs : '"' ∉ s ∧ '\n' ∉ s)
    (hharmless : Harmless s) : p.ReadsAs s := by
  have hplain (c : Char) (hc : c ∈ s) : c ≠ ';' ∧ c ≠ '\n' :=
    ⟨fun h => hharmless.semicolon (h ▸ hc), fun h => hs.2 (h ▸ hc)⟩
  have hopened := hharmless.braces.opened
  have htail : p.tail s = p.tail [] := by
    rw [tail, tail, hharmless.braces.closed, Nat.add_sub_cancel]
    rfl
  have hempty : Opened '\x7b' '\x7d' [] := harmless_nil.braces.opened
  refine ⟨reports_of_opened hname hplain hs.1 hopened, ?_, ?_⟩
  · rw [laterMethods_eq hopened (settled_quote hharmless.methods),
      laterMethods_eq hempty (settled_quote harmless_nil.methods), htail]
  · rw [laterConstants_eq hname hplain hopened, laterConstants_eq hname (by simp) hempty, htail]

end ConstantPlace

/-! ### Strings that do harm -/

def startPlace (after : List Char) : ConstantPlace where
  before := "package p;public class A \x7b".toList
  after := after
  name := ⟨['N'], by decide, by decide⟩
  package := ['p']
  decl := ⟨10, 26, "public class A \x7b".toList, ⟨.classType, ['A'], none, none⟩⟩
  packaged := rfl
  found := by
    have hscan : scan header "package p;public class A \x7b".toList =
        [⟨10, 26, "public class A \x7b".toList, ⟨.classType, ['A'], none, none⟩⟩] := rfl
    rw [hscan]
    exact List.mem_singleton_self _
  opened u hu := by
    rw [List.prefix_nil.mp hu]
    exact Nat.le_refl 0
  methods := settled_nil _ _
  constants := settled_nil _ _

theorem isPlain_startPlace (after : List Char) : (startPlace after).name.IsPlain := by
  have hname : ∀ c ∈ ['N'], isWord c := by decide
  exact hname

theorem tail_startPlace (after s : List Char) :
    (startPlace after).tail s = untilClosed (s.count '\x7b' - s.count '\x7d') [] after := by
  rw [ConstantPlace.tail]
  have hcount : (startPlace after).inner.count '\x7b' - (startPlace after).inner.count '\x7d' = 0 :=
    rfl
  rw [hcount, Nat.zero_add]
  rfl

def laterText : List Char :=
  "public void f()".toList

section Harm

variable {s : List Char}

theorem not_opensMethod_of_laterMethods (hopened : Opened '\x7b' '\x7d' s)
    (hsame : (startPlace laterText).laterMethods s = (startPlace laterText).laterMethods []) :
    ¬ OpensMethod s := by
  intro hs
  have htail (u : List Char) : (startPlace laterText).tail u = laterText := by
    rw [tail_startPlace, untilClosed_of_notMem (by decide) (by decide)]
  have hnone := ConstantPlace.laterMethods_eq_nil hopened hs
    (p := startPlace laterText) (w := "public void f(".toList) (htail s) (by decide)
  have hsome : methodsIn ['A'] laterText ≠ [] := by decide
  rw [hnone, ConstantPlace.laterMethods_eq harmless_nil.braces.opened
    (settled_quote harmless_nil.methods), htail] at hsame
  exact hsome hsame.symm

theorem count_le_of_laterMethods (hopened : Opened '\x7b' '\x7d' s)
    (hmethods : ¬ OpensMethod s)
    (hsame : (startPlace ('\x7d' :: laterText)).laterMethods s =
      (startPlace ('\x7d' :: laterText)).laterMethods []) :
    s.count '\x7b' ≤ s.count '\x7d' := by
  by_contra hmore
  have htail : (startPlace ('\x7d' :: laterText)).tail s = '\x7d' :: laterText := by
    obtain ⟨depth, hdepth⟩ : ∃ depth, s.count '\x7b' - s.count '\x7d' = depth + 1 :=
      ⟨s.count '\x7b' - s.count '\x7d' - 1, by omega⟩
    have hstep (cs : List Char) : untilClosed (depth + 1) [] ('\x7d' :: cs) =
        untilClosed depth ['\x7d'] cs := rfl
    rw [tail_startPlace, hdepth, hstep, untilClosed_done,
      untilClosed_of_notMem (by decide) (by decide)]
    rfl
  have htail' : (startPlace ('\x7d' :: laterText)).tail [] = [] := rfl
  have hsome : methodsIn ['A'] ('\x7d' :: laterText) ≠ methodsIn ['A'] [] := by decide
  rw [ConstantPlace.laterMethods_eq hopened (settled_quote hmethods),
    ConstantPlace.laterMethods_eq harmless_nil.braces.opened (settled_quote harmless_nil.methods),
    htail, htail'] at hsame
  exact hsome hsame

theorem harmless_of_readsAs (hs : '\n' ∉ s)
    (hall : ∀ p : ConstantPlace, p.name.IsPlain → p.ReadsAs s) : Harmless s := by
  have hreads (after : List Char) := hall (startPlace after) (isPlain_startPlace after)
  have hsemicolon : ';' ∉ s := fun hmem =>
    ConstantPlace.not_reports_of_semicolon (isPlain_startPlace []) hs hmem (hreads []).reported
  have hplain (c : Char) (hc : c ∈ s) : c ≠ ';' ∧ c ≠ '\n' :=
    ⟨fun h => hsemicolon (h ▸ hc), fun h => hs (h ▸ hc)⟩
  have hopened : Opened '\x7b' '\x7d' s := by
    intro u hu
    have hle := ConstantPlace.count_le_of_reports (isPlain_startPlace []) hplain
      (hreads []).reported hu
    have hinner : (startPlace []).inner = [] := rfl
    simpa only [hinner, count_nil, Nat.zero_add] using hle
  have hmethods := not_opensMethod_of_laterMethods hopened (hreads _).methods
  have hclosed := count_le_of_laterMethods hopened hmethods (hreads _).methods
  exact ⟨hsemicolon, ⟨hopened, Nat.le_antisymm (hopened s (prefix_refl s)) hclosed⟩, hmethods⟩

end Harm

/-- A string is read as it stands, at every place where a constant can be declared, exactly if it is
harmless. -/
theorem string_read_iff_harmless {s : List Char} (hs : '"' ∉ s ∧ '\n' ∉ s) :
    ((∀ p : ConstantPlace, p.name.IsPlain → p.ReadsAs s) ↔ Harmless s) ∧
    (∀ p : ConstantPlace, p.type s ∈ extractChars (p.text s) ∧
      (p.type s).methods = (methodsAt (p.text s) p.decl).map Method.ofMatch ∧
      (p.type s).constants = (constantsAt (p.text s) p.decl).map Constant.ofMatch) ∧
    ∀ p : ConstantPlace, ';' ∈ s ∨ ¬ p.name.IsPlain → ¬ p.Reports s := by
  refine ⟨⟨harmless_of_readsAs hs.2, fun hharmless p hname => ?_⟩, fun p => ?_, fun p hharm => ?_⟩
  · exact ConstantPlace.readsAs_of_harmless hname hs hharmless
  · exact ⟨ConstantPlace.type_mem_extractChars, members_ofMatch _ _ _⟩
  · by_cases hname : p.name.IsPlain
    · exact ConstantPlace.not_reports_of_semicolon hname hs.2 (hharm.resolve_right (not_not.mpr hname))
    · exact ConstantPlace.not_reports_of_not_isPlain hname

/-- Strings with a semicolon, with a brace too many and with an open method. -/
def harmfulTexts : List (List Char) :=
  ["a;b", "a\x7db", "a\x7bb", "public int f("].map String.toList

/-- None of these is read as it stands everywhere, while one with a whole method is. -/
theorem string_read_harmfulTexts :
    (∀ p : ConstantPlace, p.name.IsPlain → p.ReadsAs "public void f(), \x7ba\x7d".toList) ∧
    ∀ s ∈ harmfulTexts, ¬ ∀ p : ConstantPlace, p.name.IsPlain → p.ReadsAs s := by
  constructor
  · have hharmless : Harmless "public void f(), \x7ba\x7d".toList := by decide +kernel
    exact (string_read_iff_harmless (by decide)).1.mpr hharmless
  · intro s hs hall
    have hharmful : ∀ s ∈ harmfulTexts, ('"' ∉ s ∧ '\n' ∉ s) ∧ ¬ Harmless s := by decide +kernel
    obtain ⟨hplain, hharm⟩ := hharmful s hs
    exact hharm ((string_read_iff_harmless hplain).1.mp hall)

end JarAtlas.Java
