import JarAtlas.Files.Content
import JarAtlas.Proofs.Json.Limits
import JarAtlas.Proofs.Text.Encoding

/-!
JSON text in files. The text of a value without doubles has no control characters but line feeds and
the marks of what cannot be written. So what is written of it is the same text after it was encoded,
decoded and its line ends were read, and it is the whole text exactly if there is no such mark.
-/

open List

namespace JarAtlas.Json

variable {cs : List Char} {v : Json}

/-- A character that no encoding of text and no reading of lines changes. -/
def IsSafe (c : Char) : Prop :=
  c = '\n' ∨ 32 ≤ c.toNat

instance (c : Char) : Decidable (IsSafe c) :=
  inferInstanceAs (Decidable (_ ∨ _))

theorem isSafe_hexDigit : ∀ n < 16, IsSafe (hexDigit n) := by
  decide

theorem isSafe_of_mem_escapeChar (ch : Char) : ∀ c ∈ escapeChar ch, IsSafe c := by
  unfold escapeChar
  iterate 7
    split
    · decide
  split
  · next hsmall =>
    have hhigh := isSafe_hexDigit (ch.toNat / 16) (by omega)
    have hlow := isSafe_hexDigit (ch.toNat % 16) (by omega)
    simp only [mem_cons, not_mem_nil, or_false]
    rintro c (rfl | rfl | rfl | rfl | rfl | rfl)
    · decide
    · decide
    · decide
    · decide
    · exact hhigh
    · exact hlow
  · next hlarge =>
    intro c hc
    rw [mem_singleton.mp hc]
    exact .inr (by omega)

theorem isSafe_of_mem_quote (cs : List Char) : ∀ c ∈ quote cs, IsSafe c := by
  have hquote : IsSafe '"' := by decide
  refine forall_mem_cons.mpr ⟨hquote, forall_mem_append.mpr ⟨?_, ?_⟩⟩
  · intro c hc
    obtain ⟨ch, -, hch⟩ := mem_flatMap.mp hc
    exact isSafe_of_mem_escapeChar ch c hch
  · exact forall_mem_singleton.mpr hquote

theorem isSafe_of_mem_intChars (n : Int) : ∀ c ∈ intChars n, IsSafe c := by
  have hdigits : ∀ c ∈ Nat.toDigits 10 n.natAbs, IsSafe c := by
    intro c hc
    have hdigit := Nat.isDigit_of_mem_toDigits (by decide) (by decide) hc
    exact .inr (Nat.le_trans (by decide) (Char.isDigit_iff_toNat.mp hdigit).1)
  unfold intChars
  split
  · exact forall_mem_cons.mpr ⟨by decide, hdigits⟩
  · exact hdigits

theorem isSafe_of_mem_gap (layout : Layout) (level : Nat) : ∀ c ∈ layout.gap level, IsSafe c := by
  cases layout with
  | line => exact forall_mem_nil _
  | indented =>
    refine forall_mem_cons.mpr ⟨.inl rfl, fun c hc => ?_⟩
    rw [eq_of_mem_replicate hc]
    decide

theorem isSafe_of_mem_comma (layout : Layout) (level : Nat) :
    ∀ c ∈ layout.comma level, IsSafe c := by
  cases layout with
  | line =>
    show ∀ c ∈ [',', ' '], IsSafe c
    decide
  | indented => exact forall_mem_cons.mpr ⟨by decide, isSafe_of_mem_gap _ level⟩

def isExact : Json → Bool
  | double _ => false
  | _ => true

theorem ne_double_of_isExact (hexact : v.all isExact) (d : Double) : v ≠ .double d := by
  rintro rfl
  cases hexact

theorem return_not_mem_of_isSafe (hcs : ∀ c ∈ cs, IsSafe c) : '\r' ∉ cs :=
  fun hmem => absurd (hcs _ hmem) (by decide)

theorem return_not_mem_mark (hcs : cs = [] ∨ ∃ e : WriteError, cs = [e.mark]) : '\r' ∉ cs := by
  rcases hcs with rfl | ⟨e, rfl⟩
  · exact not_mem_nil
  · cases e <;> decide

theorem nameBarrier_cases (v : Json) :
    nameBarrier v = [] ∨ ∃ e : WriteError, nameBarrier v = [e.mark] := by
  unfold nameBarrier
  split
  · exact .inr ⟨_, rfl⟩
  · exact .inl rfl

section Chars

variable {layout : Layout} {level : Nat} {items : List Json} {fields : List (String × Json)}

theorem return_not_mem_renderItems (hitems : ∀ item ∈ items, '\r' ∉ render layout level item) :
    '\r' ∉ renderItems layout level items := by
  induction items with
  | nil => exact not_mem_nil
  | cons item items ih =>
    obtain ⟨hitem, hitems⟩ := forall_mem_cons.mp hitems
    simp only [renderItems, mem_append, not_or]
    exact ⟨return_not_mem_mark (barrier_cases _),
      return_not_mem_of_isSafe (isSafe_of_mem_comma _ _), hitem, ih hitems⟩

theorem return_not_mem_renderFields
    (hfields : ∀ field ∈ fields, '\r' ∉ render layout level field.2) :
    '\r' ∉ renderFields layout level fields := by
  induction fields with
  | nil => exact not_mem_nil
  | cons field fields ih =>
    obtain ⟨hvalue, hfields⟩ := forall_mem_cons.mp hfields
    simp only [renderFields, mem_append, mem_cons, not_or]
    exact ⟨return_not_mem_of_isSafe (isSafe_of_mem_comma _ _),
      return_not_mem_mark (nameBarrier_cases _), return_not_mem_of_isSafe (isSafe_of_mem_quote _),
      by decide, by decide, hvalue, ih hfields⟩

theorem return_not_mem_render (layout : Layout) (level : Nat) (hexact : v.all isExact) :
    '\r' ∉ render layout level v := by
  have hgap (level : Nat) := return_not_mem_of_isSafe (isSafe_of_mem_gap layout level)
  induction v using inductOn generalizing level with
  | null => exact return_not_mem_of_isSafe (by rw [render]; decide)
  | bool b => cases b <;> exact return_not_mem_of_isSafe (by rw [render]; decide)
  | int n =>
    rw [render_int]
    split
    · decide
    · exact return_not_mem_of_isSafe (isSafe_of_mem_intChars n)
  | double d => cases hexact
  | str s => exact return_not_mem_of_isSafe (isSafe_of_mem_quote s.toList)
  | torn _ | misnamed _ => exact (by decide : '\r' ∉ [WriteError.tornText.mark])
  | arr items ih =>
    have hitems : ∀ item ∈ items, '\r' ∉ render layout (level + 1) item :=
      fun item hitem => ih item hitem (level + 1) (all_arr_iff.mp hexact item hitem)
    cases items with
    | nil => exact return_not_mem_of_isSafe (by rw [render]; decide)
    | cons item items =>
      obtain ⟨hitem, hitems⟩ := forall_mem_cons.mp hitems
      simp only [render_arr_cons, mem_append, mem_cons, not_or]
      exact ⟨return_not_mem_mark (barrier_cases _), by decide, hgap _, hitem,
        return_not_mem_renderItems hitems, hgap _, by decide, not_mem_nil⟩
  | obj fields ih =>
    have hfields : ∀ field ∈ fields, '\r' ∉ render layout (level + 1) field.2 :=
      fun field hfield => ih field hfield (level + 1) (all_obj_iff.mp hexact field hfield)
    rcases fields with _ | ⟨⟨name, value⟩, fields⟩
    · exact return_not_mem_of_isSafe (by rw [render]; decide)
    · obtain ⟨hvalue, hfields⟩ := forall_mem_cons.mp hfields
      simp only [render_obj_cons, mem_append, mem_cons, not_or]
      exact ⟨by decide, hgap _, return_not_mem_mark (nameBarrier_cases _),
        return_not_mem_of_isSafe (isSafe_of_mem_quote _), by decide, by decide, hvalue,
        return_not_mem_renderFields hfields, hgap _, by decide, not_mem_nil⟩

end Chars

/-- Text without the mark of what cannot be written. -/
def IsUnmarked (cs : List Char) : Prop :=
  ∀ c ∈ cs, 1 < c.toNat

theorem isUnmarked_of_isSafe (hcs : ∀ c ∈ cs, IsSafe c) : IsUnmarked cs := by
  intro c hc
  rcases hcs c hc with rfl | hlarge
  · decide
  · omega

theorem isUnmarked_append {ds : List Char} :
    IsUnmarked (cs ++ ds) ↔ IsUnmarked cs ∧ IsUnmarked ds :=
  forall_mem_append

theorem isUnmarked_cons {c : Char} : IsUnmarked (c :: cs) ↔ 1 < c.toNat ∧ IsUnmarked cs :=
  forall_mem_cons

theorem not_isUnmarked_mark (e : WriteError) : ¬ IsUnmarked [e.mark] := by
  intro hmark
  have hlarge := hmark e.mark mem_cons_self
  cases e <;> exact absurd hlarge (by decide)

theorem isUnmarked_gap (layout : Layout) (level : Nat) : IsUnmarked (layout.gap level) :=
  isUnmarked_of_isSafe (isSafe_of_mem_gap layout level)

theorem isUnmarked_comma (layout : Layout) (level : Nat) : IsUnmarked (layout.comma level) :=
  isUnmarked_of_isSafe (isSafe_of_mem_comma layout level)

theorem isUnmarked_quote (cs : List Char) : IsUnmarked (quote cs) :=
  isUnmarked_of_isSafe (isSafe_of_mem_quote cs)

section Marks

variable {layout : Layout} {level depth : Nat} {items : List Json} {fields : List (String × Json)}

theorem isUnmarked_renderItems_iff (hitems : ∀ item ∈ items, isBounded depth item ∧
      (IsUnmarked (render layout level item) ↔ item.all isPlain)) :
    IsUnmarked (renderItems layout level items) ↔ ∀ item ∈ items, item.all isPlain := by
  induction items with
  | nil => exact iff_of_true (forall_mem_nil _) (forall_mem_nil _)
  | cons item items ih =>
    obtain ⟨⟨hbound, hitem⟩, hitems⟩ := forall_mem_cons.mp hitems
    rw [renderItems, forall_mem_cons, ← hitem, ← ih hitems]
    simp only [isUnmarked_append]
    constructor
    · rintro ⟨-, -, hfirst, hothers⟩
      exact ⟨hfirst, hothers⟩
    · rintro ⟨hfirst, hothers⟩
      rw [barrier_of_plain hbound (hitem.mp hfirst)]
      exact ⟨forall_mem_nil _, isUnmarked_comma _ _, hfirst, hothers⟩

theorem isUnmarked_renderFields_iff (hfields : ∀ field ∈ fields,
      (IsUnmarked (render layout level field.2) ↔ field.2.all isPlain)) :
    IsUnmarked (renderFields layout level fields) ↔ ∀ field ∈ fields, field.2.all isPlain := by
  induction fields with
  | nil => exact iff_of_true (forall_mem_nil _) (forall_mem_nil _)
  | cons field fields ih =>
    obtain ⟨hvalue, hfields⟩ := forall_mem_cons.mp hfields
    rw [renderFields, forall_mem_cons, ← hvalue, ← ih hfields]
    simp only [isUnmarked_append, isUnmarked_cons]
    constructor
    · rintro ⟨-, -, -, -, -, hfirst, hothers⟩
      exact ⟨hfirst, hothers⟩
    · rintro ⟨hfirst, hothers⟩
      rw [nameBarrier_of_plain (hvalue.mp hfirst)]
      exact ⟨isUnmarked_comma _ _, forall_mem_nil _, isUnmarked_quote _, by decide, by decide,
        hfirst, hothers⟩

theorem isUnmarked_render_iff (layout : Layout) (level : Nat) (hexact : v.all isExact)
    (hbound : isBounded depth v) : IsUnmarked (render layout level v) ↔ v.all isPlain := by
  induction v using inductOn generalizing level depth with
  | null => exact iff_of_true (isUnmarked_of_isSafe (by rw [render]; decide)) rfl
  | bool b => cases b <;> exact iff_of_true (isUnmarked_of_isSafe (by rw [render]; decide)) rfl
  | int n =>
    rw [render_int, if_neg (not_maxDigits_lt hbound)]
    exact iff_of_true (isUnmarked_of_isSafe (isSafe_of_mem_intChars n)) rfl
  | double d => cases hexact
  | str s => exact iff_of_true (isUnmarked_quote s.toList) rfl
  | torn _ | misnamed _ => exact iff_of_false (not_isUnmarked_mark .tornText) Bool.false_ne_true
  | arr items ih =>
    rw [all_arr_iff] at hexact ⊢
    rw [isBounded_arr_iff] at hbound
    have hitems : ∀ item ∈ items, isBounded (depth - 1) item ∧
        (IsUnmarked (render layout (level + 1) item) ↔ item.all isPlain) := fun item hitem =>
      ⟨hbound.2 item hitem, ih item hitem (level + 1) (hexact item hitem) (hbound.2 item hitem)⟩
    cases items with
    | nil => exact iff_of_true (isUnmarked_of_isSafe (by rw [render]; decide)) (forall_mem_nil _)
    | cons item items =>
      obtain ⟨⟨hbound, hitem⟩, hitems⟩ := forall_mem_cons.mp hitems
      rw [render_arr_cons, forall_mem_cons, ← hitem, ← isUnmarked_renderItems_iff hitems]
      simp only [isUnmarked_append, isUnmarked_cons]
      constructor
      · rintro ⟨-, -, -, hfirst, hothers, -⟩
        exact ⟨hfirst, hothers⟩
      · rintro ⟨hfirst, hothers⟩
        rw [barrier_of_plain hbound (hitem.mp hfirst)]
        exact ⟨forall_mem_nil _, by decide, isUnmarked_gap _ _, hfirst, hothers,
          isUnmarked_gap _ _, by decide, forall_mem_nil _⟩
  | obj fields ih =>
    rw [all_obj_iff] at hexact ⊢
    rw [isBounded_obj_iff] at hbound
    have hfields : ∀ field ∈ fields,
        (IsUnmarked (render layout (level + 1) field.2) ↔ field.2.all isPlain) :=
      fun field hfield =>
        ih field hfield (level + 1) (hexact field hfield) (hbound.2.2 field hfield)
    rcases fields with _ | ⟨⟨name, value⟩, fields⟩
    · exact iff_of_true (isUnmarked_of_isSafe (by rw [render]; decide)) (forall_mem_nil _)
    · obtain ⟨hvalue, hfields⟩ := forall_mem_cons.mp hfields
      rw [render_obj_cons, forall_mem_cons, ← hvalue, ← isUnmarked_renderFields_iff hfields]
      simp only [isUnmarked_append, isUnmarked_cons]
      constructor
      · rintro ⟨-, -, -, -, -, -, hfirst, hothers, -⟩
        exact ⟨hfirst, hothers⟩
      · rintro ⟨hfirst, hothers⟩
        rw [nameBarrier_of_plain (hvalue.mp hfirst)]
        exact ⟨by decide, isUnmarked_gap _ _, forall_mem_nil _, isUnmarked_quote _, by decide,
          by decide, hfirst, hothers, isUnmarked_gap _ _, by decide, forall_mem_nil _⟩

end Marks

theorem isExact_of_plain (hplain : v.all isPlain) : v.all isExact := by
  induction v using inductOn with
  | null | bool _ | int _ | str _ => rfl
  | double _ | torn _ | misnamed _ => cases hplain
  | arr items ih =>
    rw [all_arr_iff] at hplain ⊢
    exact fun item hitem => ih item hitem (hplain item hitem)
  | obj fields ih =>
    rw [all_obj_iff] at hplain ⊢
    exact fun field hfield => ih field hfield (hplain field hfield)

def untilMark (cs : List Char) : List Char :=
  cs.takeWhile (1 < ·.toNat)

theorem untilMark_append (hcs : IsUnmarked cs) (ds : List Char) :
    untilMark (cs ++ ds) = cs ++ untilMark ds :=
  takeWhile_append_of_pos fun c hc => decide_eq_true (hcs c hc)

theorem untilMark_eq_self (hcs : IsUnmarked cs) : untilMark cs = cs := by
  have hall := untilMark_append hcs []
  have hnil : untilMark [] = [] := rfl
  rwa [hnil, append_nil] at hall

theorem writable_eq (v : Json) :
    v.writable.1 = String.ofList (untilMark (render .indented 0 v)) ∧
      (v.writable.2 = none ↔ IsUnmarked (render .indented 0 v)) := by
  rw [writable, span_eq_takeWhile_dropWhile]
  refine ⟨rfl, ?_⟩
  rw [Option.map_eq_none_iff, head?_eq_none_iff, dropWhile_eq_nil_iff]
  exact forall₂_congr fun c _ => decide_eq_true_iff

theorem writable_of_plain (hbound : v.isBounded maxDepth) (hplain : v.all isPlain) :
    v.writable = (v.pretty, none) := by
  have hunmarked := (isUnmarked_render_iff .indented 0 (isExact_of_plain hplain) hbound).mpr hplain
  obtain ⟨htext, hwhole⟩ := writable_eq v
  refine Prod.ext ?_ (hwhole.mpr hunmarked)
  rw [htext, untilMark_eq_self hunmarked, pretty]

theorem strictText?_ofList (hreturn : '\r' ∉ cs) :
    (Content.ofText (String.ofList cs)).strictText? = some cs := by
  rw [Content.ofText, Content.strictText?, Content.plain, String.toList_ofList,
    Utf8.decode?_encode, Option.map_some, Utf8.normalizeNewlines_of_not_mem hreturn]

theorem strictText?_written (hexact : v.all isExact) :
    (Content.ofText v.writable.1).strictText? = some (untilMark (render .indented 0 v)) := by
  rw [(writable_eq v).1]
  apply strictText?_ofList
  exact fun hmem => return_not_mem_render .indented 0 hexact ((takeWhile_sublist _).subset hmem)

theorem strictText?_pretty (hplain : v.all isPlain) :
    (Content.ofText v.pretty).strictText? = some (render .indented 0 v) :=
  strictText?_ofList (return_not_mem_render .indented 0 (isExact_of_plain hplain))

/-!
Reading what was written. If a value can be written as a whole, it is read back from its text.
Otherwise what is written of it stops inside an array or an object, or before anything, and no value
is read from it.
-/

variable {cs rest : List Char} {v : Json} {layout : Layout} {depth level fuel : Nat} {item : Json}
  {items : List Json} {fields : List (String × Json)}

theorem untilMark_append_of_marked (hcs : ¬ IsUnmarked cs) (ds : List Char) :
    untilMark (cs ++ ds) = untilMark cs := by
  induction cs with
  | nil => exact absurd (forall_mem_nil _) hcs
  | cons c cs ih =>
    rw [isUnmarked_cons, not_and] at hcs
    rw [cons_append, untilMark, untilMark, takeWhile_cons, takeWhile_cons]
    split
    · next hc => exact congrArg (c :: ·) (ih (hcs (of_decide_eq_true hc)))
    · rfl

theorem length_untilMark_le (cs ds : List Char) :
    (untilMark cs).length ≤ (untilMark (cs ++ ds)).length := by
  by_cases hcs : IsUnmarked cs
  · rw [untilMark_append hcs, untilMark_eq_self hcs, length_append]
    exact Nat.le_add_right _ _
  · rw [untilMark_append_of_marked hcs]

theorem untilMark_mark (e : WriteError) (cs : List Char) : untilMark ([e.mark] ++ cs) = [] := by
  cases e <;> rfl

theorem endsNumber_untilMark (hrest : EndsNumber rest) : EndsNumber (untilMark rest) := by
  cases rest with
  | nil => exact hrest
  | cons c rest =>
    rw [untilMark, takeWhile_cons]
    split
    · exact hrest
    · simp [EndsNumber]

theorem head?_untilMark (layout : Layout) (level : Nat) (hv : all isExact v)
    (tail : List Char) :
    ∀ c ∈ (untilMark (render layout level v ++ tail)).head?, isGap c = false ∧ c ≠ ']' := by
  obtain ⟨first, cs, hfirst, hkind⟩ := exists_first layout level (ne_double_of_isExact hv)
  intro c hc
  rw [hfirst, untilMark, cons_append, takeWhile_cons] at hc
  split at hc
  · cases hc
    exact hkind
  · cases hc

theorem skipGaps_untilMark (layout : Layout) (level : Nat) (hv : all isExact v)
    {blanks : List Char} (hblanks : ∀ c ∈ blanks, isGap c) (tail : List Char) :
    skipGaps (blanks ++ untilMark (render layout level v ++ tail)) =
      untilMark (render layout level v ++ tail) := by
  have hhead := head?_untilMark layout level hv tail
  rw [skipGaps, dropWhile_append_of_pos hblanks]
  cases htext : untilMark (render layout level v ++ tail) with
  | nil => rfl
  | cons c cs =>
    rw [htext] at hhead
    exact dropWhile_cons_of_neg (by simp [(hhead c rfl).1])

theorem skipGaps_untilMark_self (layout : Layout) (level : Nat) (hv : all isExact v)
    (tail : List Char) :
    skipGaps (untilMark (render layout level v ++ tail)) =
      untilMark (render layout level v ++ tail) :=
  skipGaps_untilMark layout level hv (forall_mem_nil _) tail

/-- What was found is read if all of it was written, and nothing is read otherwise. -/
def Gives {α : Type} (isWhole : Bool) (found : α × List Char) (r : Read α) : Prop :=
  if isWhole then r = .ok found else ∀ other, r ≠ .ok other

theorem Gives.map {α β : Type} {isWhole : Bool} {x : α} {r : Read α}
    (hr : Gives isWhole (x, rest) r) (f : α → β) :
    Gives isWhole (f x, rest) (r.map fun (y, rest) => (f y, rest)) := by
  cases isWhole with
  | true =>
    rw [Gives, if_pos rfl] at hr
    rw [hr]
    rfl
  | false =>
    intro other
    cases r with
    | error e => exact nofun
    | ok y => exact absurd rfl (hr y)

/-- What is read from the text of a value, as far as it was written, wherever it stands. -/
def Reads (layout : Layout) (v : Json) : Prop :=
  ∀ depth level fuel rest, isBounded depth v = true → all isExact v = true → EndsNumber rest →
    2 * (untilMark (render layout level v)).length ≤ fuel →
    Gives (all isPlain v) (v, untilMark rest)
      (readValue depth fuel (untilMark (render layout level v ++ rest)))

theorem reads_of_plain (hplain : all isPlain v)
    (hreads : ∀ depth level fuel rest, isBounded depth v → EndsNumber rest →
      2 * (render layout level v).length ≤ fuel + 1 →
      readValue depth (fuel + 1) (render layout level v ++ rest) = .ok (v, rest)) :
    Reads layout v := by
  intro depth level fuel rest hbound hexact hrest hfuel
  have hunmarked := (isUnmarked_render_iff layout level hexact hbound).mpr hplain
  obtain ⟨c, cs, hfirst, -⟩ := exists_first layout level (ne_double_of_isExact hexact)
  rw [untilMark_eq_self hunmarked] at hfuel
  have hlength := hfuel
  rw [hfirst, length_cons] at hlength
  obtain ⟨fuel, rfl⟩ := Nat.exists_eq_add_of_le' (by omega : 1 ≤ fuel)
  rw [Gives, if_pos hplain, untilMark_append hunmarked]
  exact hreads depth level fuel _ hbound (endsNumber_untilMark hrest) hfuel

theorem reads_scalar (hplain : all isPlain v)
    (hscalar : ∀ depth level rest, isBounded depth v → EndsNumber rest →
      ∃ c cs, render layout level v = c :: cs ∧ c ≠ '"' ∧ c ≠ '[' ∧ c ≠ '\x7b' ∧
        readScalar (render layout level v ++ rest) = .ok (v, rest)) : Reads layout v := by
  refine reads_of_plain hplain fun depth level fuel rest hbound hrest _ => ?_
  obtain ⟨c, cs, hrender, hquote, hbracket, hbrace, hread⟩ := hscalar depth level rest hbound hrest
  rw [← hread, hrender, cons_append, readValue]
  all_goals
    intro tail htail
    have hfirst := (cons.inj htail).1
    contradiction

theorem reads_int (n : Int) : Reads layout (.int n) := by
  refine reads_scalar rfl fun depth level rest hbound hrest => ?_
  obtain ⟨c, cs, hchars, -, hquote, hopen, -, hbrace⟩ := exists_intChars_cons n
  have hrender : render layout level (.int n) = intChars n := by
    rw [render_int, if_neg (not_maxDigits_lt hbound)]
  refine ⟨c, cs, hrender.trans hchars, hquote, hopen, hbrace, ?_⟩
  rw [hrender]
  exact readScalar_intChars hbound hrest

theorem reads_str (s : String) : Reads layout (.str s) := by
  refine reads_of_plain rfl fun depth level fuel rest _ _ _ => ?_
  rw [render_str, quote, cons_append, append_assoc, singleton_append, readValue, readString_quoted]
  simp

theorem readValue_nil_ne_ok (depth fuel : Nat) (found : Json × List Char) :
    readValue depth fuel [] ≠ .ok found := by
  cases fuel with
  | zero =>
    rw [readValue]
    simp
  | succ fuel =>
    rw [readValue]
    · intro hread
      cases hread
    all_goals simp

theorem plain_of_mark {e : WriteError} (hbound : isBounded depth v) (hmark : barrier v = [e.mark]) :
    all isPlain v = false := by
  rw [← Bool.not_eq_true]
  intro hplain
  rw [barrier_of_plain hbound hplain] at hmark
  cases hmark

theorem plain_of_nameMark {e : WriteError} (hmark : nameBarrier v = [e.mark]) :
    all isPlain v = false := by
  rw [← Bool.not_eq_true]
  intro hplain
  rw [nameBarrier_of_plain hplain] at hmark
  cases hmark

/-- Whatever reads a value first is left with what comes after it, if the value was written as a
whole, and fails otherwise. -/
theorem Reads.gives {α : Type} {more : Bool} {found : α × List Char} {r : Read α}
    (hv : Reads layout v ∧ isBounded depth v ∧ all isExact v) (hrest : EndsNumber rest)
    (hfuel : 2 * (untilMark (render layout level v)).length ≤ fuel)
    (hfails : (∀ other, readValue depth fuel (untilMark (render layout level v ++ rest)) ≠
      .ok other) → ∀ other, r ≠ .ok other)
    (hmore : IsUnmarked (render layout level v) →
      readValue depth fuel (untilMark (render layout level v ++ rest)) = .ok (v, untilMark rest) →
      Gives more found r) :
    Gives (all isPlain v && more) found r := by
  obtain ⟨hreads, hbound, hexact⟩ := hv
  have hread := hreads depth level fuel rest hbound hexact hrest hfuel
  cases hplain : all isPlain v with
  | false =>
    rw [hplain] at hread
    exact hfails hread
  | true =>
    rw [hplain, Gives, if_pos rfl] at hread
    exact hmore ((isUnmarked_render_iff layout level hexact hbound).mpr hplain) hread

theorem readItems_ne_ok (hvalue : ∀ found, readValue depth fuel cs ≠ .ok found) (done : List Json)
    (found : List Json × List Char) : readItems depth (fuel + 1) done cs ≠ .ok found := by
  rw [readItems]
  split
  · simp
  · next hread => exact absurd hread (hvalue _)

theorem skipGaps_comma {next : List Char} (layout : Layout) (level : Nat)
    (hnext : skipGaps next = next) :
    ∃ after, skipGaps (layout.comma level ++ next) = ',' :: after ∧ skipGaps after = next := by
  obtain ⟨blanks, hcomma, hblanks⟩ := exists_comma_eq layout level
  refine ⟨blanks ++ next, by rw [hcomma]; rfl, ?_⟩
  rw [skipGaps, dropWhile_append_of_pos hblanks]
  exact hnext

theorem endsNumber_mark (e : WriteError) (cs : List Char) : EndsNumber ([e.mark] ++ cs) := by
  intro c hc
  cases hc
  cases e <;> decide

theorem gives_readItems (hitems : ∀ other ∈ item :: items,
      Reads layout other ∧ isBounded depth other ∧ all isExact other) (level outer : Nat)
    (rest : List Char)
    (hfuel : 2 * (untilMark (render layout level item ++ renderItems layout level items)).length +
      1 ≤ fuel) (done : List Json) :
    Gives (allItems isPlain (item :: items)) (done.reverse ++ item :: items, untilMark rest)
      (readItems depth fuel done (untilMark (render layout level item ++
        (renderItems layout level items ++ (layout.gap outer ++ ']' :: rest))))) := by
  obtain ⟨fuel, rfl⟩ := Nat.exists_eq_add_of_le' (by omega : 1 ≤ fuel)
  induction items generalizing item fuel done with
  | nil =>
    rw [renderItems, append_nil] at hfuel
    refine Reads.gives (hitems item mem_cons_self) (endsNumber_gap layout outer rest (.inl rfl))
      (by omega) (fun hfails => readItems_ne_ok hfails done) fun _ hread => ?_
    have hclose : skipGaps (layout.gap outer ++ untilMark (']' :: rest)) = ']' :: untilMark rest :=
      skipGaps_close layout outer (by decide) _
    rw [untilMark_append (isUnmarked_gap _ _) (']' :: rest)] at hread
    rw [renderItems, nil_append, Gives, allItems, if_pos rfl, readItems, hread]
    simp only [hclose, reverse_cons]
  | cons next items ih =>
    obtain ⟨hitem, hitems⟩ := forall_mem_cons.mp hitems
    obtain ⟨-, hbound, hexact⟩ := hitems next mem_cons_self
    have hlength := length_untilMark_le (render layout level item)
      (renderItems layout level (next :: items))
    rw [renderItems]
    rcases barrier_cases next with hnone | ⟨e, hsome⟩
    · -- The next item is begun, after a comma.
      rw [hnone, nil_append, append_assoc, append_assoc]
      refine Reads.gives hitem (endsNumber_comma layout level _) (by omega)
        (fun hfails => readItems_ne_ok hfails done) fun hunmarked hread => ?_
      rw [renderItems, hnone, nil_append, untilMark_append hunmarked,
        untilMark_append (isUnmarked_comma layout level), length_append, length_append] at hfuel
      have hpos := length_comma_pos layout level
      obtain ⟨fuel, rfl⟩ := Nat.exists_eq_add_of_le' (by omega : 1 ≤ fuel)
      obtain ⟨after, hcomma, hafter⟩ := skipGaps_comma layout level (skipGaps_untilMark_self layout
        level hexact (renderItems layout level items ++ (layout.gap outer ++ ']' :: rest)))
      have hmore := ih hitems (item :: done) fuel (by omega)
      rw [reverse_cons, append_assoc, singleton_append] at hmore
      rw [untilMark_append (isUnmarked_comma layout level)] at hread
      rw [readItems, hread]
      simpa only [hcomma, hafter] using hmore
    · rw [hsome, append_assoc]
      refine Reads.gives hitem (endsNumber_mark e _) (by omega)
        (fun hfails => readItems_ne_ok hfails done) fun _ hread => ?_
      rw [untilMark_mark] at hread
      rw [allItems, plain_of_mark hbound hsome, Bool.false_and, readItems, hread]
      intro other hother
      cases hother

/-- What is read of the fields after the value of one. -/
def moreFields (depth fuel : Nat) (done : List (String × Json)) (cs : List Char) :
    Read (List (String × Json)) :=
  match skipGaps cs with
  | ',' :: rest => readFields depth fuel done (skipGaps rest)
  | '\x7d' :: rest => .ok (done, rest)
  | _ => .error .malformed

theorem readFields_quote (hskip : skipGaps cs = cs) (name : String) (done : List (String × Json)) :
    readFields depth (fuel + 1) done (quote name.toList ++ (':' :: ' ' :: cs)) =
      match readValue depth fuel cs with
      | .error e => .error e
      | .ok (value, after) => moreFields depth fuel (assign name value done) after := by
  have hcolon (cs : List Char) : skipGaps (':' :: cs) = ':' :: cs := rfl
  have hblank : skipGaps (' ' :: cs) = cs := hskip
  rw [quote, cons_append, append_assoc, singleton_append, readFields, readString_quoted]
  simp only [hcolon, hblank, String.ofList_toList, Bool.false_eq_true, if_false]
  rfl

theorem readFields_ne_ok (hskip : skipGaps cs = cs)
    (hvalue : ∀ found, readValue depth fuel cs ≠ .ok found) (name : String)
    (done : List (String × Json)) (found : List (String × Json) × List Char) :
    readFields depth (fuel + 1) done (quote name.toList ++ (':' :: ' ' :: cs)) ≠ .ok found := by
  rw [readFields_quote hskip]
  split
  · simp
  · next hread => exact absurd hread (hvalue _)

theorem readFields_nil_ne_ok (depth fuel : Nat) (done : List (String × Json))
    (found : List (String × Json) × List Char) : readFields depth fuel done [] ≠ .ok found := by
  cases fuel with
  | zero =>
    rw [readFields]
    simp
  | succ fuel =>
    rw [readFields]
    · simp
    · simp

theorem gives_readFields {name : String} {value : Json}
    (hfields : ∀ field ∈ (name, value) :: fields,
      Reads layout field.2 ∧ isBounded depth field.2 ∧ all isExact field.2) (level outer : Nat)
    (rest : List Char) (hfuel : 2 * (untilMark (render layout level value ++
      renderFields layout level fields)).length + 1 ≤ fuel) (done : List (String × Json))
    (hnames : ((done ++ (name, value) :: fields).map Prod.fst).Nodup) :
    Gives (allFields isPlain ((name, value) :: fields)) (done ++ (name, value) :: fields,
        untilMark rest)
      (readFields depth fuel done (quote name.toList ++ (':' :: ' ' :: untilMark
        (render layout level value ++
          (renderFields layout level fields ++ (layout.gap outer ++ '\x7d' :: rest)))))) := by
  obtain ⟨fuel, rfl⟩ := Nat.exists_eq_add_of_le' (by omega : 1 ≤ fuel)
  induction fields generalizing name value fuel done with
  | nil =>
    have hvalue := hfields (name, value) mem_cons_self
    rw [renderFields, append_nil] at hfuel
    rw [renderFields, nil_append]
    have hskip := skipGaps_untilMark_self layout level hvalue.2.2
      (layout.gap outer ++ '\x7d' :: rest)
    refine Reads.gives hvalue (endsNumber_gap layout outer rest (.inr rfl)) (by omega)
      (fun hfails => readFields_ne_ok hskip hfails name done) fun _ hread => ?_
    have hclose : skipGaps (layout.gap outer ++ untilMark ('\x7d' :: rest)) =
        '\x7d' :: untilMark rest := skipGaps_close layout outer (by decide) _
    rw [untilMark_append (isUnmarked_gap _ _) ('\x7d' :: rest)] at hread
    rw [Gives, allFields, if_pos rfl, readFields_quote hskip, hread]
    simp only [moreFields, hclose, assign_of_nodup hnames]
  | cons next fields ih =>
    obtain ⟨key, other⟩ := next
    obtain ⟨hvalue, hfields⟩ := forall_mem_cons.mp hfields
    have hassign := assign_of_nodup hnames
    rw [append_cons] at hnames
    have hlength := length_untilMark_le (render layout level value)
      (renderFields layout level ((key, other) :: fields))
    rw [renderFields, append_assoc]
    have hskip := skipGaps_untilMark_self layout level hvalue.2.2
    refine Reads.gives hvalue (endsNumber_comma layout level _) (by omega)
      (fun hfails => readFields_ne_ok (hskip _) hfails name done) fun hunmarked hread => ?_
    rw [untilMark_append (isUnmarked_comma layout level)] at hread
    rw [renderFields, untilMark_append hunmarked, untilMark_append (isUnmarked_comma layout level),
      length_append, length_append] at hfuel
    have hpos := length_comma_pos layout level
    obtain ⟨fuel, rfl⟩ := Nat.exists_eq_add_of_le' (by omega : 1 ≤ fuel)
    rw [readFields_quote (hskip _), hread]
    simp only [hassign, moreFields]
    rcases nameBarrier_cases other with hnone | ⟨e, hsome⟩
    · -- The next field is begun with its name.
      have hcolon (cs : List Char) :
          untilMark (':' :: ' ' :: cs) = ':' :: ' ' :: untilMark cs := rfl
      have hquote (tail : List Char) :
          skipGaps (quote key.toList ++ tail) = quote key.toList ++ tail :=
        skipGaps_quote (forall_mem_nil _) key.toList tail
      rw [hnone, nil_append, untilMark_append (isUnmarked_quote _), hcolon, length_append,
        length_cons, length_cons] at hfuel
      simp only [hnone, nil_append, append_assoc, cons_append]
      rw [untilMark_append (isUnmarked_quote _), hcolon]
      obtain ⟨after, hcomma, hafter⟩ := skipGaps_comma layout level (hquote _)
      have hmore := ih hfields _ hnames fuel (by omega)
      rw [← append_cons] at hmore
      rw [hcomma]
      show Gives _ _ (readFields depth (fuel + 1) (done ++ [(name, value)]) (skipGaps after))
      rw [hafter]
      simpa only [append_assoc, cons_append] using hmore
    · obtain ⟨after, hcomma, hafter⟩ := skipGaps_comma layout level (rfl : skipGaps [] = [])
      rw [hsome, append_assoc, untilMark_mark, allFields, plain_of_nameMark hsome, Bool.false_and]
      simp only [hcomma, hafter]
      exact readFields_nil_ne_ok _ _ _

theorem reads_arr (hitems : ∀ item ∈ items, Reads layout item) : Reads layout (.arr items) := by
  intro depth level fuel rest hbound hexact _ hfuel
  obtain ⟨hdepth, hbound⟩ := isBounded_arr_iff.mp hbound
  have hopen : (depth == 0) = false := by
    rw [beq_eq_false_iff_ne]
    omega
  rw [all_arr_iff] at hexact
  cases items with
  | nil =>
    obtain ⟨fuel, rfl⟩ := Nat.exists_eq_add_of_le' (Nat.le_trans (by decide : 1 ≤ 2 * 2) hfuel)
    show readValue depth (fuel + 1) ('[' :: ']' :: untilMark rest) = _
    simp [readValue, hopen, skipGaps, isGap]
  | cons item items =>
    have hitem := hexact item mem_cons_self
    rw [render_arr_cons] at hfuel ⊢
    rcases barrier_cases item with hnone | ⟨e, hsome⟩
    · have hbracket (cs : List Char) : untilMark ('[' :: cs) = '[' :: untilMark cs := rfl
      have hlength := length_untilMark_le
        (render layout (level + 1) item ++ renderItems layout (level + 1) items)
        (layout.gap level ++ [']'])
      rw [hnone, nil_append, hbracket, untilMark_append (isUnmarked_gap layout _), length_cons,
        length_append, ← append_assoc (render _ _ _)] at hfuel
      obtain ⟨fuel, rfl⟩ := Nat.exists_eq_add_of_le' (by omega : 1 ≤ fuel)
      have hread := gives_readItems (fun other hother =>
        ⟨hitems other hother, hbound other hother, hexact other hother⟩) (level + 1) level rest
        (by omega : _ ≤ fuel) []
      simp only [hnone, nil_append, cons_append, append_assoc]
      rw [hbracket, untilMark_append (isUnmarked_gap layout _), readValue, hopen,
        if_neg Bool.false_ne_true, skipGaps_untilMark layout (level + 1) hitem isGap_of_mem_gap]
      split
      · next tail hclosed =>
        have hhead := head?_untilMark layout (level + 1) hitem
          (renderItems layout (level + 1) items ++ (layout.gap level ++ ']' :: rest))
        rw [hclosed] at hhead
        exact absurd rfl (hhead ']' rfl).2
      · exact hread.map arr
    · have hplain := plain_of_mark (hbound item mem_cons_self) hsome
      rw [hsome, append_assoc, untilMark_mark, all, allItems, hplain]
      exact readValue_nil_ne_ok depth fuel

theorem reads_obj (hfields : ∀ field ∈ fields, Reads layout field.2) :
    Reads layout (.obj fields) := by
  intro depth level fuel rest hbound hexact _ hfuel
  obtain ⟨hdepth, hnames, hbound⟩ := isBounded_obj_iff.mp hbound
  have hopen : (depth == 0) = false := by
    rw [beq_eq_false_iff_ne]
    omega
  rw [all_obj_iff] at hexact
  rcases fields with _ | ⟨⟨name, value⟩, fields⟩
  · obtain ⟨fuel, rfl⟩ := Nat.exists_eq_add_of_le' (Nat.le_trans (by decide : 1 ≤ 2 * 2) hfuel)
    show readValue depth (fuel + 1) ('\x7b' :: '\x7d' :: untilMark rest) = _
    simp [readValue, hopen, skipGaps, isGap]
  · have hbrace (cs : List Char) : untilMark ('\x7b' :: cs) = '\x7b' :: untilMark cs := rfl
    rw [render_obj_cons, hbrace, untilMark_append (isUnmarked_gap layout _), length_cons,
      length_append] at hfuel
    obtain ⟨fuel, rfl⟩ := Nat.exists_eq_add_of_le' (by omega : 1 ≤ fuel)
    rw [render_obj_cons]
    simp only [cons_append, append_assoc]
    rw [hbrace, untilMark_append (isUnmarked_gap layout _), readValue, hopen,
      if_neg Bool.false_ne_true]
    rcases nameBarrier_cases value with hnone | ⟨e, hsome⟩
    · have hcolon (cs : List Char) :
          untilMark (':' :: ' ' :: cs) = ':' :: ' ' :: untilMark cs := rfl
      have hlength := length_untilMark_le
        (render layout (level + 1) value ++ renderFields layout (level + 1) fields)
        (layout.gap level ++ ['\x7d'])
      rw [hnone, nil_append, untilMark_append (isUnmarked_quote _), hcolon, length_append,
        length_cons, length_cons, ← append_assoc (render _ _ _)] at hfuel
      have hread := gives_readFields (fun field hfield =>
        ⟨hfields field hfield, hbound field hfield, hexact field hfield⟩) (level + 1) level rest
        (by omega : _ ≤ fuel) [] hnames
      rw [hnone, nil_append, untilMark_append (isUnmarked_quote _), hcolon,
        skipGaps_quote isGap_of_mem_gap]
      split
      · next tail hclosed =>
        rw [quote, cons_append] at hclosed
        exact absurd (cons.inj hclosed).1 (by decide)
      · exact hread.map obj
    · rw [hsome, untilMark_mark, append_nil, skipGaps, dropWhile_eq_nil_iff.mpr isGap_of_mem_gap,
        all, allFields, plain_of_nameMark hsome]
      exact (show Gives false ([], rest) _ from readFields_nil_ne_ok _ _ _).map obj

theorem reads (layout : Layout) (v : Json) : Reads layout v := by
  induction v using inductOn with
  | null =>
    exact reads_scalar rfl fun _ _ _ _ _ => ⟨_, _, rfl, by decide, by decide, by decide, rfl⟩
  | bool b =>
    cases b <;> exact reads_scalar rfl fun _ _ _ _ _ =>
      ⟨_, _, rfl, by decide, by decide, by decide, rfl⟩
  | int n => exact reads_int n
  | double _ => exact fun _ _ _ _ _ hexact => nomatch hexact
  | str s => exact reads_str s
  | torn _ | misnamed _ => exact fun depth _ fuel _ _ _ _ _ => readValue_nil_ne_ok depth fuel
  | arr items ih => exact reads_arr ih
  | obj fields ih => exact reads_obj ih

theorem gives_parse (layout : Layout) (hbound : isBounded maxDepth v) (hexact : all isExact v) :
    Gives (all isPlain v) (v, [])
      (readValue maxDepth (2 * (untilMark (render layout 0 v)).length + 2)
        (skipGaps (untilMark (render layout 0 v)))) := by
  have hskip := skipGaps_untilMark_self layout 0 hexact []
  have hread := reads layout v maxDepth 0 (2 * (untilMark (render layout 0 v)).length + 2) [] hbound
    hexact (by simp [EndsNumber]) (by omega)
  rw [append_nil] at hskip hread
  rwa [hskip]

theorem parse_render (layout : Layout) (hbound : isBounded maxDepth v)
    (hplain : all isPlain v) : parse (render layout 0 v) = .ok v := by
  have hexact := isExact_of_plain hplain
  have hread := gives_parse layout hbound hexact
  rw [untilMark_eq_self ((isUnmarked_render_iff layout 0 hexact hbound).mpr hplain), Gives,
    if_pos hplain] at hread
  rw [parse, hread]
  rfl

theorem parse_untilMark_ne_ok (layout : Layout) (hbound : isBounded maxDepth v)
    (hexact : all isExact v) (hplain : all isPlain v = false) (w : Json) :
    parse (untilMark (render layout 0 v)) ≠ .ok w := by
  have hread := gives_parse layout hbound hexact
  rw [hplain] at hread
  rw [parse]
  split
  · next hfound => exact absurd hfound (hread _)
  · simp

theorem parse_pretty_of_isFlat (hnames : (fields.map Prod.fst).Nodup)
    (hflat : ∀ field ∈ fields, field.2.IsFlat) :
    parse (pretty (.obj fields)).toList = .ok (.obj fields) := by
  have hbound : isBounded maxDepth (.obj fields) :=
    isBounded_obj_iff.mpr ⟨by decide, hnames, fun field hfield =>
      ((hflat field hfield).readable _).1⟩
  have hplain : all isPlain (.obj fields) :=
    all_obj_iff.mpr fun field hfield => ((hflat field hfield).readable 0).2
  rw [pretty, String.toList_ofList, parse_render .indented hbound hplain]

end JarAtlas.Json
