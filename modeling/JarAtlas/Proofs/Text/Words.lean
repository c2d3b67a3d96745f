import JarAtlas.Text.Blank
import JarAtlas.Text.Letters
import Mathlib.Data.List.Infix
import Mathlib.Data.List.TakeWhile

/-!
Blanks and word characters. No character is both, and a text that neither starts nor ends with a
blank is left as it is when blanks are trimmed. Blanks divide a text into its words.
-/

open List

namespace JarAtlas.Text

variable {c : Char} {p : Char → Bool} {cs gap : List Char} {a w : List Char}

/-- What holds of all characters of a text is decided along the text. -/
instance (priority := 1100) decidableForallMem (p : Char → Prop) [DecidablePred p]
    (cs : List Char) : Decidable (∀ c ∈ cs, p c) :=
  List.decidableBAll p cs

def blankPoints : List Nat :=
  [9, 10, 11, 12, 13, 28, 29, 30, 31, 32, 0x85, 0xa0, 0x1680, 0x2000, 0x2001, 0x2002, 0x2003,
    0x2004, 0x2005, 0x2006, 0x2007, 0x2008, 0x2009, 0x200a, 0x2028, 0x2029, 0x202f, 0x205f, 0x3000]

theorem toNat_mem_blankPoints (hblank : isBlank c) : c.toNat ∈ blankPoints := by
  simp only [blankPoints, mem_cons, not_mem_nil, or_false]
  by_cases hascii : c.toNat < 0x80
  · simp only [isBlank, hascii, if_true, Bool.or_eq_true, Bool.and_eq_true,
      decide_eq_true_eq] at hblank
    omega
  · simp only [isBlank, hascii, if_false, Bool.or_eq_true, Bool.and_eq_true, beq_iff_eq,
      decide_eq_true_eq] at hblank
    omega

theorem eq_false_of_isBlank (hall : ∀ n ∈ blankPoints, p (Char.ofNat n) = false)
    (hblank : isBlank c) : p c = false := by
  have hpoint := hall c.toNat (toNat_mem_blankPoints hblank)
  rwa [Char.ofNat_toNat] at hpoint

theorem isWord_eq_false_of_isBlank (hblank : isBlank c) : isWord c = false :=
  eq_false_of_isBlank (by decide +kernel) hblank

theorem isBlank_eq_false_of_isWord (hword : isWord c) : isBlank c = false := by
  cases hblank : isBlank c with
  | false => rfl
  | true => simp [isWord_eq_false_of_isBlank hblank] at hword

theorem span_append {rest : List Char} (hall : ∀ c ∈ cs, p c)
    (hstop : ∀ c ∈ rest.head?, p c = false) : (cs ++ rest).span p = (cs, rest) := by
  rw [span_eq_takeWhile_dropWhile, takeWhile_append_of_pos hall, dropWhile_append_of_pos hall]
  cases rest with
  | nil => rw [takeWhile_nil, dropWhile_nil, append_nil]
  | cons c rest => simp [hstop c rfl]

theorem trimBy_eq_self (hfirst : ∀ c ∈ cs.head?, p c = false)
    (hlast : ∀ c ∈ cs.getLast?, p c = false) : trimBy p cs = cs := by
  have hdrop (ds : List Char) (hhead : ∀ c ∈ ds.head?, p c = false) : ds.dropWhile p = ds := by
    cases ds with
    | nil => rfl
    | cons d ds => rw [dropWhile_cons_of_neg (by simp [hhead d rfl])]
  rw [trimBy, hdrop cs hfirst, hdrop cs.reverse (by simpa using hlast), reverse_reverse]

theorem trimBy_eq_self_of_forall (hall : ∀ c ∈ cs, p c = false) : trimBy p cs = cs :=
  trimBy_eq_self (fun c hc => hall c (mem_of_mem_head? hc))
    (fun c hc => hall c (mem_of_getLast? hc))

theorem trimBy_eq_nil_iff : trimBy p cs = [] ↔ ∀ c ∈ cs, p c := by
  have hback : trimBy p cs = [] ↔ ∀ c ∈ (cs.dropWhile p).reverse, p c := by
    rw [trimBy, reverse_eq_nil_iff, dropWhile_eq_nil_iff]
  have hfront : cs.dropWhile p = [] ↔ ∀ c ∈ cs, p c := dropWhile_eq_nil_iff
  rw [hback, ← hfront]
  constructor
  · intro hall
    by_contra hne
    have hhead := head_dropWhile_not p hne
    rw [hall _ (mem_reverse.mpr (head_mem hne))] at hhead
    exact Bool.false_ne_true hhead.symm
  · intro hnone
    rw [hnone]
    simp

theorem head_of_trimBy_eq (htrim : trimBy p cs = cs) : ∀ c ∈ cs.head?, p c = false := by
  have hstart : cs <+: cs.dropWhile p := by
    conv_lhs => rw [← htrim]
    rw [trimBy, ← reverse_suffix, reverse_reverse]
    exact dropWhile_suffix p
  have hsame : cs.dropWhile p = cs := (hstart.eq_of_length_le (dropWhile_suffix p).length_le).symm
  intro c hc
  cases cs with
  | nil => simp at hc
  | cons d cs =>
    obtain rfl : d = c := by simpa using hc
    cases hd : p d with
    | false => rfl
    | true =>
      have hlength := congrArg length hsame
      have hle : (cs.dropWhile p).length ≤ cs.length := (dropWhile_suffix p).length_le
      rw [dropWhile_cons_of_pos hd, length_cons] at hlength
      omega

theorem trimBy_trimBy (p : Char → Bool) (cs : List Char) :
    trimBy p (trimBy p cs) = trimBy p cs := by
  have hhead (ds : List Char) : ∀ c ∈ (ds.dropWhile p).head?, p c = false := by
    intro c hc
    have hfirst := head?_dropWhile_not p ds
    rw [Option.mem_def.mp hc] at hfirst
    exact hfirst
  refine trimBy_eq_self (fun c hc => hhead cs c ?_) fun c hc => ?_
  · have hstart : trimBy p cs <+: cs.dropWhile p := by
      rw [trimBy, ← reverse_suffix, reverse_reverse]
      exact dropWhile_suffix p
    obtain ⟨tail, htail⟩ := hstart
    obtain ⟨rest, hrest⟩ := head?_eq_some_iff.mp hc
    rw [← htail, hrest]
    rfl
  · rw [trimBy, getLast?_reverse] at hc
    exact hhead _ c hc

theorem mem_of_mem_trimBy (hc : c ∈ trimBy p cs) : c ∈ cs := by
  rw [trimBy, mem_reverse] at hc
  exact (dropWhile_sublist p).mem (mem_reverse.mp ((dropWhile_sublist p).mem hc))

theorem mem_trimBy_of_mem (hc : c ∈ cs) (hout : p c = false) : c ∈ trimBy p cs := by
  have hdrop {ds : List Char} (hd : c ∈ ds) : c ∈ ds.dropWhile p := by
    rw [← takeWhile_append_dropWhile (p := p) (l := ds)] at hd
    refine (mem_append.mp hd).resolve_left fun hmem => ?_
    rw [mem_takeWhile_imp hmem] at hout
    cases hout
  rw [trimBy, mem_reverse]
  exact hdrop (mem_reverse.mpr (hdrop hc))

theorem takeWhile_dropWhile_append_cons {d : Char} (hd : p d = false) (t s : List Char) :
    (t ++ d :: s).takeWhile p = t.takeWhile p ∧
      (t ++ d :: s).dropWhile p = t.dropWhile p ++ d :: s := by
  induction t with
  | nil => simp [hd]
  | cons c t ih => cases hc : p c <;> simp [hc, ih]

theorem trimBy_append_cons (hhead : ∀ d ∈ (a ++ [c]).head?, p d = false) (hc : p c = false)
    (w : List Char) : trimBy p (a ++ c :: w) = a ++ c :: (w.reverse.dropWhile p).reverse := by
  have hfirst : (a ++ c :: w).dropWhile p = a ++ c :: w := by
    cases a with
    | nil => simp [hc]
    | cons d a => simp [hhead d rfl]
  have hlast : (a ++ c :: w).reverse.dropWhile p = w.reverse.dropWhile p ++ c :: a.reverse := by
    rw [reverse_append, reverse_cons, append_assoc, singleton_append]
    exact (takeWhile_dropWhile_append_cons hc _ _).2
  rw [trimBy, hfirst, hlast]
  simp

theorem trimBy_append_gap (ha : ∀ c ∈ a, p c = false) (hgap : ∀ c ∈ gap, p c) :
    trimBy p (a ++ gap) = a := by
  rcases eq_nil_or_concat a with rfl | ⟨b, c, rfl⟩
  · exact trimBy_eq_nil_iff.mpr hgap
  · have hc : p c = false := ha c (by simp)
    have hnone : gap.reverse.dropWhile p = [] :=
      dropWhile_eq_nil_iff.mpr fun d hd => hgap d (mem_reverse.mp hd)
    rw [concat_eq_append] at ha ⊢
    rw [append_assoc, singleton_append,
      trimBy_append_cons (fun d hd => ha d (mem_of_mem_head? hd)) hc, hnone]
    rfl

/-! ### Words -/

private theorem runsOutside_go_runs (p : Char → Bool) (cs run : List Char)
    (runs : List (List Char)) :
    runsOutside.go p cs run runs = runs.reverse ++ runsOutside.go p cs run [] := by
  induction cs generalizing run runs with
  | nil => cases run <;> simp [runsOutside.go]
  | cons c cs ih =>
    simp only [runsOutside.go]
    split
    · split
      · exact ih [] runs
      · rw [ih [] (_ :: runs), ih [] [_]]
        simp
    · exact ih (c :: run) runs

private theorem runsOutside_go_append (hc : p c) (a b run : List Char) :
    runsOutside.go p (a ++ c :: b) run [] =
      runsOutside.go p a run [] ++ runsOutside.go p b [] [] := by
  induction a generalizing run with
  | nil =>
    cases run with
    | nil => simp [runsOutside.go, hc]
    | cons d run =>
      simp only [nil_append, runsOutside.go, hc, if_true]
      exact runsOutside_go_runs p b [] [_]
  | cons d a ih =>
    simp only [cons_append, runsOutside.go]
    split
    · split
      · exact ih []
      · rw [runsOutside_go_runs p _ [] [_], ih [], runsOutside_go_runs p a [] [_], append_assoc]
    · exact ih (d :: run)

theorem words_append_cons (hc : isBlank c) (a b : List Char) :
    words (a ++ c :: b) = words a ++ words b :=
  runsOutside_go_append hc a b []

theorem words_blank_append (hgap : ∀ c ∈ gap, isBlank c) (b : List Char) :
    words (gap ++ b) = words b := by
  induction gap with
  | nil => rfl
  | cons c gap ih =>
    obtain ⟨hc, hgap⟩ := forall_mem_cons.mp hgap
    exact (words_append_cons hc [] _).trans (ih hgap)

theorem words_append_gap (hne : gap ≠ []) (hgap : ∀ c ∈ gap, isBlank c) (a b : List Char) :
    words (a ++ (gap ++ b)) = words a ++ words b := by
  cases gap with
  | nil => exact absurd rfl hne
  | cons c gap =>
    obtain ⟨hc, hgap⟩ := forall_mem_cons.mp hgap
    rw [cons_append, words_append_cons hc, words_blank_append hgap]

theorem words_solid (hne : w ≠ []) (hw : ∀ c ∈ w, isBlank c = false) : words w = [w] := by
  have hgo (run : List Char) (hrun : run ≠ [] ∨ w ≠ []) :
      runsOutside.go isBlank w run [] = [run.reverse ++ w] := by
    clear hne
    induction w generalizing run with
    | nil =>
      cases run with
      | nil => simp at hrun
      | cons d run => simp [runsOutside.go]
    | cons c w ih =>
      obtain ⟨hc, hw⟩ := forall_mem_cons.mp hw
      simp [runsOutside.go, hc, ih hw (c :: run)]
  exact hgo [] (.inr hne)

theorem mem_words_append_cons {m : Char} (hm : isBlank m = false) {b : List Char}
    (hw : w ∈ words (a ++ m :: b)) : m ∈ w ∨ w ∈ words a ∨ w ∈ words b := by
  induction hn : a.length + b.length using Nat.strong_induction_on generalizing a b with
  | _ n ih =>
    subst hn
    by_cases ha : ∃ e ∈ a, isBlank e = true
    · obtain ⟨e, hmem, he⟩ := ha
      obtain ⟨s, r, rfl⟩ := append_of_mem hmem
      rw [append_assoc, cons_append, words_append_cons he, mem_append] at hw
      rw [words_append_cons he, mem_append]
      rcases hw with hw | hw
      · exact .inr (.inl (.inl hw))
      · have hlength : r.length + b.length < (s ++ e :: r).length + b.length := by
          simp only [length_append, length_cons]
          omega
        rcases ih _ hlength hw rfl with hmark | hw | hw
        · exact .inl hmark
        · exact .inr (.inl (.inr hw))
        · exact .inr (.inr hw)
    · by_cases hb : ∃ e ∈ b, isBlank e = true
      · obtain ⟨e, hmem, he⟩ := hb
        obtain ⟨s, r, rfl⟩ := append_of_mem hmem
        rw [← cons_append, ← append_assoc, words_append_cons he, mem_append] at hw
        rw [words_append_cons he, mem_append]
        rcases hw with hw | hw
        · have hlength : a.length + s.length < a.length + (s ++ e :: r).length := by
            simp only [length_append, length_cons]
            omega
          rcases ih _ hlength hw rfl with hmark | hw | hw
          · exact .inl hmark
          · exact .inr (.inl hw)
          · exact .inr (.inr (.inl hw))
        · exact .inr (.inr (.inr hw))
      · -- Without blanks the text is one word.
        have hsolid : ∀ c ∈ a ++ m :: b, isBlank c = false := by
          simp only [not_exists, not_and, Bool.not_eq_true] at ha hb
          simpa [or_imp, forall_and, hm] using And.intro ha hb
        rw [words_solid (by simp) hsolid, mem_singleton] at hw
        rw [hw]
        exact .inl (by simp)

private theorem exists_word_gap (cs : List Char) :
    ∃ w gap rest, cs = w ++ (gap ++ rest) ∧ (∀ c ∈ w, isBlank c = false) ∧
      (∀ c ∈ gap, isBlank c) ∧ (∀ c ∈ rest.head?, isBlank c = false) ∧
      (gap = [] → rest = []) := by
  have hdrop (p : Char → Bool) (ds : List Char) : ∀ c ∈ (ds.dropWhile p).head?, p c = false := by
    intro c hc
    have hhead := head?_dropWhile_not p ds
    rw [Option.mem_def.mp hc] at hhead
    exact hhead
  have hafter := hdrop (!isBlank ·) cs
  generalize htail : cs.dropWhile (!isBlank ·) = tail at hafter
  refine ⟨cs.takeWhile (!isBlank ·), tail.takeWhile isBlank, tail.dropWhile isBlank, ?_,
    fun c hc => by simpa using mem_takeWhile_imp hc, fun _ => mem_takeWhile_imp,
    hdrop isBlank tail, fun hnil => ?_⟩
  · rw [takeWhile_append_dropWhile, ← htail, takeWhile_append_dropWhile]
  · cases tail with
    | nil => rfl
    | cons c tail =>
      have hblank : isBlank c := by simpa using hafter c rfl
      simp [hblank] at hnil

theorem exists_of_words_eq_cons {ws : List (List Char)} (hsolid : ∀ c ∈ cs.head?, isBlank c = false)
    (hwords : words cs = w :: ws) :
    ∃ gap rest, cs = w ++ (gap ++ rest) ∧ (∀ c ∈ gap, isBlank c) ∧
      (∀ c ∈ rest.head?, isBlank c = false) ∧ words rest = ws ∧ (ws ≠ [] → gap ≠ []) := by
  obtain ⟨first, gap, rest, rfl, hfirst, hgap, hrest, hend⟩ := exists_word_gap cs
  have hne : first ≠ [] := by
    rintro rfl
    cases gap with
    | nil =>
      rw [hend rfl] at hwords
      cases hwords
    | cons c gap =>
      have hblank := hgap c mem_cons_self
      rw [hsolid c rfl] at hblank
      cases hblank
  have htext : words (first ++ (gap ++ rest)) = first :: words rest := by
    by_cases hnil : gap = []
    · rw [hnil, hend hnil, append_nil, append_nil, words_solid hne hfirst]
      rfl
    · rw [words_append_gap hnil hgap, words_solid hne hfirst, singleton_append]
  obtain ⟨rfl, rfl⟩ := cons.inj (htext.symm.trans hwords)
  refine ⟨gap, rest, rfl, hgap, hrest, rfl, fun hmore hnil => hmore ?_⟩
  rw [hend hnil]
  rfl

/-! ### Occurrences of a word and places where a text is divided -/

variable {word cs a b : List Char} {sep : Char}

theorem occursIn_iff : occursIn word cs ↔ word <:+: cs := by
  induction cs with
  | nil => simp [occursIn]
  | cons c cs ih =>
    rw [occursIn, Bool.or_eq_true, ih, isPrefixOf_iff_prefix, infix_cons_iff]

theorem occursIn_eq_false_iff : occursIn word cs = false ↔ ¬ word <:+: cs := by
  rw [← occursIn_iff, Bool.not_eq_true]

theorem prefix_of_prefix_append_cons {rest : List Char} (hsep : sep ∉ word)
    (hword : word <+: a ++ sep :: rest) : word <+: a := by
  rcases prefix_or_prefix_of_prefix hword (prefix_append a (sep :: rest)) with h | h
  · exact h
  · obtain ⟨more, rfl⟩ := h
    have hmore := (prefix_append_right_inj a).mp hword
    cases more with
    | nil => simp
    | cons c more =>
      obtain ⟨rfl, -⟩ := cons_prefix_cons.mp hmore
      simp at hsep

theorem occursIn_cons (hsep : sep ∉ word) (hne : word ≠ []) (b : List Char) :
    occursIn word (sep :: b) = occursIn word b := by
  cases word with
  | nil => exact absurd rfl hne
  | cons c word =>
    have hc : c ≠ sep := fun h => hsep (by simp [h])
    simp [occursIn, isPrefixOf, hc]

theorem occursIn_append_cons (hsep : sep ∉ word) (hne : word ≠ []) (a b : List Char) :
    occursIn word (a ++ sep :: b) = (occursIn word a || occursIn word b) := by
  induction a with
  | nil =>
    have hnil : occursIn word [] = false := by simpa [occursIn] using hne
    rw [nil_append, occursIn_cons hsep hne, hnil, Bool.false_or]
  | cons c a ih =>
    have hsame : word.isPrefixOf (c :: (a ++ sep :: b)) = word.isPrefixOf (c :: a) := by
      rw [Bool.eq_iff_iff, isPrefixOf_iff_prefix, isPrefixOf_iff_prefix]
      constructor
      · exact prefix_of_prefix_append_cons (a := c :: a) hsep
      · exact fun h => h.trans (prefix_append (c :: a) (sep :: b))
    rw [cons_append, occursIn, occursIn, ih, hsame, Bool.or_assoc]

theorem occursIn_eq_any_words {part : List Char} (hne : part ≠ [])
    (hpart : ∀ c ∈ part, isBlank c = false) (cs : List Char) :
    occursIn part cs = (words cs).any (occursIn part) := by
  have hnil : occursIn part [] = false := by simpa [occursIn] using hne
  -- Blanks are taken off the text from the left, each with the word before it.
  induction hn : cs.length using Nat.strong_induction_on generalizing cs with
  | _ n ih =>
    by_cases hsolid : ∀ c ∈ cs, isBlank c = false
    · by_cases hempty : cs = []
      · rw [hempty, hnil]
        rfl
      · rw [words_solid hempty hsolid, any_cons, any_nil, Bool.or_false]
    · obtain ⟨c, hc, hblank⟩ : ∃ c ∈ cs, isBlank c := by simpa using hsolid
      obtain ⟨a, b, rfl⟩ := append_of_mem hc
      have hsep : c ∉ part := fun hmem => by simp [hpart c hmem] at hblank
      rw [length_append, length_cons] at hn
      rw [occursIn_append_cons hsep hne, words_append_cons hblank, any_append,
        ih _ (by omega) a rfl, ih _ (by omega) b rfl]

theorem mem_iff_exists_word {c : Char} (hc : isBlank c = false) :
    c ∈ cs ↔ ∃ w ∈ words cs, c ∈ w := by
  have hany := occursIn_eq_any_words (cons_ne_nil c []) (by simpa using hc) cs
  rw [Bool.eq_iff_iff, any_eq_true, occursIn_iff, singleton_infix_iff] at hany
  simpa only [occursIn_iff, singleton_infix_iff] using hany

theorem eq_nil_of_words_eq_nil (hsolid : ∀ c ∈ cs.head?, isBlank c = false) (hwords : words cs = []) :
    cs = [] := by
  cases cs with
  | nil => rfl
  | cons c cs =>
    have hmem := (mem_iff_exists_word (hsolid c rfl)).mp (mem_cons_self (l := cs))
    simp [hwords] at hmem

theorem eq_of_append_cons_eq {c d : List Char} {sep' : Char} (ha : sep' ∉ a) (hc : sep ∉ c)
    (hsame : a ++ sep :: b = c ++ sep' :: d) : a = c := by
  have hac : a <+: c := prefix_of_prefix_append_cons ha (hsame ▸ prefix_append a _)
  have hca : c <+: a := prefix_of_prefix_append_cons hc (hsame ▸ prefix_append c _)
  exact hac.eq_of_length (Nat.le_antisymm hac.length_le hca.length_le)

theorem splitLast?_append (hb : sep ∉ b) : splitLast? sep (a ++ sep :: b) = some (a, b) := by
  have hspan : (a ++ sep :: b).reverse.span (· != sep) = (b.reverse, sep :: a.reverse) := by
    have hall : ∀ c ∈ b.reverse, (c != sep) = true := by
      intro c hc
      simp only [bne_iff_ne]
      rintro rfl
      exact hb (mem_reverse.mp hc)
    rw [reverse_append, reverse_cons, append_assoc]
    exact span_append hall (by simp)
  rw [splitLast?, hspan]
  simp

theorem exists_last_of_mem (hmem : sep ∈ cs) : ∃ a b, cs = a ++ sep :: b ∧ sep ∉ b := by
  obtain ⟨u, v, hsame, hu⟩ := eq_append_cons_of_mem (mem_reverse.mpr hmem)
  refine ⟨v.reverse, u.reverse, ?_, by simpa using hu⟩
  rw [← reverse_reverse cs, hsame]
  simp

theorem splitLast?_eq_none (hsep : sep ∉ cs) : splitLast? sep cs = none := by
  have hdrop : cs.reverse.dropWhile (· != sep) = [] := by
    rw [← append_nil cs.reverse, dropWhile_append_of_pos, dropWhile_nil]
    intro c hc
    simp only [bne_iff_ne]
    rintro rfl
    exact hsep (mem_reverse.mp hc)
  simp [splitLast?, span_eq_takeWhile_dropWhile, hdrop]

theorem splitLast?_eq_some (hsplit : splitLast? sep cs = some (a, b)) :
    cs = a ++ sep :: b ∧ sep ∉ b := by
  by_cases hmem : sep ∈ cs
  · obtain ⟨u, v, hcs, hv⟩ := exists_last_of_mem hmem
    rw [hcs, splitLast?_append hv] at hsplit
    cases hsplit
    exact ⟨hcs, hv⟩
  · rw [splitLast?_eq_none hmem] at hsplit
    exact nomatch hsplit

theorem splitAt_go_append (ha : sep ∉ a) (rest piece : List Char) (done : List (List Char)) :
    splitAt.go sep (a ++ rest) piece done = splitAt.go sep rest (a.reverse ++ piece) done := by
  induction a generalizing piece with
  | nil => rfl
  | cons c a ih =>
    have hc : c ≠ sep := fun h => ha (h ▸ mem_cons_self)
    rw [cons_append, splitAt.go, if_neg hc, ih fun h => ha (mem_cons_of_mem _ h),
      reverse_cons, append_assoc, singleton_append]

theorem splitAt_go_done (sep : Char) (cs piece : List Char) (done : List (List Char)) :
    splitAt.go sep cs piece done = done.reverse ++ splitAt.go sep cs piece [] := by
  induction cs generalizing piece done with
  | nil => simp [splitAt.go]
  | cons c cs ih =>
    rw [splitAt.go, splitAt.go]
    split
    · rw [ih, ih _ [piece.reverse], reverse_cons, append_assoc]
      rfl
    · rw [ih]

theorem splitAt_of_not_mem (ha : sep ∉ a) : splitAt sep a = [a] := by
  have hgo := splitAt_go_append ha [] [] []
  rw [append_nil] at hgo
  rw [splitAt, hgo]
  simp [splitAt.go]

theorem splitAt_append_cons (ha : sep ∉ a) (rest : List Char) :
    splitAt sep (a ++ sep :: rest) = a :: splitAt sep rest := by
  rw [splitAt, splitAt_go_append ha, splitAt.go, if_pos rfl, splitAt_go_done]
  simp [splitAt]

theorem not_mem_of_mem_splitAt {piece : List Char} (hpiece : piece ∈ splitAt sep cs) :
    sep ∉ piece := by
  have hgo (front : List Char) (hfront : sep ∉ front) :
      ∀ q ∈ splitAt.go sep cs front [], sep ∉ q := by
    clear hpiece
    induction cs generalizing front with
    | nil => simpa [splitAt.go] using hfront
    | cons c cs ih =>
      intro q hq
      rw [splitAt.go] at hq
      split at hq
      · rw [splitAt_go_done] at hq
        rcases mem_append.mp hq with hfirst | hrest
        · simp only [reverse_singleton, mem_singleton] at hfirst
          rwa [hfirst, mem_reverse]
        · exact ih [] not_mem_nil q hrest
      · next hc => exact ih (c :: front) (by simp [Ne.symm hc, hfront]) q hq
  exact hgo [] not_mem_nil piece hpiece

theorem infix_join (sep : String) {s : String} {pieces : List String} (hs : s ∈ pieces) :
    s.toList <:+: (join sep pieces).toList := by
  induction pieces with
  | nil => cases hs
  | cons piece pieces ih =>
    cases pieces with
    | nil =>
      obtain rfl := mem_singleton.mp hs
      simp [join]
    | cons next pieces =>
      have hjoin : (join sep (piece :: next :: pieces)).toList =
          piece.toList ++ (sep.toList ++ (join sep (next :: pieces)).toList) := by
        simp [join]
      rw [hjoin]
      rcases mem_cons.mp hs with rfl | hs
      · exact (prefix_append _ _).isInfix
      · exact (ih hs).trans ((suffix_append _ _).trans (suffix_append _ _)).isInfix

theorem size_join_le {sep : String} {few more : List String} (hfew : few <+ more) :
    (join sep few).utf8ByteSize ≤ (join sep more).utf8ByteSize := by
  have hcons (s : String) {pieces : List String} (hpieces : pieces ≠ []) :
      (join sep (s :: pieces)).utf8ByteSize =
        s.utf8ByteSize + sep.utf8ByteSize + (join sep pieces).utf8ByteSize := by
    rw [join, String.intercalate_cons_of_ne_nil hpieces, String.utf8ByteSize_append,
      String.utf8ByteSize_append]
    rfl
  induction hfew with
  | slnil => rfl
  | @cons few more s hfew ih =>
    by_cases hmore : more = []
    · rw [hmore, sublist_nil] at hfew
      simp [hfew, join]
    · rw [hcons s hmore]
      omega
  | @cons_cons few more s hfew ih =>
    by_cases hmore : more = []
    · rw [hmore, sublist_nil] at hfew
      rw [hmore, hfew]
    · rw [hcons s hmore]
      by_cases hnone : few = []
      · simp [hnone, join]
        omega
      · rw [hcons s hnone]
        omega

theorem replaceAll_singleton (old new : Char) (cs : List Char) :
    replaceAll [old] [new] cs = cs.map fun c => if c = old then new else c := by
  have hgo (done : List Char) : replaceAll.go [old] [new] cs 0 done =
      done.reverse ++ cs.map fun c => if c = old then new else c := by
    induction cs generalizing done with
    | nil => simp [replaceAll.go]
    | cons c cs ih =>
      rw [replaceAll.go]
      by_cases hc : c = old
      · simp [hc, ih]
      · simp [hc, ih, Ne.symm hc]
  exact hgo []

end JarAtlas.Text
