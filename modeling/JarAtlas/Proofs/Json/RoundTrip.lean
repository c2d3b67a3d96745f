import JarAtlas.Json.Parser
import JarAtlas.Json.Printer
import JarAtlas.Proofs.Text.Words
import Mathlib.Data.List.Nodup

/-!
The fields of an object. Giving a field a value changes that field only, and adds it at the end if
it is not there.
-/

open List

namespace JarAtlas.Json

variable {name : String} {value : Json} {fields : List (String × Json)}

theorem assign_of_not_mem (hname : name ∉ fields.map Prod.fst) :
    assign name value fields = fields ++ [(name, value)] := by
  induction fields with
  | nil => rfl
  | cons field fields ih =>
    have hne : (field.1 == name) = false := by
      rw [beq_eq_false_iff_ne]
      rintro rfl
      exact hname mem_cons_self
    rw [assign, if_neg (by simp [hne]), ih fun hmem => hname (mem_cons_of_mem _ hmem)]
    rfl

theorem assign_of_nodup {done : List (String × Json)}
    (hnames : ((done ++ (name, value) :: fields).map Prod.fst).Nodup) :
    assign name value done = done ++ [(name, value)] := by
  apply assign_of_not_mem
  intro hmem
  rw [map_append, map_cons, nodup_append] at hnames
  exact hnames.2.2 name hmem name mem_cons_self rfl

theorem mem_assign {field : String × Json} (hfield : field ∈ assign name value fields) :
    field.2 = value ∨ field ∈ fields := by
  induction fields with
  | nil =>
    rw [assign, mem_singleton] at hfield
    exact .inl (hfield ▸ rfl)
  | cons first fields ih =>
    rw [assign] at hfield
    split at hfield
    · rcases mem_cons.mp hfield with rfl | hrest
      · exact .inl rfl
      · exact .inr (mem_cons_of_mem _ hrest)
    · rcases mem_cons.mp hfield with rfl | hrest
      · exact .inr mem_cons_self
      · exact (ih hrest).imp_right (mem_cons_of_mem _)

theorem map_fst_assign (name : String) (value : Json) (fields : List (String × Json)) :
    (assign name value fields).map Prod.fst =
      if name ∈ fields.map Prod.fst then fields.map Prod.fst
      else fields.map Prod.fst ++ [name] := by
  split
  · next hmem =>
    induction fields with
    | nil => cases hmem
    | cons field fields ih =>
      rw [assign]
      split
      · rfl
      · next hne =>
        rcases mem_cons.mp hmem with hfirst | hrest
        · simp [hfirst] at hne
        · rw [map_cons, ih hrest, map_cons]
  · next hmem =>
    rw [assign_of_not_mem hmem, map_append]
    rfl

theorem nodup_assign (hnames : (fields.map Prod.fst).Nodup) :
    ((assign name value fields).map Prod.fst).Nodup := by
  rw [map_fst_assign]
  split
  · exact hnames
  · next hmem =>
    refine nodup_append.mpr ⟨hnames, by simp, ?_⟩
    intro key hkey other hother heq
    rw [mem_singleton] at hother
    exact hmem (hother ▸ heq ▸ hkey)

theorem lookup_assign (key name : String) (value : Json) (fields : List (String × Json)) :
    lookup key (assign name value fields) =
      if key = name then some value else lookup key fields := by
  induction fields with
  | nil =>
    by_cases hkey : key = name
    · simp [assign, lookup, hkey]
    · simp [assign, lookup, hkey, Ne.symm hkey]
  | cons field fields ih =>
    rw [assign]
    by_cases hfirst : field.1 = name
    · by_cases hkey : key = name
      · simp [lookup, hfirst, hkey]
      · simp [lookup, hfirst, hkey, Ne.symm hkey]
    · rw [if_neg (by simpa using hfirst)]
      by_cases hkey : field.1 = key
      · have hne : key ≠ name := fun h => hfirst (hkey.trans h)
        simp [lookup, hkey, hne]
      · unfold lookup at ih ⊢
        rw [find?_cons_of_neg (by simpa using hkey), ih,
          find?_cons_of_neg (by simpa using hkey)]

theorem lookup_append_of_not_mem {front : List (String × Json)}
    (hname : name ∉ front.map Prod.fst) (fields : List (String × Json)) :
    lookup name (front ++ fields) = lookup name fields := by
  have hnone : (front.find? fun field => field.1 == name) = none := by
    rw [find?_eq_none]
    intro field hfield hsame
    exact hname (mem_map.mpr ⟨field, hfield, by simpa using hsame⟩)
  rw [lookup, lookup, find?_append, hnone, Option.none_or]

/-!
JSON text reads back. A value without doubles and without texts that cannot be written is read back
from its text in either layout, if it keeps to the limits of reading: whole numbers are not too
long, arrays and objects not nested too deeply, and no object has a name twice.
-/

variable {n level depth fuel : Nat} {rest blanks : List Char} {layout : Layout} {c : Char}
  {v value : Json}

/-- Nothing that could belong to a number comes next. -/
def EndsNumber (rest : List Char) : Prop :=
  ∀ c ∈ rest.head?, c.isDigit = false ∧ c ≠ '.' ∧ c ≠ 'e' ∧ c ≠ 'E'

theorem asciiDigits_toDigits (n : Nat) : asciiDigits (Nat.toDigits 10 n) = n := by
  have hvalue := Nat.ofDigitChars_toDigits (b := 10) (n := n) (by decide) (by decide)
  rw [Nat.ofDigitChars_eq_foldl] at hvalue
  rw [asciiDigits, digitsValue, foldl_map]
  exact hvalue

theorem toDigits_ne_zero_cons (hn : n ≠ 0) (ds : List Char) : Nat.toDigits 10 n ≠ '0' :: ds := by
  induction n using Nat.strongRecOn generalizing ds with
  | ind n ih =>
    rw [Nat.toDigits_eq_if (by decide)]
    split
    · next hsmall =>
      intro hzero
      have hchar := (cons.inj hzero).1
      rw [Nat.digitChar_eq_zero] at hchar
      exact hn hchar
    · next hlarge =>
      intro hzero
      rcases hfront : Nat.toDigits 10 (n / 10) with _ | ⟨d, front⟩
      · exact Nat.toDigits_ne_nil hfront
      · rw [hfront] at hzero
        obtain rfl := (cons.inj hzero).1
        exact ih (n / 10) (by omega) (by omega) front hfront

theorem readPower_of_endsNumber (hrest : EndsNumber rest) : readPower rest = (0, rest, false) := by
  cases rest with
  | nil => rfl
  | cons c rest =>
    obtain ⟨-, -, he, hE⟩ := hrest c rfl
    simp [readPower, he, hE]

theorem readNumber_toDigits (hn : (Nat.toDigits 10 n).length ≤ maxDigits) (hrest : EndsNumber rest)
    (negative : Bool) :
    readNumber negative (Nat.toDigits 10 n ++ rest) =
      .ok (.int (if negative then -Int.ofNat n else Int.ofNat n), rest) := by
  have hspan : (Nat.toDigits 10 n ++ rest).span Char.isDigit = (Nat.toDigits 10 n, rest) := by
    apply Text.span_append
    · intro d hd
      exact Nat.isDigit_of_mem_toDigits (by decide) (by decide) hd
    · intro c hc
      exact (hrest c hc).1
  have hfraction : ∀ tail, rest ≠ '.' :: tail := by
    rintro tail rfl
    exact (hrest '.' rfl).2.1 rfl
  have hdone : (if maxDigits < (Nat.toDigits 10 n).length then Except.error ReadError.tooManyDigits
      else .ok (int (if negative then -Int.ofNat (asciiDigits (Nat.toDigits 10 n))
        else Int.ofNat (asciiDigits (Nat.toDigits 10 n))), rest)) =
      .ok (.int (if negative then -Int.ofNat n else Int.ofNat n), rest) := by
    rw [if_neg (Nat.not_lt.mpr hn), asciiDigits_toDigits]
  by_cases hzero : n = 0
  · subst hzero
    rw [Nat.toDigits_zero] at hdone ⊢
    rw [← hdone]
    show readNumber negative ('0' :: rest) = _
    unfold readNumber
    simp only [readPower_of_endsNumber hrest]
    simp
  · unfold readNumber
    split
    next whole tail hsplit =>
      have hwhole : (Nat.toDigits 10 n, rest) = (whole, tail) := by
        rw [← hsplit, ← hspan]
        split
        · next tail hdigits =>
          rcases hfront : Nat.toDigits 10 n with _ | ⟨d, ds⟩
          · exact absurd hfront Nat.toDigits_ne_nil
          · rw [hfront] at hdigits
            obtain rfl := (cons.inj hdigits).1
            exact absurd hfront (toDigits_ne_zero_cons hzero ds)
        · rfl
      cases hwhole
      have hsome : (Nat.toDigits 10 n).isEmpty = false := by
        simp
      simp only [hsome, readPower_of_endsNumber hrest]
      simpa using hdone

theorem hexFour?_hexDigit : ∀ n < 32,
    hexFour? '0' '0' (hexDigit (n / 16)) (hexDigit (n % 16)) = some n := by
  decide

theorem Draft.takeUnit_of_lt (d : Draft) (hn : n < 32) : d.takeUnit n = d.push (Char.ofNat n) := by
  have hlow : isLowUnit n = false := by
    simp only [isLowUnit, Bool.and_eq_false_iff, decide_eq_false_iff_not]
    omega
  have hhigh : isHighUnit n = false := by
    simp only [isHighUnit, Bool.and_eq_false_iff, decide_eq_false_iff_not]
    omega
  simp [takeUnit, hlow, hhigh]

theorem readString_escapeChar (d : Draft) (c : Char) (rest : List Char) :
    readString d (escapeChar c ++ rest) = readString (d.push c) rest := by
  unfold escapeChar
  iterate 7
    split
    · next hc =>
      rw [beq_iff_eq.mp hc]
      rfl
  split
  · next hsmall =>
    show readString d ('\\' :: 'u' :: '0' :: '0' :: _ :: _ :: rest) = _
    rw [readString, hexFour?_hexDigit _ hsmall]
    simp only
    rw [d.takeUnit_of_lt hsmall, Char.ofNat_toNat]
  · next hquote hback _ _ _ _ _ hlarge =>
    have hquote : c ≠ '"' := fun heq => hquote (beq_iff_eq.mpr heq)
    have hback : c ≠ '\\' := fun heq => hback (beq_iff_eq.mpr heq)
    have hplain : ¬ (decide (c.toNat < 32) || c == '\\') = true := by
      rw [Bool.or_eq_true, decide_eq_true_iff, beq_iff_eq]
      exact not_or_intro hlarge hback
    rw [singleton_append, readString, if_neg hplain]
    all_goals
      intros
      contradiction

theorem readString_quoted (cs rest : List Char) :
    readString {} (cs.flatMap escapeChar ++ '"' :: rest) =
      some ((String.ofList cs, false), rest) := by
  have hgo (done : List Char) :
      readString { done := done } (cs.flatMap escapeChar ++ '"' :: rest) =
        some ((String.ofList (done.reverse ++ cs), false), rest) := by
    induction cs generalizing done with
    | nil =>
      rw [append_nil]
      rfl
    | cons c cs ih =>
      rw [flatMap_cons, append_assoc, readString_escapeChar]
      show readString { done := c :: done } _ = _
      rw [ih, reverse_cons, append_assoc, singleton_append]
  exact hgo []

theorem skipGaps_append {cs : List Char} (hblanks : ∀ c ∈ blanks, isGap c)
    (hcs : ∀ c ∈ cs.head?, isGap c = false) : skipGaps (blanks ++ cs) = cs := by
  rw [skipGaps, dropWhile_append_of_pos hblanks]
  cases cs with
  | nil => rfl
  | cons c cs => simp [hcs c rfl]

theorem isGap_of_mem_gap : ∀ c ∈ layout.gap level, isGap c := by
  intro c hc
  cases layout with
  | line => cases hc
  | indented =>
    rcases mem_cons.mp hc with rfl | hc
    · rfl
    · rw [eq_of_mem_replicate hc]
      rfl

theorem skipGaps_close (layout : Layout) (level : Nat) (hc : isGap c = false) (rest : List Char) :
    skipGaps (layout.gap level ++ c :: rest) = c :: rest :=
  skipGaps_append isGap_of_mem_gap (by simp [hc])

theorem skipGaps_quote (hblanks : ∀ c ∈ blanks, isGap c) (cs tail : List Char) :
    skipGaps (blanks ++ (quote cs ++ tail)) = quote cs ++ tail :=
  skipGaps_append hblanks (by simp [quote, isGap])

theorem exists_comma_eq (layout : Layout) (level : Nat) :
    ∃ blanks, layout.comma level = ',' :: blanks ∧ ∀ c ∈ blanks, isGap c := by
  cases layout with
  | line => exact ⟨[' '], rfl, by decide⟩
  | indented => exact ⟨_, rfl, isGap_of_mem_gap⟩

theorem length_comma_pos (layout : Layout) (level : Nat) : 0 < (layout.comma level).length := by
  obtain ⟨blanks, hcomma, -⟩ := exists_comma_eq layout level
  rw [hcomma]
  exact Nat.succ_pos _

theorem endsNumber_comma (layout : Layout) (level : Nat) (rest : List Char) :
    EndsNumber (layout.comma level ++ rest) := by
  obtain ⟨blanks, hcomma, -⟩ := exists_comma_eq layout level
  intro c hc
  rw [hcomma] at hc
  cases hc
  decide

theorem endsNumber_gap (layout : Layout) (level : Nat) (rest : List Char)
    (hc : c = ']' ∨ c = '\x7d') : EndsNumber (layout.gap level ++ c :: rest) := by
  intro first hfirst
  cases layout with
  | line =>
    obtain rfl : c = first := Option.some.inj hfirst
    rcases hc with rfl | rfl <;> decide
  | indented =>
    obtain rfl : '\n' = first := Option.some.inj hfirst
    decide

mutual

/-- Whether a value keeps to the limits of reading when `depth` arrays and objects may be open. -/
def isBounded (depth : Nat) : Json → Bool
  | int n => decide ((Nat.toDigits 10 n.natAbs).length ≤ maxDigits)
  | misnamed v => isBounded depth v
  | arr items => decide (0 < depth) && areBounded (depth - 1) items
  | obj fields => decide (0 < depth) && decide (fields.map Prod.fst).Nodup &&
      haveBounded (depth - 1) fields
  | _ => true

def areBounded (depth : Nat) : List Json → Bool
  | [] => true
  | item :: items => isBounded depth item && areBounded depth items

def haveBounded (depth : Nat) : List (String × Json) → Bool
  | [] => true
  | (_, value) :: fields => isBounded depth value && haveBounded depth fields

end

mutual

/-- Whether all values in a value that are neither arrays nor objects pass a check. -/
def all (check : Json → Bool) : Json → Bool
  | misnamed v => check (misnamed v) && all check v
  | arr items => allItems check items
  | obj fields => allFields check fields
  | v => check v

def allItems (check : Json → Bool) : List Json → Bool
  | [] => true
  | item :: items => all check item && allItems check items

def allFields (check : Json → Bool) : List (String × Json) → Bool
  | [] => true
  | (_, value) :: fields => all check value && allFields check fields

end

/-- Whether a value is neither a double nor a text that cannot be written, nor has a name that
cannot be. -/
def isPlain : Json → Bool
  | double _ | torn _ | misnamed _ => false
  | _ => true

/-- Induction on values: those of an array or object come before it. -/
theorem inductOn {P : Json → Prop} (v : Json) (null : P .null) (bool : ∀ b, P (.bool b))
    (int : ∀ n, P (.int n)) (double : ∀ d, P (.double d)) (str : ∀ s, P (.str s))
    (torn : ∀ s, P (.torn s)) (misnamed : ∀ v, P (.misnamed v))
    (arr : ∀ items, (∀ item ∈ items, P item) → P (.arr items))
    (obj : ∀ fields, (∀ field ∈ fields, P field.2) → P (.obj fields)) : P v :=
  @rec P (fun items => ∀ item ∈ items, P item) (fun fields => ∀ field ∈ fields, P field.2)
    (fun field => P field.2) null bool int double str torn (fun v _ => misnamed v) arr obj
    (forall_mem_nil _) (fun _ _ hitem hitems => forall_mem_cons.mpr ⟨hitem, hitems⟩)
    (forall_mem_nil _) (fun _ _ hfield hfields => forall_mem_cons.mpr ⟨hfield, hfields⟩)
    (fun _ _ hvalue => hvalue) v

section Members

variable {items : List Json} {fields : List (String × Json)} {check : Json → Bool}

theorem areBounded_iff :
    areBounded depth items ↔ ∀ item ∈ items, isBounded depth item := by
  induction items with
  | nil => simp [areBounded]
  | cons item items ih => rw [areBounded, Bool.and_eq_true, ih, forall_mem_cons]

theorem haveBounded_iff :
    haveBounded depth fields ↔ ∀ field ∈ fields, isBounded depth field.2 := by
  induction fields with
  | nil => simp [haveBounded]
  | cons field fields ih => rw [haveBounded, Bool.and_eq_true, ih, forall_mem_cons]

theorem isBounded_arr_iff :
    isBounded depth (.arr items) ↔
      0 < depth ∧ ∀ item ∈ items, isBounded (depth - 1) item := by
  rw [isBounded, Bool.and_eq_true, decide_eq_true_eq, areBounded_iff]

theorem isBounded_obj_iff :
    isBounded depth (.obj fields) ↔ 0 < depth ∧ (fields.map Prod.fst).Nodup ∧
      ∀ field ∈ fields, isBounded (depth - 1) field.2 := by
  rw [isBounded, Bool.and_eq_true, Bool.and_eq_true, decide_eq_true_eq, decide_eq_true_eq,
    haveBounded_iff, and_assoc]

theorem all_arr_iff : all check (.arr items) ↔ ∀ item ∈ items, all check item := by
  rw [all]
  induction items with
  | nil => simp [allItems]
  | cons item items ih => rw [allItems, Bool.and_eq_true, ih, forall_mem_cons]

theorem all_obj_iff : all check (.obj fields) ↔ ∀ field ∈ fields, all check field.2 := by
  rw [all]
  induction fields with
  | nil => simp [allFields]
  | cons field fields ih => rw [allFields, Bool.and_eq_true, ih, forall_mem_cons]

end Members

theorem not_maxDigits_lt {n : Int} (hbound : isBounded depth (.int n)) :
    ¬ maxDigits < (Nat.toDigits 10 n.natAbs).length :=
  Nat.not_lt.mpr (of_decide_eq_true hbound)

theorem barrier_of_plain (hbound : isBounded depth v) (hplain : all isPlain v) :
    barrier v = [] := by
  cases v with
  | int n =>
    rw [barrier, writeError?, if_neg (not_maxDigits_lt hbound)]
    rfl
  | torn s => cases hplain
  | null | bool _ | double _ | str _ | misnamed _ | arr _ | obj _ => rfl

theorem nameBarrier_of_plain (hplain : all isPlain v) : nameBarrier v = [] := by
  cases v with
  | misnamed v => cases hplain
  | null | bool _ | int _ | double _ | str _ | torn _ | arr _ | obj _ => rfl

theorem isDigit_ne (hc : c.isDigit) :
    isGap c = false ∧ c ≠ 'n' ∧ c ≠ 't' ∧ c ≠ 'f' ∧ c ≠ 'N' ∧ c ≠ 'I' ∧ c ≠ '-' ∧ c ≠ '"' ∧
      c ≠ '[' ∧ c ≠ ']' ∧ c ≠ '\x7b' ∧ c ≠ '\x7d' := by
  have hgap : isGap c = false := by
    rw [← Bool.not_eq_true]
    intro hgap
    simp only [isGap, Bool.or_eq_true, beq_iff_eq] at hgap
    rcases hgap with ((rfl | rfl) | rfl) | rfl <;> cases hc
  refine ⟨hgap, ?_, ?_, ?_, ?_, ?_, ?_, ?_, ?_, ?_, ?_, ?_⟩
  all_goals
    rintro rfl
    cases hc

theorem exists_intChars_cons (n : Int) :
    ∃ c cs, intChars n = c :: cs ∧ isGap c = false ∧ c ≠ '"' ∧ c ≠ '[' ∧ c ≠ ']' ∧ c ≠ '\x7b' := by
  rw [intChars]
  split
  · exact ⟨_, _, rfl, rfl, by decide⟩
  · rcases hdigits : Nat.toDigits 10 n.natAbs with _ | ⟨d, ds⟩
    · exact absurd hdigits Nat.toDigits_ne_nil
    · have hd : d.isDigit := Nat.isDigit_of_mem_toDigits (by decide) (by decide)
        (hdigits ▸ mem_cons_self)
      obtain ⟨hgap, -, -, -, -, -, -, hquote, hopen, hclose, hbrace, -⟩ := isDigit_ne hd
      exact ⟨d, ds, rfl, hgap, hquote, hopen, hclose, hbrace⟩

theorem barrier_cases (v : Json) : barrier v = [] ∨ ∃ e : WriteError, barrier v = [e.mark] := by
  rw [barrier]
  cases v.writeError? with
  | none => exact .inl rfl
  | some e => exact .inr ⟨e, rfl⟩

section Render

variable (layout : Layout) (level : Nat)

theorem render_int (n : Int) : render layout level (.int n) =
    if maxDigits < (Nat.toDigits 10 n.natAbs).length then [WriteError.tooManyDigits.mark]
    else intChars n :=
  rfl

theorem render_str (s : String) : render layout level (.str s) = quote s.toList :=
  rfl

theorem render_arr_cons (item : Json) (items : List Json) :
    render layout level (.arr (item :: items)) =
      barrier item ++ ('[' :: (layout.gap (level + 1) ++ (render layout (level + 1) item ++
        (renderItems layout (level + 1) items ++ (layout.gap level ++ [']']))))) :=
  rfl

theorem render_obj_cons (name : String) (value : Json) (fields : List (String × Json)) :
    render layout level (.obj ((name, value) :: fields)) =
      '\x7b' :: (layout.gap (level + 1) ++ (nameBarrier value ++ (quote name.toList ++
        (':' :: ' ' :: (render layout (level + 1) value ++
          (renderFields layout (level + 1) fields ++ (layout.gap level ++ ['\x7d']))))))) :=
  rfl

end Render

theorem exists_first (layout : Layout) (level : Nat) (hv : ∀ d, v ≠ .double d) :
    ∃ c cs, render layout level v = c :: cs ∧ isGap c = false ∧ c ≠ ']' := by
  have hmark (e : WriteError) : isGap e.mark = false ∧ e.mark ≠ ']' := by cases e <;> decide
  cases v with
  | null => exact ⟨_, _, rfl, rfl, by decide⟩
  | bool b => cases b <;> exact ⟨_, _, rfl, rfl, by decide⟩
  | int n =>
    rw [render_int]
    split
    · exact ⟨_, _, rfl, hmark _⟩
    · obtain ⟨c, cs, hchars, hgap, -, -, hclose, -⟩ := exists_intChars_cons n
      exact ⟨c, cs, hchars, hgap, hclose⟩
  | double d => exact absurd rfl (hv d)
  | str s => exact ⟨_, _, rfl, rfl, by decide⟩
  | torn s => exact ⟨_, _, rfl, hmark .tornText⟩
  | misnamed v => exact ⟨_, _, rfl, hmark .tornText⟩
  | arr items =>
    cases items with
    | nil => exact ⟨_, _, rfl, rfl, by decide⟩
    | cons item items =>
      rw [render_arr_cons]
      rcases barrier_cases item with hnone | ⟨e, hsome⟩
      · rw [hnone]
        exact ⟨_, _, rfl, rfl, by decide⟩
      · rw [hsome]
        exact ⟨_, _, rfl, hmark e⟩
  | obj fields =>
    rcases fields with _ | ⟨⟨name, value⟩, fields⟩
    · exact ⟨_, _, rfl, rfl, by decide⟩
    · exact ⟨_, _, render_obj_cons .., rfl, by decide⟩

theorem readScalar_intChars {n : Int} (hn : isBounded 0 (.int n)) (hrest : EndsNumber rest) :
    readScalar (intChars n ++ rest) = .ok (.int n, rest) := by
  have hlength : (Nat.toDigits 10 n.natAbs).length ≤ maxDigits := of_decide_eq_true hn
  rcases hdigits : Nat.toDigits 10 n.natAbs with _ | ⟨d, ds⟩
  · exact absurd hdigits Nat.toDigits_ne_nil
  · have hd : d.isDigit := Nat.isDigit_of_mem_toDigits (by decide) (by decide)
      (hdigits ▸ mem_cons_self)
    obtain ⟨-, hn', ht, hf, hN, hI, hminus, -⟩ := isDigit_ne hd
    have hread (negative : Bool) := readNumber_toDigits hlength hrest negative
    simp only [hdigits] at hread
    rw [intChars, hdigits]
    split
    · next hneg =>
      have hvalue : -Int.ofNat n.natAbs = n := by
        simp only [Int.ofNat_eq_natCast]
        omega
      rw [cons_append, readScalar, hread true, if_pos rfl, hvalue]
      intro tail htail
      exact hI (cons.inj htail).1
    · next hpos =>
      have hvalue : Int.ofNat n.natAbs = n := by
        simp only [Int.ofNat_eq_natCast]
        omega
      rw [readScalar, hread false, if_neg (by decide), hvalue]
      all_goals
        intro tail htail
        have hfirst := (cons.inj htail).1
        contradiction

end JarAtlas.Json
