import JarAtlas.Java.Extract
import JarAtlas.Proofs.Text.Words

/-!
What the readers of small pieces accept, and what the search for all matches finds. The search is
described from left to right: a stretch at whose characters nothing is recognised is passed over,
and a match is followed by the matches in what comes after it.
-/

open List Option

namespace JarAtlas.Java

open Text

variable {cs rest gap found : List Char} {p : Char → Bool}

variable {α : Type}

theorem after?_append (word rest : List Char) : after? word (word ++ rest) = some rest := by
  simp [after?]

theorem after?_cons (c : Char) (rest : List Char) : after? [c] (c :: rest) = some rest :=
  after?_append [c] rest

theorem after?_eq_some {word : List Char} (hafter : after? word cs = some rest) :
    cs = word ++ rest := by
  unfold after? at hafter
  split at hafter
  · next hstart =>
    obtain ⟨tail, rfl⟩ := isPrefixOf_iff_prefix.mp hstart
    simpa using hafter
  · simp at hafter

theorem afterBlanks?_eq_none (hsolid : ∀ c ∈ cs.head?, isBlank c = false) :
    afterBlanks? cs = none := by
  cases cs with
  | nil => rfl
  | cons c cs =>
    have hc : isBlank c = false := hsolid c rfl
    simp [afterBlanks?, hc]

theorem dropWhile_isBlank_gap (hgap : ∀ c ∈ gap, isBlank c)
    (hsolid : ∀ c ∈ rest.head?, isBlank c = false) :
    (gap ++ rest).dropWhile isBlank = rest := by
  rw [dropWhile_append_of_pos hgap]
  cases rest with
  | nil => rfl
  | cons c rest => rw [dropWhile_cons_of_neg (by simp [hsolid c rfl])]

theorem afterBlanks?_gap (hne : gap ≠ []) (hgap : ∀ c ∈ gap, isBlank c)
    (hsolid : ∀ c ∈ rest.head?, isBlank c = false) :
    afterBlanks? (gap ++ rest) = some rest := by
  cases gap with
  | nil => exact absurd rfl hne
  | cons c gap =>
    obtain ⟨hc, hgap⟩ := forall_mem_cons.mp hgap
    simp only [cons_append, afterBlanks?, hc, if_true, dropWhile_isBlank_gap hgap hsolid]

theorem afterBlanks?_space (hsolid : ∀ c ∈ cs.head?, isBlank c = false) :
    afterBlanks? (' ' :: cs) = some cs :=
  afterBlanks?_gap (cons_ne_nil _ _) (by decide : ∀ c ∈ [' '], isBlank c) hsolid

theorem afterBlanks?_eq_some (hafter : afterBlanks? cs = some rest) :
    ∃ gap, gap ≠ [] ∧ cs = gap ++ rest ∧ (∀ c ∈ gap, isBlank c) := by
  cases cs with
  | nil => cases hafter
  | cons c cs =>
    simp only [afterBlanks?] at hafter
    split at hafter
    · next hc =>
      cases hafter
      refine ⟨c :: cs.takeWhile isBlank, cons_ne_nil _ _, ?_, ?_⟩
      · rw [cons_append, takeWhile_append_dropWhile]
      · exact forall_mem_cons.mpr ⟨hc, fun _ => mem_takeWhile_imp⟩
    · cases hafter

theorem run?_append (hne : found ≠ []) (hall : ∀ c ∈ found, p c)
    (hstop : ∀ c ∈ rest.head?, p c = false) : run? p (found ++ rest) = some (found, rest) := by
  cases found with
  | nil => exact absurd rfl hne
  | cons c found => simp only [run?, span_append hall hstop]

theorem run?_gap (hp : ∀ c, isBlank c → p c = false) (hfound : found ≠ [])
    (hall : ∀ c ∈ found, p c) (hne : gap ≠ []) (hgap : ∀ c ∈ gap, isBlank c)
    (rest : List Char) : run? p (found ++ (gap ++ rest)) = some (found, gap ++ rest) := by
  obtain ⟨d, gap, rfl⟩ := exists_cons_of_ne_nil hne
  refine run?_append hfound hall fun c hc => ?_
  obtain rfl : d = c := by simpa using hc
  exact hp d (hgap d mem_cons_self)

theorem run?_ne_nil (hrun : run? p cs = some (found, rest)) : found ≠ [] := by
  simp only [run?, span_eq_takeWhile_dropWhile] at hrun
  split at hrun
  · simp at hrun
  · next hsome =>
    cases hrun
    simpa using hsome

theorem run?_eq_some (hrun : run? p cs = some (found, rest)) :
    cs = found ++ rest ∧ ∀ c ∈ found, p c := by
  simp only [run?, span_eq_takeWhile_dropWhile] at hrun
  split at hrun
  · simp at hrun
  · cases hrun
    exact ⟨(takeWhile_append_dropWhile).symm, fun c hc => mem_takeWhile_imp hc⟩

/-- The matches of a recogniser in a text that starts at a position. -/
def scanFrom (recognise : Recogniser α) (position : Nat) (cs : List Char) : List (Match α) :=
  scan.go recognise position 0 [] cs

theorem scan_eq_scanFrom (recognise : Recogniser α) (cs : List Char) :
    scan recognise cs = scanFrom recognise 0 cs :=
  rfl

section

variable {recognise : Recogniser α}

/-- Nothing is recognised at the characters of the stretch `t` where `rest` comes after it. -/
def Quiet (recognise : Recogniser α) (t rest : List Char) : Prop :=
  ∀ b, b <:+ t → b ≠ [] → recognise (b ++ rest) = none

namespace Quiet

variable {t : List Char}

theorem nil (rest : List Char) : Quiet recognise [] rest :=
  fun _ hb hne => absurd (suffix_nil.mp hb) hne

theorem cons {c : Char} {rest : List Char} (hhere : recognise (c :: (t ++ rest)) = none)
    (hlater : Quiet recognise t rest) : Quiet recognise (c :: t) rest := by
  intro b hb hne
  rcases suffix_cons_iff.mp hb with rfl | hb
  · exact hhere
  · exact hlater b hb hne

theorem append {u rest : List Char} (hfirst : Quiet recognise t (u ++ rest))
    (hsecond : Quiet recognise u rest) : Quiet recognise (t ++ u) rest := by
  induction t with
  | nil => exact hsecond
  | cons c t ih =>
    have hhere := hfirst (c :: t) (suffix_refl _) (cons_ne_nil _ _)
    refine .cons (by simpa using hhere) (ih fun b hb => ?_)
    exact hfirst b (hb.trans (suffix_cons c t))

theorem of_forall (hall : ∀ c ∈ t, ∀ cs, recognise (c :: cs) = none) (rest : List Char) :
    Quiet recognise t rest := by
  intro b hb hne
  cases b with
  | nil => exact absurd rfl hne
  | cons c b => exact hall c (hb.mem mem_cons_self) (b ++ rest)

end Quiet

private theorem go_found (position skip : Nat) (found : List (Match α)) (cs : List Char) :
    scan.go recognise position skip found cs =
      found.reverse ++ scan.go recognise position skip [] cs := by
  induction cs generalizing position skip found with
  | nil => simp [scan.go]
  | cons c cs ih =>
    cases skip with
    | succ skip =>
      simp only [scan.go]
      exact ih (position + 1) skip found
    | zero =>
      simp only [scan.go]
      split
      · exact ih (position + 1) 0 found
      · rw [ih _ _ (_ :: found), ih _ _ [_]]
        simp

private theorem go_skip (position : Nat) (t rest : List Char) :
    scan.go recognise position t.length [] (t ++ rest) =
      scanFrom recognise (position + t.length) rest := by
  induction t generalizing position with
  | nil => rfl
  | cons c t ih =>
    simp only [length_cons, cons_append, scan.go]
    rw [ih (position + 1), Nat.add_assoc, Nat.add_comm 1]

theorem scanFrom_cons {c : Char} (hnone : recognise (c :: cs) = none) (position : Nat) :
    scanFrom recognise position (c :: cs) = scanFrom recognise (position + 1) cs := by
  simp only [scanFrom, scan.go, hnone]

variable {t : List Char} {value : α}

theorem Quiet.scanFrom_append (hquiet : Quiet recognise t rest) (position : Nat) :
    scanFrom recognise position (t ++ rest) = scanFrom recognise (position + t.length) rest := by
  induction t generalizing position with
  | nil => rfl
  | cons c t ih =>
    have hhere : recognise (c :: (t ++ rest)) = none :=
      hquiet (c :: t) (suffix_refl _) (cons_ne_nil _ _)
    have hlater := ih (fun b hb => hquiet b (hb.trans (suffix_cons c t))) (position + 1)
    rw [cons_append, scanFrom_cons hhere, hlater, length_cons, Nat.add_assoc, Nat.add_comm 1]

theorem scanFrom_match (hne : t ≠ []) (hmatch : recognise (t ++ rest) = some (value, rest))
    (position : Nat) :
    scanFrom recognise position (t ++ rest) =
      ⟨position, position + t.length, t, value⟩ ::
        scanFrom recognise (position + t.length) rest := by
  cases t with
  | nil => exact absurd rfl hne
  | cons c t =>
    have hsize : (t ++ rest).length + 1 - rest.length = t.length + 1 := by
      rw [length_append]
      omega
    rw [cons_append] at hmatch
    rw [scanFrom, cons_append]
    simp only [scan.go, hmatch, hsize, Nat.add_sub_cancel]
    rw [go_found, go_skip]
    simp [Nat.add_assoc, Nat.add_comm 1]

theorem scanFirst?_of_front (hne : cs ≠ []) (hread : recognise cs = some (value, rest)) :
    scanFirst? recognise cs = some value := by
  cases cs with
  | nil => exact absurd rfl hne
  | cons c cs => rw [scanFirst?, hread]

theorem exists_of_scanFirst? (hfirst : scanFirst? recognise cs = some value) :
    ∃ front rest, recognise front = some (value, rest) := by
  induction cs with
  | nil => simp [scanFirst?] at hfirst
  | cons c cs ih =>
    simp only [scanFirst?] at hfirst
    split at hfirst
    · next value' rest hvalue =>
      cases hfirst
      exact ⟨_, _, hvalue⟩
    · exact ih hfirst

end

/-! ### Where matches lie -/

/-- The match starts before a position and reaches beyond it. -/
def Match.Crosses (m : Match α) (position : Nat) : Prop :=
  m.start < position ∧ position < m.stop

instance (m : Match α) (position : Nat) : Decidable (m.Crosses position) :=
  inferInstanceAs (Decidable (_ ∧ _))

/-- A match of a recogniser in a text that starts at a position: what it covers stands at its place
in the text, and is recognised there. -/
def IsMatch (recognise : Recogniser α) (position : Nat) (cs : List Char) (m : Match α) : Prop :=
  ∃ front rest, cs = front ++ (m.covered ++ rest) ∧ m.covered ≠ [] ∧
    recognise (m.covered ++ rest) = some (m.value, rest) ∧
    m.start = position + front.length ∧ m.stop = m.start + m.covered.length

/-- What is recognised ends with a certain character. -/
def EndsWith (d : Char) (recognise : Recogniser α) : Prop :=
  ∀ cs value rest, recognise cs = some (value, rest) → ∃ t, cs = t ++ d :: rest

/-- The way of a search through a text: a character at which nothing is recognised is passed, and
after a match the search goes on behind it. -/
inductive Scans (recognise : Recogniser α) : Nat → List Char → List (Match α) → Prop where
  | done (position : Nat) : Scans recognise position [] []
  | pass {position : Nat} {c : Char} {cs : List Char} {ms : List (Match α)}
      (hnone : recognise (c :: cs) = none) (hrest : Scans recognise (position + 1) cs ms) :
      Scans recognise position (c :: cs) ms
  | found {position : Nat} {t rest : List Char} {value : α} {ms : List (Match α)} (hne : t ≠ [])
      (hread : recognise (t ++ rest) = some (value, rest))
      (hrest : Scans recognise (position + t.length) rest ms) :
      Scans recognise position (t ++ rest) (⟨position, position + t.length, t, value⟩ :: ms)

section

variable {recognise : Recogniser α} {position : Nat} {cs : List Char} {ms : List (Match α)}
  {m : Match α}

theorem scans_scanFrom {d : Char} (hends : EndsWith d recognise) (position : Nat)
    (cs : List Char) : Scans recognise position cs (scanFrom recognise position cs) := by
  -- The search goes on behind what was recognised, so the induction is on the length of the text.
  induction hn : cs.length using Nat.strong_induction_on generalizing position cs with
  | _ n ih =>
    subst hn
    cases cs with
    | nil => exact .done position
    | cons c cs =>
      cases hread : recognise (c :: cs) with
      | none =>
        rw [scanFrom_cons hread]
        exact .pass hread (ih _ (Nat.lt_succ_self _) _ _ rfl)
      | some found =>
        obtain ⟨value, rest⟩ := found
        obtain ⟨t, ht⟩ := hends _ _ _ hread
        have htext : c :: cs = (t ++ [d]) ++ rest := by simp [ht]
        have hne : t ++ [d] ≠ [] := by simp
        have hshorter : rest.length < (c :: cs).length := by
          rw [htext, length_append, length_append, length_singleton]
          omega
        rw [htext] at hread ⊢
        rw [scanFrom_match hne hread]
        exact .found hne hread (ih _ hshorter _ _ rfl)

namespace IsMatch

variable {t : List Char}

theorem le_start (hm : IsMatch recognise position cs m) : position ≤ m.start := by
  obtain ⟨front, rest, -, -, -, hstart, -⟩ := hm
  omega

theorem stop_le (hm : IsMatch recognise position cs m) : m.stop ≤ position + cs.length := by
  obtain ⟨front, rest, rfl, -, -, hstart, hstop⟩ := hm
  simp only [length_append]
  omega

theorem start_lt_stop (hm : IsMatch recognise position cs m) : m.start < m.stop := by
  obtain ⟨front, rest, -, hne, -, -, hstop⟩ := hm
  have hlength := length_pos_iff.mpr hne
  omega

theorem append_left (hm : IsMatch recognise (position + t.length) cs m) :
    IsMatch recognise position (t ++ cs) m := by
  obtain ⟨front, rest, rfl, hne, hread, hstart, hstop⟩ := hm
  refine ⟨t ++ front, rest, (append_assoc _ _ _).symm, hne, hread, ?_, hstop⟩
  rw [hstart, length_append]
  omega

theorem of_append (hm : IsMatch recognise position (t ++ cs) m)
    (hlate : position + t.length ≤ m.start) : IsMatch recognise (position + t.length) cs m := by
  obtain ⟨front, rest, htext, hne, hread, hstart, hstop⟩ := hm
  have hfront : t <+: front :=
    prefix_of_prefix_length_le (prefix_append t cs) (htext ▸ prefix_append _ _)
      (by omega)
  obtain ⟨more, rfl⟩ := hfront
  rw [append_assoc] at htext
  rw [length_append] at hstart
  exact ⟨more, rest, append_cancel_left htext, hne, hread, by omega, hstop⟩

theorem eq_of_start {rest : List Char} {value : α} (hm : IsMatch recognise position (t ++ rest) m)
    (hread : recognise (t ++ rest) = some (value, rest)) (hstart : m.start = position) :
    m = ⟨position, position + t.length, t, value⟩ := by
  obtain ⟨front, rest', htext, -, hread', hstart', hstop⟩ := hm
  obtain rfl : front = [] := length_eq_zero_iff.mp (by omega)
  rw [nil_append] at htext
  rw [htext, hread', some.injEq, Prod.mk.injEq] at hread
  obtain ⟨hvalue, rfl⟩ := hread
  have hcovered : m.covered = t := (append_cancel_right htext).symm
  rw [hcovered, hstart] at hstop
  obtain ⟨start, stop, covered, value'⟩ := m
  simp only [Match.mk.injEq]
  exact ⟨hstart, hstop, hcovered, hvalue⟩

end IsMatch

namespace Scans

theorem isMatch_of_mem (hscan : Scans recognise position cs ms) (hm : m ∈ ms) :
    IsMatch recognise position cs m := by
  induction hscan with
  | done => cases hm
  | @pass position c cs ms hnone _ ih => exact IsMatch.append_left (t := [c]) (ih hm)
  | @found position t rest value ms hne hread _ ih =>
    rcases mem_cons.mp hm with rfl | hm
    · exact ⟨[], rest, rfl, hne, hread, rfl, rfl⟩
    · exact IsMatch.append_left (ih hm)

theorem order {a b : Match α} (hscan : Scans recognise position cs ms) (ha : a ∈ ms)
    (hb : b ∈ ms) : a = b ∨ a.stop ≤ b.start ∨ b.stop ≤ a.start := by
  induction hscan with
  | done => cases ha
  | pass _ _ ih => exact ih ha hb
  | found _ _ hrest ih =>
    rcases mem_cons.mp ha with rfl | ha <;> rcases mem_cons.mp hb with rfl | hb
    · exact .inl rfl
    · exact .inr (.inl (hrest.isMatch_of_mem hb).le_start)
    · exact .inr (.inr (hrest.isMatch_of_mem ha).le_start)
    · exact ih ha hb

theorem mem_of_isMatch (hscan : Scans recognise position cs ms)
    (hm : IsMatch recognise position cs m) (hfree : ∀ other ∈ ms, ¬ other.Crosses m.start) :
    m ∈ ms := by
  induction hscan with
  | done =>
    obtain ⟨front, rest, htext, hne, -⟩ := hm
    exact absurd htext.symm (by simp [hne])
  | @pass position c cs ms hnone _ ih =>
    refine ih (IsMatch.of_append (t := [c]) hm ?_) hfree
    by_contra hearly
    obtain ⟨front, rest, htext, -, hread, hstart, -⟩ := hm
    obtain rfl : front = [] := length_eq_zero_iff.mp (by simp at hearly; omega)
    rw [nil_append] at htext
    rw [← htext, hnone] at hread
    cases hread
  | @found position t rest value ms hne hread _ ih =>
    obtain ⟨hfirst, hfree⟩ := forall_mem_cons.mp hfree
    by_cases hlate : position + t.length ≤ m.start
    · exact mem_cons_of_mem _ (ih (hm.of_append hlate) hfree)
    · have hstart : m.start = position := by
        have hle := hm.le_start
        simp only [Match.Crosses] at hfirst
        omega
      rw [hm.eq_of_start hread hstart]
      exact mem_cons_self

theorem scanFirst?_eq (hscan : Scans recognise position cs ms) :
    scanFirst? recognise cs = ms.head?.map (·.value) := by
  induction hscan with
  | done => rfl
  | pass hnone _ ih =>
    rw [scanFirst?, hnone]
    exact ih
  | found hne hread _ _ =>
    exact scanFirst?_of_front (append_ne_nil_of_left_ne_nil hne _) hread

end Scans

section

variable {d : Char} (hends : EndsWith d recognise)

include hends

theorem isMatch_of_mem_scanFrom (hm : m ∈ scanFrom recognise position cs) :
    IsMatch recognise position cs m :=
  (scans_scanFrom hends position cs).isMatch_of_mem hm

theorem order_of_mem_scanFrom {a b : Match α} (ha : a ∈ scanFrom recognise position cs)
    (hb : b ∈ scanFrom recognise position cs) :
    a = b ∨ a.stop ≤ b.start ∨ b.stop ≤ a.start :=
  (scans_scanFrom hends position cs).order ha hb

theorem start_lt_stop_of_mem_scanFrom (hm : m ∈ scanFrom recognise position cs) :
    m.start < m.stop :=
  (isMatch_of_mem_scanFrom hends hm).start_lt_stop

theorem mem_scanFrom_iff :
    m ∈ scanFrom recognise position cs ↔ IsMatch recognise position cs m ∧
      ∀ other ∈ scanFrom recognise position cs, ¬ other.Crosses m.start := by
  refine ⟨fun hm => ⟨isMatch_of_mem_scanFrom hends hm, fun other hother hcross => ?_⟩,
    fun ⟨hm, hfree⟩ => (scans_scanFrom hends position cs).mem_of_isMatch hm hfree⟩
  have hstop := start_lt_stop_of_mem_scanFrom hends hm
  obtain ⟨hbefore, hbeyond⟩ := hcross
  rcases order_of_mem_scanFrom hends hother hm with rfl | hfirst | hsecond <;> omega

theorem recognise_of_mem_scanFrom {front : List Char}
    (hm : m ∈ scanFrom recognise position (front ++ cs))
    (hstart : m.start = position + front.length) : ∃ rest, recognise cs = some (m.value, rest) := by
  obtain ⟨front', rest, htext, -, hread, hstart', -⟩ := isMatch_of_mem_scanFrom hends hm
  obtain ⟨-, rfl⟩ := append_inj htext (by omega)
  exact ⟨rest, hread⟩

theorem exists_mem_scanFrom_iff (front : List Char) :
    (∃ m ∈ scanFrom recognise position (front ++ cs), m.start = position + front.length) ↔
      (recognise cs).isSome ∧ ∀ other ∈ scanFrom recognise position (front ++ cs),
        ¬ other.Crosses (position + front.length) := by
  constructor
  · rintro ⟨m, hm, hstart⟩
    obtain ⟨rest, hread⟩ := recognise_of_mem_scanFrom hends hm hstart
    rw [hread, ← hstart]
    exact ⟨rfl, ((mem_scanFrom_iff hends).mp hm).2⟩
  · rintro ⟨hsome, hfree⟩
    obtain ⟨⟨value, rest⟩, hread⟩ := isSome_iff_exists.mp hsome
    obtain ⟨t, ht⟩ := hends _ _ _ hread
    obtain rfl : cs = (t ++ [d]) ++ rest := by simp [ht]
    let m : Match α := ⟨position + front.length, position + front.length + (t ++ [d]).length,
      t ++ [d], value⟩
    have hm : IsMatch recognise position (front ++ ((t ++ [d]) ++ rest)) m :=
      ⟨front, rest, rfl, by simp [m], hread, rfl, rfl⟩
    exact ⟨m, (mem_scanFrom_iff hends).mpr ⟨hm, hfree⟩, rfl⟩

end

def Match.shift (n : Nat) (m : Match α) : Match α :=
  { m with start := m.start + n, stop := m.stop + n }

theorem scanFrom_add (position n : Nat) (cs : List Char) :
    scanFrom recognise (position + n) cs =
      (scanFrom recognise position cs).map (Match.shift n) := by
  have hgo (position skip : Nat) (found : List (Match α)) :
      scan.go recognise (position + n) skip (found.map (Match.shift n)) cs =
        (scan.go recognise position skip found cs).map (Match.shift n) := by
    induction cs generalizing position skip found with
    | nil => simp [scan.go]
    | cons c cs ih =>
      cases skip with
      | succ skip =>
        simp only [scan.go]
        rw [Nat.add_right_comm]
        exact ih (position + 1) skip found
      | zero =>
        simp only [scan.go]
        rw [Nat.add_right_comm]
        split
        · exact ih (position + 1) 0 found
        · next value rest hread =>
          rw [Nat.add_right_comm position n]
          exact ih (position + 1) _ (⟨position, position + (cs.length + 1 - rest.length),
            (c :: cs).take (cs.length + 1 - rest.length), value⟩ :: found)
  exact hgo position 0 []

end

/-! ### Where a declaration stops to be words -/

variable {c : Char} {p : Char → Bool} {cs rest : List Char}

/-- The characters of a declaration up to where it stops. -/
def isWordsChar (c : Char) : Bool :=
  isTypeChar c || Text.isBlank c || c == ','

/-- `rest` is left of `cs` after characters in `p`. -/
def Passes (p : Char → Bool) (cs rest : List Char) : Prop :=
  ∃ t, cs = t ++ rest ∧ ∀ c ∈ t, p c = true

namespace Passes

variable {p q : Char → Bool}

theorem refl (cs : List Char) : Passes p cs cs :=
  ⟨[], rfl, by simp⟩

theorem trans {a b c : List Char} (hab : Passes p a b) (hbc : Passes p b c) : Passes p a c := by
  obtain ⟨t, rfl, ht⟩ := hab
  obtain ⟨u, rfl, hu⟩ := hbc
  refine ⟨t ++ u, (append_assoc t u c).symm, fun d hd => ?_⟩
  rcases mem_append.mp hd with hd | hd
  · exact ht d hd
  · exact hu d hd

theorem mono {cs rest : List Char} (hpq : ∀ c, p c → q c)
    (hpasses : Passes p cs rest) : Passes q cs rest := by
  obtain ⟨t, rfl, ht⟩ := hpasses
  exact ⟨t, rfl, fun c hc => hpq c (ht c hc)⟩

end Passes

/-- `rest` is left of `cs` after characters of words. -/
def Skips (cs rest : List Char) : Prop :=
  Passes isWordsChar cs rest

theorem isWordsChar_of_isType (hc : isTypeChar c) : isWordsChar c := by
  simp [isWordsChar, hc]

theorem isWordsChar_of_isWord (hc : isWord c) : isWordsChar c :=
  isWordsChar_of_isType (by simp [isTypeChar, hc])

private theorem isWordsChar_of_isBlank (hc : isBlank c) : isWordsChar c := by
  simp [isWordsChar, hc]

private theorem isWordsChar_of_isClause (hc : isClauseChar c) : isWordsChar c := by
  simp only [isClauseChar, isWordsChar, isTypeChar, Bool.or_eq_true] at hc ⊢
  tauto

theorem passes_after? {word : List Char} (hafter : after? word cs = some rest)
    (hword : ∀ c ∈ word, p c) : Passes p cs rest :=
  ⟨word, after?_eq_some hafter, hword⟩

theorem passes_dropWhile (cs : List Char) : Passes p cs (cs.dropWhile p) :=
  ⟨cs.takeWhile p, (takeWhile_append_dropWhile).symm, fun _ => mem_takeWhile_imp⟩

theorem passes_afterBlanks? (hafter : afterBlanks? cs = some rest) :
    Passes isBlank cs rest := by
  obtain ⟨gap, -, hcs, hgap⟩ := afterBlanks?_eq_some hafter
  exact ⟨gap, hcs, hgap⟩

theorem skips_dropWhile (hp : ∀ c, p c → isWordsChar c) (cs : List Char) :
    Skips cs (cs.dropWhile p) :=
  (passes_dropWhile cs).mono hp

theorem skips_afterBlanks? (hafter : afterBlanks? cs = some rest) : Skips cs rest :=
  (passes_afterBlanks? hafter).mono fun _ => isWordsChar_of_isBlank

theorem skips_run? {found : List Char} (hrun : run? p cs = some (found, rest))
    (hp : ∀ c, p c → isWordsChar c) : Skips cs rest := by
  obtain ⟨rfl, hall⟩ := run?_eq_some hrun
  exact ⟨found, rfl, fun c hc => hp c (hall c hc)⟩

theorem skips_constant {a : Assignment} (hread : constant cs = some (a, rest)) :
    ∃ blanks, Skips cs ('=' :: (blanks ++ (a.value ++ ';' :: rest))) := by
  simp only [constant, bind_eq_bind, bind_eq_some_iff,
    span_eq_takeWhile_dropWhile, Option.pure_def, some.injEq, Prod.mk.injEq] at hread
  obtain ⟨r₁, h₁, r₂, h₂, r₃, h₃, r₄, h₄, r₅, h₅, r₆, h₆, ⟨type, r₇⟩, h₇, r₈, h₈, ⟨name, r₉⟩, h₉,
    r, hstop, _, hend, rfl, rfl⟩ := hread
  have hvalue := after?_eq_some hend
  refine ⟨r.takeWhile isBlank, ?_⟩
  rw [← singleton_append (x := ';'), ← hvalue, takeWhile_append_dropWhile,
    takeWhile_append_dropWhile, ← singleton_append, ← after?_eq_some hstop]
  exact (passes_after? h₁ (by decide)).trans <| (skips_afterBlanks? h₂).trans <|
    (passes_after? h₃ (by decide)).trans <| (skips_afterBlanks? h₄).trans <|
    (passes_after? h₅ (by decide)).trans <| (skips_afterBlanks? h₆).trans <|
    (skips_run? h₇ (fun _ => isWordsChar_of_isType)).trans <| (skips_afterBlanks? h₈).trans <|
    (skips_run? h₉ (fun _ => isWordsChar_of_isWord)).trans <|
    skips_dropWhile (fun _ => isWordsChar_of_isBlank) r₉

theorem endsWith_constant : EndsWith ';' constant := by
  intro cs a rest hread
  obtain ⟨blanks, t, rfl, -⟩ := skips_constant hread
  exact ⟨t ++ '=' :: (blanks ++ a.value), by simp⟩

section

variable {β : Type} {next : List Char → Option β}

theorem isClauseChar_of_isBlank {c : Char} (hc : isBlank c) :
    isClauseChar c := by
  simp [isClauseChar, hc]

private theorem passes_shortestClause? {done cs text : List Char} {b : β}
    (hclause : shortestClause? next done cs = some (text, b)) :
    ∃ rest, Passes isClauseChar cs rest ∧ next rest = some b := by
  induction cs generalizing done with
  | nil => simp [shortestClause?] at hclause
  | cons c cs ih =>
    simp only [shortestClause?] at hclause
    split at hclause
    · next hc =>
      have hfirst : Passes isClauseChar (c :: cs) cs := ⟨[c], rfl, by simp [hc]⟩
      split at hclause
      · next b' hnext =>
        cases hclause
        exact ⟨cs, hfirst, hnext⟩
      · obtain ⟨rest, hpasses, hnext⟩ := ih hclause
        exact ⟨rest, hfirst.trans hpasses, hnext⟩
    · simp at hclause

private theorem passes_clause? {word cs text : List Char} {b : β}
    (hword : ∀ c ∈ word, isClauseChar c)
    (hclause : clause? word next cs = some (text, b)) :
    ∃ rest, Passes isClauseChar cs rest ∧ next rest = some b := by
  simp only [clause?, bind_eq_bind, bind_eq_some_iff] at hclause
  obtain ⟨r₁, h₁, r₂, h₂, hgap⟩ := hclause
  obtain ⟨n, hn, hshort⟩ := exists_of_findSome?_eq_some hgap
  have hn : n < (r₂.takeWhile isBlank).length := by simpa using hn
  have hdrop : Passes isClauseChar r₂ (r₂.drop (n + 1)) := by
    refine ⟨r₂.take (n + 1), (take_append_drop _ _).symm, fun c hc => ?_⟩
    refine isClauseChar_of_isBlank (mem_takeWhile_imp (p := isBlank) (l := r₂) ?_)
    have hfront : r₂.take (n + 1) = (r₂.takeWhile isBlank).take (n + 1) := by
      conv_lhs => rw [← takeWhile_append_dropWhile (p := isBlank) (l := r₂)]
      rw [take_append_of_le_length (by omega)]
    rw [hfront] at hc
    exact mem_of_mem_take hc
  obtain ⟨rest, hpasses, hnext⟩ := passes_shortestClause? hshort
  have hblanks := (passes_afterBlanks? h₁).mono fun _ => isClauseChar_of_isBlank
  exact ⟨rest, hblanks.trans <| (passes_after? h₂ hword).trans <| hdrop.trans hpasses, hnext⟩

end

private theorem passes_afterBrace? (hread : afterBrace? cs = some rest) :
    Passes isClauseChar cs ('\x7b' :: rest) := by
  rw [← singleton_append, ← after?_eq_some hread]
  exact (passes_dropWhile cs).mono fun _ => isClauseChar_of_isBlank

variable {impl : Option (List Char)}

private theorem passes_implementsAndBrace? (hread : implementsAndBrace? cs = some (impl, rest)) :
    Passes isClauseChar cs ('\x7b' :: rest) := by
  simp only [implementsAndBrace?] at hread
  split at hread
  · next text rest' hclause =>
    cases hread
    obtain ⟨mid, hpasses, hbrace⟩ := passes_clause? (by decide) hclause
    exact hpasses.trans (passes_afterBrace? hbrace)
  · obtain ⟨rest', hbrace, hsame⟩ := map_eq_some_iff.mp hread
    cases hsame
    exact passes_afterBrace? hbrace

theorem passes_clausesAndBrace? {ext : Option (List Char)}
    (hread : clausesAndBrace? cs = some (ext, impl, rest)) :
    Passes isClauseChar cs ('\x7b' :: rest) := by
  simp only [clausesAndBrace?] at hread
  split at hread
  · next text impl' rest' hclause =>
    obtain ⟨-, hsame⟩ := Prod.mk.inj (some.inj hread)
    cases hsame
    obtain ⟨mid, hpasses, hbrace⟩ := passes_clause? (by decide) hclause
    exact hpasses.trans (passes_implementsAndBrace? hbrace)
  · obtain ⟨⟨impl', rest'⟩, hbrace, hsame⟩ := map_eq_some_iff.mp hread
    obtain ⟨-, hsame⟩ := Prod.mk.inj hsame
    cases hsame
    exact passes_implementsAndBrace? hbrace

private theorem skips_afterTypeModifier (cs : List Char) : Skips cs (afterTypeModifier cs) := by
  have hskip {word rest : List Char} (hword : ∀ c ∈ word, isWordsChar c)
      (hrest : (after? word cs).bind afterBlanks? = some rest) : Skips cs rest := by
    obtain ⟨tail, htail, hblanks⟩ := bind_eq_some_iff.mp hrest
    exact (passes_after? htail hword).trans (skips_afterBlanks? hblanks)
  simp only [afterTypeModifier]
  cases habstract : (after? "abstract".toList cs).bind afterBlanks? with
  | some rest =>
    have hword : ∀ c ∈ "abstract".toList, isWordsChar c := by decide
    exact hskip hword habstract
  | none =>
    cases hfinal : (after? "final".toList cs).bind afterBlanks? with
    | some rest =>
      have hword : ∀ c ∈ "final".toList, isWordsChar c := by decide
      exact hskip hword hfinal
    | none => exact .refl cs

private theorem skips_kindWord? {kind : Kind} (hread : kindWord? cs = some (kind, rest)) :
    Skips cs rest := by
  obtain ⟨kind', -, hkind⟩ := exists_of_findSome?_eq_some hread
  obtain ⟨rest', hafter, hsame⟩ := map_eq_some_iff.mp hkind
  obtain ⟨-, rfl⟩ := Prod.mk.inj hsame
  refine passes_after? hafter ?_
  cases kind' <;> decide

theorem skips_header {hd : Header} (hread : header cs = some (hd, rest)) :
    Skips cs ('\x7b' :: rest) := by
  simp only [header, bind_eq_bind, bind_eq_some_iff, Option.pure_def, some.injEq,
    Prod.mk.injEq] at hread
  obtain ⟨r₁, h₁, r₂, h₂, ⟨kind, r₃⟩, h₃, r₄, h₄, ⟨name, r₅⟩, h₅, ⟨ext, impl, r₆⟩, h₆, -, rfl⟩ :=
    hread
  exact (passes_after? h₁ (by decide)).trans <| (skips_afterBlanks? h₂).trans <|
    (skips_afterTypeModifier r₂).trans <| (skips_kindWord? h₃).trans <|
    (skips_afterBlanks? h₄).trans <| (skips_run? h₅ (fun _ => isWordsChar_of_isWord)).trans <|
    (passes_clausesAndBrace? h₆).mono fun _ => isWordsChar_of_isClause

theorem endsWith_header : EndsWith '\x7b' header := by
  intro cs hd rest hread
  obtain ⟨t, ht, -⟩ := skips_header hread
  exact ⟨t, ht⟩

end JarAtlas.Java
