import JarAtlas.Store.Cell
import Mathlib.Data.List.Forall2
import Mathlib.Data.List.Infix

/-!
Which texts fit a pattern. A stretch between two `%` is looked for from the left and the first place
is taken, which is never wrong: what fits after a later place also fits after the first one.
-/

open List

namespace JarAtlas

/-- A character of a pattern stands for a character of a text. -/
def CharFits (c d : Char) : Prop :=
  c = '_' ∨ c.toLower = d.toLower

/-- A text fits a pattern: `%` stands for any text, and any other character for one character. -/
inductive Fits : List Char → List Char → Prop
  | nil : Fits [] []
  | char {c d : Char} {pattern s : List Char} (hc : c ≠ '%') (hfits : CharFits c d)
      (hrest : Fits pattern s) : Fits (c :: pattern) (d :: s)
  | any {pattern s : List Char} (skipped : List Char) (hrest : Fits pattern s) :
      Fits ('%' :: pattern) (skipped ++ s)

namespace Fits

variable {pattern stretch s rest : List Char}

theorem any_iff : Fits ('%' :: pattern) s ↔ ∃ rest, rest <:+ s ∧ Fits pattern rest := by
  constructor
  · intro hfits
    cases hfits with
    | char hc => exact absurd rfl hc
    | @any _ rest skipped hrest => exact ⟨rest, suffix_append _ _, hrest⟩
  · rintro ⟨rest, ⟨skipped, rfl⟩, hrest⟩
    exact .any skipped hrest

theorem stretch_iff (hstretch : '%' ∉ stretch) :
    Fits (stretch ++ pattern) s ↔
      ∃ taken rest, s = taken ++ rest ∧ List.Forall₂ CharFits stretch taken ∧
        Fits pattern rest := by
  induction stretch generalizing s with
  | nil =>
    constructor
    · exact fun hfits => ⟨[], s, rfl, .nil, hfits⟩
    · rintro ⟨taken, rest, rfl, hnone, hfits⟩
      cases hnone
      exact hfits
  | cons c stretch ih =>
    obtain ⟨hc, hstretch⟩ := ne_and_not_mem_of_not_mem_cons hstretch
    constructor
    · intro hfits
      cases hfits with
      | char _ hchar hrest =>
        obtain ⟨taken, rest, rfl, htaken, hrest⟩ := (ih hstretch).mp hrest
        exact ⟨_ :: taken, rest, rfl, .cons hchar htaken, hrest⟩
      | any => exact absurd rfl hc
    · rintro ⟨taken, rest, rfl, htaken, hrest⟩
      obtain _ | ⟨hchar, htaken⟩ := htaken
      exact .char hc.symm hchar ((ih hstretch).mpr ⟨_, rest, rfl, htaken, hrest⟩)

theorem append_self (hrest : Fits pattern s) (before : List Char) :
    Fits (before ++ pattern) (before ++ s) := by
  induction before with
  | nil => exact hrest
  | cons c before ih =>
    by_cases hc : c = '%'
    · subst hc
      exact .any ['%'] ih
    · exact .char hc (.inr rfl) ih

end Fits

variable {stretch s rest : List Char}

theorem afterStretch?_eq_some_iff : afterStretch? stretch s = some rest ↔
    ∃ taken, s = taken ++ rest ∧ List.Forall₂ CharFits stretch taken := by
  induction stretch generalizing s with
  | nil => simp [afterStretch?, eq_comm]
  | cons c stretch ih =>
    cases s with
    | nil => simp [afterStretch?]
    | cons d s =>
      have hchar : (c == '_' || c.toLower == d.toLower) = true ↔ CharFits c d := by
        simp [CharFits]
      rw [afterStretch?]
      split
      · next hfits =>
        rw [ih]
        constructor
        · rintro ⟨taken, rfl, htaken⟩
          exact ⟨d :: taken, rfl, .cons (hchar.mp hfits) htaken⟩
        · rintro ⟨taken, hs, htaken⟩
          obtain _ | ⟨_, htaken⟩ := htaken
          obtain ⟨rfl, rfl⟩ := cons.inj hs
          exact ⟨_, rfl, htaken⟩
      · next hfails =>
        refine iff_of_false (by simp) ?_
        rintro ⟨taken, hs, htaken⟩
        obtain _ | ⟨hfits, _⟩ := htaken
        obtain ⟨rfl, rfl⟩ := cons.inj hs
        exact hfails (hchar.mpr hfits)

theorem afterFirst?_iff {P : List Char → Prop}
    (hP : ∀ {later rest : List Char}, later <:+ rest → P later → P rest) :
    (∃ rest, afterFirst? stretch s = some rest ∧ P rest) ↔
      ∃ tail rest, tail <:+ s ∧ afterStretch? stretch tail = some rest ∧ P rest := by
  induction s with
  | nil =>
    constructor
    · rintro ⟨rest, hfirst, hrest⟩
      exact ⟨[], rest, suffix_refl _, hfirst, hrest⟩
    · rintro ⟨tail, rest, htail, hafter, hrest⟩
      rw [suffix_nil.mp htail] at hafter
      exact ⟨rest, hafter, hrest⟩
  | cons d s ih =>
    rw [afterFirst?]
    cases hhere : afterStretch? stretch (d :: s) with
    | none =>
      dsimp only
      rw [ih]
      constructor
      · rintro ⟨tail, rest, htail, hrest⟩
        exact ⟨tail, rest, htail.trans (suffix_cons d s), hrest⟩
      · rintro ⟨tail, rest, htail, hafter, hrest⟩
        rcases suffix_cons_iff.mp htail with rfl | htail
        · rw [hhere] at hafter
          cases hafter
        · exact ⟨tail, rest, htail, hafter, hrest⟩
    | some first =>
      constructor
      · rintro ⟨rest, hfirst, hrest⟩
        exact ⟨d :: s, rest, suffix_refl _, hhere.trans hfirst, hrest⟩
      · rintro ⟨tail, rest, htail, hafter, hrest⟩
        refine ⟨first, rfl, hP ?_ hrest⟩
        obtain ⟨taken, hall, htaken⟩ := afterStretch?_eq_some_iff.mp hhere
        obtain ⟨later, rfl, hlater⟩ := afterStretch?_eq_some_iff.mp hafter
        have hlength : taken.length = later.length := htaken.length_eq.symm.trans hlater.length_eq
        have hshort := htail.length_le
        rw [hall, length_append, length_append] at hshort
        exact suffix_of_suffix_length_le ((suffix_append later rest).trans htail)
          (hall ▸ suffix_append taken first) (by omega)

theorem Fits.whole_iff (hstretch : '%' ∉ stretch) :
    Fits stretch s ↔ List.Forall₂ CharFits stretch s := by
  have hall : Fits (stretch ++ []) s ↔ _ := Fits.stretch_iff hstretch
  rw [append_nil] at hall
  rw [hall]
  constructor
  · rintro ⟨taken, rest, rfl, htaken, hnone⟩
    cases hnone
    rwa [append_nil]
  · exact fun htaken => ⟨s, [], (append_nil s).symm, htaken, .nil⟩

theorem endFits_iff (hstretch : '%' ∉ stretch) :
    endFits stretch s ↔ Fits ('%' :: stretch) s := by
  rw [endFits, Bool.and_eq_true, decide_eq_true_eq, Option.isSome_iff_exists, Fits.any_iff]
  constructor
  · rintro ⟨hle, rest, hafter⟩
    obtain ⟨taken, htail, htaken⟩ := afterStretch?_eq_some_iff.mp hafter
    refine ⟨_, htail ▸ drop_suffix _ s, (Fits.whole_iff hstretch).mpr ?_⟩
    have hlength := congrArg length htail
    rw [length_drop, length_append, ← htaken.length_eq] at hlength
    obtain rfl : rest = [] := length_eq_zero_iff.mp (by omega)
    rwa [append_nil]
  · rintro ⟨tail, ⟨before, rfl⟩, htail⟩
    have htaken := (Fits.whole_iff hstretch).mp htail
    have hdrop : (before ++ tail).length - stretch.length = before.length := by
      rw [length_append, htaken.length_eq]
      omega
    refine ⟨by rw [length_append, htaken.length_eq]; omega, [], ?_⟩
    rw [hdrop, drop_left]
    exact afterStretch?_eq_some_iff.mpr ⟨tail, (append_nil tail).symm, htaken⟩

theorem stretchesFit_splitOn_iff (pattern s : List Char) :
    stretchesFit (pattern.splitOn '%') s ↔ Fits ('%' :: pattern) s := by
  -- The induction takes the first stretch off the pattern.
  induction hn : pattern.length using Nat.strong_induction_on generalizing pattern s with
  | _ n ih =>
    by_cases hmem : '%' ∈ pattern
    · obtain ⟨stretch, rest, rfl, hstretch⟩ := eq_append_cons_of_mem hmem
      rw [length_append, length_cons] at hn
      have hrest (s : List Char) := ih rest.length (by omega) rest s rfl
      have hmore {later s : List Char} (hlater : later <:+ s) (hfits : Fits ('%' :: rest) later) :
          Fits ('%' :: rest) s := by
        obtain ⟨tail, htail, hfits⟩ := Fits.any_iff.mp hfits
        exact Fits.any_iff.mpr ⟨tail, htail.trans hlater, hfits⟩
      have hfirst : stretchesFit (stretch :: rest.splitOn '%') s ↔
          ∃ after, afterFirst? stretch s = some after ∧ Fits ('%' :: rest) after := by
        cases hsplit : rest.splitOn '%' with
        | nil => exact absurd hsplit (splitOnP_ne_nil _ _)
        | cons next stretches =>
          rw [hsplit] at hrest
          rw [stretchesFit]
          · cases afterFirst? stretch s <;> simp [hrest]
          · exact cons_ne_nil _ _
      rw [splitOn_append_cons_self_of_not_mem hstretch, hfirst, afterFirst?_iff hmore, Fits.any_iff]
      constructor
      · rintro ⟨tail, after, htail, hafter, hfits⟩
        obtain ⟨taken, rfl, htaken⟩ := afterStretch?_eq_some_iff.mp hafter
        exact ⟨_, htail, (Fits.stretch_iff hstretch).mpr ⟨taken, after, rfl, htaken, hfits⟩⟩
      · rintro ⟨tail, htail, hfits⟩
        obtain ⟨taken, after, rfl, htaken, hfits⟩ := (Fits.stretch_iff hstretch).mp hfits
        exact ⟨_, after, htail, afterStretch?_eq_some_iff.mpr ⟨taken, rfl, htaken⟩, hfits⟩
    · rw [splitOn_eq_singleton hmem, stretchesFit]
      exact endFits_iff hmem

theorem likeChars_iff_fits (pattern s : List Char) :
    likeChars pattern s ↔ Fits pattern s := by
  rw [likeChars]
  by_cases hmem : '%' ∈ pattern
  · obtain ⟨stretch, rest, rfl, hstretch⟩ := eq_append_cons_of_mem hmem
    rw [splitOn_append_cons_self_of_not_mem hstretch, Fits.stretch_iff hstretch]
    have hrest := stretchesFit_splitOn_iff rest
    cases hsplit : rest.splitOn '%' with
    | nil => exact absurd hsplit (splitOnP_ne_nil _ _)
    | cons next stretches =>
      rw [hsplit] at hrest
      dsimp only
      constructor
      · intro hlike
        cases hafter : afterStretch? stretch s with
        | none => simp [hafter] at hlike
        | some after =>
          rw [hafter] at hlike
          obtain ⟨taken, rfl, htaken⟩ := afterStretch?_eq_some_iff.mp hafter
          exact ⟨taken, after, rfl, htaken, (hrest after).mp hlike⟩
      · rintro ⟨taken, after, rfl, htaken, hfits⟩
        rw [afterStretch?_eq_some_iff.mpr ⟨taken, rfl, htaken⟩]
        exact (hrest after).mpr hfits
  · rw [splitOn_eq_singleton hmem, Fits.whole_iff hmem]
    simp [afterStretch?_eq_some_iff]

end JarAtlas
