import JarAtlas.Console.Say
import Mathlib.Tactic.Common

/-!
Labels of progress bars. The label that names a version can be read if the name holds nothing that
could start or hide a tag, and then the bar does nothing but run what it stands for.
-/

namespace JarAtlas.Console

variable {word : List Char}

theorem Style.colourOf_ne_badNumber (hplain : within? "rgb(" (Text.lowerChars word) = none) :
    colourOf word ≠ .error .badNumber := by
  unfold colourOf
  simp only [hplain]
  split
  · simp [pure, Except.pure]
  · split <;> simp [pure, Except.pure]

private theorem Style.addWords_nil (s : Style) : s.addWords [] = .ok s :=
  rfl

theorem Style.nameOf_word (hword : Text.words word = [word]) (hlow : Text.lowerChars word = word)
    (hplain : within? "rgb(" word = none)
    (hfree : ∀ s ∈ ["on", "not", "link"], String.ofList word ≠ s) :
    ∃ name, nameOf word = .ok name := by
  have hparse : parse word ≠ .error .badNumber := by
    have hcolour : colourOf word ≠ .error .badNumber := colourOf_ne_badNumber (by rw [hlow, hplain])
    unfold parse
    split
    · simp
    · rw [hword]
      unfold addWords
      simp only [hlow]
      split
      · simp
      · simp_all
      · simp
      · simp_all
      · simp
      · simp_all
      · split
        · simp [addWords_nil]
        · rw [String.toList_ofList]
          cases hresult : colourOf word with
          | error e =>
            intro hbad
            obtain rfl : e = .badNumber := by simpa [bind, Except.bind] using hbad
            exact hcolour hresult
          | ok name => simp [bind, Except.bind, addWords_nil]
  unfold nameOf
  split
  · exact ⟨_, rfl⟩
  · exact ⟨_, rfl⟩
  · next hbad => exact absurd hbad hparse

private theorem pieces_plain {cs : List Char} (hplain : ∀ c ∈ cs, c ≠ '[' ∧ c ≠ '\\')
    (place : Nat) (plain : List Char) (done : List Piece) :
    pieces.go place 0 0 plain done cs = (.text (plain.reverse ++ cs) :: done).reverse := by
  induction cs generalizing place plain with
  | nil => simp [pieces.go]
  | cons c cs ih =>
    obtain ⟨hopen, hslash⟩ := hplain c List.mem_cons_self
    have hrest : ∀ d ∈ cs, d ≠ '[' ∧ d ≠ '\\' := fun d hd => hplain d (List.mem_cons_of_mem _ hd)
    simp [pieces.go, hopen, hslash, ih hrest]

/-- A piece that can be read wherever it stands. -/
private def Piece.IsGood (p : Piece) : Prop :=
  ∀ s : MarkState, ∃ s', s.step p = .ok s'

private theorem isGood_text (cs : List Char) : (Piece.text cs).IsGood :=
  fun _ => ⟨_, rfl⟩

private theorem isGood_tag {place : Nat} {name : List Char} (htag : Tag.ofText word = ⟨word, none⟩)
    (hslash : word.head? ≠ some '/')
    (hname : Style.nameOf word = .ok name) : (Piece.tag place word).IsGood := by
  intro s
  refine ⟨{ s with opened := ⟨name, none⟩ :: s.opened }, ?_⟩
  simp only [MarkState.step, htag, MarkState.tag]
  split
  · simp at hslash
  · simp [hname, bind, Except.bind, pure, Except.pure]

private theorem foldlM_isGood {ps : List Piece} (hgood : ∀ p ∈ ps, p.IsGood) (s : MarkState) :
    ∃ last, ps.foldlM MarkState.step s = .ok last := by
  induction ps generalizing s with
  | nil => exact ⟨s, rfl⟩
  | cons p ps ih =>
    obtain ⟨s', hstep⟩ := hgood p List.mem_cons_self s
    obtain ⟨last, hrest⟩ := ih (fun q hq => hgood q (List.mem_cons_of_mem _ hq)) s'
    exact ⟨last, by rw [List.foldlM_cons, hstep]; exact hrest⟩

theorem readMarkup_indexing {version : String}
    (hplain : ∀ c ∈ version.toList, c ≠ '[' ∧ c ≠ '\\') :
    ∃ marked, readMarkup ("[progress.description]" ++ ("[green]Indexing " ++ version)) =
      .ok marked := by
  have hpieces : pieces ("[progress.description]" ++ ("[green]Indexing " ++ version)).toList =
      [.text [], .text [], .tag 0 "progress.description".toList, .text [], .text [],
        .tag 22 "green".toList, .text ("Indexing ".toList ++ version.toList)] := by
    rw [String.toList_append, String.toList_append]
    exact pieces_plain hplain 38 "Indexing ".toList.reverse
      [.tag 22 "green".toList, .text [], .text [], .tag 0 "progress.description".toList, .text [],
        .text []]
  obtain ⟨name₁, hname₁⟩ : ∃ name, Style.nameOf "progress.description".toList = .ok name :=
    Style.nameOf_word (by decide) (by decide +kernel) (by decide) (by decide)
  obtain ⟨name₂, hname₂⟩ : ∃ name, Style.nameOf "green".toList = .ok name :=
    Style.nameOf_word (by decide) (by decide +kernel) (by decide) (by decide)
  have hgood : ∀ p ∈ pieces ("[progress.description]" ++ ("[green]Indexing " ++ version)).toList,
      p.IsGood := by
    intro p hp
    rw [hpieces] at hp
    simp only [List.mem_cons, List.not_mem_nil, or_false] at hp
    rcases hp with rfl | rfl | rfl | rfl | rfl | rfl | rfl
    · exact isGood_text _
    · exact isGood_text _
    · exact isGood_tag (by decide) (by decide) hname₁
    · exact isGood_text _
    · exact isGood_text _
    · exact isGood_tag (by decide) (by decide) hname₂
    · exact isGood_text _
  obtain ⟨last, hlast⟩ := foldlM_isGood hgood {}
  exact ⟨_, by rw [readMarkup, hlast]; rfl⟩

/-- The label is the only part of building a catalogue that is slow to evaluate: its colours are looked
up by name. -/
theorem withProgress_release {α : Type} (a : Action α) :
    withProgress ("[green]Indexing " ++ "release") a = Action.always a (Action.printError "\n") := by
  obtain ⟨marked, hlabel⟩ :=
    readMarkup_indexing (by decide : ∀ c ∈ "release".toList, c ≠ '[' ∧ c ≠ '\\')
  unfold withProgress
  rw [hlabel]
  rfl

end JarAtlas.Console
