import JarAtlas.Assets.Category
import JarAtlas.Proofs.Files.Tree
import Mathlib.Data.List.Perm.Basic

/-!
The categories of assets. No folder of the table is above another one, so an asset lies in at most
one of them, and the order of the table does not matter.
-/

namespace JarAtlas.Assets

open List Path

variable {dir parts : List String}

theorem flatMap_slash_prefix_iff (hdir : ∀ part ∈ dir, '/' ∉ part.toList)
    (hparts : ∀ part ∈ parts, '/' ∉ part.toList) :
    dir.flatMap (fun part => '/' :: part.toList) ++ ['/'] <+:
      parts.flatMap (fun part => '/' :: part.toList) ↔ dir <+: parts ∧ parts ≠ dir := by
  induction dir generalizing parts with
  | nil => cases parts <;> simp
  | cons d dir ih =>
    cases parts with
    | nil => simp
    | cons p parts =>
      rw [forall_mem_cons] at hdir hparts
      have hrest := ih hdir.2 hparts.2
      obtain ⟨after, hafter⟩ : ∃ after,
          dir.flatMap (fun part => '/' :: part.toList) ++ ['/'] = '/' :: after := by
        cases dir <;> exact ⟨_, rfl⟩
      rw [flatMap_cons, flatMap_cons, cons_append, cons_append, cons_append, append_assoc,
        cons_prefix_cons, cons_prefix_cons]
      constructor
      · rintro ⟨-, htext⟩
        -- Neither part has a slash, so both end at the first one.
        obtain rfl : d = p := by
          obtain ⟨more, hmore⟩ := htext
          rw [hafter, append_assoc, cons_append] at hmore
          cases parts with
          | nil =>
            rw [flatMap_nil, append_nil] at hmore
            exact absurd (hmore ▸ by simp) hparts.1
          | cons q parts =>
            exact String.toList_injective (Text.eq_of_append_cons_eq hdir.1 hparts.1 hmore)
        rw [prefix_append_right_inj, hrest] at htext
        exact ⟨⟨rfl, htext.1⟩, fun hsame => htext.2 (cons.inj hsame).2⟩
      · rintro ⟨⟨rfl, hbelow⟩, hne⟩
        rw [prefix_append_right_inj, hrest]
        exact ⟨rfl, hbelow, fun hsame => hne (hsame ▸ rfl)⟩

/-- A text starts with the name of a directory and a slash exactly if its path is below it. -/
theorem prefix_text_iff {p : Path} (hdir : ∀ part ∈ dir, IsName part) (hne : dir ≠ [])
    (hparts : ∀ part ∈ p.parts, IsName part) :
    (Text.join "/" dir ++ "/").toList <+: p.text.toList ↔
      p.isWithin ⟨0, dir⟩ ∧ p ≠ ⟨0, dir⟩ := by
  have hfront : '/' :: (Text.join "/" dir ++ "/").toList =
      dir.flatMap (fun part => '/' :: part.toList) ++ ['/'] := by
    rw [String.toList_append, ← cons_append, cons_toList_join hne]
    rfl
  obtain ⟨c, cs, hchars, hc, hcs⟩ : ∃ c cs, (Text.join "/" dir ++ "/").toList = c :: cs ∧
      c ≠ '/' ∧ cs ≠ [] := by
    obtain ⟨d, dir, rfl⟩ := exists_cons_of_ne_nil hne
    obtain ⟨hempty, -, hslash⟩ := hdir d mem_cons_self
    rw [flatMap_cons, cons_append, cons_append, cons.injEq] at hfront
    cases hd : d.toList with
    | nil => exact absurd (String.toList_eq_nil_iff.mp hd) hempty
    | cons c cs =>
      rw [hd] at hslash hfront
      exact ⟨c, _, hfront.2, fun hc => hslash (hc ▸ mem_cons_self), by simp⟩
  obtain ⟨slashes, parts⟩ := p
  cases slashes with
  | zero =>
    cases parts with
    | nil => simp [text, hchars, hcs, isWithin, hne]
    | cons part parts =>
      have htext : (mk 0 (part :: parts)).text = Text.join "/" (part :: parts) := by
        simp [text]
      rw [htext, ← prefix_cons_inj '/', hfront, cons_toList_join (cons_ne_nil _ _),
        flatMap_slash_prefix_iff (fun q hq => (hdir q hq).2.2) fun q hq => (hparts q hq).2.2]
      simp [isWithin]
  | succ n =>
    simp [text, hchars, replicate_succ, isWithin, hc]

/-- The folder is one of the directories above the path. -/
def IsAbove (folder path : String) : Prop :=
  (parse path).isWithin (parse folder) ∧ parse path ≠ parse folder

instance (folder path : String) : Decidable (IsAbove folder path) :=
  inferInstanceAs (Decidable (_ ∧ _))

theorem parts_categoryFolders : ∀ f ∈ categoryFolders,
    (parse f.1).slashes = 0 ∧ partsOf f.1 ≠ [] ∧ Text.join "/" (partsOf f.1) = f.1 := by
  decide +kernel

theorem eq_of_prefix_folder : ∀ f ∈ categoryFolders, ∀ g ∈ categoryFolders,
    (f.1 ++ "/").toList <+: (g.1 ++ "/").toList → f = g := by
  decide +kernel

variable {f g : String × String} {folders : List (String × String)} {path : String}

theorem folder_prefix_iff (hf : f ∈ categoryFolders) :
    (f.1 ++ "/").toList <+: (parse path).text.toList ↔ IsAbove f.1 path := by
  obtain ⟨hslashes, hne, hname⟩ := parts_categoryFolders f hf
  have hparse : parse f.1 = ⟨0, partsOf f.1⟩ := by rw [← hslashes]; rfl
  have hstart := prefix_text_iff (p := parse path) (fun _ => isName_of_mem_partsOf) hne
    fun _ => isName_of_mem_partsOf
  rwa [hname, ← hparse] at hstart

theorem eq_of_isAbove (hf : f ∈ categoryFolders) (hg : g ∈ categoryFolders)
    (hfolder : IsAbove f.1 path) (hother : IsAbove g.1 path) : f = g := by
  rw [← folder_prefix_iff hf] at hfolder
  rw [← folder_prefix_iff hg] at hother
  rcases prefix_or_prefix_of_prefix hfolder hother with hends | hends
  · exact eq_of_prefix_folder f hf g hg hends
  · exact (eq_of_prefix_folder g hg f hf hends).symm

/-- The folder above a path decides its category, in whatever order the folders are looked at. -/
theorem categoryAmong_eq_some_iff (hfolders : folders ~ categoryFolders) {c : String} :
    categoryAmong folders path = some c ↔ ∃ f ∈ categoryFolders, IsAbove f.1 path ∧ f.2 = c := by
  have hstarts : ∀ f ∈ folders,
      (Text.startsWith (parse path).text (f.1 ++ "/") ↔ IsAbove f.1 path) := by
    intro f hf
    rw [Text.startsWith, isPrefixOf_iff_prefix, folder_prefix_iff (hfolders.subset hf)]
  rw [categoryAmong, Option.map_eq_some_iff]
  constructor
  · rintro ⟨f, hfind, rfl⟩
    have hf := mem_of_find?_eq_some hfind
    obtain ⟨hstart, -⟩ := find?_eq_some_iff_append.mp hfind
    exact ⟨f, hfolders.subset hf, (hstarts f hf).mp hstart, rfl⟩
  · rintro ⟨f, hf, habove, rfl⟩
    have hf' := hfolders.symm.subset hf
    cases hfind : folders.find? fun f => Text.startsWith (parse path).text (f.1 ++ "/") with
    | none => exact absurd ((hstarts f hf').mpr habove) (find?_eq_none.mp hfind f hf')
    | some g =>
      have hg := mem_of_find?_eq_some hfind
      obtain ⟨hstart, -⟩ := find?_eq_some_iff_append.mp hfind
      rw [eq_of_isAbove hf (hfolders.subset hg) habove ((hstarts g hg).mp hstart)]
      exact ⟨g, rfl, rfl⟩

/-- At most one folder is above a path. The category is that of the longest one, and the same for
every order of the table. -/
theorem category_of_folder (path : String) :
    (∀ f ∈ categoryFolders, ∀ g ∈ categoryFolders, IsAbove f.1 path → IsAbove g.1 path → f = g) ∧
    (∀ c, category path = some c ↔ ∃ f ∈ categoryFolders, f.2 = c ∧ IsAbove f.1 path ∧
      ∀ g ∈ categoryFolders, IsAbove g.1 path → g.1.length ≤ f.1.length) ∧
    ∀ folders, folders ~ categoryFolders → categoryAmong folders path = category path := by
  refine ⟨fun f hf g hg => eq_of_isAbove hf hg, fun c => ?_, fun folders hfolders => ?_⟩
  · rw [category, categoryAmong_eq_some_iff (.refl _)]
    constructor
    · rintro ⟨f, hf, habove, rfl⟩
      refine ⟨f, hf, rfl, habove, fun g hg hother => ?_⟩
      rw [eq_of_isAbove hg hf hother habove]
    · rintro ⟨f, hf, rfl, habove, -⟩
      exact ⟨f, hf, habove, rfl⟩
  · apply Option.ext
    intro c
    rw [category, categoryAmong_eq_some_iff hfolders, categoryAmong_eq_some_iff (.refl _)]

/-- The texture of an item lies in one folder, although another one ends in its name. -/
theorem category_of_folder_sword :
    IsAbove "Items" "Items//./Sword.png" ∧ category "Items//./Sword.png" = some "ItemTexture" ∧
    categoryAmong categoryFolders.reverse "Items//./Sword.png" = some "ItemTexture" := by
  obtain ⟨hunique, hcategory, horder⟩ := category_of_folder "Items//./Sword.png"
  have hmem : ("Items", "ItemTexture") ∈ categoryFolders := by decide +kernel
  have habove : IsAbove "Items" "Items//./Sword.png" := by decide +kernel
  have hfound := (hcategory "ItemTexture").mpr ⟨_, hmem, rfl, habove, fun g hg hother => by
    rw [hunique g hg _ hmem hother habove]⟩
  exact ⟨habove, hfound, (horder _ (reverse_perm _)).trans hfound⟩

end JarAtlas.Assets
