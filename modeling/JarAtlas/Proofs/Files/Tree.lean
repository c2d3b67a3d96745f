import JarAtlas.Files.Tree
import JarAtlas.Proofs.Text.Words

/-!
What stays in a tree of files when something is put into it. A tree keeps another one when its
directories are directories and its files are files there too; a path that leads somewhere leads to
the same place in every tree that keeps it.
-/

namespace JarAtlas.FileTree

variable {t : FileTree} {place : Place} {t' : FileTree}

theorem isDir_iff : t.isDir place ↔ t.get? place = some .directory := by
  unfold isDir
  split <;> simp_all

theorem isFile_iff :
    t.isFile place ↔ ∃ content time, t.get? place = some (.file content time) := by
  unfold isFile
  split <;> simp_all

theorem place_ne_nil_of_get? (t : FileTree) (hplace : t.get? place ≠ some .directory) :
    place ≠ [] := by
  rintro rfl
  exact hplace rfl

private theorem find?_replace (place : Place) (node : Node) (nodes : List (Place × Node))
    (q : Place) :
    ((put.replace place node nodes).find? fun n => n.1 == q).map (·.2) =
      if q = place then some node else (nodes.find? fun n => n.1 == q).map (·.2) := by
  induction nodes with
  | nil =>
    by_cases hq : q = place
    · simp [put.replace, hq]
    · simp [put.replace, hq, Ne.symm hq]
  | cons n nodes ih =>
    by_cases hn : n.1 = place
    · by_cases hq : q = place
      · simp [put.replace, hn, hq]
      · simp [put.replace, hn, hq, Ne.symm hq]
    · by_cases hq : n.1 = q
      · have hne : q ≠ place := fun h => hn (hq.trans h)
        simp [put.replace, hq, hne]
      · simpa [put.replace, hn, hq, List.find?_cons] using ih

theorem get?_put (t : FileTree) (hplace : place ≠ []) (node : Node) (q : Place) :
    (t.put place node).get? q = if q = place then some node else t.get? q := by
  by_cases hq : q = []
  · subst hq
    simp [get?, hplace.symm]
  · have hempty : q.isEmpty = false := by simpa using hq
    simp only [get?, hempty, put]
    exact find?_replace place node t.nodes q

/-- Directories of `t` are directories of `t'`, and files of `t` are files of `t'`, perhaps with
another content. -/
structure Keeps (t t' : FileTree) : Prop where
  dirs : ∀ place, t.isDir place = true → t'.isDir place = true
  files : ∀ place, t.isFile place = true → t'.isFile place = true

theorem Keeps.refl (t : FileTree) : t.Keeps t :=
  ⟨fun _ h => h, fun _ h => h⟩

theorem Keeps.trans {t₁ t₂ t₃ : FileTree} (h : t₁.Keeps t₂) (h' : t₂.Keeps t₃) : t₁.Keeps t₃ :=
  ⟨fun place hdir => h'.dirs place (h.dirs place hdir),
    fun place hfile => h'.files place (h.files place hfile)⟩

theorem keeps_put {node : Node} (hplace : t.get? place ≠ some .directory)
    (hfile : t.isFile place → ∃ content time, node = .file content time) :
    t.Keeps (t.put place node) := by
  have hget := get?_put t (place_ne_nil_of_get? t hplace) node
  constructor
  · intro q hq
    rw [isDir_iff] at hq ⊢
    rwa [hget, if_neg (by rintro rfl; exact hplace hq)]
  · intro q hq
    rw [isFile_iff, hget]
    split
    · next hsame => simpa using hfile (hsame ▸ hq)
    · exact isFile_iff.mp hq

section

variable (hdirs : ∀ q, t.isDir q → t'.isDir q)

include hdirs

theorem walk_cases (place : Place) (parts : List String) :
    t'.walk place parts = t.walk place parts ∨
      t.walk place parts = .error .missing ∨ t.walk place parts = .error .notDirectory := by
  induction parts generalizing place with
  | nil => exact .inl rfl
  | cons part parts ih =>
    simp only [walk]
    cases hget : t.get? place with
    | none => exact .inr (.inl rfl)
    | some node =>
      cases node with
      | file content time => exact .inr (.inr rfl)
      | directory =>
        simp only [isDir_iff.mp (hdirs place (isDir_iff.mpr hget))]
        split
        · exact .inl rfl
        · exact ih _

theorem locate_cases (here : Place) (p : Path) :
    t'.locate here p = t.locate here p ∨
      t.locate here p = .error .missing ∨ t.locate here p = .error .notDirectory := by
  unfold locate
  split
  · exact .inl rfl
  · exact walk_cases hdirs _ _

theorem walk_eq {goal : Place} {parts : List String}
    (hwalk : t.walk place parts = .ok goal) : t'.walk place parts = .ok goal := by
  rcases walk_cases hdirs place parts with heq | hnone | hnone
  · rw [heq, hwalk]
  · simp [hnone] at hwalk
  · simp [hnone] at hwalk

theorem locate_eq {here : Place} {p : Path}
    (hlocate : t.locate here p = .ok place) : t'.locate here p = .ok place := by
  rcases locate_cases hdirs here p with heq | hnone | hnone
  · rw [heq, hlocate]
  · simp [hnone] at hlocate
  · simp [hnone] at hlocate

end

/-! ### Where a walk leads -/

open List

variable {t : FileTree} {place goal : Place} {parts : List String} {front rest : List String}

/-- The place that parts lead to from a place if all directories on the way are there. -/
def reached (place : Place) (parts : List String) : Place :=
  parts.foldl (fun place part => if part == ".." then place.dropLast else place ++ [part]) place

theorem eq_reached_of_walk (hwalk : t.walk place parts = .ok goal) :
    goal = reached place parts := by
  induction parts generalizing place with
  | nil => simpa [walk, reached] using hwalk.symm
  | cons part parts ih =>
    simp only [walk] at hwalk
    split at hwalk
    · cases hwalk
    · cases hwalk
    · split at hwalk
      · cases hwalk
      · exact ih hwalk

theorem isDir_of_walk_cons {part : String} (hwalk : t.walk place (part :: parts) = .ok goal) :
    t.isDir place := by
  simp only [walk] at hwalk
  split at hwalk
  · cases hwalk
  · cases hwalk
  · next hget => exact isDir_iff.mpr hget

theorem walk_append_eq (t : FileTree) (place : Place) (front rest : List String) :
    t.walk place (front ++ rest) = t.walk place front >>= fun mid => t.walk mid rest := by
  induction front generalizing place with
  | nil => rfl
  | cons part front ih =>
    simp only [cons_append, walk]
    split
    · rfl
    · rfl
    · split
      · rfl
      · exact ih _

theorem walk_append (hwalk : t.walk place (front ++ rest) = .ok goal) :
    ∃ mid, t.walk place front = .ok mid ∧ t.walk mid rest = .ok goal := by
  rw [walk_append_eq] at hwalk
  cases hfront : t.walk place front with
  | error e => simp [hfront, bind, Except.bind] at hwalk
  | ok mid => exact ⟨mid, rfl, by rwa [hfront] at hwalk⟩

theorem walk_append_of_ok {mid : Place}
    (hfront : t.walk place front = .ok mid) : t.walk place (front ++ rest) = t.walk mid rest := by
  rw [walk_append_eq, hfront]
  rfl

theorem reached_append (place : Place) (front rest : List String) :
    reached place (front ++ rest) = reached (reached place front) rest :=
  foldl_append

theorem walk_cases_of_kept {t' : FileTree}
    (hkept : ∀ place node, t.get? place = some node → t'.get? place = some node)
    (hwalk : t'.walk place parts = .ok goal) :
    t.walk place parts = .ok goal ∨ t.walk place parts = .error .missing := by
  induction parts generalizing place with
  | nil => exact .inl hwalk
  | cons part parts ih =>
    have hdir := isDir_iff.mp (isDir_of_walk_cons hwalk)
    cases hget : t.get? place with
    | none => exact .inr (by simp only [walk, hget])
    | some node =>
      obtain rfl : node = .directory := Option.some.inj ((hkept place node hget).symm.trans hdir)
      simp only [walk, hdir] at hwalk
      simp only [walk, hget]
      split at hwalk
      · cases hwalk
      · next hshort =>
        rw [if_neg hshort]
        exact ih hwalk

theorem walk_take (hwalk : t.walk place parts = .ok goal) {n : Nat} (hn : n < parts.length) :
    ∃ mid, t.walk place (parts.take n) = .ok mid ∧ t.isDir mid := by
  rw [← take_append_drop n parts] at hwalk
  obtain ⟨mid, hfront, hrest⟩ := walk_append hwalk
  refine ⟨mid, hfront, ?_⟩
  rw [drop_eq_getElem_cons hn] at hrest
  exact isDir_of_walk_cons hrest

/-- Everything lies in a directory. -/
def Rooted (t : FileTree) : Prop :=
  ∀ place, t.get? place ≠ none → t.isDir place.dropLast = true

theorem rooted_of_nodes (hnodes : ∀ n ∈ t.nodes, t.isDir n.1.dropLast) : t.Rooted := by
  intro place hthere
  unfold get? at hthere
  split at hthere
  · next hempty =>
    rw [isEmpty_iff.mp hempty]
    rfl
  · cases hfind : t.nodes.find? fun n => n.1 == place with
    | none => simp [hfind] at hthere
    | some n =>
      have hplace : n.1 = place := by simpa using find?_some hfind
      rw [← hplace]
      exact hnodes n (mem_of_find?_eq_some hfind)

theorem mem_nodes_of_isDir (hdir : t.isDir place) :
    place = [] ∨ place ∈ t.nodes.map (·.1) := by
  have hget := isDir_iff.mp hdir
  unfold get? at hget
  split at hget
  · next hempty => exact .inl (isEmpty_iff.mp hempty)
  · obtain ⟨n, hfind, -⟩ := Option.map_eq_some_iff.mp hget
    have hplace : n.1 = place := by simpa using find?_some hfind
    exact .inr (mem_map.mpr ⟨n, mem_of_find?_eq_some hfind, hplace⟩)

theorem Rooted.isDir_of_append (hrooted : t.Rooted) {rest : Place} (hrest : rest ≠ [])
    (hthere : t.get? (place ++ rest) ≠ none) : t.isDir place := by
  induction rest using reverseRecOn with
  | nil => exact absurd rfl hrest
  | append_singleton rest part ih =>
    have hdir := hrooted _ hthere
    rw [← append_assoc, dropLast_concat] at hdir
    by_cases hempty : rest = []
    · rwa [hempty, append_nil] at hdir
    · apply ih hempty
      rw [isDir_iff.mp hdir]
      exact Option.some_ne_none _

theorem Rooted.isDir_above (hrooted : t.Rooted) (habove : t.isDir place.dropLast)
    (hwalk : t.walk place parts = .ok goal) : t.isDir goal.dropLast := by
  induction parts generalizing place with
  | nil =>
    obtain rfl : place = goal := Except.ok.inj hwalk
    exact habove
  | cons part parts ih =>
    have hdir := isDir_of_walk_cons hwalk
    simp only [walk, isDir_iff.mp hdir] at hwalk
    split at hwalk
    · cases hwalk
    · refine ih ?_ hwalk
      split
      · apply hrooted
        rw [isDir_iff.mp habove]
        exact Option.some_ne_none _
      · rw [dropLast_concat]
        exact hdir

theorem Rooted.put (hrooted : t.Rooted) (hplace : t.get? place ≠ some .directory)
    (habove : t.isDir place.dropLast) (node : Node) : (t.put place node).Rooted := by
  have hget := get?_put t (place_ne_nil_of_get? t hplace) node
  have hkept {q : Place} (hdir : t.isDir q) : (t.put place node).isDir q := by
    rw [isDir_iff] at hdir ⊢
    rwa [hget, if_neg (by rintro rfl; exact hplace hdir)]
  intro q hthere
  rw [hget] at hthere
  by_cases hq : q = place
  · rw [hq]
    exact hkept habove
  · rw [if_neg hq] at hthere
    exact hkept (hrooted q hthere)

/-- The parts are names, none too long, and lead down only. -/
def LeadDown (parts : List String) : Prop :=
  ∀ part ∈ parts, part ≠ ".." ∧ part.utf8ByteSize ≤ maxPartSize

instance (parts : List String) : Decidable (LeadDown parts) :=
  inferInstanceAs (Decidable (∀ part ∈ parts, part ≠ ".." ∧ part.utf8ByteSize ≤ maxPartSize))

theorem Rooted.walk_down (hrooted : t.Rooted) (hdown : LeadDown parts)
    (hthere : t.get? (place ++ parts) ≠ none) : t.walk place parts = .ok (place ++ parts) := by
  induction parts generalizing place with
  | nil => rw [append_nil, walk]
  | cons part parts ih =>
    have hdir := isDir_iff.mp (hrooted.isDir_of_append (cons_ne_nil part parts) hthere)
    obtain ⟨hname, hsize⟩ := hdown part mem_cons_self
    rw [append_cons] at hthere
    have hrest := ih (fun q hq => hdown q (mem_cons_of_mem _ hq)) hthere
    simp only [walk, hdir, if_neg (Nat.not_lt.mpr hsize), beq_iff_eq, if_neg hname]
    rw [hrest, ← append_cons]

theorem reached_of_not_mem (hdown : ".." ∉ parts) : reached place parts = place ++ parts := by
  induction parts generalizing place with
  | nil => rw [append_nil, reached, foldl_nil]
  | cons part parts ih =>
    have hname : part ≠ ".." := fun hpart => hdown (hpart ▸ mem_cons_self)
    have hrest : reached (place ++ [part]) parts = place ++ [part] ++ parts :=
      ih fun hmem => hdown (mem_cons_of_mem _ hmem)
    rw [← append_cons] at hrest
    simpa [reached, hname] using hrest

theorem reached_of_leadDown (hdown : LeadDown parts) : reached place parts = place ++ parts :=
  reached_of_not_mem fun hmem => (hdown ".." hmem).1 rfl

theorem walk_ne_nameTooLong (hdown : LeadDown parts) :
    t.walk place parts ≠ .error .nameTooLong := by
  induction parts generalizing place with
  | nil => simp [walk]
  | cons part parts ih =>
    have hsize := (hdown part mem_cons_self).2
    simp only [walk]
    split
    · simp
    · simp
    · rw [if_neg (Nat.not_lt.mpr hsize)]
      exact ih fun q hq => hdown q (mem_cons_of_mem _ hq)

end JarAtlas.FileTree

/-! ### Resolved paths and their texts -/

open List

namespace JarAtlas

open FileTree

namespace FileTree

variable {place : Place}

theorem not_mem_reached (hplace : ".." ∉ place) (parts : List String) :
    ".." ∉ reached place parts := by
  induction parts generalizing place with
  | nil => exact hplace
  | cons part parts ih =>
    rw [reached, foldl_cons]
    apply ih
    split
    · intro hmem
      exact hplace (dropLast_subset _ hmem)
    · next hname =>
      intro hmem
      rcases mem_append.mp hmem with hold | hnew
      · exact hplace hold
      · rw [mem_singleton] at hnew
        simp [← hnew] at hname

theorem mem_of_mem_reached {parts : List String} {part : String}
    (hpart : part ∈ reached place parts) : part ∈ place ∨ part ∈ parts := by
  induction parts generalizing place with
  | nil => exact .inl hpart
  | cons next parts ih =>
    rw [reached, foldl_cons] at hpart
    rcases ih hpart with hold | hrest
    · split at hold
      · exact .inl (dropLast_subset _ hold)
      · rcases mem_append.mp hold with hold | hnew
        · exact .inl hold
        · exact .inr (mem_singleton.mp hnew ▸ mem_cons_self)
    · exact .inr (mem_cons_of_mem _ hrest)

theorem reached_sublist (place : Place) (parts : List String) :
    reached place parts <+ place ++ parts := by
  induction parts generalizing place with
  | nil => simp [reached]
  | cons part parts ih =>
    have hrest := ih (if part == ".." then place.dropLast else place ++ [part])
    refine Sublist.trans hrest ?_
    split
    · exact (dropLast_sublist place).append (sublist_cons_self _ _)
    · simp

end FileTree

namespace Path

/-- Removing double dots leads where walking leads. -/
theorem collapse_eq_reached (parts : List String) :
    collapse parts = reached [] parts := by
  -- The parts that are done are kept in reverse.
  have hgo (done : List String) :
      (parts.foldl (fun done part => if part == ".." then done.drop 1 else part :: done)
        done).reverse = reached done.reverse parts := by
    induction parts generalizing done with
    | nil => rfl
    | cons part parts ih =>
      rw [foldl_cons, ih, reached, reached, foldl_cons]
      congr 1
      split
      · rw [drop_one, dropLast_reverse]
      · rw [reverse_cons]
  exact hgo []

theorem not_mem_collapse (parts : List String) : ".." ∉ collapse parts := by
  rw [collapse_eq_reached]
  exact not_mem_reached (not_mem_nil) parts

theorem not_mem_parts_resolve (here : List String) (p : Path) : ".." ∉ (p.resolve here).parts :=
  not_mem_collapse _

variable {place parts : List String}

theorem resolve_absolute (hdown : ".." ∉ place) (here : List String) :
    (absolute place).resolve here = absolute place := by
  show absolute (collapse place) = absolute place
  rw [collapse_eq_reached, reached_of_not_mem hdown, nil_append]

theorem resolve_join (hdown : ".." ∉ place) {name : String} (hrelative : (parse name).slashes = 0)
    (here : List String) :
    (absolute place / name).resolve here = absolute (reached place (partsOf name)) := by
  have hjoin : absolute place / name = absolute (place ++ partsOf name) := by
    show join (absolute place) name = _
    simp only [join, isAbsolute, hrelative, bne_self_eq_false, Bool.false_eq_true, if_false]
    rfl
  rw [hjoin]
  show absolute (collapse (place ++ partsOf name)) = _
  rw [collapse_eq_reached, reached_append, reached_of_not_mem hdown, nil_append]

theorem size_resolve_le {p : Path} (hanchored : p.isAbsolute) (here : List String) :
    (p.resolve here).text.utf8ByteSize ≤ p.text.utf8ByteSize := by
  have hjoin : (Text.join "/" (collapse p.parts)).utf8ByteSize ≤
      (Text.join "/" p.parts).utf8ByteSize := by
    apply Text.size_join_le
    rw [collapse_eq_reached]
    exact reached_sublist [] p.parts
  obtain ⟨n, hslashes⟩ : ∃ n, p.slashes = n + 1 :=
    Nat.exists_eq_succ_of_ne_zero (by simpa [isAbsolute] using hanchored)
  have htext : p.text = "/" ++ (String.ofList (replicate n '/') ++ Text.join "/" p.parts) := by
    rw [text, hslashes, if_neg (by simp), replicate_succ, ← singleton_append, String.ofList_append,
      String.append_assoc]
  have hresolved : (p.resolve here).text = "/" ++ Text.join "/" (collapse p.parts) := by
    rw [resolve, if_pos hanchored]
    rfl
  rw [htext, hresolved, String.utf8ByteSize_append, String.utf8ByteSize_append,
    String.utf8ByteSize_append]
  omega

theorem isWithin_absolute_iff {dir : List String} :
    (absolute place).isWithin (absolute dir) ↔ dir <+: place := by
  simp [isWithin, absolute]

/-- A part that stays as it is when a path is read: not empty, no single dot, without slashes. -/
def IsName (part : String) : Prop :=
  part ≠ "" ∧ part ≠ "." ∧ '/' ∉ part.toList

instance (part : String) : Decidable (IsName part) :=
  inferInstanceAs (Decidable (_ ∧ _ ∧ _))

theorem isName_of_mem_partsOf {s part : String} (hpart : part ∈ partsOf s) : IsName part := by
  obtain ⟨hpiece, hproper⟩ := mem_filter.mp hpart
  obtain ⟨cs, hcs, rfl⟩ := mem_map.mp hpiece
  rw [Bool.and_eq_true, bne_iff_ne, bne_iff_ne] at hproper
  refine ⟨hproper.1, hproper.2, ?_⟩
  rw [String.toList_ofList]
  exact Text.not_mem_of_mem_splitAt hcs

theorem isName_of_mem_resolve {here : List String} (hhere : ∀ part ∈ here, IsName part)
    (s : String) : ∀ part ∈ ((parse s).resolve here).parts, IsName part := by
  intro part hpart
  have hpart : part ∈ collapse (if (parse s).isAbsolute then partsOf s else here ++ partsOf s) :=
    hpart
  rw [collapse_eq_reached] at hpart
  rcases mem_of_mem_reached hpart with hnone | hpart
  · cases hnone
  · split at hpart
    · exact isName_of_mem_partsOf hpart
    · rcases mem_append.mp hpart with hpart | hpart
      · exact hhere part hpart
      · exact isName_of_mem_partsOf hpart

theorem text_absolute_ne (parts : List String) : (absolute parts).text ≠ "" := by
  intro hempty
  have hchars := congrArg String.toList hempty
  simp [text, absolute] at hchars

theorem cons_toList_join (hparts : parts ≠ []) :
    '/' :: (Text.join "/" parts).toList = parts.flatMap fun part => '/' :: part.toList := by
  induction parts with
  | nil => exact absurd rfl hparts
  | cons part parts ih =>
    cases parts with
    | nil => simp [Text.join]
    | cons next parts =>
      rw [flatMap_cons, ← ih (cons_ne_nil _ _)]
      simp [Text.join]

theorem toList_text_absolute (hparts : parts ≠ []) :
    (absolute parts).text.toList = parts.flatMap fun part => '/' :: part.toList := by
  rw [← cons_toList_join hparts]
  simp [text, absolute]

theorem splitAt_flatMap {front : List Char} (hfront : '/' ∉ front)
    (hparts : ∀ part ∈ parts, '/' ∉ part.toList) :
    Text.splitAt '/' (front ++ parts.flatMap fun part => '/' :: part.toList) =
      front :: parts.map String.toList := by
  induction parts generalizing front with
  | nil =>
    rw [flatMap_nil, append_nil]
    exact Text.splitAt_of_not_mem hfront
  | cons part parts ih =>
    rw [flatMap_cons, cons_append, Text.splitAt_append_cons hfront,
      ih (hparts part mem_cons_self) fun q hq => hparts q (mem_cons_of_mem _ hq)]
    rfl

theorem parse_text (hparts : ∀ part ∈ parts, IsName part) :
    parse (absolute parts).text = absolute parts := by
  cases parts with
  | nil => rfl
  | cons part rest =>
    have hchars := toList_text_absolute (cons_ne_nil part rest)
    have hnames : partsOf (absolute (part :: rest)).text = part :: rest := by
      have hsplit := splitAt_flatMap not_mem_nil fun q hq => (hparts q hq).2.2
      rw [nil_append, ← hchars] at hsplit
      rw [partsOf, Text.split, hsplit]
      simp only [map_cons, map_map, Function.comp_def, String.ofList_toList, map_id']
      rw [filter_cons_of_neg (by decide), filter_eq_self]
      intro q hq
      have hname := hparts q hq
      simp [hname.1, hname.2.1]
    have hslash : ((absolute (part :: rest)).text.toList.takeWhile (· == '/')).length = 1 := by
      obtain ⟨hempty, -, hslash⟩ := hparts part mem_cons_self
      rw [hchars, flatMap_cons]
      cases hpart : part.toList with
      | nil => exact absurd (String.toList_eq_nil_iff.mp hpart) hempty
      | cons c cs =>
        have hc : c ≠ '/' := by
          rintro rfl
          exact hslash (hpart ▸ mem_cons_self)
        simp [hc]
    rw [parse, hnames, hslash]
    rfl

end Path

end JarAtlas
