import JarAtlas.Explore.CallFlow
import JarAtlas.Proofs.Explore.Usages
import Mathlib.Data.List.Perm.Basic

/-!
Uses up to a limit, and by package and class. A smaller limit leaves the first of the same uses.
Who calls a method is told from these uses, and grouping them by package and class neither loses nor
adds one.
-/

open List

namespace JarAtlas

open JarAtlas.Action SourceFile Text

/-! ### Uses up to a limit -/

theorem takeUntil_int {α : Type} (n : Nat) (items : List α) :
    takeUntil (.int n) items = .ok (items.take n) := by
  have hzip (k : Nat) : ((items.zipIdx k).takeWhile fun item =>
      !decide ((n : Int) ≤ Int.ofNat item.2)).map (·.1) = items.take (n - k) := by
    induction items generalizing k with
    | nil => simp
    | cons item items ih =>
      by_cases hk : n ≤ k
      · simp [hk, Nat.sub_eq_zero_of_le hk]
      · have hleft : n - k = (n - (k + 1)) + 1 := by omega
        rw [zipIdx_cons, takeWhile_cons_of_pos (by simpa using hk), map_cons, ih,
          hleft, take_succ_cons]
  exact congrArg Except.ok (hzip 0)

/-- One of the words stands at the place, which is one in the text. -/
structure WordPlace.StandsIn (p : WordPlace) (words : List (List Char)) (cs : List Char) :
    Prop where
  mem : p.word ∈ words
  text : p.before ++ (p.word ++ p.after) = cs
  stands : wordStandsAt p.word p.before.getLast? (p.word ++ p.after) = true

section Places

variable {words : List (List Char)}

private theorem exists_place {before rest word : List Char} (hword : word ∈ words)
    (hstands : wordStandsAt word before.getLast? rest) :
    ∃ p : WordPlace, p.before = before ∧ p.StandsIn words (before ++ rest) := by
  obtain ⟨after, rfl⟩ : word <+: rest := by
    simp only [wordStandsAt, Bool.and_eq_true, isPrefixOf_iff_prefix] at hstands
    exact hstands.1.1
  exact ⟨⟨before, word, after⟩, rfl, hword, rfl, hstands⟩

theorem wordLines_go_places (before rest : List Char) (skip : Nat) (found : List Nat) :
    ∃ places : List WordPlace,
      wordLines.go words before.getLast? skip (before.count '\n') found rest =
        found.reverse ++ places.map (·.before.count '\n') ∧
      places.Pairwise (fun p q => p.before.length < q.before.length) ∧
      ∀ p ∈ places, before.length ≤ p.before.length ∧ p.StandsIn words (before ++ rest) := by
  -- `before` was read already; nothing is found in what is still to be skipped.
  induction rest generalizing before skip found with
  | nil =>
    by_cases hlast : (skip == 0 && words.any (wordStandsAt · before.getLast? [])) = true
    · obtain ⟨word, hword, hstands⟩ := any_eq_true.mp (Bool.and_eq_true_iff.mp hlast).2
      obtain ⟨p, rfl, hp⟩ := exists_place hword hstands
      exact ⟨[p], by simp [wordLines.go, hlast], pairwise_singleton _ _, by simpa using hp⟩
    · exact ⟨[], by simp [wordLines.go, hlast], .nil, by simp⟩
  | cons c cs ih =>
    have hnext : (before ++ [c]).count '\n' =
        if c == '\n' then before.count '\n' + 1 else before.count '\n' := by
      rw [count_append, count_singleton]
      split <;> rfl
    have hstep (skip : Nat) (found : List Nat) := ih (before ++ [c]) skip found
    simp only [getLast?_concat, hnext, append_assoc, singleton_append,
      length_append, length_singleton] at hstep
    have hweak {places : List WordPlace} (hplaces : ∀ p ∈ places,
        before.length + 1 ≤ p.before.length ∧ p.StandsIn words (before ++ c :: cs)) :
        ∀ p ∈ places, before.length ≤ p.before.length ∧ p.StandsIn words (before ++ c :: cs) :=
      fun p hp => ⟨Nat.le_of_succ_le (hplaces p hp).1, (hplaces p hp).2⟩
    by_cases hskip : skip = 0
    · cases hfind : words.find? (wordStandsAt · before.getLast? (c :: cs)) with
      | none =>
        obtain ⟨places, hlines, hordered, hplaces⟩ := hstep 0 found
        exact ⟨places, by simpa [wordLines.go, hskip, hfind] using hlines, hordered,
          hweak hplaces⟩
      | some word =>
        obtain ⟨places, hlines, hordered, hplaces⟩ :=
          hstep (word.length - 1) (before.count '\n' :: found)
        have hstands := find?_some hfind
        obtain ⟨p, rfl, hp⟩ := exists_place (mem_of_find?_eq_some hfind) hstands
        refine ⟨p :: places, by simpa [wordLines.go, hskip, hfind] using hlines, ?_, ?_⟩
        · exact pairwise_cons.mpr ⟨fun q hq => (hplaces q hq).1, hordered⟩
        · exact forall_mem_cons.mpr ⟨⟨Nat.le_refl _, hp⟩, hweak hplaces⟩
    · obtain ⟨places, hlines, hordered, hplaces⟩ := hstep (skip - 1) found
      exact ⟨places, by simpa [wordLines.go, hskip] using hlines, hordered, hweak hplaces⟩

theorem exists_places_usagesIn (words : List (List Char)) (f : SourceFile) :
    ∃ places : List WordPlace,
      places.Pairwise (fun p q => p.before.length < q.before.length) ∧
      List.Forall₂ (fun u p => u.Tells f p ∧ p.StandsIn words f.text) (usagesIn words f)
        places := by
  obtain ⟨places, hlines, hordered, hplaces⟩ := @wordLines_go_places words [] f.text 0 []
  replace hlines : wordLines words f.text = places.map (·.before.count '\n') := hlines
  suffices hkept : ∃ kept, kept <+: places ∧ List.Forall₂
      (fun u p => u.Tells f p ∧ p.StandsIn words f.text) (usagesIn words f) kept by
    obtain ⟨kept, hfirst, htells⟩ := hkept
    exact ⟨kept, hordered.sublist hfirst.sublist, htells⟩
  unfold usagesIn
  rw [hlines]
  clear hlines hordered
  induction places with
  | nil => exact ⟨[], nil_prefix, .nil⟩
  | cons p places ih =>
    obtain ⟨hp, hplaces⟩ := forall_mem_cons.mp hplaces
    cases hline : (lines f.text)[p.before.count '\n']? with
    | none => exact ⟨[], nil_prefix, by simp [hline]⟩
    | some text =>
      obtain ⟨kept, hfirst, htells⟩ := ih hplaces
      refine ⟨p :: kept, cons_prefix_cons.mpr ⟨rfl, hfirst⟩, ?_⟩
      simp only [map_cons, hline, takeWhile_cons_of_pos, Option.isSome_some,
        filterMap_cons, Option.map_some]
      exact .cons ⟨⟨rfl, rfl, text, hline, rfl⟩, hp.2⟩ htells

end Places

variable {root : Option Path} {v : ServerVersion} {target : String} {h h' : Host} {dir : Path}
  {found : List Usage}

theorem findUsages_outcome {base : Path} (hroot : (rootOr root).outcome h = (.ok base, h'))
    (hdir : (Layout.decompiled base v.name).outcome h' = (.ok dir, h'))
    (hisDir : (isDir dir).outcome h' = (.ok true, h')) (n : Nat) :
    (findUsages root v (.str target) (.int n)).outcome h =
      (.ok (.ok ((usages (below h' dir) (wordsOf target)).take n)), h') := by
  have hwords : (ofExcept (wordsOfValue (.str target))).outcome h' =
      (.ok (wordsOf target), h') := rfl
  rw [findUsages, bind_of_ok hroot, bind_of_ok hdir,
    outcome_get_bind, bind_of_ok hisDir, Bool.not_true,
    if_neg Bool.false_ne_true, bind_of_ok hwords]
  split
  · next hnone =>
    have hempty : below h' dir = [] := by
      rw [below, isEmpty_iff.mp hnone]
      rfl
    rw [hempty]
    simp [usages]
  · rw [takeUntil_int]
    rfl

theorem findUsages_outcome_take (root : Option Path) (v : ServerVersion) (target : String)
    (h : Host) :
    ∃ (all : Except Fault (Except Problem (List Usage))) (h' : Host),
      (∀ n : Nat, (findUsages root v (.str target) (.int n)).outcome h =
        (all.map (Except.map (take n)), h')) ∧
      ∀ found, all = .ok (.ok found) → ∃ base dir,
        (rootOr root).outcome h = (.ok base, h') ∧
        (Layout.decompiled base v.name).outcome h' = (.ok dir, h') ∧
        found = usages (below h' dir) (wordsOf target) := by
  rcases hroot : (rootOr root).outcome h with ⟨e | base, h₁⟩
  · exact ⟨.error e, h₁, fun n => by rw [findUsages, outcome_bind, hroot]; rfl, by simp⟩
  rcases hdir : (Layout.decompiled base v.name).outcome h₁ with ⟨e | dir, h₂⟩
  · refine ⟨.error e, h₂, fun n => ?_, by simp⟩
    rw [findUsages, bind_of_ok hroot, outcome_bind, hdir]
    rfl
  obtain rfl := (Layout.reads_decompiled base v.name).host_eq hdir
  rcases hisDir : (isDir dir).outcome h₂ with ⟨e | isDir, h₃⟩
  · refine ⟨.error e, h₃, fun n => ?_, by simp⟩
    rw [findUsages, bind_of_ok hroot, bind_of_ok hdir,
      outcome_get_bind, outcome_bind, hisDir]
    rfl
  obtain rfl := (reads_isDir dir).host_eq hisDir
  cases isDir with
  | false =>
    refine ⟨.ok (.error ⟨"no_source", .str ("Source directory for " ++ v.name ++ " not found."),
      []⟩), h₃, fun n => ?_, by simp⟩
    rw [findUsages, bind_of_ok hroot, bind_of_ok hdir,
      outcome_get_bind, bind_of_ok hisDir]
    rfl
  | true =>
    exact ⟨.ok (.ok _), h₃, findUsages_outcome hroot hdir hisDir, fun found hfound =>
      ⟨base, dir, rfl, hdir, (Except.ok.inj (Except.ok.inj hfound)).symm⟩⟩

/-- What is found with a limit are the first of the uses that are found with a larger one, and never
more than the limit. They are told file after file, and in each file from left to right. -/
theorem findUsages_first_of_more (root : Option Path) (v : ServerVersion) (target : String)
    (h : Host) {a b : Nat} (hab : a ≤ b) :
    ∃ (answer : Except Fault (Except Problem (List Usage))) (h' : Host),
      (findUsages root v (.str target) (.int b)).outcome h = (answer, h') ∧
      (findUsages root v (.str target) (.int a)).outcome h =
        (answer.map (Except.map (List.take a)), h') ∧
      ∀ found, answer = .ok (.ok found) → found.length ≤ b ∧ ∃ base dir,
        (rootOr root).outcome h = (.ok base, h') ∧
        (Layout.decompiled base v.name).outcome h' = (.ok dir, h') ∧
        found = ((SourceFile.below h' dir).flatMap (usagesIn (wordsOf target))).take b ∧
        ∀ f ∈ SourceFile.below h' dir, ∃ places : List WordPlace,
          places.Pairwise (fun p q => p.before.length < q.before.length) ∧
          List.Forall₂ (fun u p => u.Tells f p ∧ p.StandsIn (wordsOf target) f.text)
            (usagesIn (wordsOf target) f) places := by
  obtain ⟨all, h', houtcome, hall⟩ := findUsages_outcome_take root v target h
  refine ⟨_, h', houtcome b, ?_, ?_⟩
  · rw [houtcome a]
    rcases all with e | e | found
    · rfl
    · rfl
    · simp [Except.map, take_take, Nat.min_eq_left hab]
  · intro found hfound
    rcases all with e | e | every
    · cases hfound
    · cases hfound
    · obtain rfl := Except.ok.inj (Except.ok.inj hfound)
      obtain ⟨base, dir, hroot, hdir, rfl⟩ := hall every rfl
      exact ⟨length_take_le _ _, base, dir, hroot, hdir, rfl,
        fun f _ => exists_places_usagesIn _ f⟩

/-- Of the two uses in a file with pages, a limit of one leaves the first. -/
theorem findUsages_one_pagesWorkspace :
    (findUsages (some (.absolute ["w"])) .release (.str "Foo") (.int 1)).outcome pagesWorkspace =
      (.ok (.ok [⟨"A.java", 1, "Foo"⟩]), pagesWorkspace) := by
  obtain ⟨answer, h', hmore, hone, -⟩ := findUsages_first_of_more (some (.absolute ["w"])) .release
    "Foo" pagesWorkspace (by decide : 1 ≤ 100)
  obtain ⟨rfl, rfl⟩ := Prod.mk.inj (hmore.symm.trans findUsages_pagesWorkspace)
  exact hone

/-! ### Uses by package and class -/

theorem flatMap_filter_perm {α : Type} (key : α → String) {keys : List String} {items : List α}
    (hkeys : keys.Nodup) (hall : ∀ item ∈ items, key item ∈ keys) :
    (keys.flatMap fun k => items.filter fun item => key item == k).Perm items := by
  induction keys generalizing items with
  | nil =>
    have hnone : items = [] := eq_nil_iff_forall_not_mem.mpr fun item hitem =>
      not_mem_nil (hall item hitem)
    simp [hnone]
  | cons k keys ih =>
    obtain ⟨hk, hkeys⟩ := nodup_cons.mp hkeys
    let others := items.filter fun item => !(key item == k)
    have hothers : ∀ item ∈ others, key item ∈ keys := by
      intro item hitem
      obtain ⟨hitem, hne⟩ := mem_filter.mp hitem
      exact (mem_cons.mp (hall item hitem)).resolve_left (by simpa using hne)
    have hsame : (keys.flatMap fun k' => items.filter fun item => key item == k') =
        keys.flatMap fun k' => others.filter fun item => key item == k' := by
      refine flatMap_congr fun k' hk' => ?_
      rw [filter_filter]
      refine filter_congr fun item _ => ?_
      have hne : k' ≠ k := fun h => hk (h ▸ hk')
      by_cases hitem : key item = k' <;> simp [hitem, hne]
    rw [flatMap_cons, hsame]
    exact ((ih hkeys hothers).append_left _).trans (filter_append_perm _ items)

theorem Text.suffix_join (sep last : String) (init : List String) :
    last.toList <:+ (join sep (init ++ [last])).toList := by
  induction init with
  | nil => simp [join]
  | cons s init ih =>
    rw [join, cons_append, String.intercalate_cons_of_ne_nil (by simp)]
    simp only [String.toList_append]
    exact ih.trans (suffix_append _ _)

theorem Text.endsWith_iff {s tail : String} :
    endsWith s tail ↔ tail.toList <:+ s.toList := by
  rw [endsWith, isPrefixOf_iff_prefix, reverse_prefix]

theorem SourceFile.java_suffix_path {f : SourceFile}
    (hf : f ∈ below h dir) : ".java".toList <:+ f.path.toList := by
  obtain ⟨⟨p, node⟩, hp, hfile⟩ := mem_filterMap.mp hf
  cases node with
  | directory => cases hfile
  | file content time =>
    cases hfile
    unfold Host.filesBelow at hp
    split at hp
    · cases hp
    · obtain ⟨⟨found, node⟩, -, hfound⟩ := mem_filterMap.mp hp
      dsimp only at hfound
      split at hfound
      · next hends =>
        cases hfound
        obtain ⟨last, hlast, hjava⟩ := (Option.any_eq_true _ _).mp hends
        obtain ⟨init, hrest⟩ := List.getLast?_eq_some_iff.mp hlast
        have hsuffix := (Text.endsWith_iff.mp hjava).trans (Text.suffix_join "/" last init)
        have hkept := hsuffix.map fun c => if c = '\\' then '/' else c
        rw [← Text.replaceAll_singleton '\\' '/' (Text.join _ _).toList] at hkept
        simp only [drop_left, hrest, Text.replace, String.toList_ofList]
        exact hkept
      · cases hfound

theorem Text.exists_splitAt (cs : List Char) :
    ∃ init last, splitAt '/' cs = init ++ [last] ∧ ∀ tail,
      join "/" (init.map String.ofList ++ [String.ofList (last ++ tail)]) =
        String.ofList (cs ++ tail) := by
  induction hn : cs.length using Nat.strong_induction_on generalizing cs with
  | _ n ih =>
    by_cases hmem : '/' ∈ cs
    · obtain ⟨a, rest, rfl, ha⟩ := eq_append_cons_of_mem hmem
      rw [length_append, length_cons] at hn
      obtain ⟨init, last, hsplit, hjoin⟩ := ih rest.length (by omega) rest rfl
      refine ⟨a :: init, last, ?_, fun tail => ?_⟩
      · rw [splitAt_append_cons ha, hsplit, cons_append]
      · have hmore := hjoin tail
        rw [join] at hmore ⊢
        rw [map_cons, cons_append, String.intercalate_cons_of_ne_nil (by simp), hmore]
        apply String.toList_injective
        simp
    · exact ⟨[], cs, splitAt_of_not_mem hmem, fun tail => by simp [join]⟩

theorem exists_parts_ownerOf {path : String} (hjava : ".java".toList <:+ path.toList) :
    ∃ dirs file, (∀ part ∈ dirs ++ [file], '/' ∉ part.toList) ∧
      path = join "/" (dirs ++ [file ++ ".java"]) ∧
      ownerOf path = (if dirs = [] then "unknown" else join "." dirs, file) := by
  have hends := endsWith_iff.mpr hjava
  obtain ⟨base, hbase⟩ := hjava
  obtain ⟨init, last, hsplit, hjoin⟩ := exists_splitAt base
  have hparts : split (String.ofList (path.toList.take (path.length - 5))) '/' =
      init.map String.ofList ++ [String.ofList last] := by
    have hlength : path.length - 5 = base.length := by
      rw [← String.length_toList, ← hbase, length_append]
      rfl
    rw [hlength, ← hbase, take_left, split, String.toList_ofList, hsplit, map_append]
    rfl
  refine ⟨init.map String.ofList, String.ofList last, ?_, ?_, ?_⟩
  · intro part hpart
    have hmem : part ∈ (splitAt '/' base).map String.ofList := by
      rw [hsplit, map_append]
      exact hpart
    obtain ⟨piece, hpiece, rfl⟩ := mem_map.mp hmem
    rw [String.toList_ofList]
    exact not_mem_of_mem_splitAt hpiece
  · have hwhole := hjoin ".java".toList
    rw [hbase, String.ofList_toList] at hwhole
    rw [← hwhole, String.ofList_append, String.ofList_toList]
  · simp only [ownerOf, hends, if_true, hparts, getLast?_concat, Option.getD_some,
      dropLast_concat]
    cases init <;> simp

theorem findUsages_owner {limit : Json}
    (hfound : (findUsages root v (.str target) limit).outcome h = (.ok (.ok found), h')) {u : Usage}
    (hu : u ∈ found) : ".java".toList <:+ u.filePath.toList := by
  obtain ⟨base, dir, -, -, hfirst⟩ := findUsages_outcome_ok hfound
  obtain ⟨f, hf, hu⟩ := mem_flatMap.mp (hfirst.subset hu)
  obtain ⟨⟨n, line⟩, -, hline⟩ := mem_filterMap.mp hu
  obtain ⟨text, -, rfl⟩ := Option.map_eq_some_iff.mp hline
  exact java_suffix_path hf

theorem calls_eq_filter {p : PackageCalls} (hp : p ∈ callFlow found) {c : ClassCalls}
    (hc : c ∈ p.classes) :
    c.calls = found.filter fun u => ownerOf u.filePath == (p.name, c.name) := by
  obtain ⟨package, -, rfl⟩ := mem_map.mp hp
  obtain ⟨name, -, rfl⟩ := mem_map.mp hc
  rw [filter_filter]
  refine filter_congr fun u _ => ?_
  rw [Bool.and_comm]
  rfl

theorem callFlow_perm (found : List Usage) :
    ((callFlow found).flatMap fun p => p.classes.flatMap (·.calls)).Perm found := by
  have hgroup (key : Usage → String) (items : List Usage) :
      ((Catalogue.distinctTexts (items.map key)).flatMap fun k =>
        items.filter fun u => key u == k).Perm items :=
    flatMap_filter_perm key (nodup_distinctTexts _) fun u hu =>
      ((distinctTexts_spec _).2 _).mpr (mem_map_of_mem hu)
  rw [callFlow, flatMap_map]
  refine List.Perm.trans (List.Perm.flatMap_left _ fun package _ => ?_) (hgroup _ found)
  rw [flatMap_map]
  exact hgroup _ _

/-- Who calls a method is told from the uses that are found, regrouped: none is lost or added, and
packages and classes rise. -/
theorem findCalls_regroups {root : Option Path} {v : ServerVersion} (target method : Json)
    {limit : Json} {h h' : Host} {found : List Usage}
    (hfound : (findUsages root v (.str (target.display ++ "." ++ method.display)) limit).outcome h =
      (.ok (.ok found), h')) :
    ∃ flow : List PackageCalls,
      (findCalls root v target method limit).outcome h =
        (.ok (.ok (.obj [
          ("version", .str v.name),
          ("target", .str (target.display ++ "." ++ method.display)),
          ("total_usages", .ofNat found.length),
          ("flow", .arr (flow.map PackageCalls.toJson))])), h') ∧
      (flow.flatMap fun p => p.classes.flatMap (·.calls)).Perm found ∧
      flow.Pairwise (fun p q => p.name < q.name) ∧
      ∀ p ∈ flow, p.classes.Pairwise (fun c d => c.name < d.name) ∧
        ∀ c ∈ p.classes, c.calls.Sublist found ∧ ∀ u ∈ c.calls, ∃ dirs,
          (∀ part ∈ dirs ++ [c.name], '/' ∉ part.toList) ∧
          u.filePath = Text.join "/" (dirs ++ [c.name ++ ".java"]) ∧
          p.name = if dirs = [] then "unknown" else Text.join "." dirs := by
  refine ⟨callFlow found, ?_, callFlow_perm found, ?_, fun p hp => ⟨?_, fun c hc => ?_⟩⟩
  · rw [findCalls, bind_of_ok hfound]
    rfl
  · exact pairwise_map.mpr (distinctTexts_spec _).1
  · obtain ⟨package, -, rfl⟩ := mem_map.mp hp
    exact pairwise_map.mpr (distinctTexts_spec _).1
  · rw [calls_eq_filter hp hc]
    refine ⟨filter_sublist, fun u hu => ?_⟩
    obtain ⟨hu, howner⟩ := mem_filter.mp hu
    obtain ⟨dirs, file, hparts, hpath, hfile⟩ := exists_parts_ownerOf (findUsages_owner hfound hu)
    obtain ⟨hpackage, hname⟩ := Prod.mk.inj (hfile.symm.trans (beq_iff_eq.mp howner))
    subst hname
    exact ⟨dirs, hparts, hpath, hpackage.symm⟩

/-- Both uses in a file outside of all directories are calls. -/
theorem findCalls_pagesWorkspace :
    ∃ flow : List PackageCalls,
      (findCalls (some (.absolute ["w"])) .release (.str "A") (.str "Foo") (.int 100)).outcome
        pagesWorkspace = (.ok (.ok (.obj [
          ("version", .str "release"), ("target", .str "A.Foo"), ("total_usages", .ofNat 2),
          ("flow", .arr (flow.map PackageCalls.toJson))])), pagesWorkspace) ∧
      (flow.flatMap fun p => p.classes.flatMap (·.calls)).Perm pagesUsages := by
  have hfound : (findUsages (some (.absolute ["w"])) .release (.str "A.Foo") (.int 100)).outcome
      pagesWorkspace = (.ok (.ok pagesUsages), pagesWorkspace) := by
    have hfirst : (usages (SourceFile.below pagesWorkspace
        (.absolute ["w", "workspace", "decompiled", "release"])) (wordsOf "A.Foo")).take 100 =
          pagesUsages := by decide +kernel
    rw [← hfirst]
    exact findUsages_outcome rfl rfl rfl 100
  obtain ⟨flow, hcalls, hperm, -⟩ := findCalls_regroups (.str "A") (.str "Foo") hfound
  exact ⟨flow, hcalls, hperm⟩

end JarAtlas
