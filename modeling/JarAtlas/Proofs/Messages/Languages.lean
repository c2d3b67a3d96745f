import JarAtlas.Messages.Phrase
import JarAtlas.Proofs.Explore.Search
import JarAtlas.Proofs.Workspace.RoundTrip

/-!
Language files. A language is listed under the name of its file in lower case, but its file is
looked for under the short code. Both are the same file exactly if the name of the file is its own
short code.
-/

open List

namespace JarAtlas

open JarAtlas.Action

namespace Text

/-- What `rowValue?` adds to a number leaves it at `bound` or above. -/
def staysAbove (bound : Int) (start : Nat) : List (Nat × Nat × Nat × Int) → Bool
  | [] => true
  | (gap, count, step, value) :: rest =>
    bound ≤ start + gap + value && staysAbove bound (start + (gap + (count - 1) * step + 1)) rest

theorem le_of_staysAbove {bound value : Int} {start n : Nat} {rows : List (Nat × Nat × Nat × Int)}
    (hrows : staysAbove bound start rows) (hvalue : rowValue? rows n = some value) :
    bound ≤ start + n + value := by
  induction rows generalizing start n with
  | nil => cases hvalue
  | cons row rows ih =>
    obtain ⟨gap, count, step, shift⟩ := row
    rw [staysAbove, Bool.and_eq_true, decide_eq_true_eq] at hrows
    rw [rowValue?] at hvalue
    split at hvalue
    · cases hvalue
    · split at hvalue
      · split at hvalue
        · cases hvalue
          omega
        · cases hvalue
      · have hrest := ih hrows.2 hvalue
        omega

theorem flatMap_toList_cons {s : String} {cs rest : List Char} {lines : List String}
    (hs : s = String.ofList cs) (hrest : lines.flatMap String.toList = rest) :
    (s :: lines).flatMap String.toList = cs ++ rest := by
  rw [flatMap_cons, hrest, hs, String.toList_ofList]

theorem staysAbove_lowerRuns : staysAbove 48 0 lowerRuns := by
  have hrows {cs : List Char} (lines : List String) (hlines : lines.flatMap String.toList = cs)
      (habove : staysAbove 48 0 (rows.go (integers.go false 0 cs))) :
      staysAbove 48 0 (rows lines) := by
    rwa [rows, integers, hlines]
  apply hrows
  · -- Taken apart line by line, the table is quickly evaluated.
    repeat
      apply flatMap_toList_cons
      · exact rfl
    exact flatMap_nil
  · decide +kernel

theorem ofNat_ne_slash {n : Nat} (hn : 47 < n) : Char.ofNat n ≠ '/' := by
  intro hslash
  have hnat := congrArg Char.toNat hslash
  by_cases hvalid : n.isValidChar
  · rw [Char.ofNat, dif_pos hvalid] at hnat
    exact absurd (hnat : n = 47) (Nat.ne_of_gt hn)
  · rw [Char.ofNat, dif_neg hvalid] at hnat
    cases hnat

theorem slash_notMem_lowerChar {c : Char} (hc : c ≠ '/') : '/' ∉ lowerChar c := by
  rw [lowerChar]
  split
  · next hsmall =>
    have hascii : ∀ n < 0x80, (Char.ofNat n).toLower = '/' → Char.ofNat n = '/' := by
      decide +kernel
    have hlow := hascii c.toNat hsmall
    rw [Char.ofNat_toNat] at hlow
    exact mem_singleton.not.mpr fun hslash => hc (hlow hslash.symm)
  · split
    · decide
    · -- The other letters lie above the slash, and so do their small forms.
      refine mem_singleton.not.mpr (Ne.symm (ofNat_ne_slash ?_))
      rw [shiftBy, Int.ofNat_eq_natCast]
      cases hvalue : rowValue? lowerRuns c.toNat with
      | none =>
        rw [Option.getD_none]
        omega
      | some value =>
        have hbound := le_of_staysAbove staysAbove_lowerRuns hvalue
        rw [Option.getD_some]
        omega

theorem slash_notMem_lower {s : String} (hs : '/' ∉ s.toList) : '/' ∉ (lower s).toList := by
  have hgo : ∀ within cs, '/' ∉ cs → '/' ∉ lowerChars.go within cs [] := by
    intro within cs hcs
    induction cs generalizing within with
    | nil => exact not_mem_nil
    | cons c cs ih =>
      obtain ⟨hc, hcs⟩ := ne_and_not_mem_of_not_mem_cons hcs
      rw [lowerChars_go_cons, lowerChars_go_eq, mem_append, reverseAux_eq, append_nil,
        reverse_reverse]
      refine not_or.mpr ⟨?_, ih _ hcs⟩
      split
      · decide
      · exact slash_notMem_lowerChar (Ne.symm hc)
  rw [lower, String.toList_ofList, lowerChars_eq_go]
  exact hgo false _ hs

end Text

namespace Messages

def languageCode (name : String) : String :=
  Text.lower (Path.cutName name).1

theorem codes_of_mapM {names : List String} {found : List (String × Json)} {h h' : Host}
    (hrun : (names.mapM fun name => do
      let messages ← catalogue (languageCode name)
      let called ← Action.ofExcept (message? messages (.str "_name"))
      return (languageCode name, called.getD (.str (languageCode name)))).outcome h =
        (.ok found, h')) : found.map Prod.fst = names.map languageCode := by
  induction names generalizing found h h' with
  | nil =>
    obtain ⟨rfl, -⟩ := pure_ok hrun
    rfl
  | cons name names ih =>
    rw [mapM_cons] at hrun
    obtain ⟨first, h₁, hfirst, hrun⟩ := bind_ok_iff.mp hrun
    obtain ⟨rest, h₂, hrest, hrun⟩ := bind_ok_iff.mp hrun
    obtain ⟨messages, h₃, -, hfirst⟩ := bind_ok_iff.mp hfirst
    obtain ⟨called, h₄, -, hfirst⟩ := bind_ok_iff.mp hfirst
    obtain ⟨rfl, -⟩ := pure_ok hfirst
    obtain ⟨rfl, -⟩ := pure_ok hrun
    rw [map_cons, map_cons, ih hrest]

variable {h : Host} {dir root : Path} {name : String}

theorem slash_notMem_normalizeLocale {s : String} (hs : '/' ∉ s.toList) :
    '/' ∉ (normalizeLocale s).toList := by
  rw [normalizeLocale]
  split
  · decide
  · refine Text.slash_notMem_lower fun hmem => hs ?_
    rw [Text.strip, String.toList_ofList, String.toList_ofList] at hmem
    exact ( takeWhile_prefix _).subset (Text.mem_of_mem_trimBy hmem)

theorem slash_notMem_languageCode (hname : '/' ∉ name.toList) :
    '/' ∉ (languageCode name).toList := by
  refine Text.slash_notMem_lower ?_
  rw [Path.cutName]
  cases hsplit : Text.splitLast? '.' name.toList with
  | none => exact hname
  | some halves =>
    obtain ⟨stem, ending⟩ := halves
    obtain ⟨hcut, -⟩ := Text.splitLast?_eq_some hsplit
    rw [hcut, mem_append] at hname
    dsimp only
    split
    · rw [hcut]
      exact fun hmem => hname (mem_append.mp hmem)
    · simpa using fun hmem => hname (.inl hmem)

theorem join_of_ending (hending : Text.endsWith name ".json") (hname : '/' ∉ name.toList) :
    dir / name = ⟨dir.slashes, dir.parts ++ [name]⟩ := by
  have hproper : name ≠ "" ∧ name ≠ "." := by
    constructor <;> rintro rfl <;> exact absurd hending (by decide)
  have hparts : Path.partsOf name = [name] := by
    rw [Path.partsOf, Text.split, Text.splitAt_of_not_mem hname]
    simp [hproper]
  have hnone : name.toList.takeWhile (· == '/') = [] := by
    cases hchars : name.toList with
    | nil => rfl
    | cons c cs =>
      rw [hchars] at hname
      exact takeWhile_cons_of_neg (by simpa using Ne.symm (ne_of_not_mem_cons hname))
  show Path.join dir name = _
  rw [Path.join, Path.parse, hparts, hnone]
  rfl

theorem locate_join {goal : Place} (hending : Text.endsWith name ".json")
    (hslash : '/' ∉ name.toList) (hleads : h.files.locate h.here (dir / name) = .ok goal) :
    goal = h.meant dir ++ [name] := by
  have hdown : name ≠ ".." := by
    rintro rfl
    exact absurd hending (by decide)
  rw [Host.eq_meant_of_locate hleads, join_of_ending hending hslash, Host.meant,
    FileTree.reached_append]
  show FileTree.reached (h.meant dir) [name] = _
  simp [FileTree.reached, hdown]

theorem mem_names {t : FileTree} {place : Place} {node : Node}
    (hget : t.get? (place ++ [name]) = some node) : name ∈ t.names place := by
  have hmem : (place ++ [name], node) ∈ t.nodes := by
    rw [FileTree.get?, if_neg (by simp)] at hget
    obtain ⟨⟨other, _⟩, hfound, rfl⟩ := Option.map_eq_some_iff.mp hget
    obtain ⟨hother, -⟩ := find?_eq_some_iff_append.mp hfound
    obtain rfl := eq_of_beq hother
    exact mem_of_find?_eq_some hfound
  have hbelow : (place ++ [name], node) ∈ t.below place := by
    rw [FileTree.below]
    refine mem_map.mpr ⟨(_, _), (mergeSort_perm _ _).mem_iff.mpr (mem_map_of_mem ?_), rfl⟩
    exact mem_filter.mpr ⟨hmem, by simp⟩
  exact mem_filterMap.mpr ⟨_, mem_filter.mpr ⟨hbelow, by simp⟩, getLast?_concat⟩

theorem endsWith_fileName (l : String) : Text.endsWith (fileName l) ".json" := by
  simp [Text.endsWith, fileName]

theorem slash_notMem_fileName {l : String} (hl : '/' ∉ l.toList) : '/' ∉ (fileName l).toList := by
  rw [fileName, String.toList_append, mem_append, not_or]
  exact ⟨hl, by decide⟩

variable {place : Place} {content : Content} {settings : Json}

/-- A listed language can be chosen, and its messages are then looked up in its own file, exactly if
the short code of the language gives back the name of the file. -/
theorem listed_language_iff (hsource : h.messageSource = .folder dir)
    (hplace : h.files.locate h.here dir = .ok place) (hending : Text.endsWith name ".json")
    (hslash : '/' ∉ name.toList) (hfile : h.Holds (dir / name) content)
    (hsaved : (Settings.load root).outcome h = (.ok settings, h))
    (hlang : Settings.given? settings "lang" = .ok (some (.str (languageCode name)))) :
    (∀ found h', available.outcome h = (.ok found, h') →
      languageCode name ∈ found.map Prod.fst) ∧
    (((isAvailable (languageCode name)).outcome h = (.ok true, h) ∧
        ∃ l, (locale root).outcome h = (.ok l, h) ∧
          h.files.locate h.here (dir / fileName l) = h.files.locate h.here (dir / name)) ↔
      fileName (normalizeLocale (languageCode name)) = name) ∧
    ∀ l messages, (h.messages.find? fun m => m.1 == l) = none →
      (readLanguage (dir / fileName l)).outcome h = (.ok messages, h) →
      ((catalogue l).outcome h).1 = .ok messages := by
  obtain ⟨-, goal, time, hleads, hget⟩ := id hfile
  have hgoal := locate_join hending hslash hleads
  refine ⟨fun found h' hrun => ?_, ?_, fun l messages hnew hread => ?_⟩
  · rw [available, outcome_get_bind, hsource] at hrun
    simp only [hplace] at hrun
    rw [codes_of_mapM hrun]
    rw [hgoal, ← Host.eq_meant_of_locate hplace] at hget
    exact mem_map_of_mem (mem_filter.mpr ⟨mem_names hget, hending⟩)
  · have hlocale : (locale root).outcome h = (.ok (normalizeLocale (languageCode name)), h) := by
      rw [locale, bind_of_ok hsaved, hlang]
      rfl
    have hasks : (isAvailable (languageCode name)).outcome h =
        (Action.isThere (dir / fileName (normalizeLocale (languageCode name)))).outcome h := by
      rw [isAvailable, outcome_get_bind, hsource]
    constructor
    · rintro ⟨-, l, hl, hsame⟩
      obtain rfl := ok_unique hlocale hl
      have hshort := slash_notMem_normalizeLocale (slash_notMem_languageCode hslash)
      have hsecond := locate_join (endsWith_fileName _) (slash_notMem_fileName hshort)
        (hsame.trans hleads)
      simpa using hsecond.symm.trans hgoal
    · intro heq
      rw [hasks, heq]
      exact ⟨hfile.isThere_eq, _, hlocale, by rw [heq]⟩
  · rw [catalogue, outcome_get_bind, hnew, hsource]
    dsimp only
    rw [bind_of_ok hread]
    rfl

/-- A machine with the files `FR.json` and `de.json`, where the language of the project is set. -/
def languageMachine (code : String) : Host where
  files := ⟨[
    (["loc"], .directory), (["loc", "FR.json"], .file (.ofText "\x7b\x7d") 1),
    (["loc", "de.json"], .file (.ofText "\x7b\x7d") 1), (["w"], .directory),
    (["w", settingsName], .file (.ofText (Json.obj [("lang", .str code)]).pretty) 1)]⟩
  messageSource := .folder (.absolute ["loc"])

/-- German can be chosen by its code. French is looked up in another file. -/
theorem listed_languageMachine :
    (isAvailable "de").outcome (languageMachine "de") = (.ok true, languageMachine "de") ∧
    ¬ ((isAvailable "fr").outcome (languageMachine "fr") = (.ok true, languageMachine "fr") ∧
      ∃ l, (locale (.absolute ["w"])).outcome (languageMachine "fr") =
          (.ok l, languageMachine "fr") ∧
        (languageMachine "fr").files.locate [] (Path.absolute ["loc"] / fileName l) =
          (languageMachine "fr").files.locate [] (Path.absolute ["loc"] / "FR.json")) := by
  have hchosen (code : String) (hplain : (Json.obj [("lang", .str code)]).all Json.isPlain) :
      (Settings.load (.absolute ["w"])).outcome (languageMachine code) =
        (.ok (.obj [("lang", .str code)]), languageMachine code) :=
    Settings.load_of_holds rfl hplain ⟨by decide, ["w", settingsName], 1, rfl, rfl⟩
  have hgerman := @listed_language_iff _ _ _ "de.json" _ _ _ rfl rfl (by decide) (by decide)
    ⟨rfl, _, _, rfl, rfl⟩ (hchosen "de" (by decide +kernel)) rfl
  have hfrench := @listed_language_iff _ _ _ "FR.json" _ _ _ rfl rfl (by decide) (by decide)
    ⟨rfl, _, _, rfl, rfl⟩ (hchosen "fr" (by decide +kernel)) rfl
  exact ⟨(hgerman.2.1.mpr rfl).1, hfrench.2.1.not.mpr (by decide)⟩

end Messages

end JarAtlas
