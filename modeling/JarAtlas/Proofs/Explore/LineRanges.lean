import JarAtlas.Proofs.Explore.Confinement

/-!
Ranges of lines of decompiled code. A range that is asked for is cut off at one end only on each
side and then put in order, so it lies within the file exactly if it starts no later than the file
ends and ends no earlier than the file starts. The lines around a text are always such a range, and
asking for that range gives the same lines.
-/

open List Option

namespace JarAtlas

open Text

open JarAtlas.Action

/-! ### Numbered lines -/

section Numbered

variable {α : Type}

/-- The items whose numbers, counted from one, lie between two bounds. -/
def numbered (first last : Int) (items : List α) : List α :=
  ((items.zipIdx 1).filter fun item => decide (first ≤ item.2 ∧ item.2 ≤ last)).map (·.1)

private theorem filter_zipIdx (first last : Int) (items : List α) (k : Nat) :
    ((items.zipIdx k).filter fun item => decide (first ≤ item.2 ∧ item.2 ≤ last)).map (·.1) =
      (items.take (last + 1 - k).toNat).drop (first - k).toNat := by
  induction items generalizing k with
  | nil => simp
  | cons x items ih =>
    have hmore := ih (k + 1)
    by_cases hlast : last < k
    · -- All numbers from here on are too large.
      have hnone : (last + 1 - k).toNat = 0 ∧ (last + 1 - (k + 1 : Nat)).toNat = 0 := by omega
      rw [hnone.2, take_zero, drop_nil] at hmore
      rw [zipIdx_cons, filter_cons_of_neg (by simp only [decide_eq_true_eq]; omega), hmore,
        hnone.1, take_zero, drop_nil]
    · have htake : (last + 1 - k).toNat = (last + 1 - (k + 1 : Nat)).toNat + 1 := by omega
      rw [zipIdx_cons, htake, take_succ_cons]
      by_cases hfirst : first ≤ k
      · have hdrop : (first - k).toNat = 0 ∧ (first - (k + 1 : Nat)).toNat = 0 := by omega
        rw [hdrop.2, drop_zero] at hmore
        rw [filter_cons_of_pos (by simp only [decide_eq_true_eq]; omega), map_cons, hmore,
          hdrop.1, drop_zero]
      · have hdrop : (first - k).toNat = (first - (k + 1 : Nat)).toNat + 1 := by omega
        rw [filter_cons_of_neg (by simp only [decide_eq_true_eq]; omega), hmore, hdrop,
          drop_succ_cons]

theorem numbered_eq (first last : Int) (items : List α) :
    numbered first last items = (items.take last.toNat).drop (first - 1).toNat := by
  have hfilter := filter_zipIdx first last items 1
  have hlast : last + 1 - (1 : Nat) = last := by omega
  rw [hlast] at hfilter
  exact hfilter

theorem slice_eq_numbered (start : Int) {stop : Int} (hstop : 0 ≤ stop) (items : List α) :
    slice start stop items =
      numbered ((if start < 0 then start + items.length else start) + 1) stop items := by
  have hclamp (i : Int) : (clamp 0 (Int.ofNat items.length) i).toNat = min i.toNat items.length := by
    simp only [clamp, Int.ofNat_eq_natCast]
    omega
  have hshort : (items.take stop.toNat).length ≤ items.length := length_take_le' _ items
  have hdrop (n : Nat) :
      (items.take stop.toNat).drop (min n items.length) = (items.take stop.toNat).drop n := by
    by_cases hle : n ≤ items.length
    · rw [Nat.min_eq_left hle]
    · rw [Nat.min_eq_right (by omega), drop_eq_nil_of_le hshort,
        drop_eq_nil_of_le (by omega)]
  simp only [numbered_eq, slice, if_neg (Int.not_lt.mpr hstop), hclamp]
  rw [← take_eq_take_min, hdrop, Int.add_sub_cancel]
  rfl

end Numbered

/-! ### Ranges -/

/-- Where a range of lines lies: its ends are in order, it starts within the file exactly if it is
not asked to end before the file, and it ends within the file exactly if it is not asked to start
after the file. -/
theorem lineRange_bounds {total : Nat} (htotal : 0 < total) (first last : Option Int) :
    (lineRange total first last).first ≤ (lineRange total first last).last ∧
    1 ≤ (lineRange total first last).last ∧
    (1 ≤ (lineRange total first last).first ↔ ∀ n ∈ last, 1 ≤ n) ∧
    ((lineRange total first last).last ≤ total ↔ ∀ n ∈ first, n ≤ total) := by
  have hlow : (∀ n ∈ last, 1 ≤ n) ↔ 1 ≤ last.getD (Int.ofNat total) := by
    cases last with
    | none =>
      simp only [not_mem_none, false_imp_iff, implies_true, getD_none, true_iff,
        Int.ofNat_eq_natCast]
      omega
    | some n => simp
  have hhigh : (∀ n ∈ first, n ≤ (total : Int)) ↔ first.getD 1 ≤ total := by
    cases first with
    | none =>
      simp only [not_mem_none, false_imp_iff, implies_true, getD_none, true_iff]
      omega
    | some n => simp
  rw [hlow, hhigh, lineRange]
  generalize first.getD 1 = a
  generalize last.getD (Int.ofNat total) = b
  dsimp only [Int.ofNat_eq_natCast]
  split
  · dsimp only
    omega
  · dsimp only
    omega

theorem lineRange_of_within {total : Nat} {first last : Int} (hfirst : 1 ≤ first)
    (hle : first ≤ last) (hlast : last ≤ total) :
    lineRange total (some first) (some last) = ⟨total, first, last⟩ := by
  have ha : max 1 first = first := by omega
  have hb : min (Int.ofNat total) last = last := by
    rw [Int.ofNat_eq_natCast]
    omega
  simp only [lineRange, getD_some, ha, hb]
  exact if_neg (by omega)

/-- The lines of a range are those between its ends, unless it starts before the file: then as many
lines as it starts too early are counted from the end. -/
theorem LineRange.textOf_eq {r : LineRange} (hlast : 1 ≤ r.last) (lines : List (List Char)) :
    r.textOf lines = joinLines
      (numbered (if r.first < 1 then r.first + lines.length else r.first) r.last lines) := by
  rw [textOf, slice_eq_numbered _ (by omega)]
  split
  · have hstart : r.first - 1 + lines.length + 1 = r.first + lines.length := by omega
    rw [if_pos (by omega), hstart]
  · rw [if_neg (by omega), Int.sub_add_cancel]

/-! ### Reading a range -/

def Json.ofInt? : Option Int → Json
  | some n => .int n
  | none => .null

def rangeAnswer (v : ServerVersion) (name : String) (total : Nat) (start stop : Int)
    (content : String) : Json :=
  .obj [("content", .str content), ("file_path", .str name), ("version", .str v.name),
    ("total_lines", .ofNat total), ("start_line", .int start), ("end_line", .int stop)]

theorem sourceJson_range (s : SourceText) (first last : Option Int)
    (hgiven : first ≠ none ∨ last ≠ none) :
    sourceJson s (.ofInt? first) (.ofInt? last) = .ok (rangeAnswer s.version s.name
      (lines s.text).length (lineRange (lines s.text).length first last).first
      (lineRange (lines s.text).length first last).last
      ((lineRange (lines s.text).length first last).textOf (lines s.text))) := by
  have htotal : (lineRange (lines s.text).length first last).total = (lines s.text).length := by
    unfold lineRange
    dsimp only
    split <;> rfl
  have hanswer : sourceJson s (.ofInt? first) (.ofInt? last) = .ok (rangeAnswer s.version s.name
      (lineRange (lines s.text).length first last).total
      (lineRange (lines s.text).length first last).first
      (lineRange (lines s.text).length first last).last
      ((lineRange (lines s.text).length first last).textOf (lines s.text))) := by
    cases first with
    | some a => cases last <;> rfl
    | none =>
      cases last with
      | some b => rfl
      | none => simp at hgiven
  rw [hanswer, htotal]

section Reading

variable {root : Option Path} {base : Path} {v : ServerVersion} {given : String}
  {text : List Char} {h h' : Host}

/-- The ends are in order and within the file, and the content is the lines between them. -/
def IsRangeOf (lines : List (List Char)) (start stop : Int) (content : String) : Prop :=
  1 ≤ start ∧ start ≤ stop ∧ stop ≤ lines.length ∧ content = joinLines (numbered start stop lines)

/-- A range of lines is always answered. It lies within the file and its content is what stands
there exactly if it is asked to start no later than the file ends, and to end no earlier than it
starts. -/
theorem sourceRange_within_iff (hroot : (rootOr root).outcome h = (.ok base, h'))
    (hholds : h'.HoldsDecompiled base v (sourceName given) text) (hlines : Text.lines text ≠ [])
    (first last : Option Int) (hgiven : first ≠ none ∨ last ≠ none) :
    ∃ (start stop : Int) (content : String),
      (showSource root v (.str given) (.ofInt? first) (.ofInt? last)).outcome h =
        (.ok (.ok (rangeAnswer v (sourceName given) (Text.lines text).length start stop content)),
          h') ∧
      (IsRangeOf (Text.lines text) start stop content ↔
        (∀ n ∈ first, n ≤ (Text.lines text).length) ∧ ∀ n ∈ last, 1 ≤ n) ∧
      start ≤ stop ∧
      content = joinLines (numbered
        (if start < 1 then start + (Text.lines text).length else start) stop (Text.lines text)) := by
  obtain ⟨hle, hstop, hlow, hhigh⟩ :=
    lineRange_bounds (length_pos_iff.mpr hlines) first last
  have hcontent := LineRange.textOf_eq hstop (Text.lines text)
  refine ⟨_, _, _, showSource_outcome_of_rootOr hroot hholds (sourceJson_range _ _ _ hgiven), ?_, hle,
    hcontent⟩
  constructor
  · rintro ⟨hstart, -, hend, -⟩
    exact ⟨hhigh.mp hend, hlow.mp hstart⟩
  · rintro ⟨hfirst, hlast⟩
    have hstart := hlow.mpr hlast
    refine ⟨hstart, hle, hhigh.mpr hfirst, ?_⟩
    rw [hcontent, if_neg (by omega)]

end Reading

def linesWorkspace : Host where
  files := ⟨[
    (["w"], .directory), (["w", "workspace"], .directory),
    (["w", "workspace", "decompiled"], .directory),
    (["w", "workspace", "decompiled", "release"], .directory),
    (["w", "workspace", "decompiled", "release", "A.java"], .file (.ofText "one\ntwo\nthree\n") 1)]⟩

theorem holdsDecompiled_linesWorkspace :
    linesWorkspace.HoldsDecompiled (.absolute ["w"]) .release (sourceName "A.java")
      "one\ntwo\nthree\n".toList := by
  have hname : sourceName "A.java" = "A.java" := rfl
  rw [hname]
  exact ⟨by decide, _, _, _, .ofText "one\ntwo\nthree\n", 1, rfl, rfl, rfl, rfl, rfl,
    by decide +kernel⟩

/-- A range that ends after the file is cut off there. One that starts after the file, or ends before
it, does not stay within the file. -/
theorem sourceRange_linesWorkspace :
    (∃ start stop content,
      (showSource (some (.absolute ["w"])) .release (.str "A.java") (.int 2) (.int 9)).outcome
        linesWorkspace = (.ok (.ok (rangeAnswer .release (sourceName "A.java") 3 start stop
          content)), linesWorkspace) ∧
      IsRangeOf (Text.lines "one\ntwo\nthree\n".toList) start stop content) ∧
    (∃ start stop content,
      (showSource (some (.absolute ["w"])) .release (.str "A.java") (.int 5) .null).outcome
        linesWorkspace = (.ok (.ok (rangeAnswer .release (sourceName "A.java") 3 start stop
          content)), linesWorkspace) ∧
      ¬ IsRangeOf (Text.lines "one\ntwo\nthree\n".toList) start stop content) ∧
    ∃ start stop content,
      (showSource (some (.absolute ["w"])) .release (.str "A.java") .null (.int 0)).outcome
        linesWorkspace = (.ok (.ok (rangeAnswer .release (sourceName "A.java") 3 start stop
          content)), linesWorkspace) ∧
      ¬ IsRangeOf (Text.lines "one\ntwo\nthree\n".toList) start stop content := by
  have hroot : (rootOr (some (.absolute ["w"]))).outcome linesWorkspace =
      (.ok (.absolute ["w"]), linesWorkspace) := rfl
  have hcount : (Text.lines "one\ntwo\nthree\n".toList).length = 3 := rfl
  have hlines : Text.lines "one\ntwo\nthree\n".toList ≠ [] := by
    rw [← length_pos_iff, hcount]
    decide
  have hrange (first last : Option Int) (hgiven : first ≠ none ∨ last ≠ none) :=
    sourceRange_within_iff hroot holdsDecompiled_linesWorkspace hlines first last hgiven
  rw [hcount] at hrange
  refine ⟨?_, ?_, ?_⟩
  · obtain ⟨start, stop, content, hshow, hiff, -⟩ := hrange (some 2) (some 9) (by simp)
    exact ⟨start, stop, content, hshow, hiff.mpr (by simp)⟩
  · obtain ⟨start, stop, content, hshow, hiff, -⟩ := hrange (some 5) none (by simp)
    refine ⟨start, stop, content, hshow, ?_⟩
    rw [hiff]
    simp
  · obtain ⟨start, stop, content, hshow, hiff, -⟩ := hrange none (some 0) (by simp)
    refine ⟨start, stop, content, hshow, ?_⟩
    rw [hiff]
    simp

/-! ### The lines around a text -/

def IsFirstLine (target : String) (lines : List (List Char)) (i : Nat) : Prop :=
  (∃ line, lines[i]? = some line ∧ target.toList <:+: line) ∧
    ∀ j < i, ∀ line, lines[j]? = some line → ¬ target.toList <:+: line

theorem lineWith?_eq_none_iff {target : String} {lines : List (List Char)} :
    lineWith? target lines = none ↔ ∀ line ∈ lines, ¬ target.toList <:+: line := by
  simp only [lineWith?, findIdx?_eq_none_iff, occursIn_eq_false_iff]

theorem lineWith?_eq_some_iff {target : String} {lines : List (List Char)} {i : Nat} :
    lineWith? target lines = some i ↔ IsFirstLine target lines i := by
  rw [lineWith?, List.findIdx?_eq_some_iff_getElem]
  constructor
  · rintro ⟨hi, hline, hbefore⟩
    refine ⟨⟨lines[i], List.getElem?_eq_getElem hi, occursIn_iff.mp hline⟩, ?_⟩
    intro j hj line hget
    obtain ⟨_, rfl⟩ := List.getElem?_eq_some_iff.mp hget
    exact occursIn_eq_false_iff.mp (by simpa using hbefore j hj)
  · rintro ⟨⟨line, hget, hline⟩, hbefore⟩
    obtain ⟨hi, rfl⟩ := List.getElem?_eq_some_iff.mp hget
    refine ⟨hi, occursIn_iff.mpr hline, fun j hj => ?_⟩
    rw [Bool.not_eq_true, occursIn_eq_false_iff]
    exact hbefore j hj _ (List.getElem?_eq_getElem (by omega))

def Problem.notInFile (target : String) : Problem :=
  ⟨"not_found", .str ("String '" ++ target ++ "' not found in file"), []⟩

def aroundAnswer (given : String) (version : Json) (target : String) (start stop : Int)
    (content : String) : Json :=
  .obj [("file_path", .str given), ("version", version), ("target", .str target),
    ("start_line", .int start), ("end_line", .int stop), ("content", .str content)]

section Around

variable {root : Option Path} {base : Path} {version : Json} {given target : String}
  {text : List Char} {h h' : Host}

theorem showAround_outcome_of_none (hroot : (rootOr root).outcome h = (.ok base, h'))
    (hholds : h'.HoldsDecompiled base (.ofValue version) (sourceName given) text)
    (hnone : lineWith? target (lines text) = none) (window : Json) :
    (showAround root version (.str given) (.str target) window).outcome h =
      (.ok (Problem.notInFile target).toJson, h') := by
  rw [showAround, bind_of_ok (readSource_outcome_of_rootOr hroot hholds)]
  dsimp only [lineWithValue?]
  rw [hnone]
  rfl

theorem showAround_outcome_of_some (hroot : (rootOr root).outcome h = (.ok base, h'))
    (hholds : h'.HoldsDecompiled base (.ofValue version) (sourceName given) text) {i : Nat}
    (hsome : lineWith? target (lines text) = some i) (window : Int) :
    (showAround root version (.str given) (.str target) (.int window)).outcome h =
      (.ok (aroundAnswer given version target (max 0 (i - window) + 1)
        (min (lines text).length (i + window + 1))
        (joinLines (slice (max 0 (i - window)) (min (lines text).length (i + window + 1))
          (lines text)))), h') := by
  rw [showAround, bind_of_ok (readSource_outcome_of_rootOr hroot hholds)]
  dsimp only [lineWithValue?]
  rw [hsome]
  rfl

/-- The lines around a text are always answered for a file that is there. They hold the first line
with the text, and reading the file with their range gives the same lines. -/
theorem around_agrees_with_range (hroot : (rootOr root).outcome h = (.ok base, h'))
    (hholds : h'.HoldsDecompiled base (.ofValue version) (sourceName given) text)
    (target : String) (window : Nat) :
    ∃ answer, (showAround root version (.str given) (.str target) (.int window)).outcome h =
        (.ok answer, h') ∧
      (answer.get? "error" = some (.str "not_found") ↔
        ∀ line ∈ Text.lines text, ¬ target.toList <:+: line) ∧
      ∀ i, IsFirstLine target (Text.lines text) i → ∃ (start stop : Int) (content : String),
        answer = aroundAnswer given version target start stop content ∧
        start ≤ i + 1 ∧ i + 1 ≤ stop ∧ stop - start ≤ 2 * window ∧
        ∀ (root₁ : Option Path) (base₁ : Path) (h₁ h₂ : Host),
          (rootOr root₁).outcome h₁ = (.ok base₁, h₂) →
          h₂.HoldsDecompiled base₁ (.ofValue version) (sourceName given) text →
          (showSource root₁ (.ofValue version) (.str given) (.int start) (.int stop)).outcome h₁ =
            (.ok (.ok (rangeAnswer (.ofValue version) (sourceName given) (Text.lines text).length
              start stop content)), h₂) := by
  cases hline : lineWith? target (Text.lines text) with
  | none =>
    refine ⟨_, showAround_outcome_of_none hroot hholds hline _,
      iff_of_true rfl (lineWith?_eq_none_iff.mp hline), fun i hi => ?_⟩
    rw [lineWith?_eq_some_iff.mpr hi] at hline
    cases hline
  | some i =>
    have hfirst := lineWith?_eq_some_iff.mp hline
    obtain ⟨⟨line, hget, hoccurs⟩, -⟩ := hfirst
    obtain ⟨hi, -⟩ := List.getElem?_eq_some_iff.mp hget
    refine ⟨_, showAround_outcome_of_some hroot hholds hline _, iff_of_false ?_ ?_, ?_⟩
    · simp [aroundAnswer, Json.get?, Json.lookup]
    · exact fun hnone => hnone line (mem_of_getElem? hget) hoccurs
    · intro j hj
      obtain rfl : i = j := Option.some.inj (hline.symm.trans (lineWith?_eq_some_iff.mpr hj))
      have hlow : max 0 ((i : Int) - window) + 1 ≤ i + 1 := by omega
      have hhigh : (i : Int) + 1 ≤ min ((Text.lines text).length : Int) (i + window + 1) := by omega
      refine ⟨_, _, _, rfl, hlow, hhigh, by omega, ?_⟩
      intro root₁ base₁ h₁ h₂ hroot₁ hholds₁
      apply showSource_outcome_of_rootOr hroot₁ hholds₁
      have hrange := sourceJson_range ⟨sourceName given, .ofValue version, text⟩
        (some (max 0 ((i : Int) - window) + 1))
        (some (min ((Text.lines text).length : Int) (i + window + 1))) (by simp)
      dsimp only at hrange
      rw [lineRange_of_within (by omega) (by omega) (by omega), LineRange.textOf,
        Int.add_sub_cancel] at hrange
      exact hrange

end Around

/-- The line before the last and its neighbours are shown for a window of one, and nothing is found
for a text across two lines. -/
theorem around_linesWorkspace :
    (∃ start stop content,
      (showAround (some (.absolute ["w"])) (.str "release") (.str "A.java") (.str "w")
        (.int 1)).outcome linesWorkspace =
        (.ok (aroundAnswer "A.java" (.str "release") "w" start stop content), linesWorkspace) ∧
      start ≤ 2 ∧ 2 ≤ stop ∧ stop - start ≤ 2 ∧
      (showSource (some (.absolute ["w"])) (.ofValue (.str "release")) (.str "A.java") (.int start)
        (.int stop)).outcome linesWorkspace =
          (.ok (.ok (rangeAnswer (.ofValue (.str "release")) (sourceName "A.java")
            (Text.lines "one\ntwo\nthree\n".toList).length start stop content)),
            linesWorkspace)) ∧
    ∃ answer, (showAround (some (.absolute ["w"])) (.str "release") (.str "A.java") (.str "e\nt")
        (.int 0)).outcome linesWorkspace = (.ok answer, linesWorkspace) ∧
      answer.get? "error" = some (.str "not_found") := by
  have hversion : ServerVersion.ofValue (.str "release") = .release := rfl
  have hroot : (rootOr (some (.absolute ["w"]))).outcome linesWorkspace =
      (.ok (.absolute ["w"]), linesWorkspace) := rfl
  have hholds : linesWorkspace.HoldsDecompiled (.absolute ["w"]) (.ofValue (.str "release"))
      (sourceName "A.java") "one\ntwo\nthree\n".toList := by
    rw [hversion]
    exact holdsDecompiled_linesWorkspace
  constructor
  · obtain ⟨answer, hshow, -, hfound⟩ := around_agrees_with_range hroot hholds "w" 1
    have hfirst : IsFirstLine "w" (Text.lines "one\ntwo\nthree\n".toList) 1 :=
      lineWith?_eq_some_iff.mp rfl
    obtain ⟨start, stop, content, rfl, hstart, hstop, hsize, hread⟩ := hfound 1 hfirst
    exact ⟨start, stop, content, hshow, hstart, hstop, hsize, hread _ _ _ _ hroot hholds⟩
  · obtain ⟨answer, hshow, hnone, -⟩ := around_agrees_with_range hroot hholds "e\nt" 0
    exact ⟨answer, hshow, hnone.mpr (lineWith?_eq_none_iff.mp rfl)⟩

end JarAtlas
