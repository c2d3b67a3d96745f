import JarAtlas.Proofs.Commands.Edits

/-!
Showing an asset. What is shown of an entry of the archive stands for all of its bytes, either as
the text that they encode or in base64, unless the answer has a mark. It has one exactly when there
are more characters than are shown.
-/

namespace JarAtlas

open JarAtlas.Action Json

namespace Settings

theorem reads_fileAt? (p : Option Path) : (fileAt? p).Reads := by
  cases p with
  | none => exact reads_pure _
  | some p => exact (reads_isFile p).bind_pure

theorem reads_ownJar? (root : Path) (name : String) : (ownJar? root name).Reads :=
  (reads_load root).bind fun _ => (reads_ofExcept _).bind fun p => reads_fileAt? p

theorem reads_jarOf? (root : Path) (version : String) : (jarOf? root version).Reads := by
  unfold jarOf? releaseJar? prereleaseJar?
  split
  all_goals
    refine (reads_ownJar? root _).bind fun own => ?_
    split
    · exact reads_pure _
    · refine (Detection.reads_jar? root).bind fun jar => ?_
      split
      · exact reads_pure _
      · repeat' split
        all_goals first
          | exact reads_pure _
          | exact Detection.reads_sibling? _

theorem reads_assetArchive? (root : Path) (version : String) :
    (assetArchive? root version).Reads := by
  refine (reads_jarOf? root version).bind fun jar => ?_
  split
  · exact reads_pure _
  · exact (reads_isThere _).bind_pure

end Settings

theorem Json.eq_str_of_asText {v : Json} {s : String} (hv : v.asText = .ok s) : v = .str s := by
  cases v with
  | str t => rw [Except.ok.inj hv]
  | null | bool _ | int _ | double _ | torn _ | misnamed _ | arr _ | obj _ => cases hv

/-- The entry that a path means in an archive, with its bytes. -/
structure Host.HoldsEntry (h : Host) (archive : Path) (path : Json) (e : ArchiveEntry) : Prop where
  found : ∃ name entries, path = .str name ∧ h.Holds archive (.archive entries) ∧
    entryNamed? entries (Text.replace name "\\" "/") = some e
  unlocked : e.isLocked = false

namespace Assets

theorem reads_readEntry (e : ArchiveEntry) : (readEntry e).Reads := by
  unfold readEntry
  split
  · exact reads_throw _
  · exact reads_pure _

theorem readEntry_outcome_ok {e : ArchiveEntry} {content : Content} {h h' : Host}
    (hread : (readEntry e).outcome h = (.ok content, h')) :
    e.isLocked = false ∧ e.content = content := by
  unfold readEntry at hread
  split at hread
  · simp at hread
  · next hunlocked => exact ⟨by simpa using hunlocked, (pure_ok hread).1⟩

theorem reads_inspect (archive : Path) (path : Json) : (inspect archive path).Reads := by
  refine (reads_isThere archive).bind fun isThere => ?_
  split
  · refine (Reads.attempt ?_).bind fun outcome => ?_
    · refine (reads_readArchive archive).bind fun entries => (reads_ofExcept _).bind fun name => ?_
      split
      · exact reads_pure _
      · exact (reads_readEntry _).bind_pure
    · split <;> exact reads_pure _
  · exact reads_pure _

theorem inspect_outcome_some_iff {h : Host} {archive : Path} {path : Json} {bytes : Bytes} :
    (inspect archive path).outcome h = (.ok (some bytes), h) ↔
      ∃ e, h.HoldsEntry archive path e ∧ e.content.plain = bytes := by
  constructor
  · intro hinspect
    obtain ⟨isThere, -, hrest⟩ := (reads_isThere archive).bind_ok hinspect
    cases isThere with
    | false => cases (pure_ok hrest).1
    | true =>
      rw [if_pos rfl] at hrest
      obtain ⟨outcome, h₁, hattempt, hlast⟩ := bind_ok_iff.mp hrest
      cases outcome with
      | error e => cases (pure_ok hlast).1
      | ok found =>
        obtain ⟨rfl, rfl⟩ := pure_ok hlast
        have hread := attempt_ok hattempt
        obtain ⟨entries, harchive, hrest⟩ := (reads_readArchive archive).bind_ok hread
        obtain ⟨name, hname, hrest⟩ := (reads_ofExcept _).bind_ok hrest
        cases hentry : entryNamed? entries (Text.replace name "\\" "/") with
        | none => simp [hentry] at hrest
        | some e =>
          simp only [hentry] at hrest
          obtain ⟨content, hcontent, hbytes⟩ := (reads_readEntry e).bind_ok hrest
          obtain ⟨hunlocked, rfl⟩ := readEntry_outcome_ok hcontent
          exact ⟨e, ⟨⟨name, entries, eq_str_of_asText (ofExcept_ok hname).1,
            readArchive_outcome_ok_iff.mp harchive, hentry⟩, hunlocked⟩,
            Option.some.inj (pure_ok hbytes).1⟩
  · rintro ⟨e, ⟨⟨name, entries, rfl, hholds, hentry⟩, hunlocked⟩, rfl⟩
    have hread : (readEntry e).outcome h = (.ok e.content, h) := by
      rw [readEntry, hunlocked]
      rfl
    have hname : (ofExcept (str name).asText).outcome h = (.ok name, h) := rfl
    rw [inspect, bind_of_ok hholds.isThere_eq, if_pos rfl,
      bind_of_ok (outcome_attempt _ h),
      bind_of_ok (readArchive_outcome_ok_iff.mpr hholds), bind_of_ok hname]
    simp only [hentry]
    rw [bind_of_ok hread]
    rfl

end Assets

namespace Tools

def contentBytes? (encoding content : String) : Option Bytes :=
  if encoding = "utf-8" then some (Utf8.encode content.toList)
  else if encoding = "base64" then Base64.decode? content.toList
  else none

/-- Bytes that are not shown as a whole: those of a text of more than 50000 characters, and other
bytes that are more than 100000 characters in base64, which has four for every three bytes. -/
def AreMany (bytes : Bytes) : Prop :=
  (∃ cs, Utf8.encode cs = bytes ∧ 50000 < cs.length) ∨
    (∀ cs, Utf8.encode cs ≠ bytes) ∧ 100000 < 4 * ((bytes.length + 2) / 3)

/-- An answer tells bytes: without a mark its content stands for them, and there is a mark exactly
when they are many. -/
structure Tells (fields : List (String × Json)) (bytes : Bytes) : Prop where
  content : ∃ encoding content, Json.lookup "encoding" fields = some (.str encoding) ∧
    Json.lookup "content" fields = some (.str content) ∧
    (Json.lookup "is_truncated" fields = none → contentBytes? encoding content = some bytes)
  marked : Json.lookup "is_truncated" fields = some (.bool true) ↔ AreMany bytes
  unmarked : Json.lookup "is_truncated" fields = none ↔ ¬ AreMany bytes

theorem areMany_encode {cs : List Char} : AreMany (Utf8.encode cs) ↔ 50000 < cs.length := by
  constructor
  · rintro (⟨ds, hds, hlong⟩ | ⟨hnot, -⟩)
    · have hsame : some ds = some cs := by rw [← Utf8.decode?_encode, hds, Utf8.decode?_encode]
      rwa [← Option.some.inj hsame]
    · exact absurd rfl (hnot cs)
  · exact fun hlong => .inl ⟨cs, rfl, hlong⟩

variable {bytes : Bytes} {content encoding : String}

theorem areMany_of_not_text (hnot : ∀ cs, Utf8.encode cs ≠ bytes) :
    AreMany bytes ↔ 100000 < (Base64.encode bytes).length := by
  rw [Base64.length_encode]
  constructor
  · rintro (⟨cs, hcs, -⟩ | ⟨-, hlong⟩)
    · exact absurd hcs (hnot cs)
    · exact hlong
  · exact fun hlong => .inr ⟨hnot, hlong⟩

theorem not_areMany_of_length_le (hfew : bytes.length ≤ 50000) : ¬ AreMany bytes := by
  rintro (⟨cs, rfl, hlong⟩ | ⟨-, hlong⟩)
  · have hbytes := Utf8.length_le_length_encode cs
    omega
  · omega

theorem tells_whole (hbytes : contentBytes? encoding content = some bytes)
    (hfew : ¬ AreMany bytes) :
    Tells [("content", .str content), ("encoding", .str encoding)] bytes where
  content := ⟨encoding, content, by simp [lookup], by simp [lookup], fun _ => hbytes⟩
  marked := by simp [lookup, hfew]
  unmarked := by simp [lookup, hfew]

theorem tells_beginning (hmany : AreMany bytes) :
    Tells [("content", .str content), ("is_truncated", .bool true),
      ("encoding", .str encoding)] bytes where
  content := ⟨encoding, content, by simp [lookup], by simp [lookup],
    by simp [lookup]⟩
  marked := by simp [lookup, hmany]
  unmarked := by simp [lookup, hmany]

theorem Tells.append {fields : List (String × Json)} (htells : Tells fields bytes)
    (front : List (String × Json))
    (hfront : ∀ name ∈ ["content", "encoding", "is_truncated"], name ∉ front.map Prod.fst) :
    Tells (front ++ fields) bytes := by
  have hcontent := lookup_append_of_not_mem (hfront "content" (by simp)) fields
  have hencoding := lookup_append_of_not_mem (hfront "encoding" (by simp)) fields
  have hmark := lookup_append_of_not_mem (hfront "is_truncated" (by simp)) fields
  constructor
  · rw [hcontent, hencoding, hmark]
    exact htells.content
  · rw [hmark]
    exact htells.marked
  · rw [hmark]
    exact htells.unmarked

theorem tells_contentFields (bytes : Bytes) : Tells (contentFields bytes) bytes := by
  unfold contentFields
  cases hdecode : Utf8.decode? bytes with
  | some cs =>
    have hbytes := Utf8.encode_of_decode? hdecode
    have hmany : AreMany bytes ↔ 50000 < cs.length := by rw [← hbytes, areMany_encode]
    dsimp only
    split
    · next hlong =>
      exact (tells_beginning (hmany.mpr hlong)).append [_] (by simp)
    · next hshort =>
      refine tells_whole ?_ (hmany.not.mpr hshort)
      rw [contentBytes?, if_pos rfl, String.toList_ofList, hbytes]
  | none =>
    have hmany := areMany_of_not_text (Utf8.decode?_eq_none_iff.mp hdecode)
    dsimp only
    split
    · next hlong => exact tells_beginning (hmany.mpr hlong)
    · next hshort =>
      refine tells_whole ?_ (hmany.not.mpr hshort)
      rw [contentBytes?, if_neg (by decide), if_pos rfl, String.toList_ofList,
        Base64.decode?_encode]

/-- What is told about an asset before its content. -/
def assetFields (path : Json) (v : ServerVersion) (info : Option Asset) : List (String × Json) :=
  [("path", path), ("version", .str v.name), ("category", .ofText? (info.bind (·.category))),
    ("internal_id", .ofText? (info.bind (·.internalId)))] ++
    ((info.bind Asset.dimensions?).map fun d => ("dimensions", Json.str d)).toList

theorem names_assetFields (path : Json) (v : ServerVersion) (info : Option Asset) :
    (assetFields path v info).map Prod.fst ∈
      [["path", "version", "category", "internal_id"],
        ["path", "version", "category", "internal_id", "dimensions"]] := by
  unfold assetFields
  cases info.bind Asset.dimensions? <;> simp

theorem names_contentFields (bytes : Bytes) : (contentFields bytes).map Prod.fst ∈
    [["content", "encoding"], ["content", "is_truncated", "encoding"],
      ["content_summary", "content", "is_truncated", "encoding"]] := by
  unfold contentFields
  split <;> dsimp only <;> split <;> simp

theorem isFlat_assetFields (name : String) (v : ServerVersion) (info : Option Asset) :
    ∀ field ∈ assetFields (.str name) v info, field.2.IsFlat := by
  unfold assetFields
  cases info.bind Asset.dimensions? <;> cases info.bind (·.category) <;>
    cases info.bind (·.internalId) <;> simp [IsFlat, ofText?]

theorem isFlat_contentFields (bytes : Bytes) : ∀ field ∈ contentFields bytes, field.2.IsFlat := by
  unfold contentFields
  split <;> dsimp only <;> split <;> simp [IsFlat]

theorem parse_assetFields (name : String) (v : ServerVersion) (info : Option Asset)
    (bytes : Bytes) :
    parse (pretty (.obj (assetFields (.str name) v info ++ contentFields bytes))).toList =
      .ok (.obj (assetFields (.str name) v info ++ contentFields bytes)) := by
  refine parse_pretty_of_isFlat ?_ ?_
  · rw [List.map_append]
    have hfront := names_assetFields (.str name) v info
    have hback := names_contentFields bytes
    simp only [List.mem_cons, List.not_mem_nil, or_false] at hfront hback
    rcases hfront with hfront | hfront <;> rcases hback with hback | hback | hback <;>
      rw [hfront, hback] <;> decide
  · exact List.forall_mem_append.mpr ⟨isFlat_assetFields name v info, isFlat_contentFields bytes⟩

theorem tells_assetFields (path : Json) (v : ServerVersion) (info : Option Asset) (bytes : Bytes) :
    Tells (assetFields path v info ++ contentFields bytes) bytes := by
  refine (tells_contentFields bytes).append _ ?_
  have hnames := names_assetFields path v info
  simp only [List.mem_cons, List.not_mem_nil, or_false] at hnames
  rcases hnames with hnames | hnames <;> rw [hnames] <;> decide

/-- An answer about an asset tells the bytes of the entry that the path means in the archive, and
can be read back; any other answer is a problem, and then there is no such entry. -/
theorem inspectAsset_tells {args : Arguments} {answer : Json} {h h' : Host}
    (hrun : (inspectAsset args).outcome h = (.ok answer, h')) :
    ∃ root h₁, (rootOr none).outcome h = (.ok root, h₁) ∧
      ((∃ archive e fields,
        (Settings.assetArchive? root (version args).name).outcome h' = (.ok (some archive), h') ∧
        h'.HoldsEntry archive (args.value "asset_path") e ∧
        answer = .str (Json.pretty (.obj fields)) ∧
        Json.parse (Json.pretty (.obj fields)).toList = .ok (.obj fields) ∧
        Tells fields e.content.plain) ∨
      (∃ kind message, answer = problem kind message) ∧
        ∀ archive e,
          (Settings.assetArchive? root (version args).name).outcome h' = (.ok (some archive), h') →
          ¬ h'.HoldsEntry archive (args.value "asset_path") e) := by
  obtain ⟨root, h₁, hroot, hrest⟩ := bind_ok_iff.mp hrun
  obtain ⟨p, h₂, -, hrest⟩ := bind_ok_iff.mp hrest
  obtain ⟨isThere, h₃, -, hrest⟩ := bind_ok_iff.mp hrest
  refine ⟨root, h₁, hroot, ?_⟩
  dsimp only at hrest
  split at hrest
  -- What is known about the asset does not matter from here on.
  all_goals
    obtain ⟨info, h₄, -, hrest⟩ := bind_ok_iff.mp hrest
    obtain ⟨found, harchive, hrest⟩ :=
      (Settings.reads_assetArchive? root _).bind_ok hrest
    cases found with
    | none =>
      obtain ⟨rfl, rfl⟩ := pure_ok hrest
      refine .inr ⟨⟨_, _, rfl⟩, fun archive e hsome => ?_⟩
      cases ok_unique hsome harchive
    | some archive =>
      obtain ⟨found, hinspect, hlast⟩ := (Assets.reads_inspect archive _).bind_ok hrest
      cases found with
      | none =>
        obtain ⟨rfl, rfl⟩ := pure_ok hlast
        refine .inr ⟨⟨_, _, rfl⟩, fun other e hother hentry => ?_⟩
        obtain rfl : other = archive := Option.some.inj (ok_unique hother harchive)
        cases ok_unique
          (Assets.inspect_outcome_some_iff.mpr ⟨e, hentry, rfl⟩) hinspect
      | some bytes =>
        obtain ⟨rfl, rfl⟩ := pure_ok hlast
        obtain ⟨e, hentry, rfl⟩ := Assets.inspect_outcome_some_iff.mp hinspect
        obtain ⟨name, entries, hname, -⟩ := hentry.found
        refine .inl ⟨archive, e, _, harchive, hentry, rfl, ?_, tells_assetFields _ _ info _⟩
        rw [hname]
        exact parse_assetFields name _ info _

theorem inspectAsset_outcome_of_entry (args : Arguments) {h : Host} {root p archive : Path}
    {e : ArchiveEntry} (hroot : (rootOr none).outcome h = (.ok root, h))
    (hassets : (Layout.assets root (version args).name).outcome h = (.ok p, h))
    (hthere : (isThere p).outcome h = (.ok false, h))
    (harchive : (Settings.assetArchive? root (version args).name).outcome h =
      (.ok (some archive), h))
    (hentry : h.HoldsEntry archive (args.value "asset_path") e) :
    (inspectAsset args).outcome h =
      (.ok (.str (pretty (.obj (assetFields (args.value "asset_path") (version args) none ++
        contentFields e.content.plain)))), h) := by
  have hinspect := Assets.inspect_outcome_some_iff.mpr ⟨e, hentry, rfl⟩
  rw [inspectAsset, bind_of_ok hroot]
  dsimp only
  rw [bind_of_ok hassets, bind_of_ok hthere, if_neg Bool.false_ne_true,
    bind_of_ok (outcome_pure _ _), bind_of_ok harchive]
  dsimp only
  rw [bind_of_ok hinspect]
  rfl

def packedEntries : List ArchiveEntry :=
  [("a.txt", .ofText "é\n", false), ("d/b.bin", .bytes [0xFF, 0x00, 0x10, 0x80], false)]

def packedMachine : Host where
  env := [("PRISM_WORKSPACE", "/w")]
  files := ⟨[
    (["w"], .directory),
    (["w", ".prism.json"],
      .file (.ofText "\x7b\"jar_path_release\": \"/g/Server/HytaleServer.jar\"\x7d") 3),
    (["g"], .directory), (["g", "Server"], .directory),
    (["g", "Server", "HytaleServer.jar"], .file (.bytes []) 4),
    (["g", "Assets.zip"], .file (.archive packedEntries) 6)]⟩

theorem holdsEntry_packedMachine :
    packedMachine.HoldsEntry (.absolute ["g", "Assets.zip"]) (.str "d\\b.bin")
      ("d/b.bin", .bytes [0xFF, 0x00, 0x10, 0x80], false) where
  found := ⟨"d\\b.bin", packedEntries, rfl, ⟨by decide, ["g", "Assets.zip"], 6, rfl, rfl⟩, rfl⟩
  unlocked := rfl

theorem assetArchive?_packedMachine :
    (Settings.assetArchive? (.absolute ["w"]) "release").outcome packedMachine =
      (.ok (some (.absolute ["g", "Assets.zip"])), packedMachine) := by
  refine Prod.ext ?_ (Settings.reads_assetArchive? _ _ packedMachine)
  decide +kernel

/-- The bytes are shown there without a mark, and come back from what is shown. -/
theorem inspectAsset_tells_packedMachine :
    ∃ answer fields encoding content,
      (inspectAsset [("asset_path", .str "d\\b.bin")]).outcome packedMachine =
        (.ok answer, packedMachine) ∧
      answer = .str (Json.pretty (.obj fields)) ∧
      Json.lookup "is_truncated" fields = none ∧
      Json.lookup "encoding" fields = some (.str encoding) ∧
      Json.lookup "content" fields = some (.str content) ∧
      contentBytes? encoding content = some [0xFF, 0x00, 0x10, 0x80] := by
  have hroot : (rootOr none).outcome packedMachine = (.ok (.absolute ["w"]), packedMachine) := rfl
  have hassets : (Layout.assets (.absolute ["w"]) "release").outcome packedMachine =
      (.ok (.absolute ["w", "workspace", "db", "prism_assets_release.db"]), packedMachine) := rfl
  have hrun := inspectAsset_outcome_of_entry [("asset_path", .str "d\\b.bin")] hroot
    hassets rfl assetArchive?_packedMachine holdsEntry_packedMachine
  obtain ⟨root, h₁, hroot', hcases⟩ := inspectAsset_tells hrun
  obtain rfl := ok_unique hroot hroot'
  rcases hcases with ⟨archive, e, fields, harchive, hentry, hanswer, -, htells⟩ | ⟨-, hnone⟩
  · obtain rfl := Option.some.inj (ok_unique harchive assetArchive?_packedMachine)
    have hbytes := ok_unique
      (Assets.inspect_outcome_some_iff.mpr ⟨e, hentry, rfl⟩)
      (Assets.inspect_outcome_some_iff.mpr ⟨_, holdsEntry_packedMachine, rfl⟩)
    rw [Option.some.inj hbytes] at htells
    have hwhole := htells.unmarked.mpr (not_areMany_of_length_le (by decide))
    obtain ⟨encoding, content, hencoding, hcontent, hback⟩ := htells.content
    exact ⟨_, fields, encoding, content, hrun, hanswer, hwhole, hencoding, hcontent, hback hwhole⟩
  · exact absurd holdsEntry_packedMachine (hnone _ _ assetArchive?_packedMachine)

end Tools

end JarAtlas
