import JarAtlas.Catalogue.Build
import JarAtlas.Proofs.FullText.Found
import JarAtlas.Proofs.Host.Outcome
import Mathlib.Data.List.Nodup

/-!
What a writer does to a catalogue, one step at a time. A class is inserted only when its name is
new; otherwise the attempt uses up a number and the answer is the number of the last inserted row,
whatever table that row is in. The classes of a catalogue therefore keep different names and
different numbers, whatever is inserted.

The members of a type are attached to the number that inserting its class gave.
-/

open List

namespace JarAtlas

open ClassRow Writer Catalogue SourceFile

variable {c : Catalogue} {package name : String}

/-- Classes have different names and different numbers, all of them used. -/
structure Catalogue.Sound (c : Catalogue) : Prop where
  keys : (c.classes.rows.map ClassRow.key).Nodup
  ids : (c.classes.rows.map ClassRow.id).Nodup
  used : ∀ row ∈ c.classes.rows, row.id ≤ c.classes.lastId

theorem Catalogue.Sound.empty : Sound {} :=
  ⟨nodup_nil, nodup_nil, by simp⟩

theorem Catalogue.Sound.eq_of_key (hc : c.Sound) {a b : ClassRow} (ha : a ∈ c.classes.rows)
    (hb : b ∈ c.classes.rows) (hkey : a.key = b.key) : a = b :=
  inj_on_of_nodup_map hc.keys ha hb hkey

theorem Catalogue.Sound.congr {d : Catalogue} (hc : c.Sound) (hclasses : d.classes = c.classes) :
    d.Sound := by
  obtain ⟨hkeys, hids, hused⟩ := hc
  exact ⟨by rw [hclasses]; exact hkeys, by rw [hclasses]; exact hids,
    by rw [hclasses]; exact hused⟩

theorem Catalogue.Sound.skip (hc : c.Sound) :
    Sound { c with classes := c.classes.skip } :=
  ⟨hc.keys, hc.ids, fun row hrow => Nat.le_succ_of_le (hc.used row hrow)⟩

theorem nodup_map_append_singleton {α β : Type} {f : α → β} {as : List α} {a : α}
    (has : (as.map f).Nodup) (ha : ∀ old ∈ as, f old ≠ f a) : ((as ++ [a]).map f).Nodup := by
  rw [map_append, nodup_append]
  refine ⟨has, nodup_singleton _, ?_⟩
  intro x hx y hy
  obtain ⟨old, hold, rfl⟩ := mem_map.mp hx
  rw [mem_singleton.mp hy]
  exact ha old hold

theorem Catalogue.Sound.push (hc : c.Sound) {row : Nat → ClassRow} (hid : ∀ n, (row n).id = n)
    (hnew : ∀ old ∈ c.classes.rows, ∀ n, old.key ≠ (row n).key) :
    Sound { c with classes := c.classes.push row } where
  keys := nodup_map_append_singleton hc.keys fun old hold => hnew old hold _
  ids := by
    refine nodup_map_append_singleton hc.ids fun old hold => ?_
    have hle := hc.used old hold
    rw [hid]
    omega
  used := by
    intro old hold
    simp only [Table.push, mem_append, mem_singleton] at hold ⊢
    rcases hold with hold | rfl
    · exact Nat.le_succ_of_le (hc.used old hold)
    · exact Nat.le_of_eq (hid _)

theorem Catalogue.findClass?_eq_none_iff :
    c.findClass? package name = none ↔ ∀ row ∈ c.classes.rows, row.key ≠ (package, name) := by
  simp [findClass?, find?_eq_none, key]

theorem Catalogue.findClass?_eq_some_iff (hkeys : (c.classes.rows.map key).Nodup)
    {row : ClassRow} :
    c.findClass? package name = some row ↔
      row ∈ c.classes.rows ∧ row.key = (package, name) := by
  constructor
  · intro hfound
    have hname := find?_some hfound
    simp only [Bool.and_eq_true, beq_iff_eq] at hname
    exact ⟨mem_of_find?_eq_some hfound, by simp [key, hname]⟩
  · rintro ⟨hrow, hkey⟩
    cases hfound : c.findClass? package name with
    | none => exact absurd hkey (findClass?_eq_none_iff.mp hfound row hrow)
    | some other =>
      have hname := find?_some hfound
      simp only [Bool.and_eq_true, beq_iff_eq] at hname
      have hother := mem_of_find?_eq_some hfound
      have hsame : other.key = row.key := by
        rw [hkey]
        simp [key, hname]
      rw [inj_on_of_nodup_map hkeys hother hrow hsame]

namespace Writer

variable {new : NewClass} {w : Writer} {row : Nat → ClassRow} {w' : Writer} {id : Nat}

/-- A sound catalogue, and a row was inserted before. -/
structure Sound (w : Writer) : Prop where
  catalogue : w.catalogue.Sound
  lastRow : 0 < w.lastRow

def start : Writer :=
  ⟨{}, Work.rowAfterMaking⟩

theorem start_sound : start.Sound :=
  ⟨Sound.empty, by decide⟩

private theorem newClassRow_spec (hrow : new.row? = some row) (n : Nat) :
    (row n).id = n ∧ new.package = some (row n).package ∧ new.name = some (row n).name := by
  obtain ⟨package, name, kind, filePath, parent, interfaces⟩ := new
  cases package <;> cases name <;> cases kind <;> cases filePath <;>
    simp [NewClass.row?] at hrow
  rw [← hrow]
  exact ⟨rfl, rfl, rfl⟩

/-- All that inserting a class can do once a row was inserted: a complete class with a new name gets
the next number, and otherwise only a number is used up. -/
theorem insertClass_cases (hw : w.Sound) (new : NewClass) :
    (∃ row, new.row? = some row ∧
      (∀ old ∈ w.catalogue.classes.rows, ∀ n, old.key ≠ (row n).key) ∧
      w.insertClass new = .ok
        (⟨{ w.catalogue with classes := w.catalogue.classes.push row },
          w.catalogue.classes.lastId + 1⟩, w.catalogue.classes.lastId + 1)) ∨
    ((∀ row, new.row? = some row →
        ∃ old ∈ w.catalogue.classes.rows, ∀ n, old.key = (row n).key) ∧
      w.insertClass new = .ok
        (⟨{ w.catalogue with classes := w.catalogue.classes.skip }, w.lastRow⟩, w.lastRow)) := by
  have hignored : insertClass.ignored w new = .ok
      (⟨{ w.catalogue with classes := w.catalogue.classes.skip }, w.lastRow⟩, w.lastRow) := by
    simp [insertClass.ignored, hw.lastRow, pure, Except.pure]
  cases hrow : new.row? with
  | none =>
    right
    exact ⟨by simp, by simp [insertClass, hrow, hignored]⟩
  | some row =>
    have hname (n : Nat) := (newClassRow_spec hrow n).2
    cases hfound : w.catalogue.findClass? (row 0).package (row 0).name with
    | none =>
      left
      refine ⟨row, rfl, ?_, ?_⟩
      · intro old hold n hsame
        refine findClass?_eq_none_iff.mp hfound old hold (hsame.trans ?_)
        have h0 := hname 0
        have hn := hname n
        simp_all [key]
      · simp [insertClass, hrow, (hname 0).1, (hname 0).2, hfound, Table.push]
    | some old =>
      right
      obtain ⟨hold, hkey⟩ := (findClass?_eq_some_iff hw.catalogue.keys).mp hfound
      refine ⟨?_, by simp [insertClass, hrow, (hname 0).1, (hname 0).2, hfound, hignored]⟩
      intro other hother
      obtain rfl : row = other := Option.some.inj hother
      refine ⟨old, hold, fun n => hkey.trans ?_⟩
      have h0 := hname 0
      have hn := hname n
      simp_all [key]

theorem insertClass_sound (hw : w.Sound)
    (hinsert : w.insertClass new = .ok (w', id)) : w'.Sound := by
  rcases insertClass_cases hw new with ⟨row, hrow, hfresh, hdone⟩ | ⟨-, hdone⟩
  · rw [hdone] at hinsert
    cases hinsert
    exact ⟨hw.catalogue.push (fun n => (newClassRow_spec hrow n).1) hfresh, Nat.succ_pos _⟩
  · rw [hdone] at hinsert
    cases hinsert
    exact ⟨hw.catalogue.skip, hw.lastRow⟩

theorem ignored_keys (hdone : insertClass.ignored w new = .ok (w', id)) :
    w'.catalogue.classes.rows.map key = w.catalogue.classes.rows.map key := by
  unfold insertClass.ignored at hdone
  dsimp only at hdone
  split at hdone
  · cases hdone
    rfl
  · obtain ⟨updated, hupdate, hdone⟩ := ok_of_bind hdone
    cases hdone
    unfold updateClass at hupdate
    dsimp only at hupdate
    split at hupdate
    · obtain ⟨kind, -, hupdate⟩ := ok_of_bind hupdate
      obtain ⟨filePath, -, hupdate⟩ := ok_of_bind hupdate
      cases hupdate
      dsimp only [Table.skip]
      rw [map_map]
      refine map_congr_left fun row _ => ?_
      dsimp only [Function.comp]
      split <;> rfl
    · cases hupdate
      rfl

theorem insertClass_keys (hkeys : (w.catalogue.classes.rows.map key).Nodup)
    (hinsert : w.insertClass new = .ok (w', id)) :
    (w'.catalogue.classes.rows.map key).Nodup := by
  unfold insertClass at hinsert
  dsimp only at hinsert
  split at hinsert
  · next row hrow =>
    split at hinsert
    · exact ignored_keys hinsert ▸ hkeys
    · next hunknown =>
      cases hinsert
      obtain ⟨-, hpackage, hname⟩ := newClassRow_spec hrow (w.catalogue.classes.lastId + 1)
      have hnew := findClass?_eq_none_iff.mp
        (by simpa [hpackage, hname] using hunknown)
      exact nodup_map_append_singleton hkeys hnew
  · exact ignored_keys hinsert ▸ hkeys

end Writer

namespace Java

def TypeDecl.key (d : TypeDecl) : String × String :=
  (d.package, d.name)

def TypeDecl.classRow (path : String) (d : TypeDecl) (id : Nat) : ClassRow :=
  ⟨id, d.package, d.name, d.kind.word, path, d.parent, d.interfaces⟩

def Method.rowOf (id : Nat) (m : Method) : MethodRow :=
  ⟨some (Int.ofNat id), m.name, m.returns, m.params, m.isStatic, m.tag⟩

def Constant.rowOf (id : Nat) (k : Constant) : ConstantRow :=
  ⟨some (Int.ofNat id), k.name, k.type, k.value⟩

def TypeDecl.entry (d : TypeDecl) : EntryFields :=
  { package := .text d.package, className := .text d.name, kind := .text d.kind.word
    snippet := .text ("public " ++ d.kind.word ++ " " ++ d.name) }

def Method.entryIn (d : TypeDecl) (m : Method) : EntryFields :=
  { package := .text d.package, className := .text d.name, kind := .text d.kind.word
    methodName := .text m.name, returns := .text m.returns, params := .text m.params
    snippet := .text m.snippet }

def Constant.entryIn (d : TypeDecl) (k : Constant) : EntryFields :=
  { package := .text d.package, className := .text d.name, kind := .text d.kind.word
    constName := .text k.name, constValue := .text k.value, snippet := .text k.snippet }

def TypeDecl.entries (d : TypeDecl) : List EntryFields :=
  d.entry :: (d.methods.map (·.entryIn d) ++ d.constants.map (·.entryIn d))

end Java

namespace Writer

/-- `w'` has the classes of `w` and, after its members and entries, some further ones. -/
structure Extends (w w' : Writer) (methods : List MethodRow) (constants : List ConstantRow)
    (entries : List EntryFields) : Prop where
  classes : w'.catalogue.classes = w.catalogue.classes
  methods : w'.catalogue.methods.rows = w.catalogue.methods.rows ++ methods
  constants : w'.catalogue.constants.rows = w.catalogue.constants.rows ++ constants
  entries : w'.catalogue.entries.map Entry.toEntryFields =
    w.catalogue.entries.map Entry.toEntryFields ++ entries
  lastRow : 0 < w'.lastRow

theorem Extends.trans {w₁ w₂ w₃ : Writer} {ms ms' : List MethodRow} {ks ks' : List ConstantRow}
    {es es' : List EntryFields} (h : w₁.Extends w₂ ms ks es) (h' : w₂.Extends w₃ ms' ks' es') :
    w₁.Extends w₃ (ms ++ ms') (ks ++ ks') (es ++ es') where
  classes := h'.classes.trans h.classes
  methods := by rw [h'.methods, h.methods, append_assoc]
  constants := by rw [h'.constants, h.constants, append_assoc]
  entries := by rw [h'.entries, h.entries, append_assoc]
  lastRow := h'.lastRow

theorem insertEntry_extends (w : Writer) (fields : EntryFields) :
    w.Extends (w.insertEntry fields) [] [] [fields] where
  classes := rfl
  methods := (append_nil _).symm
  constants := (append_nil _).symm
  entries := by simp [insertEntry]
  lastRow := Nat.succ_pos _

theorem addMethod_extends (id : Nat) (d : Java.TypeDecl) (w : Writer) (m : Java.Method) :
    w.Extends (addMethod id d w m) [m.rowOf id] [] [m.entryIn d] := by
  have hrow : w.Extends (w.insertMethod (m.rowOf id)) [m.rowOf id] [] [] :=
    ⟨rfl, rfl, (append_nil _).symm, (append_nil _).symm, Nat.succ_pos _⟩
  exact hrow.trans (insertEntry_extends _ _)

theorem addConstant_extends (id : Nat) (d : Java.TypeDecl) (w : Writer) (k : Java.Constant) :
    w.Extends (addConstant id d w k) [] [k.rowOf id] [k.entryIn d] := by
  have hrow : w.Extends (w.insertConstant (k.rowOf id)) [] [k.rowOf id] [] :=
    ⟨rfl, (append_nil _).symm, rfl, (append_nil _).symm, Nat.succ_pos _⟩
  exact hrow.trans (insertEntry_extends _ _)

theorem extends_foldl {α : Type} {add : Writer → α → Writer} {ms : α → List MethodRow}
    {ks : α → List ConstantRow} {es : α → List EntryFields}
    (hadd : ∀ (w : Writer) a, w.Extends (add w a) (ms a) (ks a) (es a)) {w : Writer} (hw : 0 < w.lastRow)
    (as : List α) :
    w.Extends (as.foldl add w) (as.flatMap ms) (as.flatMap ks) (as.flatMap es) := by
  induction as generalizing w with
  | nil => exact ⟨rfl, by simp, by simp, by simp, hw⟩
  | cons a as ih => exact (hadd w a).trans (ih (hadd w a).lastRow)

/-- What adding a type does to the tables apart from the classes: its members follow those that are
there, all with the number `id` for their class, and so do its entries. -/
structure Adds (w w' : Writer) (d : Java.TypeDecl) (id : Nat) : Prop where
  sound : w'.Sound
  methods : w'.catalogue.methods.rows = w.catalogue.methods.rows ++ d.methods.map (·.rowOf id)
  constants :
    w'.catalogue.constants.rows = w.catalogue.constants.rows ++ d.constants.map (·.rowOf id)
  entries : w'.catalogue.entries.map Entry.toEntryFields =
    w.catalogue.entries.map Entry.toEntryFields ++ d.entries

/-- What adding a type does to the classes. The members of a type whose name is known are attached
to the number of the row that was inserted last. -/
def PutsClass (w w' : Writer) (path : String) (d : Java.TypeDecl) (id : Nat) : Prop :=
  ((∀ old ∈ w.catalogue.classes.rows, old.key ≠ d.key) ∧
    id = w.catalogue.classes.lastId + 1 ∧
    w'.catalogue.classes = w.catalogue.classes.push (d.classRow path)) ∨
  ((∃ old ∈ w.catalogue.classes.rows, old.key = d.key) ∧
    id = w.lastRow ∧ w'.catalogue.classes = w.catalogue.classes.skip)

variable {w w' : Writer} {path : String} {d : Java.TypeDecl} {id : Nat}
  {types : List (String × Java.TypeDecl)}

theorem PutsClass.mem (hputs : w.PutsClass w' path d id) {row : ClassRow}
    (hrow : row ∈ w.catalogue.classes.rows) : row ∈ w'.catalogue.classes.rows := by
  rcases hputs with ⟨-, -, hclasses⟩ | ⟨-, -, hclasses⟩
  · rw [hclasses]
    exact mem_append_left _ hrow
  · rw [hclasses]
    exact hrow

/-- All that adding a type can do. -/
theorem addType_cases (hw : w.Sound) (path : String) (d : Java.TypeDecl) :
    ∃ w' id, addType path w d = .ok w' ∧ w.Adds w' d id ∧ w.PutsClass w' path d id := by
  let new : NewClass :=
    { package := d.package, name := d.name, kind := d.kind.word, filePath := path
      parent := d.parent, interfaces := d.interfaces }
  have hrow : new.row? = some (d.classRow path) := rfl
  -- Whatever inserting the class gave, the entry and the members only extend the tables.
  have hmembers (w₁ : Writer) (id : Nat) (hw₁ : w₁.Sound)
      (hinsert : w.insertClass new = .ok (w₁, id)) :
      ∃ w', addType path w d = .ok w' ∧ w'.Sound ∧
        w₁.Extends w' (d.methods.map (·.rowOf id)) (d.constants.map (·.rowOf id)) d.entries := by
    refine ⟨_, by simp only [addType]; rw [hinsert]; rfl, ?_⟩
    have hentry := insertEntry_extends w₁ d.entry
    have hmethods := hentry.trans
      (extends_foldl (addMethod_extends id d) hentry.lastRow d.methods)
    have hall := hmethods.trans
      (extends_foldl (addConstant_extends id d) hmethods.lastRow d.constants)
    have hnone {α β : Type} (as : List α) : as.flatMap (fun _ => ([] : List β)) = [] := by simp
    simp only [← map_eq_flatMap, hnone, append_nil, nil_append] at hall
    exact ⟨⟨hw₁.catalogue.congr hall.classes, hall.lastRow⟩, hall⟩
  rcases insertClass_cases hw new with ⟨row, hnew, hfresh, hinsert⟩ | ⟨hknown, hinsert⟩
  · obtain rfl : d.classRow path = row := Option.some.inj (hrow.symm.trans hnew)
    obtain ⟨w', hadd, hsound, hext⟩ := hmembers _ _
      ⟨hw.catalogue.push (fun _ => rfl) hfresh, Nat.succ_pos _⟩ hinsert
    exact ⟨w', _, hadd, ⟨hsound, hext.methods, hext.constants, hext.entries⟩,
      .inl ⟨fun old hold => hfresh old hold 0, rfl, hext.classes⟩⟩
  · obtain ⟨old, hold, hkey⟩ := hknown _ hrow
    have hskipped : Sound ⟨{ w.catalogue with classes := w.catalogue.classes.skip }, w.lastRow⟩ :=
      ⟨hw.catalogue.skip, hw.lastRow⟩
    obtain ⟨w', hadd, hsound, hext⟩ := hmembers _ _ hskipped hinsert
    exact ⟨w', _, hadd, ⟨hsound, hext.methods, hext.constants, hext.entries⟩,
      .inr ⟨⟨old, hold, hkey 0⟩, rfl, hext.classes⟩⟩

def addTypes (w : Writer) (types : List (String × Java.TypeDecl)) : Except Fault Writer :=
  types.foldlM (fun w t => addType t.1 w t.2) w

theorem addTypes_append (w : Writer) (first second : List (String × Java.TypeDecl)) :
    w.addTypes (first ++ second) = w.addTypes first >>= (·.addTypes second) := by
  simp [addTypes, foldlM_append]

theorem addTypes_ok (hw : w.Sound) (types : List (String × Java.TypeDecl)) :
    ∃ w', w.addTypes types = .ok w' ∧ w'.Sound := by
  induction types generalizing w with
  | nil => exact ⟨w, rfl, hw⟩
  | cons t types ih =>
    obtain ⟨w₁, id, hadd, hadds, -⟩ := addType_cases hw t.1 t.2
    obtain ⟨w', hrest, hsound⟩ := ih hadds.sound
    refine ⟨w', ?_, hsound⟩
    rw [addTypes, foldlM_cons, hadd]
    exact hrest

/-- What holds before types are added, and is kept with each of them, holds after all. -/
theorem addTypes_induct {P : List (String × Java.TypeDecl) → Writer → Prop} (hw : w.Sound)
    (hadd : w.addTypes types = .ok w') (hstart : P [] w)
    (hstep : ∀ done t w₁ w₂ id, w₁.Sound → P done w₁ → w₁.Adds w₂ t.2 id →
      w₁.PutsClass w₂ t.1 t.2 id → P (done ++ [t]) w₂) : P types w' := by
  induction types using reverseRecOn generalizing w' with
  | nil =>
    obtain rfl : w = w' := Except.ok.inj hadd
    exact hstart
  | append_singleton types t ih =>
    obtain ⟨w₁, hfirst, hw₁⟩ := addTypes_ok hw types
    obtain ⟨w₂, id, hlast, hadds, hputs⟩ := addType_cases hw₁ t.1 t.2
    have hall : w.addTypes (types ++ [t]) = .ok w₂ := by
      rw [addTypes_append, hfirst]
      simp [addTypes, hlast, bind, Except.bind, pure, Except.pure]
    obtain rfl : w₂ = w' := Except.ok.inj (hall.symm.trans hadd)
    exact hstep _ _ _ _ id hw₁ (ih hfirst) hadds hputs

end Writer

/-- The types that source files declare, in order, each with the path of its file. -/
def SourceFile.types (files : List SourceFile) : List (String × Java.TypeDecl) :=
  files.flatMap fun f => (Java.extract (String.ofList f.text)).map fun d => (f.path, d)

theorem Writer.addFiles_eq (w : Writer) (files : List SourceFile) :
    files.foldlM addFile w = w.addTypes (types files) := by
  induction files generalizing w with
  | nil => rfl
  | cons f files ih =>
    have hfile : w.addFile f =
        w.addTypes ((Java.extract (String.ofList f.text)).map fun d => (f.path, d)) := by
      simp [addFile, addTypes, foldlM_map]
    simp only [foldlM_cons, types, flatMap_cons, addTypes, foldlM_append]
    rw [hfile]
    congr 1
    funext w'
    exact ih w'

namespace Work

variable {w : Work}

/-- The tables of a catalogue were made through this connection, and are sound. -/
structure Filling (w : Work) (c : Catalogue) : Prop where
  readable : w.database.isReadable = true
  api : w.database.api = some c
  sound : Writer.Sound ⟨c, w.lastRow⟩

theorem makeCatalogue_filling (hreadable : w.database.isReadable) :
    w.makeCatalogue.Filling {} :=
  ⟨hreadable, rfl, start_sound⟩

theorem Filling.write_eq {α : Type} {c : Catalogue} (hw : w.Filling c) (table : String)
    (f : Writer → Except Fault (α × Writer)) :
    w.write table f = do
      let (a, writer) ← f ⟨c, w.lastRow⟩
      return (a, ⟨{ w.database with api := some writer.catalogue }, writer.lastRow⟩) := by
  simp only [write, Database.catalogue, Database.part, hw.readable, hw.api]
  rfl

theorem clearCatalogue_makeCatalogue (hreadable : w.database.isReadable) :
    w.makeCatalogue.clearCatalogue = .ok w.makeCatalogue := by
  simp only [clearCatalogue, Database.catalogue, Database.part, makeCatalogue, hreadable]
  rfl

/-- Building a catalogue in a database that can be read adds the types of the files, in order, to
tables that were just made. Nothing that was in the catalogue before takes part. -/
theorem index_eq (hreadable : w.database.isReadable) (files : List SourceFile) :
    ∃ writer, start.addTypes (types files) = .ok writer ∧ writer.Sound ∧
      w.index files =
        .ok ⟨{ w.database with api := some writer.catalogue }, writer.lastRow⟩ := by
  obtain ⟨writer, hadd, hsound⟩ := addTypes_ok start_sound (types files)
  refine ⟨writer, hadd, hsound, ?_⟩
  rw [← addFiles_eq] at hadd
  have hrun : files.foldlM addFile ⟨{}, w.makeCatalogue.lastRow⟩ = .ok writer := hadd
  simp only [index, clearCatalogue_makeCatalogue hreadable, bind, Except.bind,
    (makeCatalogue_filling hreadable).write_eq, hrun]
  rfl

end Work

/-! ### What new tables hold afterwards -/

/-- The catalogue holds the given types and nothing else. Their classes are numbered from one in
their order, and members and entries stand in the same order. -/
structure Catalogue.Holds (c : Catalogue) (types : List (String × Java.TypeDecl)) : Prop where
  classes : c.classes.rows = (types.zipIdx 1).map fun t => t.1.2.classRow t.1.1 t.2
  methods : c.methods.rows = (types.zipIdx 1).flatMap fun t => t.1.2.methods.map (·.rowOf t.2)
  constants :
    c.constants.rows = (types.zipIdx 1).flatMap fun t => t.1.2.constants.map (·.rowOf t.2)
  entries : c.entries.map Entry.toEntryFields = types.flatMap fun t => t.2.entries

namespace Writer

theorem addTypes_holds {w : Writer} {types : List (String × Java.TypeDecl)}
    (hadd : start.addTypes types = .ok w) (hdistinct : (types.map fun t => t.2.key).Nodup) :
    w.catalogue.Holds types := by
  refine (addTypes_induct (P := fun types w => (types.map fun t => t.2.key).Nodup →
    w.catalogue.Holds types ∧ w.catalogue.classes.lastId = types.length) start_sound hadd
    (fun _ => ⟨⟨rfl, rfl, rfl, rfl⟩, rfl⟩) ?_ hdistinct).1
  rintro done t w₁ w₂ id - hdone hadds hputs hdistinct
  rw [map_append, nodup_append] at hdistinct
  obtain ⟨hholds, hlast⟩ := hdone hdistinct.1
  rcases hputs with ⟨-, rfl, hclasses⟩ | ⟨⟨old, hold, hkey⟩, -, -⟩
  · refine ⟨⟨?_, ?_, ?_, ?_⟩, by simp [hclasses, Table.push, hlast]⟩
    · simp [hclasses, Table.push, hholds.classes, hlast, zipIdx_append, Nat.add_comm]
    · simp [hadds.methods, hholds.methods, hlast, zipIdx_append, Nat.add_comm]
    · simp [hadds.constants, hholds.constants, hlast, zipIdx_append, Nat.add_comm]
    · simp [hadds.entries, hholds.entries]
  · rw [hholds.classes] at hold
    obtain ⟨u, hu, rfl⟩ := mem_map.mp hold
    exact absurd hkey (hdistinct.2.2 _ (mem_map_of_mem (fst_mem_of_mem_zipIdx hu)) _
      (mem_singleton_self _))

end Writer

private theorem filter_attached {α β : Type} {l : List (α × Nat)}
    (hdistinct : (l.map Prod.snd).Nodup) (rows : α × Nat → List β) (number : β → Option Int)
    (hnumber : ∀ t, ∀ row ∈ rows t, number row = some (Int.ofNat t.2)) {t : α × Nat}
    (ht : t ∈ l) :
    (l.flatMap rows).filter (fun row => number row == some (Int.ofNat t.2)) = rows t := by
  have hown (u : α × Nat) (hsame : u.2 = t.2) :
      (rows u).filter (fun row => number row == some (Int.ofNat t.2)) = rows u := by
    rw [filter_eq_self]
    intro row hrow
    rw [hnumber u row hrow, hsame, beq_self_eq_true]
  have hother (us : List (α × Nat)) (hnone : t.2 ∉ us.map Prod.snd) :
      (us.flatMap rows).filter (fun row => number row == some (Int.ofNat t.2)) = [] := by
    rw [filter_eq_nil_iff]
    intro row hrow
    obtain ⟨u, hu, hrow⟩ := mem_flatMap.mp hrow
    rw [hnumber u row hrow]
    intro hsame
    have hid : u.2 = t.2 := Int.ofNat.inj (Option.some.inj (beq_iff_eq.mp hsame))
    exact hnone (mem_map.mpr ⟨u, hu, hid⟩)
  obtain ⟨before, after, rfl⟩ := append_of_mem ht
  simp only [map_append, map_cons, nodup_append, nodup_cons] at hdistinct
  rw [flatMap_append, flatMap_cons, filter_append, filter_append, hown t rfl,
    hother before (fun hmem => hdistinct.2.2 _ hmem _ mem_cons_self rfl),
    hother after hdistinct.2.1.1]
  simp

namespace Catalogue

variable {c : Catalogue} {types : List (String × Java.TypeDecl)}

theorem Holds.details?_eq_none (hc : c.Holds types) {package name : String}
    (hnone : ∀ t ∈ types, t.2.key ≠ (package, name)) : c.details? package name = none := by
  have hfound : c.findClass? package name = none := by
    rw [findClass?_eq_none_iff, hc.classes]
    intro row hrow
    obtain ⟨t, ht, rfl⟩ := mem_map.mp hrow
    exact hnone t.1 (fst_mem_of_mem_zipIdx ht)
  simp [details?, hfound]

theorem Holds.details?_eq_some (hc : c.Holds types)
    (hdistinct : (types.map fun t => t.2.key).Nodup) {path : String} {d : Java.TypeDecl}
    (hd : (path, d) ∈ types) :
    ∃ id, c.details? d.package d.name = some {
      row := d.classRow path id
      methods := (d.methods.map (·.rowOf id)).mergeSort fun a b => textLe a.name b.name
      constants := (d.constants.map (·.rowOf id)).mergeSort fun a b => textLe a.name b.name } := by
  have hnumbers : ((types.zipIdx 1).map Prod.snd).Nodup := by
    rw [zipIdx_map_snd]
    exact nodup_range'
  obtain ⟨id, ht⟩ : ∃ id, ((path, d), id) ∈ types.zipIdx 1 := by
    obtain ⟨i, hi⟩ := mem_iff_getElem?.mp hd
    exact ⟨1 + i, mk_add_mem_zipIdx_iff_getElem?.mpr hi⟩
  have hkeys : (c.classes.rows.map key).Nodup := by
    have hsame : c.classes.rows.map key =
        ((types.zipIdx 1).map Prod.fst).map fun t => t.2.key := by
      rw [hc.classes, map_map, map_map]
      rfl
    rw [hsame, zipIdx_map_fst]
    exact hdistinct
  have hfound : c.findClass? d.package d.name = some (d.classRow path id) := by
    rw [findClass?_eq_some_iff hkeys, hc.classes]
    exact ⟨mem_map.mpr ⟨_, ht, rfl⟩, rfl⟩
  have hmethods : c.methodsOf id = d.methods.map (·.rowOf id) := by
    rw [methodsOf, hc.methods]
    refine filter_attached hnumbers _ MethodRow.classId ?_ ht
    intro t row hrow
    obtain ⟨m, -, rfl⟩ := mem_map.mp hrow
    rfl
  have hconstants : c.constantsOf id = d.constants.map (·.rowOf id) := by
    rw [constantsOf, hc.constants]
    refine filter_attached hnumbers _ ConstantRow.classId ?_ ht
    intro t row hrow
    obtain ⟨k, -, rfl⟩ := mem_map.mp hrow
    rfl
  have hid : (d.classRow path id).id = id := rfl
  exact ⟨id, by simp [details?, hfound, hid, hmethods, hconstants]⟩

end Catalogue

/-! ### Entries and the classes they belong to -/

open Entry

def ClassRow.Owns (row : ClassRow) (e : EntryFields) : Prop :=
  e.package = .text row.package ∧ e.className = .text row.name

namespace Java.TypeDecl

theorem names_of_mem_entries {d : TypeDecl} {e : EntryFields} (he : e ∈ d.entries) :
    e.package = .text d.package ∧ e.className = .text d.name := by
  rcases mem_cons.mp he with rfl | he
  · exact ⟨rfl, rfl⟩
  · rcases mem_append.mp he with he | he
    · obtain ⟨m, -, rfl⟩ := mem_map.mp he
      exact ⟨rfl, rfl⟩
    · obtain ⟨k, -, rfl⟩ := mem_map.mp he
      exact ⟨rfl, rfl⟩

end Java.TypeDecl

namespace Catalogue

/-- Every entry has the names of a class. -/
def Covered (c : Catalogue) : Prop :=
  ∀ e ∈ c.entries.map Entry.toEntryFields, ∃ row ∈ c.classes.rows, row.Owns e

end Catalogue

namespace Writer

variable {w w' : Writer}

theorem addTypes_covered {types : List (String × Java.TypeDecl)}
    (hadd : start.addTypes types = .ok w) :
    w.catalogue.Covered ∧
      w.catalogue.entries.map toEntryFields = types.flatMap fun t => t.2.entries := by
  refine addTypes_induct (P := fun types w => w.catalogue.Covered ∧
    w.catalogue.entries.map toEntryFields = types.flatMap fun t => t.2.entries) start_sound hadd
    ⟨by simp [Covered, start], rfl⟩ ?_
  rintro done t w₁ w₂ id - ⟨hcovered, hentries⟩ hadds hputs
  have hown : ∃ row ∈ w₂.catalogue.classes.rows, row.key = t.2.key := by
    have hcases := hputs
    rcases hcases with ⟨-, -, hclasses⟩ | ⟨⟨old, hold, hkey⟩, -, -⟩
    · refine ⟨t.2.classRow t.1 (w₁.catalogue.classes.lastId + 1), ?_, rfl⟩
      rw [hclasses]
      exact mem_append_right _ (mem_singleton_self _)
    · exact ⟨old, hputs.mem hold, hkey⟩
  refine ⟨fun e he => ?_, by simp [hadds.entries, hentries]⟩
  rw [hadds.entries] at he
  rcases mem_append.mp he with he | he
  · obtain ⟨row, hrow, howns⟩ := hcovered e he
    exact ⟨row, hputs.mem hrow, howns⟩
  · obtain ⟨row, hrow, hkey⟩ := hown
    obtain ⟨hpackage, hname⟩ := Prod.mk.inj hkey
    obtain ⟨hentry₁, hentry₂⟩ := Java.TypeDecl.names_of_mem_entries he
    refine ⟨row, hrow, ?_, ?_⟩
    · rw [hentry₁, hpackage]
    · rw [hentry₂, hname]

end Writer

/-- Whether an entry is of the kind and in the package that are asked for. -/
def SearchFilter.fits (f : SearchFilter) (e : EntryFields) : Bool :=
  f.fitsKind ⟨e, ""⟩ && f.fitsPackage ⟨e, ""⟩

namespace Catalogue

/-- The entries that a query and a filter ask for, whatever classes there are. -/
def asked (c : Catalogue) (query : String) (f : SearchFilter) : List EntryFields :=
  (c.entries.map Entry.toEntryFields).filter fun e =>
    entryScheme.asksFor (Query.prepare query).toList (entryScheme.doc e.texts) && f.fits e

theorem asked_eq (c : Catalogue) (query : String) (f : SearchFilter) :
    c.asked query f = ((c.entries.map toEntryFields).filter fun e =>
      entryScheme.asksFor (Query.prepare query).toList (entryScheme.doc e.texts)).filter f.fits := by
  rw [filter_filter, asked]
  exact filter_congr fun _ _ => Bool.and_comm _ _

/-- The hit shows an entry with the path of the class whose names it has. -/
def Shows (c : Catalogue) (h : Hit) : Prop :=
  ∃ row ∈ c.classes.rows, row.Owns h.entry ∧ h.filePath = row.filePath

variable {c : Catalogue} {query : String}

theorem classOf?_eq_some (hkeys : (c.classes.rows.map key).Nodup) {e : EntryFields}
    {row : ClassRow} (hrow : row ∈ c.classes.rows) (howns : row.Owns e) :
    c.classOf? e = some row := by
  obtain ⟨hpackage, hname⟩ := howns
  rw [classOf?, hpackage, hname]
  exact (findClass?_eq_some_iff hkeys).mpr ⟨hrow, rfl⟩

theorem filterMap_hit? (hkeys : (c.classes.rows.map key).Nodup) {es : List EntryFields}
    (hes : ∀ e ∈ es, ∃ row ∈ c.classes.rows, row.Owns e) :
    (es.filterMap c.hit?).map Hit.entry = es ∧ ∀ h ∈ es.filterMap c.hit?, c.Shows h := by
  induction es with
  | nil => simp
  | cons e es ih =>
    obtain ⟨⟨row, hrow, howns⟩, hes⟩ := forall_mem_cons.mp hes
    obtain ⟨hentries, hshows⟩ := ih hes
    have hhit : c.hit? e = some ⟨e, row.filePath⟩ := by
      rw [hit?, classOf?_eq_some hkeys hrow howns]
      rfl
    rw [filterMap_cons_some hhit, map_cons, hentries]
    exact ⟨rfl, forall_mem_cons.mpr ⟨⟨row, hrow, howns, rfl⟩, hshows⟩⟩

theorem hits_of_problem {e : FullText.QueryError}
    (hproblem : entryScheme.problem? query.toList = some e) : c.hits query = .error e := by
  rw [hits, FullText.search_of_problem hproblem]
  rfl

theorem hits_of_problem?_eq_none (hkeys : (c.classes.rows.map key).Nodup)
    (hcovered : c.Covered) (hnone : entryScheme.problem? query.toList = none) :
    ∃ found, c.hits query = .ok found ∧ (∀ h ∈ found, c.Shows h) ∧
      (found.map Hit.entry).Perm ((c.entries.map toEntryFields).filter fun e =>
        entryScheme.asksFor query.toList (entryScheme.doc e.texts)) := by
  obtain ⟨entries, hsearch, hperm⟩ := FullText.search_of_problem?_eq_none hnone
    (fun e : Entry => e.toEntryFields.texts) c.entries
  have hfields : (entries.map toEntryFields).Perm
      ((c.entries.map toEntryFields).filter fun e =>
        entryScheme.asksFor query.toList (entryScheme.doc e.texts)) := by
    rw [filter_map]
    exact hperm.map toEntryFields
  have hes : ∀ e ∈ entries.map toEntryFields, ∃ row ∈ c.classes.rows, row.Owns e :=
    fun e he => hcovered e (mem_of_mem_filter (hfields.subset he))
  obtain ⟨hentries, hshows⟩ := filterMap_hit? hkeys hes
  refine ⟨(entries.map toEntryFields).filterMap c.hit?, ?_, hshows, ?_⟩
  · rw [hits, hsearch, filterMap_map]
    rfl
  · rw [hentries]
    exact hfields

end Catalogue

end JarAtlas
