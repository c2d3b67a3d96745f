import JarAtlas.Host.Write
import JarAtlas.Proofs.Catalogue.Insertion

/-!
The number that inserting a class gives, after any calls through one connection. It is the number
of the class when the name of the class is new. When the name is known it is the number of the row
inserted last, in whatever table, and the old class stays as it was. So the answer names the class
and the class holds what was said of it exactly when a class of that name either is not there yet,
or already says the same and happens to have the number of the last row.

The same number is what the members of a type are attached to while a catalogue is built.
-/

namespace JarAtlas

inductive RowCall where
  | insertClass (package name kind filePath parent interfaces : Json)
  | insertMethod (classId name returns params : Json) (isStatic : Bool) (tag : Json)
  | insertConstant (classId name type value : Json)
  | insertEntry (values : List Json)

def RowCall.run (w : Work) : RowCall → Except Fault Work
  | .insertClass package name kind filePath parent interfaces =>
    return (← w.addClass package name kind filePath parent interfaces).2
  | .insertMethod classId name returns params isStatic tag =>
    w.addMethod classId name returns params isStatic tag
  | .insertConstant classId name type value => w.addConstant classId name type value
  | .insertEntry values => w.addEntry values

namespace Work

/-- The database after some calls. A call that fails changes nothing. -/
def afterCalls (w : Work) (calls : List RowCall) : Work :=
  calls.foldl (fun w call => (call.run w).toOption.getD w) w

theorem Filling.write_filling {α : Type} {w w' : Work} {c : Catalogue} (hw : w.Filling c)
    {table : String} {f : Writer → Except Fault (α × Writer)} {next : α × Work → Except Fault Work}
    (hnext : ∀ p, next p = .ok p.2) (hrun : (w.write table f >>= next) = .ok w')
    (hf : ∀ b writer, f ⟨c, w.lastRow⟩ = .ok (b, writer) → writer.Sound) :
    ∃ c', w'.Filling c' := by
  obtain ⟨⟨a, w₁⟩, hwrite, hrest⟩ := ok_of_bind hrun
  obtain rfl : w₁ = w' := Except.ok.inj ((hnext _).symm.trans hrest)
  rw [hw.write_eq] at hwrite
  obtain ⟨⟨b, writer⟩, hstep, hdone⟩ := ok_of_bind hwrite
  obtain ⟨-, rfl⟩ := Prod.mk.inj (Except.ok.inj hdone)
  exact ⟨writer.catalogue, hw.readable, rfl, hf b writer hstep⟩

end Work

namespace RowCall

theorem run_filling {w w' : Work} {c : Catalogue} (hw : w.Filling c) {call : RowCall}
    (hrun : call.run w = .ok w') : ∃ c', w'.Filling c' := by
  cases call with
  | insertClass package name kind filePath parent interfaces =>
    refine hw.write_filling (fun _ => rfl) hrun fun b writer hstep => ?_
    obtain ⟨cells, -, hstep⟩ := ok_of_bind hstep
    split at hstep
    · obtain ⟨⟨writer₁, id₁⟩, hinsert, hstep⟩ := ok_of_bind hstep
      cases hstep
      exact Writer.insertClass_sound hw.sound hinsert
    · exact nomatch hstep
  | insertMethod | insertConstant =>
    refine hw.write_filling (fun _ => rfl) hrun fun b writer hstep => ?_
    obtain ⟨cells, -, hstep⟩ := ok_of_bind hstep
    split at hstep
    · obtain ⟨_, -, hstep⟩ := ok_of_bind hstep
      obtain ⟨_, -, hstep⟩ := ok_of_bind hstep
      obtain ⟨_, -, hstep⟩ := ok_of_bind hstep
      obtain ⟨_, -, hstep⟩ := ok_of_bind hstep
      cases hstep
      exact ⟨hw.sound.catalogue.congr rfl, Nat.succ_pos _⟩
    · exact nomatch hstep
  | insertEntry values =>
    refine hw.write_filling (fun _ => rfl) hrun fun b writer hstep => ?_
    obtain ⟨cells, -, hstep⟩ := ok_of_bind hstep
    split at hstep
    · cases hstep
      exact ⟨hw.sound.catalogue.congr rfl, Nat.succ_pos _⟩
    · exact nomatch hstep

end RowCall

namespace Work

variable {w : Work} {c : Catalogue}

theorem Filling.afterCalls (hw : w.Filling c) (calls : List RowCall) :
    ∃ c', (w.afterCalls calls).Filling c' := by
  induction calls generalizing w c with
  | nil => exact ⟨c, hw⟩
  | cons call calls ih =>
    cases hrun : call.run w with
    | error e => simpa [afterCalls, hrun, Except.toOption] using ih hw
    | ok w' =>
      obtain ⟨c', hw'⟩ := RowCall.run_filling hw hrun
      simpa [afterCalls, hrun, Except.toOption] using ih hw'

theorem Filling.addClass_eq (hw : w.Filling c) {package name kind filePath : String}
    {parent interfaces : Option String} {writer : Writer} {id : Nat}
    (hinsert : Writer.insertClass ⟨c, w.lastRow⟩
      ⟨package, name, kind, filePath, parent, interfaces⟩ = .ok (writer, id)) :
    w.addClass (.str package) (.str name) (.str kind) (.str filePath) (.ofText? parent)
        (.ofText? interfaces) =
      .ok (id, ⟨{ w.database with api := some writer.catalogue }, writer.lastRow⟩) := by
  have htexts : Cell.ofJsons [.str package, .str name, .str kind, .str filePath,
      .ofText? parent, .ofText? interfaces] =
      .ok [.text package, .text name, .text kind, .text filePath, .ofText? parent,
        .ofText? interfaces] := by
    cases parent <;> cases interfaces <;> rfl
  have hgiven (s : String) : (Cell.text s).asText = some s := rfl
  have hoptional (o : Option String) : (Cell.ofText? o).asText = o := by
    cases o <;> rfl
  rw [addClass, hw.write_eq]
  simp only [htexts, bind, Except.bind, hgiven, hoptional, hinsert]
  rfl

end Work

namespace Writer

/-- Between `w` and `w'` the members of a type were added, and all of them were attached to the
class of that type. -/
def Attaches (w w' : Writer) (d : Java.TypeDecl) : Prop :=
  ∃ row ∈ w'.catalogue.classes.rows, row.key = d.key ∧
    w'.catalogue.methods.rows = w.catalogue.methods.rows ++ d.methods.map (·.rowOf row.id) ∧
    w'.catalogue.constants.rows = w.catalogue.constants.rows ++ d.constants.map (·.rowOf row.id)

variable {d : Java.TypeDecl} {w : Writer}

private theorem rows_number_eq {a b : Nat}
    (hmethods : d.methods.map (·.rowOf a) = d.methods.map (·.rowOf b))
    (hconstants : d.constants.map (·.rowOf a) = d.constants.map (·.rowOf b)) :
    (d.methods = [] ∧ d.constants = []) ∨ a = b := by
  cases hm : d.methods with
  | cons m ms =>
    rw [hm] at hmethods
    have hrow := (List.cons.inj hmethods).1
    exact .inr (Int.ofNat.inj (Option.some.inj (MethodRow.mk.inj hrow).1))
  | nil =>
    cases hk : d.constants with
    | cons k ks =>
      rw [hk] at hconstants
      have hrow := (List.cons.inj hconstants).1
      exact .inr (Int.ofNat.inj (Option.some.inj (ConstantRow.mk.inj hrow).1))
    | nil => exact .inl ⟨rfl, rfl⟩

/-- The members of a type are attached to its class exactly when there are none, or every class of
that name that was there before has the number of the row inserted last. -/
theorem addType_attaches_iff {w' : Writer} (hw : w.Sound) {path : String}
    (hadd : addType path w d = .ok w') :
    w.Attaches w' d ↔ (d.methods = [] ∧ d.constants = []) ∨
      ∀ row ∈ w.catalogue.classes.rows, row.key = d.key → row.id = w.lastRow := by
  obtain ⟨w₁, id, hadd₁, hadds, hcases⟩ := addType_cases hw path d
  obtain rfl : w₁ = w' := Except.ok.inj (hadd₁.symm.trans hadd)
  constructor
  · rintro ⟨row, hrow, hkey, hmethods, hconstants⟩
    have hnumber := rows_number_eq
      (List.append_cancel_left (hmethods.symm.trans hadds.methods))
      (List.append_cancel_left (hconstants.symm.trans hadds.constants))
    rcases hcases with ⟨hnew, -, -⟩ | ⟨-, hid, hclasses⟩
    · exact .inr fun old hold hsame => absurd hsame (hnew old hold)
    · refine hnumber.imp_right fun hrowId old hold hsame => ?_
      rw [hclasses] at hrow
      rw [hw.catalogue.eq_of_key hold hrow (hsame.trans hkey.symm), hrowId, hid]
  · -- In each case some class of the name is there; its number only matters for members.
    have hclass (row : ClassRow) (hrow : row ∈ w₁.catalogue.classes.rows) (hkey : row.key = d.key)
        (hid : (d.methods = [] ∧ d.constants = []) ∨ row.id = id) : w.Attaches w₁ d := by
      refine ⟨row, hrow, hkey, ?_⟩
      rcases hid with ⟨hm, hk⟩ | rfl
      · exact ⟨by simpa [hm] using hadds.methods, by simpa [hk] using hadds.constants⟩
      · exact ⟨hadds.methods, hadds.constants⟩
    intro hcond
    rcases hcases with ⟨-, hid, hclasses⟩ | ⟨⟨old, hold, hkey⟩, hid, hclasses⟩
    · refine hclass (d.classRow path id) ?_ rfl (.inr rfl)
      rw [hclasses, hid]
      exact List.mem_append_right _ (List.mem_singleton_self _)
    · refine hclass old (by rw [hclasses]; exact hold) hkey (hcond.imp_right fun hall => ?_)
      rw [hall old hold hkey, hid]

/-- Inserting a class leaves one class of its name. The number that it gives is that of a class as
described exactly when each older class of that name was so described and was inserted last. -/
theorem insertClass_row_iff (hw : w.Sound) (package name kind filePath : String)
    (parent interfaces : Option String) :
    ∃ w' id, w.insertClass ⟨package, name, kind, filePath, parent, interfaces⟩ = .ok (w', id) ∧
      (∃! row, row ∈ w'.catalogue.classes.rows ∧ row.key = (package, name)) ∧
      ((⟨id, package, name, kind, filePath, parent, interfaces⟩ : ClassRow) ∈
          w'.catalogue.classes.rows ↔
        ∀ row ∈ w.catalogue.classes.rows, row.key = (package, name) →
          row = ⟨w.lastRow, package, name, kind, filePath, parent, interfaces⟩) := by
  let given (id : Nat) : ClassRow := ⟨id, package, name, kind, filePath, parent, interfaces⟩
  let new : NewClass := ⟨package, name, kind, filePath, parent, interfaces⟩
  have hrow : new.row? = some given := rfl
  -- One class of a name is all that a sound catalogue can hold.
  have hunique (w' : Writer) (hw' : w'.Sound) (row : ClassRow)
      (hmem : row ∈ w'.catalogue.classes.rows) (hkey : row.key = (package, name)) :
      ∃! row, row ∈ w'.catalogue.classes.rows ∧ row.key = (package, name) :=
    ⟨row, ⟨hmem, hkey⟩, fun _ hother =>
      hw'.catalogue.eq_of_key hother.1 hmem (hother.2.trans hkey.symm)⟩
  rcases insertClass_cases hw new with ⟨row, hnew, hfresh, hinsert⟩ | ⟨hknown, hinsert⟩
  · obtain rfl : given = row := Option.some.inj (hrow.symm.trans hnew)
    have hmem : given (w.catalogue.classes.lastId + 1) ∈ (w.catalogue.classes.push given).rows :=
      List.mem_append_right _ (List.mem_singleton_self _)
    refine ⟨_, _, hinsert, hunique _ (insertClass_sound hw hinsert) _ hmem rfl, ?_⟩
    exact ⟨fun _ old hold hkey => absurd hkey (hfresh old hold 0), fun _ => hmem⟩
  · obtain ⟨old, hold, hkey⟩ := hknown _ hrow
    refine ⟨_, _, hinsert, hunique _ (insertClass_sound hw hinsert) old hold (hkey 0), ?_⟩
    constructor
    · intro hmem other hother hsame
      exact hw.catalogue.eq_of_key hother hmem hsame
    · intro hall
      rw [hall old hold (hkey 0)] at hold
      exact hold

end Writer

/-- After any calls through one connection, the number that inserting a class gives is that of a
class as described exactly when each older class of its name was so described and was inserted last.
So it is for each type of a catalogue that is built. -/
theorem insertClass_number_correct_iff (start : Work)
    (hreadable : start.database.isReadable = true) (calls : List RowCall)
    (package name kind filePath : String) (parent interfaces : Option String) :
    (∃ w c id w' c',
      start.makeCatalogue.afterCalls calls = w ∧ w.database.api = some c ∧
      w.addClass (.str package) (.str name) (.str kind) (.str filePath) (.ofText? parent)
        (.ofText? interfaces) = .ok (id, w') ∧
      w'.database.api = some c' ∧
      (∃! row, row ∈ c'.classes.rows ∧ row.key = (package, name)) ∧
      ((⟨id, package, name, kind, filePath, parent, interfaces⟩ : ClassRow) ∈ c'.classes.rows ↔
        ∀ row ∈ c.classes.rows, row.key = (package, name) →
          row = ⟨w.lastRow, package, name, kind, filePath, parent, interfaces⟩)) ∧
    (∀ files : List SourceFile, ∃ last : Writer,
      start.index files =
        .ok ⟨{ start.database with api := some last.catalogue }, last.lastRow⟩ ∧
      ∀ before path d after, SourceFile.types files = before ++ (path, d) :: after →
        ∃ w w', Writer.start.addTypes before = .ok w ∧ Writer.addType path w d = .ok w' ∧
          w'.addTypes after = .ok last ∧
          (w.Attaches w' d ↔ (d.methods = [] ∧ d.constants = []) ∨
            ∀ row ∈ w.catalogue.classes.rows, row.key = d.key → row.id = w.lastRow)) := by
  constructor
  · obtain ⟨c, hw⟩ := (Work.makeCatalogue_filling hreadable).afterCalls calls
    obtain ⟨writer, id, hinsert, hone, hiff⟩ :=
      Writer.insertClass_row_iff hw.sound package name kind filePath parent interfaces
    exact ⟨_, c, id, _, writer.catalogue, rfl, hw.api, hw.addClass_eq hinsert, rfl, hone, hiff⟩
  · intro files
    obtain ⟨last, hall, -, hindex⟩ := Work.index_eq hreadable files
    refine ⟨last, hindex, ?_⟩
    intro before path d after hsplit
    obtain ⟨w, hbefore, hw⟩ := Writer.addTypes_ok Writer.start_sound before
    obtain ⟨w', id, hadd, hadds, -⟩ := Writer.addType_cases hw path d
    refine ⟨w, w', hbefore, hadd, ?_, Writer.addType_attaches_iff hw hadd⟩
    rw [hsplit, Writer.addTypes_append, hbefore] at hall
    simpa [Writer.addTypes, hadd, bind, Except.bind] using hall

/-- Two classes are inserted, and then the first one again as an enum in another file. The answer is
the number of the second class, and no class is as it was described. -/
theorem insertClass_number_of_known_name :
    ∃ w c id w' c',
      (⟨{}, 0⟩ : Work).makeCatalogue.afterCalls
        [.insertClass (.str "p") (.str "A") (.str "class") (.str "A.java") .null .null,
          .insertClass (.str "p") (.str "B") (.str "class") (.str "B.java") .null .null] = w ∧
      w.database.api = some c ∧
      w.addClass (.str "p") (.str "A") (.str "enum") (.str "C.java") .null .null = .ok (id, w') ∧
      w'.database.api = some c' ∧
      (⟨id, "p", "A", "enum", "C.java", none, none⟩ : ClassRow) ∉ c'.classes.rows := by
  obtain ⟨⟨w, c, id, w', c', hw, hc, hadd, hc', -, hiff⟩, -⟩ :=
    insertClass_number_correct_iff ⟨{}, 0⟩ rfl
      [.insertClass (.str "p") (.str "A") (.str "class") (.str "A.java") .null .null,
        .insertClass (.str "p") (.str "B") (.str "class") (.str "B.java") .null .null]
      "p" "A" "enum" "C.java" none none
  refine ⟨w, c, id, w', c', hw, hc, hadd, hc', fun hmem => ?_⟩
  have hclasses : w.database.api.map (·.classes.rows) = some
      [⟨1, "p", "A", "class", "A.java", none, none⟩,
        ⟨2, "p", "B", "class", "B.java", none, none⟩] := by
    rw [← hw]
    rfl
  rw [hc, Option.map_some] at hclasses
  have hrow : (⟨1, "p", "A", "class", "A.java", none, none⟩ : ClassRow) ∈ c.classes.rows := by
    rw [Option.some.inj hclasses]
    exact List.mem_cons_self
  exact absurd (hiff.mp hmem _ hrow rfl) (by simp)

end JarAtlas
