import JarAtlas.Catalogue.Basic

/-!
Questions to a catalogue: a class with its members, the classes and packages below a prefix, the
classes that extend or implement something, events and their subscribers, and the systems that take
a component.
-/

namespace JarAtlas

structure ClassDetails where
  row : ClassRow
  methods : List MethodRow
  constants : List ConstantRow
  deriving DecidableEq, Repr

structure ClassMethod where
  row : ClassRow
  method : MethodRow
  deriving DecidableEq, Repr

def belowPattern (package : String) : String :=
  (if Text.endsWith package "." then package else package ++ ".") ++ "%"

def containingPattern (text : String) : String :=
  "%" ++ text ++ "%"

namespace Catalogue

def methodsOf (c : Catalogue) (id : Nat) : List MethodRow :=
  c.methods.rows.filter fun m => m.classId == some (Int.ofNat id)

def constantsOf (c : Catalogue) (id : Nat) : List ConstantRow :=
  c.constants.rows.filter fun k => k.classId == some (Int.ofNat id)

def details? (c : Catalogue) (package name : String) : Option ClassDetails := do
  let row ← c.findClass? package name
  return {
    row
    methods := (c.methodsOf row.id).mergeSort fun a b => textLe a.name b.name
    constants := (c.constantsOf row.id).mergeSort fun a b => textLe a.name b.name }

def overloads? (c : Catalogue) (package name method : String) : Option ClassDetails := do
  let row ← c.findClass? package name
  let methods := (c.methodsOf row.id).filter fun m => m.name == method
  return ⟨row, methods.mergeSort fun a b => textLe a.params b.params, []⟩

def sortClasses (rows : List ClassRow) : List ClassRow :=
  rows.mergeSort fun a b => pairLe a.key b.key

def classesIn (c : Catalogue) (package : String) (below : Bool) : List ClassRow :=
  sortClasses (c.classes.rows.filter fun row =>
    row.package == package || (below && like (belowPattern package) row.package))

def page (limit offset : Nat) (rows : List α) : List α :=
  (rows.drop offset).take limit

def distinctTexts (texts : List String) : List String :=
  (texts.mergeSort textLe).eraseReps

def packages (c : Catalogue) (below : Option String) : List String :=
  let all := c.classes.rows.map (·.package)
  distinctTexts <| match below with
    | none => all
    | some package => all.filter (like (belowPattern package))

def implementations (c : Catalogue) (target : String) : List ClassRow :=
  let pattern := containingPattern target
  sortClasses (c.classes.rows.filter fun row =>
    likeSome pattern row.parent || likeSome pattern row.interfaces)

def eventClasses (c : Catalogue) : List ClassRow :=
  sortClasses (c.classes.rows.filter fun row => like "%Event" row.name)

def classById? (c : Catalogue) (id : Int) : Option ClassRow :=
  c.classes.rows.find? fun row => Int.ofNat row.id == id

def subscriptions (c : Catalogue) : List ClassMethod :=
  c.methods.rows.filterMap fun method => do
    if likeSome "%Subscribe%" method.tag then
      let id ← method.classId
      let row ← c.classById? id
      return ⟨row, method⟩
    else none

def systems (c : Catalogue) : List ClassRow :=
  sortClasses (c.classes.rows.filter fun row => like "%System%" row.name)

/-- The methods of systems that take a component, each parameter list once. -/
def systemsFor (c : Catalogue) (component : String) : List ClassMethod :=
  let pattern := containingPattern component
  let found := c.systems.flatMap fun row =>
    ((c.methodsOf row.id).filter fun m => like pattern m.params).map fun m => ⟨row, m⟩
  found.foldl (fun (done : List ClassMethod) m =>
    if done.any fun d =>
      d.row.key == m.row.key && d.row.filePath == m.row.filePath &&
        d.method.name == m.method.name && d.method.params == m.method.params
    then done else done ++ [m]) []

end Catalogue

end JarAtlas
