import JarAtlas.Console.Say
import JarAtlas.Host.Connect
import JarAtlas.Java.Extract
import JarAtlas.Workspace.Layout

/-!
Building the catalogue of a version from its decompiled code.
-/

namespace JarAtlas

structure SourceFile where
  path : String
  text : List Char

namespace SourceFile

/-- The source files below a directory, in order. What is no file is left out. -/
def below (h : Host) (dir : Path) : List SourceFile :=
  (h.filesBelow dir ".java").filterMap fun (p, node) =>
    match node with
    | .file content _ =>
      let path := Text.join "/" (p.parts.drop dir.parts.length)
      some ⟨Text.replace path "\\" "/", content.text⟩
    | .directory => none

end SourceFile

namespace Writer

def addMethod (id : Nat) (d : Java.TypeDecl) (w : Writer) (m : Java.Method) : Writer :=
  let w := w.insertMethod ⟨some (Int.ofNat id), m.name, m.returns, m.params, m.isStatic, m.tag⟩
  w.insertEntry {
    package := .text d.package, className := .text d.name, kind := .text d.kind.word
    methodName := .text m.name, returns := .text m.returns, params := .text m.params
    snippet := .text m.snippet }

def addConstant (id : Nat) (d : Java.TypeDecl) (w : Writer) (k : Java.Constant) : Writer :=
  let w := w.insertConstant ⟨some (Int.ofNat id), k.name, k.type, k.value⟩
  w.insertEntry {
    package := .text d.package, className := .text d.name, kind := .text d.kind.word
    constName := .text k.name, constValue := .text k.value, snippet := .text k.snippet }

def addType (path : String) (w : Writer) (d : Java.TypeDecl) : Except Fault Writer := do
  let (w, id) ← w.insertClass {
    package := d.package, name := d.name, kind := d.kind.word, filePath := path
    parent := d.parent, interfaces := d.interfaces }
  let w := w.insertEntry {
    package := .text d.package, className := .text d.name, kind := .text d.kind.word
    snippet := .text ("public " ++ d.kind.word ++ " " ++ d.name) }
  let w := d.methods.foldl (addMethod id d) w
  return d.constants.foldl (addConstant id d) w

def addFile (w : Writer) (f : SourceFile) : Except Fault Writer :=
  (Java.extract (String.ofList f.text)).foldlM (addType f.path) w

end Writer

/-- A database whose catalogue is built anew from source files. -/
def Work.index (w : Work) (files : List SourceFile) : Except Fault Work := do
  let w ← w.makeCatalogue.clearCatalogue
  let ((), w) ← w.write "classes" fun writer => return ((), ← files.foldlM Writer.addFile writer)
  return w

inductive IndexFailure where
  | noCode
  | database
  deriving DecidableEq, Repr

def IndexFailure.key : IndexFailure → String
  | noCode => "no_decompiled"
  | database => "db_error"

/-- Builds the catalogue of a version anew and gives its numbers of classes, methods and
constants. -/
def indexVersion (root : Path) (version : String) :
    Action (Except IndexFailure (Nat × Nat × Nat)) := do
  let dir ← Layout.sources root version
  let h ← get
  if !(← Action.isDir dir) || (h.filesBelow dir ".java").isEmpty then return .error .noCode
  else
    let database ← Layout.catalogue root version
    let outcome ← Action.attempt do
      let c ← Connection.start database
      let c ← Console.beforeProgress do
        let (_, c) ← c.changeNow fun w => .ok ((), w.makeCatalogue)
        let ((), c) ← c.changeNow fun w => return ((), ← w.clearCatalogue)
        return c
      Console.withProgress ("[green]Indexing " ++ version) do
        let ((), c) ← c.changeNow fun w => return ((), ← w.index (SourceFile.below h dir))
        c.query Database.stats
    match outcome with
    | .ok stats => return .ok stats
    | .error _ => return .error .database

end JarAtlas
