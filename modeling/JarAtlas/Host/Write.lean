import JarAtlas.Host.Connect

/-!
Adding rows to a database from values of any kind. The table must be there before the values are
looked at.
-/

namespace JarAtlas

namespace Work

def addClass (w : Work) (package name kind filePath parent interfaces : Json) :
    Except Fault (Nat × Work) :=
  w.write "classes" fun writer => do
    match ← Cell.ofJsons [package, name, kind, filePath, parent, interfaces] with
    | [package, name, kind, filePath, parent, interfaces] =>
      let (writer, id) ← writer.insertClass {
        package := package.asText, name := name.asText, kind := kind.asText
        filePath := filePath.asText, parent := parent.asText, interfaces := interfaces.asText }
      return (id, writer)
    | _ => throw .noKey

def reference (column : String) (cell : Cell) : Except Fault (Option Int) :=
  if cell == .null then .error (missing column) else .ok cell.asWhole.int?

def addMethod (w : Work) (classId name returns params : Json) (isStatic : Bool) (tag : Json) :
    Except Fault Work := do
  let ((), w) ← w.write "methods" fun writer => do
    match ← Cell.ofJsons [classId, name, returns, params, .bool isStatic, tag] with
    | [classId, name, returns, params, _, tag] =>
      let classId ← reference "methods.class_id" classId
      let name ← require "methods.method" name.asText
      let returns ← require "methods.returns" returns.asText
      let params ← require "methods.params" params.asText
      return ((), writer.insertMethod ⟨classId, name, returns, params, isStatic, tag.asText⟩)
    | _ => throw .noKey
  return w

def addConstant (w : Work) (classId name type value : Json) : Except Fault Work := do
  let ((), w) ← w.write "constants" fun writer => do
    match ← Cell.ofJsons [classId, name, type, value] with
    | [classId, name, type, value] =>
      let classId ← reference "constants.class_id" classId
      let name ← require "constants.name" name.asText
      let type ← require "constants.type" type.asText
      let value ← require "constants.value" value.asText
      return ((), writer.insertConstant ⟨classId, name, type, value⟩)
    | _ => throw .noKey
  return w

def addEntry (w : Work) (values : List Json) : Except Fault Work := do
  let ((), w) ← w.write "api_fts" fun writer => do
    match ← Cell.ofJsons values with
    | [package, className, kind, methodName, returns, params, constName, constValue, snippet] =>
      return ((), writer.insertEntry
        { package, className, kind, methodName, returns, params, constName, constValue, snippet })
    | _ => throw .noKey
  return w

def addAsset (w : Work) (values : List Json) : Except Fault Work := do
  let _ ← w.database.assetTable "assets"
  match ← Cell.ofJsons values with
  | [path, extension, size, category, internalId, width, height, metadata, version] =>
    w.insertAsset
      { path, extension, size, category, internalId, width, height, metadata, version }
  | _ => throw .noKey

end Work

end JarAtlas
