import JarAtlas.Catalogue.Search

/-!
Rows of a catalogue as JSON values.
-/

namespace JarAtlas

def MethodRow.toJson (m : MethodRow) : Json :=
  .obj [
    ("method", .str m.name),
    ("returns", .str m.returns),
    ("params", .str m.params),
    ("is_static", .bool m.isStatic),
    ("annotation", .ofText? m.tag)]

def ConstantRow.toJson (k : ConstantRow) : Json :=
  .obj [("name", .str k.name), ("type", .str k.type), ("value", .str k.value)]

def ClassRow.toJson (c : ClassRow) : Json :=
  .obj [
    ("package", .str c.package),
    ("class_name", .str c.name),
    ("kind", .str c.kind),
    ("file_path", .str c.filePath)]

def ClassRow.toRelativeJson (c : ClassRow) : Json :=
  .obj [
    ("package", .str c.package),
    ("class_name", .str c.name),
    ("kind", .str c.kind),
    ("parent", .ofText? c.parent),
    ("interfaces", .ofText? c.interfaces),
    ("file_path", .str c.filePath)]

def ClassDetails.fields (d : ClassDetails) : List (String × Json) :=
  [ ("package", .str d.row.package),
    ("class_name", .str d.row.name),
    ("kind", .str d.row.kind),
    ("file_path", .str d.row.filePath),
    ("parent", .ofText? d.row.parent),
    ("interfaces", .ofText? d.row.interfaces),
    ("methods", .arr (d.methods.map MethodRow.toJson)),
    ("constants", .arr (d.constants.map ConstantRow.toJson))]

def ClassDetails.methodFields (d : ClassDetails) : List (String × Json) :=
  [ ("package", .str d.row.package),
    ("class_name", .str d.row.name),
    ("kind", .str d.row.kind),
    ("file_path", .str d.row.filePath),
    ("methods", .arr (d.methods.map MethodRow.toJson))]

def ClassMethod.toSubscription (m : ClassMethod) : Json :=
  .obj [
    ("package", .str m.row.package),
    ("class_name", .str m.row.name),
    ("method", .str m.method.name),
    ("params", .str m.method.params),
    ("annotation", .ofText? m.method.tag)]

def ClassMethod.toSystem (m : ClassMethod) : Json :=
  .obj [
    ("package", .str m.row.package),
    ("class_name", .str m.row.name),
    ("file_path", .str m.row.filePath),
    ("method", .str m.method.name),
    ("params", .str m.method.params)]

def Hit.toJson (h : Hit) : Json :=
  .obj [
    ("package", h.entry.package.toJson),
    ("class_name", h.entry.className.toJson),
    ("kind", h.entry.kind.toJson),
    ("method_name", h.entry.methodName.toJson),
    ("returns", h.entry.returns.toJson),
    ("params", h.entry.params.toJson),
    ("const_name", h.entry.constName.toJson),
    ("const_value", h.entry.constValue.toJson),
    ("snippet", h.entry.snippet.toJson),
    ("file_path", .str h.filePath)]

def ClassHit.toJson (c : ClassHit) : Json :=
  .obj [
    ("package", c.hit.entry.package.toJson),
    ("class_name", c.hit.entry.className.toJson),
    ("kind", c.hit.entry.kind.toJson),
    ("file_path", .str c.hit.filePath),
    ("method_count", .ofNat c.count)]

end JarAtlas
