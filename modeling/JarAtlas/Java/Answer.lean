import JarAtlas.Java.Declaration
import JarAtlas.Json.Basic

/-!
Declarations as JSON values.
-/

namespace JarAtlas.Java

def Method.toJson (m : Method) : Json :=
  .obj [
    ("method", .str m.name),
    ("returns", .str m.returns),
    ("params", .str m.params),
    ("is_static", .bool m.isStatic),
    ("annotation", .ofText? m.tag),
    ("snippet", .str m.snippet)]

def Constant.toJson (c : Constant) : Json :=
  .obj [
    ("name", .str c.name),
    ("type", .str c.type),
    ("value", .str c.value),
    ("snippet", .str c.snippet)]

def TypeDecl.toJson (d : TypeDecl) : Json :=
  .obj [
    ("package", .str d.package),
    ("class_name", .str d.name),
    ("kind", .str d.kind.word),
    ("methods", .arr (d.methods.map Method.toJson)),
    ("parent", .ofText? d.parent),
    ("interfaces", .ofText? d.interfaces),
    ("constants", .arr (d.constants.map Constant.toJson))]

end JarAtlas.Java
