/-!
What is known about the declarations of a source file.
-/

namespace JarAtlas.Java

inductive Kind where
  | classType
  | interfaceType
  | recordType
  | enumType
  deriving DecidableEq, Repr, Inhabited

namespace Kind

def word : Kind → String
  | classType => "class"
  | interfaceType => "interface"
  | recordType => "record"
  | enumType => "enum"

def all : List Kind :=
  [classType, interfaceType, recordType, enumType]

end Kind

structure Method where
  name : String
  returns : String
  params : String
  isStatic : Bool
  tag : Option String
  snippet : String
  deriving DecidableEq, Repr, Inhabited

structure Constant where
  name : String
  type : String
  value : String
  snippet : String
  deriving DecidableEq, Repr, Inhabited

structure TypeDecl where
  package : String
  name : String
  kind : Kind
  methods : List Method
  parent : Option String
  interfaces : Option String
  constants : List Constant
  deriving DecidableEq, Repr, Inhabited

end JarAtlas.Java
