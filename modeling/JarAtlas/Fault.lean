import JarAtlas.FullText.Expr
import JarAtlas.Json.Display

/-!
The ways in which an action can fail.
-/

namespace JarAtlas

inductive StoreError where
  | cannotOpen
  | notDatabase
  | noTable (name : String)
  | locked
  | query (error : FullText.QueryError)
  | missingValue (column : String)
  | mismatch
  | patternTooLong
  | unbindable (position : Nat) (kind : String)
  deriving DecidableEq, Repr

def StoreError.message : StoreError → String
  | cannotOpen => "unable to open database file"
  | notDatabase => "file is not a database"
  | noTable name => "no such table: " ++ name
  | locked => "database is locked"
  | query error => error.message
  | missingValue column => "NOT NULL constraint failed: " ++ column
  | mismatch => "datatype mismatch"
  | patternTooLong => "LIKE or GLOB pattern too complex"
  | unbindable position kind =>
    "Error binding parameter " ++ toString position ++ ": type '" ++ kind ++ "' is not supported"

inductive FileError where
  | missing
  | alreadyThere
  | notDirectory
  | isDirectory
  | nameTooLong
  deriving DecidableEq, Repr

namespace FileError

def number : FileError → Nat
  | missing => 2
  | alreadyThere => 17
  | notDirectory => 20
  | isDirectory => 21
  | nameTooLong => 36

def wording : FileError → String
  | missing => "No such file or directory"
  | alreadyThere => "File exists"
  | notDirectory => "Not a directory"
  | isDirectory => "Is a directory"
  | nameTooLong => "File name too long"

end FileError

inductive Fault where
  | wrongKind (text : String)
  | noMember
  | notText (kind : String)
  | badValue
  | tooLarge
  | noKey
  | noPlace
  | tooNested
  | nullInPath
  | noHome
  | store (error : StoreError)
  | file (error : FileError) (path : String)
  | move (error : FileError) (source target : String)
  | badEncoding
  | badOutput
  | badJson
  | badArchive
  | encrypted (name : String)
  | badMarkup (text : String)
  | unshowable
  | unreachable (reason : String)
  | interrupted
  | other (text : String)
  | exit (code : Int)
  | abort
  deriving DecidableEq, Repr

namespace Fault

def message : Fault → String
  | wrongKind text => text
  | noMember => ""
  | notText kind => "'" ++ kind ++ "' object has no attribute 'strip'"
  | badValue => ""
  | tooLarge => ""
  | noKey => ""
  | noPlace => ""
  | tooNested => ""
  | nullInPath => "embedded null byte"
  | noHome => ""
  | store error => error.message
  | file error path =>
    "[Errno " ++ toString error.number ++ "] " ++ error.wording ++ ": " ++
      String.ofList (Json.displayInner (.str path))
  | move error source target =>
    "[Errno " ++ toString error.number ++ "] " ++ error.wording ++ ": " ++
      String.ofList (Json.displayInner (.str source)) ++ " -> " ++
      String.ofList (Json.displayInner (.str target))
  | badEncoding => ""
  | badOutput => ""
  | badJson => ""
  | badArchive => "File is not a zip file"
  | encrypted name =>
    "File " ++ String.ofList (Json.displayInner (.str name)) ++
      " is encrypted, password required for extraction"
  | badMarkup text => text
  | unshowable => ""
  | unreachable reason => "<urlopen error " ++ reason ++ ">"
  | interrupted => ""
  | other text => text
  | exit _ => ""
  | abort => ""

end Fault

end JarAtlas
