import Wadl.Charset.Utf8
import Wadl.Text.Blank
import Wadl.Text.Quoted

/-!
# Paths and trees of files

`pathText` writes a path without what adds nothing to it, and a `FileFault` says why there is no
file at one. A `FileTree` holds finitely many files and a directory in which relative paths start. A
directory is there if a file is in it.
-/

namespace Wadl

/-! ## Paths -/

/-- Why a file cannot be read or written. -/
inductive FileFault where
  | notFound
  | alreadyThere
  | notADirectory
  | isDirectory
  | nameTooLong
  | denied
  deriving DecidableEq, Repr

/-- The text of a fault at a path. -/
def FileFault.message (path : String) : FileFault → String
  | notFound => "[Errno 2] No such file or directory: " ++ quoted path
  | denied => "[Errno 13] Permission denied: " ++ quoted path
  | alreadyThere => "[Errno 17] File exists: " ++ quoted path
  | notADirectory => "[Errno 20] Not a directory: " ++ quoted path
  | isDirectory => "[Errno 21] Is a directory: " ++ quoted path
  | nameTooLong => "[Errno 36] File name too long: " ++ quoted path

/-- The slashes that a path begins with, as far as they matter: two are kept, more are one. -/
def rootText (path : String) : String :=
  let slashes := (path.toList.takeWhile (· == '/')).length
  if slashes = 0 then "" else if slashes = 2 then "//" else "/"

/-- The names in a path, without empty ones and those that stay where they are. -/
def pathNames (path : String) : List String :=
  (piecesAt '/' path).filter fun name => !name.isEmpty && name != "."

/-- A path without what adds nothing to it. -/
def pathText (path : String) : String :=
  let text := rootText path ++ "/".intercalate (pathNames path)
  if text.isEmpty then "." else text

/-! ## Trees -/

/-- Files by the names that lead to them from the root. -/
structure FileTree where
  /-- The directory in which relative paths start. -/
  here : List String
  files : List (List String × List UInt8)
  deriving Repr

namespace FileTree

/-- Whether there is a directory at some names. -/
def hasDirectory (t : FileTree) (place : List String) : Bool :=
  place.isPrefixOf t.here ||
    t.files.any fun (path, _) => place.length < path.length && place.isPrefixOf path

/-- The bytes of the file at some names. -/
def file? (t : FileTree) (place : List String) : Option (List UInt8) := t.files.lookup place

/-- Where names lead from a place. -/
def walk (t : FileTree) : List String → List String → Except FileFault (List String)
  | place, [] => .ok place
  | place, name :: rest =>
    if !t.hasDirectory place then .error .notADirectory
    else if name.isEmpty || name = "." then t.walk place rest
    else if name = ".." then t.walk place.dropLast rest
    else if 255 < (Utf8.encode name.toList).length then .error .nameTooLong
    else
      let next := place ++ [name]
      if t.hasDirectory next || (t.file? next).isSome then t.walk next rest
      else .error .notFound

/-- Where a path starts. -/
def start (t : FileTree) (path : String) : List String := if path.startsWith "/" then [] else t.here

/-- The place that a path leads to. -/
def find (t : FileTree) (path : String) : Except FileFault (List String) :=
  if path.isEmpty then .error .notFound else t.walk (t.start path) (piecesAt '/' path)

/-- The bytes of the file at a path. -/
def read (t : FileTree) (path : String) : Except FileFault (List UInt8) := do
  let place ← t.find path
  match t.file? place with
  | some bytes => return bytes
  | none => throw .isDirectory

/-- Whether there is a directory at a path; none if nothing is there. -/
def directoryAt? (t : FileTree) (path : String) : Option Bool :=
  (t.find path).toOption.map fun place => (t.file? place).isNone

/-- The path from the root for one that is there. -/
def locate (t : FileTree) (path : String) : String :=
  match t.find path with
  | .ok place => "/" ++ "/".intercalate place
  | .error _ => path

/-- Where names lead from a place if directories that lack are made. -/
def makeWay (t : FileTree) : List String → List String → Except FileFault (List String)
  | place, [] => .ok place
  | place, name :: rest =>
    if name = ".." then t.makeWay place.dropLast rest
    else
      let next := place ++ [name]
      if 255 < (Utf8.encode name.toList).length then .error .nameTooLong
      else if (t.file? next).isSome then
        .error (if rest.isEmpty then .alreadyThere else .notADirectory)
      else t.makeWay next rest

/-- The tree with a file at a path, in directories that are made if they lack. -/
def write (t : FileTree) (path : String) (bytes : List UInt8) : Except FileFault FileTree := do
  let names := pathNames path
  match names.getLast? with
  | none => throw .isDirectory
  | some name =>
    let parent ← t.makeWay (t.start path) names.dropLast
    let place := if name = ".." then parent.dropLast else parent ++ [name]
    if t.hasDirectory place then throw .isDirectory
    if 255 < (Utf8.encode name.toList).length then throw .nameTooLong
    return { t with files := t.files.filter (·.1 != place) ++ [(place, bytes)] }

end FileTree

end Wadl
