import RubySexp.Text.Quoted

namespace RubySexp.Command

/-!
# Paths and Files

How the path of a file is written, and a working directory that is held in memory.
-/

/-- The parts of a path between slashes; empty parts and single points say nothing. -/
def pathParts (path : String) : List String :=
  (path.splitOn "/").filter fun part => part != "" && part != "."

/-- The root that a path starts with. Two slashes are a root of their own; more count as one. -/
def pathRoot (path : String) : String :=
  match path.toList with
  | '/' :: '/' :: '/' :: _ => "/"
  | '/' :: '/' :: _ => "//"
  | '/' :: _ => "/"
  | _ => ""

/-- The full path of a file, seen from a working directory. -/
def fullPath (directory path : String) : String :=
  let parts := pathParts path
  let root := pathRoot path
  if root != "" then root ++ "/".intercalate parts
  else if parts.isEmpty then directory
  else if directory.toList.getLast? == some '/' then directory ++ "/".intercalate parts
  else directory ++ "/" ++ "/".intercalate parts

/-- Why a file cannot be read. -/
inductive FileProblem where
  | missing
  | notDirectory
  | isDirectory
  | nameTooLong
  | denied
  deriving DecidableEq, Repr

/-- The number and the words that the system has for a problem. -/
def FileProblem.describe : FileProblem → String
  | .missing => "[Errno 2] No such file or directory"
  | .denied => "[Errno 13] Permission denied"
  | .notDirectory => "[Errno 20] Not a directory"
  | .isDirectory => "[Errno 21] Is a directory"
  | .nameTooLong => "[Errno 36] File name too long"

/-- What the command says when a file cannot be read. -/
def FileProblem.message (problem : FileProblem) (path : String) : String :=
  "Cannot read " ++ path ++ ": " ++ problem.describe ++ ": " ++
    String.ofList (Quoted.text path.toList)

/-- A directory with the files in it and below it, each under the parts of its path. -/
structure Directory where
  path : String
  files : List (List String × String)

namespace Directory

def file? (d : Directory) (parts : List String) : Option String :=
  (d.files.find? (·.1 == parts)).map (·.2)

/-- Whether a file lies below these parts. The directory itself is always there. -/
def isDirectory (d : Directory) (parts : List String) : Bool :=
  parts.isEmpty || d.files.any fun (file, _) => parts.isPrefixOf file && parts != file

/-- Follows a path from the directory reached so far. -/
def follow (d : Directory) (reached : List String) : List String → Except FileProblem String
  | [] =>
    match d.file? reached with
    | some content => .ok content
    | none => .error .isDirectory
  | part :: rest =>
    let next := if part == ".." then reached.dropLast else reached ++ [part]
    if !d.isDirectory reached then .error .notDirectory
    else if 255 < part.utf8ByteSize then .error .nameTooLong
    else if (d.file? next).isSome || d.isDirectory next then follow d next rest
    else .error .missing

/-- The content of the file at a full path. Outside the directory there are no files. -/
def read (d : Directory) (path : String) : Except FileProblem String :=
  let parts := pathParts path
  let home := pathParts d.path
  if 4096 ≤ path.utf8ByteSize then .error .nameTooLong
  else if home.isPrefixOf parts then d.follow [] (parts.drop home.length)
  else
    match parts with
    | [] => .error .isDirectory
    | part :: _ => .error (if 255 < part.utf8ByteSize then .nameTooLong else .missing)

end Directory

/-- The lines of a file end in a line feed, however they are written. -/
def normalizeLineEnds : List Char → List Char
  | [] => []
  | '\r' :: '\n' :: cs => '\n' :: normalizeLineEnds cs
  | c :: cs => (if c == '\r' then '\n' else c) :: normalizeLineEnds cs

end RubySexp.Command
