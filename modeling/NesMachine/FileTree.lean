/-!
# Files

A program that reads files by their paths can be run on files that are given as data: a `FileTree`
holds the files and the directories of a host. A path is a sequence of names with slashes between
them. It is followed from the root if it starts with a slash, and from the working directory if not.
An empty name and a dot stay in a directory, two dots lead to the one above it, and the root is
above itself. Nothing lies below a file, not even an empty name, so a path that ends in a slash names
no file (`follow_below_file`).
-/

set_option autoImplicit false

namespace NesMachine

/-- Why a file cannot be read. -/
inductive FileError where
  | notFound
  | accessDenied
  /-- A name lies below a file. -/
  | notDirectory
  | isDirectory
  | nameTooLong
  | other (message : String)
  deriving DecidableEq

namespace FileError

/-- The message for a user. -/
def message : FileError → String
  | .notFound => "No such file or directory (os error 2)"
  | .accessDenied => "Permission denied (os error 13)"
  | .notDirectory => "Not a directory (os error 20)"
  | .isDirectory => "Is a directory (os error 21)"
  | .nameTooLong => "File name too long (os error 36)"
  | .other message => message

/-- The error that a host tells by a number. -/
def ofNumber? : Nat → Option FileError
  | 2 => some .notFound
  | 13 => some .accessDenied
  | 20 => some .notDirectory
  | 21 => some .isDirectory
  | 36 => some .nameTooLong
  | _ => none

end FileError

/-- The files and the directories of a host. Places are named from the root. The root, the working
directory and whatever holds a file or a directory are directories too. -/
structure FileTree where
  files : List (List String × ByteArray)
  directories : List (List String)
  workingDirectory : List String

namespace FileTree

/-- The most bytes that a path may have. -/
def pathLimit : Nat := 4095

/-- The most bytes that a name in a path may have. -/
def nameLimit : Nat := 255

/-- The names in a path. -/
def pathNames (path : String) : List String :=
  (path.toList.splitOn '/').map String.ofList

/-- Whether a place is a directory, if it is not a file. -/
def hasDirectory (t : FileTree) (place : List String) : Bool :=
  (t.workingDirectory :: t.directories ++ t.files.map Prod.fst).any place.isPrefixOf

/-- The file at the end of some names that are followed from a directory. -/
def follow (t : FileTree) (directory : List String) : List String → Except FileError ByteArray
  | [] => .error .isDirectory
  | name :: rest =>
      if name = "" ∨ name = "." then t.follow directory rest
      else if name = ".." then t.follow directory.dropLast rest
      else if nameLimit < name.utf8ByteSize then .error .nameTooLong
      else
        let place := directory ++ [name]
        match t.files.lookup place with
        | some bytes => if rest = [] then .ok bytes else .error .notDirectory
        | none => if t.hasDirectory place then t.follow place rest else .error .notFound

/-- The file at the end of a path. An empty path leads nowhere. -/
def read (t : FileTree) (path : String) : Except FileError ByteArray :=
  if path = "" then .error .notFound
  else if pathLimit < path.utf8ByteSize then .error .nameTooLong
  else t.follow (if path.startsWith '/' then [] else t.workingDirectory) (pathNames path)

theorem follow_file {t : FileTree} {directory : List String} {name : String} {bytes : ByteArray}
    (plain : ¬(name = "" ∨ name = ".") ∧ name ≠ "..") (short : name.utf8ByteSize ≤ nameLimit)
    (found : t.files.lookup (directory ++ [name]) = some bytes) (rest : List String) :
    t.follow directory (name :: rest) = if rest = [] then .ok bytes else .error .notDirectory := by
  rw [follow, if_neg plain.1, if_neg plain.2, if_neg (Nat.not_lt.2 short)]
  simp only [found]

/-- A path that goes on after a file, if only by a slash, leads to no file. -/
theorem follow_below_file {t : FileTree} {directory : List String} {name : String}
    {bytes : ByteArray} (plain : ¬(name = "" ∨ name = ".") ∧ name ≠ "..")
    (short : name.utf8ByteSize ≤ nameLimit)
    (found : t.files.lookup (directory ++ [name]) = some bytes) (next : String)
    (rest : List String) :
    t.follow directory (name :: next :: rest) = .error .notDirectory := by
  rw [follow_file plain short found, if_neg (List.cons_ne_nil next rest)]

end FileTree

end NesMachine
