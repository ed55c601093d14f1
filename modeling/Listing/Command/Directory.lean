/-!
# Directories in memory

Files below a working directory. A path is followed part by part as a file system does it: an empty part
and `.` stay in a folder, `..` goes to the folder around it, and all of them need a folder to start
from, so that a file's name with a slash behind it leads nowhere. Around the working directory nothing is
known; from the root, where paths with a slash in front begin, only the empty file of every machine is.
-/
namespace Listing.Command

/-- The texts of files by path. -/
abbrev Files := String → Option String

/-- What stands between the slashes of a path. -/
def pathParts (path : String) : List String := (path.toList.splitOn '/').map .ofList

/-- Files by the parts of their paths, and their texts. -/
abbrev Directory := List (List String × String)

namespace Directory

/-- The directory with the given files. -/
def ofFiles (files : List (String × String)) : Directory :=
  files.map fun (path, text) => ((pathParts path).filter fun part => part != "" && part != ".", text)

/-- Whether the parts lead to a folder: the directory itself, or one with a file somewhere below. -/
def isFolder (d : Directory) (place : List String) : Bool :=
  place.isEmpty || d.any fun (path, _) => place.isPrefixOf path && place.length < path.length

/-- The place that parts lead to from a folder, whether a file is there or not; `above` is the folder
around the whole directory. -/
def follow? (d : Directory) (above : Option (List String)) (place : List String) :
    List String → Option (List String)
  | [] => some place
  | part :: rest =>
    if !d.isFolder place then none
    else if part = "" ∨ part = "." then d.follow? above place rest
    else if part = ".." then
      match place with
      | [] => above.bind fun place => d.follow? above place rest
      | place => d.follow? above place.dropLast rest
    else d.follow? above (place ++ [part]) rest

/-- The text of the file that parts lead to from the top. -/
def textAt? (d : Directory) (above : Option (List String)) (parts : List String) : Option String :=
  (d.follow? above [] parts).bind fun place => List.lookup place d

/-- What every machine holds below its root. -/
def root : Directory := [(["dev", "null"], "")]

/-- The text of the file that a path leads to; the root is the folder around itself. -/
def files (d : Directory) : Files := fun path =>
  match pathParts path with
  | "" :: parts => root.textAt? (some []) parts
  | parts => d.textAt? none parts

end Directory
end Listing.Command
