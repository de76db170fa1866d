import LoxLang.Bindings
import LoxLang.Path

/-!
Files by path.  A path is followed part by part from a directory, so every part
but the last has to be a directory that exists.
-/

namespace LoxLang

/-- What a path leads to. -/
inductive Entry where
  | file (content : Bytes)
  | directory
  | missing
  /-- A part before the last is a file. -/
  | notDirectory
  /-- Something is there that may not be read. -/
  | forbidden
  /-- The path or a part of it exceeds its limit. -/
  | tooLong
  /-- The path holds a zero byte. -/
  | invalid
deriving DecidableEq, Repr

/-- The lengths that no path and no part of a path reach. -/
def pathLimit : Nat := 4096

def partLimit : Nat := 256

/-- What is wrong with a path, wherever it may lead. -/
def Entry.ofPath? (path : Bytes) : Option Entry :=
  if path.contains 0 then some .invalid
  else if pathLimit ≤ path.length then some .tooLong
  else if path.isEmpty then some .missing
  else none

/-- Files by their cleaned absolute paths, and directories that exist whether
or not they hold a file. -/
structure FileTree where
  files : Bindings Bytes
  directories : List Bytes

namespace FileTree

/-- What stands at an absolute path, given by its parts. -/
def entryAt (tree : FileTree) (parts : List Bytes) : Entry :=
  let path := Path.separator :: Path.ofParts parts
  let isInside (other : Bytes) : Bool := (path ++ [Path.separator]).isPrefixOf other
  match tree.files.get? path with
  | some content => .file content
  | none =>
      if parts.isEmpty || tree.directories.contains path ||
          tree.files.any (fun file => isInside file.1) || tree.directories.any isInside then
        .directory
      else
        .missing

/-- Follow parts from a directory.  The answer tells what is there, and the
parts of its absolute path if the path can be created or holds something. -/
def follow (tree : FileTree) : List Bytes → List Bytes → Entry × Option (List Bytes)
  | here, [] => (.directory, some here)
  | here, part :: rest =>
      if part = [] ∨ part = Path.dot then
        tree.follow here rest
      else if part = Path.dotDot then
        tree.follow here.dropLast rest
      else if partLimit ≤ part.length then
        (.tooLong, none)
      else
        let next := here ++ [part]
        match tree.entryAt next with
        | .directory => tree.follow next rest
        | .file content =>
            if rest.isEmpty then (.file content, some next) else (.notDirectory, none)
        | _ => (.missing, if rest.isEmpty then some next else none)

/-- Follow a path that starts in a directory unless it is absolute. -/
def locate (tree : FileTree) (directory path : Bytes) : Entry × Option (List Bytes) :=
  match Entry.ofPath? path with
  | some entry => (entry, none)
  | none =>
      let start := if Path.isAbsolute path then [] else
        (Path.parts directory).filter (!·.isEmpty)
      tree.follow start (Path.parts path)

def find (tree : FileTree) (directory path : Bytes) : Entry :=
  (tree.locate directory path).1

/-- Write a file.  Nothing happens if its directory does not exist. -/
def write (tree : FileTree) (directory path content : Bytes) : FileTree :=
  match tree.locate directory path with
  | (.file _, some parts) | (.missing, some parts) =>
      let path := Path.separator :: Path.ofParts parts
      { tree with files := tree.files.insert path content }
  | _ => tree

end FileTree

end LoxLang
