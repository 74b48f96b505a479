import TapeMachine.Text.Basic

namespace TapeMachine

inductive Entry
  | absent
  | folder
  | file (bytes : List UInt8)
  deriving Repr, DecidableEq

structure Folder where
  files : List (List Text × List UInt8) := []
  folders : List (List Text) := []
  deriving Repr, DecidableEq

namespace Path

def parts (path : Text) : List Text := path.splitOn '/'

def idle (part : Text) : Bool := part == [] || part == ['.']

def names (path : Text) : List Text := (parts path).filter (!idle ·)

/-- Two slashes at the start, and no more than two, are kept as they are. -/
def root : Text → Text
  | '/' :: '/' :: '/' :: _ => ['/']
  | '/' :: '/' :: _ => ['/', '/']
  | '/' :: _ => ['/']
  | _ => []

def normalize (path : Text) : Text :=
  match root path ++ Text.joinWith ['/'] (names path) with
  | [] => ['.']
  | normal => normal

end Path

namespace Folder

def isFolder (f : Folder) (names : List Text) : Bool :=
  names.isEmpty || f.folders.any names.isPrefixOf ||
    f.files.any fun file => names.isPrefixOf file.1 && names != file.1

def entry (f : Folder) (names : List Text) : Entry :=
  match f.files.lookup names with
  | some bytes => .file bytes
  | none => if f.isFolder names then .folder else .absent

/-- Follows parts from a place inside the working folder. A part leads on from a folder only,
and what lies outside is known to be a folder and nothing more. -/
def follow (f : Folder) (names : List Text) : List Text → Entry
  | [] => f.entry names
  | part :: rest =>
    if f.isFolder names then
      if Path.idle part then f.follow names rest
      else if part = ['.', '.'] then
        if names.isEmpty then
          if rest.all fun part => Path.idle part || part == ['.', '.'] then .folder else .absent
        else f.follow names.dropLast rest
      else f.follow (names ++ [part]) rest
    else .absent

def look (f : Folder) (path : Text) : Entry :=
  match path with
  | [] => .absent
  | '/' :: _ => if (Path.names path).all (· == ['.', '.']) then .folder else .absent
  | _ => f.follow [] (Path.parts path)

end Folder

end TapeMachine
