import ValidatorGen.Entries
import ValidatorGen.Text.Visible

/-! Files: what can go wrong with them, what a command needs from its surroundings, and a working
directory held in memory. -/
namespace ValidatorGen

inductive FileError where
  | system (code : Nat) (kind message : String)
  | notText
deriving DecidableEq, Repr

namespace FileError

def notFound : FileError := .system 2 "NotFound" "No such file or directory"
def notDirectory : FileError := .system 20 "NotADirectory" "Not a directory"
def nameTooLong : FileError := .system 36 "InvalidFilename" "File name too long"
def isDirectory : FileError := .system 21 "IsADirectory" "Is a directory"
def noRoom : FileError := .system 28 "StorageFull" "No space left on device"

def describe : FileError → String
  | .system code kind message =>
    "Os \x7b code: " ++ toString code ++ ", kind: " ++ kind ++ ", message: "
      ++ Text.visible message ++ " \x7d"
  | .notText =>
    "Error \x7b kind: InvalidData, message: "
      ++ Text.visible "stream did not contain valid UTF-8" ++ " \x7d"

end FileError

/-- Access to files, by their paths. Writing replaces the whole file. -/
structure FileHost (m : Type → Type) where
  read : String → m (Except FileError ByteArray)
  write : String → String → m (Except FileError Unit)

structure Host (m : Type → Type) extends FileHost m where
  print : String → m Unit

/-- A host that keeps what is printed. -/
def FileHost.recorded {m : Type → Type} [Monad m] (files : FileHost m) : Host (StateT String m) where
  read path := files.read path
  write path content := files.write path content
  print text := modify (· ++ text)

/-- The directories from the top down to the working directory, and how many bytes a file can hold
if that is limited. -/
structure Disk where
  above : List String := ["tmp", "work"]
  room : Option Nat := none

namespace Disk

def holds (disk : Disk) (content : ByteArray) : Bool := disk.room.all (content.size ≤ ·)

/-- What is written of a text before the room ends. -/
def fill (disk : Disk) (content : ByteArray) : ByteArray :=
  disk.room.elim content fun room => content.extract 0 room

end Disk

/-- The files of a directory without subdirectories. -/
abbrev Directory := List (String × ByteArray)

namespace Directory

/-- Where a path ends. An entry is a name in the directory, or in one above it. -/
inductive Place where
  | directory
  | entry (inside : Bool) (name : String)
  | nowhere (e : FileError)
deriving DecidableEq, Repr

def has (d : Directory) (name : String) : Bool := d.any (·.1 == name)

/-- The bytes a name may have, and those of a path. -/
def maxNameLength : Nat := 255
def maxPathLength : Nat := 4095

/-- Follows the parts of a path from so many directories above this one. Those have no files and no
other directories in them, and there is none above the first. -/
def follow (above : List String) (d : Directory) : Nat → List String → Place
  | _, [] => .directory
  | up, part :: rest =>
    if part = "." then d.follow above up rest
    else if part = ".." then d.follow above (min (up + 1) above.length) rest
    else if 0 < up ∧ above[above.length - up]? = some part then d.follow above (up - 1) rest
    else if rest.isEmpty then .entry (up = 0) part
    else if maxNameLength < part.utf8ByteSize then .nowhere .nameTooLong
    else if up = 0 ∧ d.has part then .nowhere .notDirectory
    else .nowhere .notFound

/-- The parts of a path, which slashes end, after the beginning of the first one. Empty parts do not
move. -/
def partsAfter (start : List Char) : List Char → List String
  | [] => nonempty start
  | c :: rest =>
    if c = '/' then nonempty start ++ partsAfter [] rest else partsAfter (start ++ [c]) rest
where
  nonempty (part : List Char) : List String := if part.isEmpty then [] else [.ofList part]

/-- A path starts at the top if it starts with a slash. -/
def resolve (disk : Disk) (d : Directory) (path : String) : Place :=
  if path.isEmpty then .nowhere .notFound
  else if maxPathLength < path.utf8ByteSize then .nowhere .nameTooLong
  else
    let up := if path.startsWith "/" then disk.above.length else 0
    d.follow disk.above up (partsAfter [] path.toList)

/-- A path with a slash at its end can only name a directory. -/
def read (disk : Disk) (d : Directory) (path : String) : Except FileError ByteArray :=
  match d.resolve disk path with
  | .directory => .error .isDirectory
  | .nowhere e => .error e
  | .entry inside name =>
    if maxNameLength < name.utf8ByteSize then .error .nameTooLong
    else
      match if inside then d.lookup name else none with
      | none => .error .notFound
      | some content => if path.endsWith "/" then .error .notDirectory else .ok content

/-- Opens a file for writing. A slash at the end is refused before the name is looked at. There is
nothing in this directory to write to if the file is in one above. -/
def create (disk : Disk) (d : Directory) (path : String) : Except FileError (Option String) :=
  match d.resolve disk path with
  | .directory => .error .isDirectory
  | .nowhere e => .error e
  | .entry inside name =>
    if path.endsWith "/" then .error .isDirectory
    else if maxNameLength < name.utf8ByteSize then .error .nameTooLong
    else .ok (if inside then some name else none)

/-- A file that was opened holds nothing but what is written to it, also if the room ends. -/
def write (disk : Disk) (d : Directory) (path content : String) :
    Except FileError Unit × Directory :=
  match d.create disk path with
  | .error e => (.error e, d)
  | .ok target? =>
    (if disk.holds content.toUTF8 then .ok () else .error .noRoom,
      target?.elim d fun name => Entries.put name (disk.fill content.toUTF8) d)

/-- The files that are new or have changed. -/
def changes (before after : Directory) : Directory :=
  after.filter fun file =>
    match before.lookup file.1 with
    | some old => old != file.2
    | none => true

def host (disk : Disk := {}) : FileHost (StateM Directory) where
  read path := do return (← get).read disk path
  write path content := modifyGet (·.write disk path content)

end Directory
end ValidatorGen
