import VoiceScript.Cli.Run

namespace VoiceScript.Cli

/-- A name in a folder. -/
abbrev Name := List Char

/-- Files by the names that lead to them from the root, the folder that a run starts in, and what comes in on
standard input. The folders are that one, those above it, and those on the way to a file. -/
structure Folder where
  home : List Name
  files : List (List Name × List Char)
  stdin : List Char

/-- Why a path leads to no file. -/
inductive ReadError where
  | notFound
  | notFolder
  | isFolder
  deriving DecidableEq

def ReadError.message : ReadError → String
  | notFound => "No such file or directory (os error 2)"
  | notFolder => "Not a directory (os error 20)"
  | isFolder => "Is a directory (os error 21)"

/-- The names of a path: what stands between its slashes. -/
def namesOf : List Char → List Name
  | [] => [[]]
  | '/' :: cs => [] :: namesOf cs
  | c :: cs =>
    match namesOf cs with
    | [] => [[c]]
    | name :: names => (c :: name) :: names

namespace Folder

/-- Where the files lie. -/
def places (f : Folder) : List (List Name) :=
  f.files.map Prod.fst

/-- The text of the file at the end of some names. -/
def text? (f : Folder) (place : List Name) : Option (List Char) :=
  (f.files.find? fun file => file.1 == place).map Prod.snd

/-- Goes one name further. No name, like a dot, stays in the folder, and two dots lead to the one above; the root
is above itself. -/
def step (f : Folder) (place : List Name) (name : Name) : Except ReadError (List Name) :=
  if f.places.contains place then .error .notFolder
  else if name = [] ∨ name = ['.'] then .ok place
  else if name = ['.', '.'] then .ok place.dropLast
  else if (f.home :: f.places).any (place ++ [name]).isPrefixOf then .ok (place ++ [name])
  else .error .notFound

/-- Where the file of a path lies. A path that starts with a slash is followed from the root. -/
def locate (f : Folder) (path : String) : Except ReadError (List Name) :=
  match path.toList with
  | [] => .error .notFound
  | c :: cs => do
    let place ← (namesOf (c :: cs)).foldlM f.step (if c = '/' then [] else f.home)
    if f.places.contains place then return place else .error .isFolder

/-- Puts a text in the place of that of a file. -/
def store (f : Folder) (place : List Name) (text : List Char) : Folder :=
  { f with files := f.files.map fun file => if file.1 = place then (place, text) else file }

/-- The operations of a run in a folder. No file is made where there is none: a run writes only where it has
read. -/
def system : System (StateM Folder) where
  readFile path f :=
    match f.locate path with
    | .error e => (.error e.message, f)
    | .ok place => (.ok ((f.text? place).getD []), f)
  readStdin f := (.ok f.stdin, { f with stdin := [] })
  writeFile path text f :=
    match f.locate path with
    | .error e => (.error e.message, f)
    | .ok place => (.ok (), f.store place text)
  terminal := false

end Folder

end VoiceScript.Cli
