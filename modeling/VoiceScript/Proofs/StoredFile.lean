import VoiceScript.Cli.Folder
import VoiceScript.Proofs.CommandLine

namespace VoiceScript.Cli

/-- Files as a run meets them: the file that a path leads to, and the text of a file. Several paths may lead to
one file. Where there is none, or no text, the reason is given. -/
structure Files (World File : Type) where
  locate : World → String → Except String File
  text : World → File → Except String (List Char)

namespace Files

variable {World File : Type} {files : Files World File} {w w' w'' : World} {file : File}
  {path : String} {old new : List Char}

def read (files : Files World File) (w : World) (path : String) : Except String (List Char) := do
  files.text w (← files.locate w path)

/-- No file is touched. -/
structure Kept (files : Files World File) (w w' : World) : Prop where
  located : files.locate w' = files.locate w
  texts : files.text w' = files.text w

/-- A text has come in the place of that of a file. No other file is touched. -/
structure Overwritten (files : Files World File) (w w' : World) (file : File) (new : List Char) :
    Prop where
  located : files.locate w' = files.locate w
  changed : files.text w' file = .ok new
  kept : ∀ other, other ≠ file → files.text w' other = files.text w other

theorem Kept.refl (files : Files World File) (w : World) : files.Kept w w :=
  ⟨rfl, rfl⟩

theorem read_eq_ok_iff :
    files.read w path = .ok old ↔ ∃ file, files.locate w path = .ok file ∧ files.text w file = .ok old := by
  unfold read
  cases files.locate w path with
  | error e => simp [bind, Except.bind]
  | ok file => simp [bind, Except.bind]

end Files

/-- What is relied on of a system. Reading a file gives the text of the one that the path leads to, no reading
touches a file, and a file that is there can be overwritten. -/
structure System.Lawful {World File : Type} (sys : System (StateM World)) (files : Files World File) :
    Prop where
  readFile : ∀ path w, ((sys.readFile path).run w).1 = files.read w path
  readFile_kept : ∀ path w, files.Kept w ((sys.readFile path).run w).2
  readStdin_kept : ∀ w, files.Kept w (sys.readStdin.run w).2
  writeFile : ∀ path new w file, files.locate w path = .ok file →
    ((sys.writeFile path new).run w).1 = .ok ()
  writeFile_overwritten : ∀ path new w file, files.locate w path = .ok file →
    files.Overwritten w ((sys.writeFile path new).run w).2 file new

variable {World File : Type} {files : Files World File} {sys : System (StateM World)}
  {take : List String → Taken} {words : List String} {given : Given} {source : Source}
  {request : Comment.Request} {action : Action} {path : String} {file : File}
  {text old new : List Char} {write : Bool} {w w' : World}

theorem LawfulTake.text_eq_none {verb : Verb} (h : LawfulTake take) (hasked : take words = .asked verb given)
    (hpath : given.path = some path) : given.text = none := by
  cases htext : given.text with
  | none => rfl
  | some text =>
    have hnone := h.oneSource words verb given hasked (by simp [htext])
    rw [hpath] at hnone
    cases hnone

theorem Source.load_file (hsys : sys.Lawful files) (htext : source.text = none)
    (hpath : source.path = some path) (hne : path ≠ "-") (w : World) :
    ((source.load sys).run w).1 = (files.read w path).mapError (.file path) := by
  rw [← hsys.readFile path w]
  simp only [load, htext, hpath, hne, if_false]
  rfl

/-- A command line has a comment written: it asks for that with a path of a file, the path leads to a file with a
text, and the request has an answer on that text. -/
structure Edits (take : List String → Taken) (files : Files World File) (w : World)
    (words : List String) (given : Given) (path : String) (file : File) (old new : List Char) : Prop where
  asked : take words = .asked .comment given
  write : given.write = true
  named : given.path = some path
  ne_dash : path ≠ "-"
  located : files.locate w path = .ok file
  stored : files.text w file = .ok old
  edited : Comment.apply old given.request = .ok new

namespace Edits

/-- The same arguments, to be written or not, load the text of the file. -/
theorem load (h : Edits take files w words given path file old new) (hsys : sys.Lawful files)
    (htake : LawfulTake take) : ((given.source.load sys).run w).1 = .ok old := by
  have htext := htake.text_eq_none h.asked h.named
  have hread : files.read w path = .ok old := Files.read_eq_ok_iff.mpr ⟨file, h.located, h.stored⟩
  rw [Source.load_file hsys htext h.named h.ne_dash, hread]
  rfl

end Edits

namespace Folder

variable {f g : Folder} {place : List Name}

/-- The files of a folder, each by the names that lead to it from the root. -/
def contents : Files Folder (List Name) where
  locate f path := match f.locate path with
    | .ok place => .ok place
    | .error e => .error e.message
  text f place := match f.text? place with
    | some text => .ok text
    | none => .error ReadError.notFound.message

end Folder

end VoiceScript.Cli
