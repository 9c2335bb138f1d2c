import VoiceScript.Cli.Arguments

namespace VoiceScript.Cli

namespace Arguments

/-- What is given, except for one option. -/
def without (a : Arguments) (opt : Opt) : Arguments :=
  { a with options := a.options.filter fun given => given.1 != opt }

def Progress.without (opt : Opt) : Progress → Progress
  | .done a => .done (a.without opt)
  | .waiting a waits values => .waiting (a.without opt) waits values
  | .help => .help

/-- What is left of a word without the option to write. -/
def previewWord (word : String) : List String :=
  if word = "--write" then []
  else
    match word.toList with
    | ['-', 'w'] => []
    | '-' :: 'w' :: letters => [String.ofList ('-' :: letters)]
    | _ => [word]

/-- The same command line without the option to write. -/
def preview : List String → List String
  | [] => []
  | word :: words => if word = "--" then word :: words else previewWord word ++ preview words

end Arguments

/-- What is relied on of a parser of the command line, as the arguments are declared: a text excludes a path, and
the option to write is a flag that bears on nothing else. -/
structure LawfulTake (take : List String → Taken) : Prop where
  oneSource : ∀ words verb given, take words = .asked verb given → given.text.isSome = true →
    given.path = none
  withoutWrite : ∀ words given, take words = .asked .comment given →
    take (Arguments.preview words) = .asked .comment { given with write := false }

namespace Arguments

variable {a b : Arguments} {opt left : Opt} {values : List String} {allowed : List Opt}
  {c : Char} {cs : List Char} {p q : Progress} {word : String} {words : List String}

@[simp] theorem file_without (a : Arguments) (opt : Opt) : (a.without opt).file = a.file := rfl

end Arguments

end VoiceScript.Cli
