import VoiceScript.Cli.Run

namespace VoiceScript.Cli

inductive Opt where
  | source | color | raw | trivia | spans | strict | json | start | stop | state | rules | line | caret
  | selection | rule | smart | write | help
  deriving DecidableEq

namespace Verb

def all : List Verb :=
  [.ast, .tokens, .check, .fold, .rule, .comment]

def name : Verb → String
  | ast => "ast"
  | tokens => "tokens"
  | check => "check"
  | fold => "fold"
  | rule => "rule"
  | comment => "comment"

/-- The options of a verb. -/
def options : Verb → List Opt
  | ast => [.source, .raw, .trivia, .spans, .color, .help]
  | tokens => [.source, .start, .stop, .state, .json, .help]
  | check => [.source, .strict, .color, .help]
  | fold => [.source, .rules, .json, .help]
  | rule => [.source, .line, .help]
  | comment => [.source, .line, .caret, .selection, .rule, .smart, .write, .help]

end Verb

/-- The digits of a number after any number read so far. -/
def readDigits : Nat → List Char → Option Nat
  | n, [] => some n
  | n, c :: cs => if c.isDigit then readDigits (10 * n + (c.toNat - '0'.toNat)) cs else none

/-- A number in decimal: one or more digits. -/
def readDecimal : List Char → Option Nat
  | [] => none
  | c :: cs => readDigits 0 (c :: cs)

/-- A count of lines or bytes: a number below two to the power of 64, maybe with a plus sign. -/
def readCount (word : String) : Option Nat := do
  let n ← match word.toList with
    | '+' :: digits => readDecimal digits
    | digits => readDecimal digits
  if n < UInt64.size then some n else none

/-- The bits of a mode: a number below four, maybe with a sign. -/
def readBits (word : String) : Option Nat := do
  let n ← match word.toList with
    | '-' :: digits => do if (← readDecimal digits) = 0 then some 0 else none
    | _ => readCount word
  if n < 4 then some n else none

namespace Opt

def long : Opt → String
  | source => "source"
  | color => "color"
  | raw => "raw"
  | trivia => "trivia"
  | spans => "spans"
  | strict => "strict"
  | json => "json"
  | start => "start"
  | stop => "end"
  | state => "state"
  | rules => "rules"
  | line => "line"
  | caret => "caret"
  | selection => "selection"
  | rule => "rule"
  | smart => "smart"
  | write => "write"
  | help => "help"

def short? : Opt → Option Char
  | source => some 's'
  | line => some 'n'
  | write => some 'w'
  | help => some 'h'
  | _ => none

/-- The number of values an option takes each time. -/
def arity : Opt → Nat
  | raw | trivia | spans | strict | json | rules | write | help => 0
  | selection => 2
  | _ => 1

/-- Whether an option may be given more than once. -/
def repeats : Opt → Bool
  | caret => true
  | _ => false

/-- Whether a word can be a value of an option. -/
def accepts : Opt → String → Bool
  | start, word | stop, word | line, word | caret, word | selection, word | rule, word | smart, word =>
    (readCount word).isSome
  | state, word => (readBits word).isSome
  | color, word => ["auto", "always", "never"].contains word
  | _, _ => true

end Opt

/-- What the words read so far give: options with their values in their order, and a file. -/
structure Arguments where
  options : List (Opt × List String)
  file : Option String

namespace Arguments

def empty : Arguments :=
  ⟨[], none⟩

def has (a : Arguments) (opt : Opt) : Bool :=
  a.options.any fun given => given.1 == opt

/-- All values of an option. -/
def values (a : Arguments) (opt : Opt) : List String :=
  (a.options.filter fun given => given.1 == opt).flatMap Prod.snd

/-- What the next word does. -/
inductive Progress where
  | done (a : Arguments)
  /-- An option waits for values. -/
  | waiting (a : Arguments) (opt : Opt) (values : List String)
  /-- Help was asked for: no more words are read. -/
  | help

/-- Gives an option with its values, of which there must be as many as it takes. -/
def give (a : Arguments) (opt : Opt) (values : List String) : Option Progress :=
  if values.length = opt.arity ∧ (opt.repeats ∨ a.has opt = false) ∧ values.all opt.accepts then
    some (if opt = .help then .help else .done { a with options := a.options ++ [(opt, values)] })
  else none

/-- There may be one file, and its name is not empty. -/
def addFile (a : Arguments) (file : String) : Option Arguments :=
  if a.file = none ∧ file ≠ "" then some { a with file := some file } else none

/-- A word after two dashes: the name of an option, and its value if an equals sign follows. -/
def readLong (allowed : List Opt) (a : Arguments) (word : List Char) : Option Progress := do
  let name := word.takeWhile (· != '=')
  let opt ← allowed.find? fun opt => opt.long.toList == name
  match word.drop name.length with
  | [] => if opt.arity = 0 then a.give opt [] else return .waiting a opt []
  | _ :: value => a.give opt [String.ofList value]

/-- A word after one dash: short options, the last of them maybe with its value right behind it. -/
def readShort (allowed : List Opt) (a : Arguments) : List Char → Option Progress
  | [] => some (.done a)
  | c :: rest => do
    let opt ← allowed.find? fun opt => opt.short? == some c
    if opt.arity = 0 then
      match ← a.give opt [] with
      | .done b => readShort allowed b rest
      | progress => return progress
    else
      match rest with
      | [] => return .waiting a opt []
      | '=' :: value => a.give opt [String.ofList value]
      | value => a.give opt [String.ofList value]

/-- A word that is no option: a value that an option waits for, or else a file. -/
def readPlain (word : String) : Progress → Option Progress
  | .done a => .done <$> a.addFile word
  | .waiting a opt values =>
    let values := values ++ [word]
    if values.length < opt.arity then some (.waiting a opt values) else a.give opt values
  | .help => some .help

/-- Reads the next word. A word that starts with a dash is no value, unless it is the dash alone. -/
def readWord (allowed : List Opt) (word : String) (progress : Progress) : Option Progress :=
  match word.toList, progress with
  | '-' :: '-' :: rest, .done a => readLong allowed a rest
  | '-' :: c :: rest, .done a => readShort allowed a (c :: rest)
  | '-' :: _ :: _, .waiting .. => none
  | _, progress => readPlain word progress

/-- Reads all words. After one of two dashes there are no more options. -/
def readWords (allowed : List Opt) : Progress → List String → Option Progress
  | .help, _ => some .help
  | .done a, [] => some (.done a)
  | .waiting .., [] => none
  | .done a, "--" :: words => .done <$> words.foldlM addFile a
  | progress, word :: words => do readWords allowed (← readWord allowed word progress) words

/-- The options of which a comment needs one. -/
def modes : List Opt :=
  [.line, .caret, .selection, .rule, .smart]

/-- Whether nothing is missing and nothing excludes another: there is one source, and one way to comment. -/
def isComplete (a : Arguments) (verb : Verb) : Bool :=
  a.file.isSome != a.has .source &&
    match verb with
    | .rule => a.has .line
    | .comment => (modes.filter a.has).length == 1
    | _ => true

def count? (a : Arguments) (opt : Opt) : Option Nat :=
  (a.values opt).head?.bind readCount

def counts? (a : Arguments) (opt : Opt) : Option (List Nat) :=
  if a.has opt then some ((a.values opt).filterMap readCount) else none

/-- The arguments by their names, with the defaults of those that have one. -/
def given (a : Arguments) : Given where
  path := a.file
  text := (a.values .source).head?.map String.toList
  color := some ((a.values .color).head?.getD "auto")
  raw := a.has .raw
  trivia := a.has .trivia
  spans := a.has .spans
  strict := a.has .strict
  json := a.has .json
  rules := a.has .rules
  write := a.has .write
  start := some ((a.count? .start).getD 0)
  stop := a.count? .stop
  state := some (((a.values .state).head?.bind readBits).getD 3)
  line := a.count? .line
  caret := a.counts? .caret
  selection := a.counts? .selection
  rule := a.count? .rule
  smart := a.count? .smart

/-- The texts that a run without a verb to carry out prints, by its words. -/
structure Texts where
  help : List String → List Char
  usage : List String → List Char

/-- What is taken from the words after a verb. -/
def takeVerb (verb : Verb) (words : List String) : Option (Option Given) :=
  match readWords verb.options (.done empty) words with
  | some .help => some none
  | some (.done a) => if a.isComplete verb then some (some a.given) else none
  | _ => none

/-- Whether words without a verb ask for help. -/
def asksHelp : List String → Bool
  | ["help"] => true
  | ["help", topic] => topic == "help" || Verb.all.any fun verb => verb.name == topic
  | word :: _ => word == "--help" || ['-', 'h'].isPrefixOf word.toList
  | [] => false

/-- Takes a verb and its arguments from a command line. The texts are printed with exit code 0 for help, and
with exit code 2 where the words cannot be read or ask for nothing that can be done. -/
def take (texts : Texts) (words : List String) : Taken :=
  let help := Taken.ended ⟨0, texts.help words, []⟩
  let usage := Taken.ended ⟨2, [], texts.usage words⟩
  match words with
  | [] => usage
  | word :: rest =>
    match Verb.all.find? fun verb => verb.name == word with
    | none => if asksHelp words then help else usage
    | some verb =>
      match takeVerb verb rest with
      | none => usage
      | some none => help
      | some (some given) => .asked verb given

end Arguments

end VoiceScript.Cli
