import VoiceScript.Kind

namespace VoiceScript

/-- A set of kinds. The members stand in the order of the kinds, each once, so equal sets are equal
values. -/
structure KindSet where
  members : List Kind
  deriving DecidableEq

namespace KindSet

/-- The kinds that pass a test. -/
def filter (test : Kind → Bool) : KindSet :=
  ⟨Kind.all.filter test⟩

def ofList (kinds : List Kind) : KindSet :=
  filter fun kind => kinds.contains kind

def ofTokens (kinds : List TokenKind) : KindSet :=
  ofList (kinds.map .token)

def contains (set : KindSet) (kind : Kind) : Bool :=
  set.members.contains kind

def union (a b : KindSet) : KindSet :=
  filter fun kind => a.contains kind || b.contains kind

/-- The names of the members between braces, in the order of the kinds. -/
def describe (set : KindSet) : String :=
  "\x7b" ++ ", ".intercalate (set.members.map Kind.name) ++ "\x7d"

def empty : KindSet :=
  ⟨[]⟩

def trivia : KindSet :=
  ofTokens [.whitespace, .comment]

/-- The words that may stand before the key of a context header. -/
def modifiers : KindSet :=
  ofTokens [.keyword .and, .keyword .not]

/-- What can be the key of a context header. -/
def headerKeys : KindSet :=
  ofTokens [.identifier, .word, .variableRef, .keyword .app, .keyword .tag, .keyword .mode]

/-- The words that introduce a binding. -/
def bindingKeywords : KindSet :=
  ofTokens
    [.keyword .settings, .keyword .tag, .keyword .app, .keyword .key, .keyword .face, .keyword .deck,
      .keyword .gamepad, .keyword .noise, .keyword .parrot]

/-- A block ends before a line that starts with one of these. -/
def topLevelFirst : KindSet :=
  bindingKeywords.union (modifiers.union (ofTokens [.identifier, .word]))

/-- The rule of a command runs up to one of these. -/
def ruleEnd : KindSet :=
  ofTokens [.colon, .newline]

theorem contains_filter (test : Kind → Bool) (kind : Kind) (listed : kind ∈ Kind.all) :
    (filter test).contains kind = test kind := by
  cases h : test kind with
  | false => simp [filter, contains, h]
  | true => simp [filter, contains, h, listed]

end KindSet

end VoiceScript
