import VoiceScript.KindSet
import VoiceScript.Token

namespace VoiceScript.Ahead

/-- The tokens from the first on that is no trivia. -/
def skipTrivia (tokens : List Token) : List Token :=
  tokens.dropWhile Token.isTrivia

/-- The kind of the first token. -/
def first? (tokens : List Token) : Option TokenKind :=
  tokens.head?.map Token.kind

/-- Whether a kind is in a set. The end of the tokens is in none. -/
def isIn (set : KindSet) : Option TokenKind → Bool
  | none => false
  | some kind => set.contains (.token kind)

/-- Whether the line ends here. -/
def isLineEnd : Option TokenKind → Bool
  | none => true
  | some kind => kind == .newline

/-- Whether a colon comes first, trivia aside. -/
def colon (tokens : List Token) : Bool :=
  first? (skipTrivia tokens) == some .colon

/-- Whether a kind can be the key of a context header. A plain word can only above the separator. -/
def isKey (aboveSeparator : Bool) (kind : TokenKind) : Bool :=
  if kind = .word then aboveSeparator else KindSet.headerKeys.contains (.token kind)

/-- Whether a context header comes: modifiers, a key and a colon. -/
def header (aboveSeparator : Bool) (tokens : List Token) : Bool :=
  match tokens.dropWhile fun t => t.isTrivia || KindSet.modifiers.contains (.token t.kind) with
  | [] => false
  | key :: after => isKey aboveSeparator key.kind && colon after

/-- Whether the rest of the line has a colon. -/
def colonOnLine (tokens : List Token) : Bool :=
  first? (tokens.dropWhile fun t => !KindSet.ruleEnd.contains (.token t.kind)) == some .colon

/-- Whether a binding comes: a keyword, arguments in parentheses if there are any, and a colon. The
arguments go to the first closing parenthesis. -/
def binding : List Token → Bool
  | [] => false
  | keyword :: after =>
    KindSet.bindingKeywords.contains (.token keyword.kind)
      && if first? (skipTrivia after) = some .parenOpen then
          match (skipTrivia after).dropWhile fun t => t.kind != .parenClose with
          | [] => false
          | _ :: after => colon after
        else colon after

end VoiceScript.Ahead
