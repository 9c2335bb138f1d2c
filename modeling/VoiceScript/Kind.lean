namespace VoiceScript

/-- The reserved words. -/
inductive Keyword where
  | and | not | or | settings | tag | app | key | face | deck | gamepad | noise | parrot | mode | user
  | self
  deriving DecidableEq

/-- The tokens of one fixed character. -/
inductive Punct where
  | colon | parenOpen | parenClose | bracketOpen | bracketClose | braceOpen | braceClose | comma | dot
  | pipe | dash | equals | plus | star | dollar | greater
  deriving DecidableEq

/-- What a token is. -/
inductive TokenKind where
  /-- Spaces, tabs and carriage returns. -/
  | whitespace
  | newline
  /-- From `#` to the end of the line. -/
  | comment
  /-- A line of three or more dashes. -/
  | separator
  /-- A literal between double quotes. -/
  | string
  | number
  /-- A spoken part by name, `<name>`. -/
  | capture
  /-- A spoken part from a list, braces around a dotted name. -/
  | listRef
  /-- A pattern between `^` and `$`. -/
  | regex
  | path
  /-- The name of a call to an action of the host. -/
  | actionName
  /-- The name of any other call. -/
  | functionName
  /-- A dotted name. -/
  | variableRef
  /-- A name where words are spoken, left of a colon. -/
  | word
  | identifier
  | keyword (keyword : Keyword)
  | punct (punct : Punct)
  /-- A character that starts no token. -/
  | invalidChar
  deriving DecidableEq

/-- What a node of the tree is. -/
inductive NodeKind where
  | file
  /-- A condition on the context, `app: name`. -/
  | header
  | command
  /-- The spoken part of a command, left of its colon. -/
  | rule
  | statement
  /-- A block under a keyword, `key(name):`. -/
  | binding
  | bindingArgs
  deriving DecidableEq

/-- A kind of token or node. -/
inductive Kind where
  | token (kind : TokenKind)
  | node (kind : NodeKind)
  deriving DecidableEq

namespace Keyword

def all : List Keyword :=
  [.and, .not, .or, .settings, .tag, .app, .key, .face, .deck, .gamepad, .noise, .parrot, .mode, .user,
    .self]

/-- The word itself. -/
def word : Keyword → String
  | and => "and"
  | not => "not"
  | or => "or"
  | settings => "settings"
  | tag => "tag"
  | app => "app"
  | key => "key"
  | face => "face"
  | deck => "deck"
  | gamepad => "gamepad"
  | noise => "noise"
  | parrot => "parrot"
  | mode => "mode"
  | user => "user"
  | self => "self"

def name : Keyword → String
  | and => "KwAnd"
  | not => "KwNot"
  | or => "KwOr"
  | settings => "KwSettings"
  | tag => "KwTag"
  | app => "KwApp"
  | key => "KwKey"
  | face => "KwFace"
  | deck => "KwDeck"
  | gamepad => "KwGamepad"
  | noise => "KwNoise"
  | parrot => "KwParrot"
  | mode => "KwMode"
  | user => "KwUser"
  | self => "KwSelf"

/-- The keyword a text spells, if it spells one. -/
def ofWord? (cs : List Char) : Option Keyword :=
  all.find? fun keyword => keyword.word.toList == cs

end Keyword

namespace Punct

def all : List Punct :=
  [.colon, .parenOpen, .parenClose, .bracketOpen, .bracketClose, .braceOpen, .braceClose, .comma, .dot,
    .pipe, .dash, .equals, .plus, .star, .dollar, .greater]

/-- The character itself. -/
def char : Punct → Char
  | colon => ':'
  | parenOpen => '('
  | parenClose => ')'
  | bracketOpen => '['
  | bracketClose => ']'
  | braceOpen => '\x7b'
  | braceClose => '\x7d'
  | comma => ','
  | dot => '.'
  | pipe => '|'
  | dash => '-'
  | equals => '='
  | plus => '+'
  | star => '*'
  | dollar => '$'
  | greater => '>'

def name : Punct → String
  | colon => "Colon"
  | parenOpen => "ParenOpen"
  | parenClose => "ParenClose"
  | bracketOpen => "BracketOpen"
  | bracketClose => "BracketClose"
  | braceOpen => "BraceOpen"
  | braceClose => "BraceClose"
  | comma => "Comma"
  | dot => "Dot"
  | pipe => "Pipe"
  | dash => "Dash"
  | equals => "Equals"
  | plus => "Plus"
  | star => "Star"
  | dollar => "Dollar"
  | greater => "Greater"

/-- The token a character is on its own, if it is one. -/
def ofChar? (c : Char) : Option Punct :=
  all.find? fun punct => punct.char == c

theorem char_of_ofChar? {c : Char} {punct : Punct} (h : ofChar? c = some punct) : punct.char = c := by
  simpa using List.find?_some h

end Punct

namespace TokenKind

def all : List TokenKind :=
  [.whitespace, .newline, .comment, .separator, .string, .number, .capture, .listRef, .regex, .path,
    .actionName, .functionName, .variableRef, .word, .identifier]
    ++ Keyword.all.map keyword ++ Punct.all.map punct ++ [.invalidChar]

def name : TokenKind → String
  | whitespace => "Whitespace"
  | newline => "Newline"
  | comment => "Comment"
  | separator => "Separator"
  | string => "String"
  | number => "Number"
  | capture => "Capture"
  | listRef => "ListRef"
  | regex => "Regex"
  | path => "Path"
  | actionName => "ActionName"
  | functionName => "FunctionName"
  | variableRef => "VariableRef"
  | word => "Word"
  | identifier => "Identifier"
  | keyword k => k.name
  | punct p => p.name
  | invalidChar => "InvalidChar"

/-- Trivia has no part in the grammar: the parser looks past it. -/
def isTrivia : TokenKind → Bool
  | whitespace | comment => true
  | _ => false

abbrev colon : TokenKind := .punct .colon
abbrev parenOpen : TokenKind := .punct .parenOpen
abbrev parenClose : TokenKind := .punct .parenClose

end TokenKind

namespace NodeKind

def all : List NodeKind :=
  [.file, .header, .command, .rule, .statement, .binding, .bindingArgs]

def name : NodeKind → String
  | file => "File"
  | header => "Match"
  | command => "Command"
  | rule => "Rule"
  | statement => "Statement"
  | binding => "Binding"
  | bindingArgs => "BindingArgs"

end NodeKind

namespace Kind

/-- All kinds in order. -/
def all : List Kind :=
  TokenKind.all.map token ++ NodeKind.all.map node

def name : Kind → String
  | token k => k.name
  | node k => k.name

def isTrivia : Kind → Bool
  | token k => k.isTrivia
  | node _ => false

def isKeyword : Kind → Bool
  | token (.keyword _) => true
  | _ => false

def isNode : Kind → Bool
  | token _ => false
  | node _ => true

/-- The place of a kind in the order of all kinds. -/
def raw (kind : Kind) : Nat :=
  all.idxOf kind

/-- The kind at a place in the order, if there are so many. -/
def ofRaw? (raw : Nat) : Option Kind :=
  all[raw]?

/-- The kind of a name, if there is one. -/
def ofName? (name : String) : Option Kind :=
  all.find? fun kind => kind.name == name

end Kind

end VoiceScript
