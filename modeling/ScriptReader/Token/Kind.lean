/-!
# Kinds of tokens

A token kind is at once what a stage of the pipeline asks about and the name of a terminal of a
grammar.

## Main Definitions

* `TokenKind` — the kinds, in the order of `TokenKind.all`
* `TokenKind.name` — the terminal name of a kind
* `TokenKind.ofName?` — the kind of a terminal name
* `TokenKind.isTrivia` — kinds that never reach a grammar

## Design Notes

The order of the kinds carries meaning: everything up to `bang` can come out of the lexer, and
what follows is made by the pipeline only.
-/

namespace ScriptReader

/-- What a token is, apart from its text. -/
inductive TokenKind where
  -- Blank runs, comments and line breaks.
  | blank | comment | newline
  -- Literals and names.
  | simpleString | richString | embedded | number | identifier | self | symbolRef | trueWord
  | falseWord | nullWord | undefinedWord
  -- Keywords.
  | defWord | inWord | onWord | doWord | forWord | andWord | orWord | notWord | ifWord | elseWord
  | returnWord | whileWord | functionWord | awaitWord | yieldWord | breakWord | continueWord
  | tryWord | catchWord | finallyWord | throwWord | newWord | classWord | staticWord | importWord
  | exportWord | asWord | fromWord | defaultWord
  -- Punctuation and operators.
  | openBrace | closeBrace | openBracket | closeBracket | openParen | closeParen | pipes
  | thinArrow | fatArrow | comparison | reassignment | equals | define | dot | ellipsis | comma
  | colon | tilde | tildeStar | additive | multiplicative | power | bang
  -- Kinds that the stages of the pipeline make.
  | indent | dedent | functionMark | patternMark | receiverMark | cascadeRef | star
  | stringLiteral | quote | embeddedLine | embeddedBlock
  deriving DecidableEq, Repr, Hashable, Inhabited

namespace TokenKind

/-- Every kind, in order of declaration. -/
def all : List TokenKind :=
  [.blank, .comment, .newline, .simpleString, .richString, .embedded, .number, .identifier,
   .self, .symbolRef, .trueWord, .falseWord, .nullWord, .undefinedWord, .defWord, .inWord,
   .onWord, .doWord, .forWord, .andWord, .orWord, .notWord, .ifWord, .elseWord, .returnWord,
   .whileWord, .functionWord, .awaitWord, .yieldWord, .breakWord, .continueWord, .tryWord,
   .catchWord, .finallyWord, .throwWord, .newWord, .classWord, .staticWord, .importWord,
   .exportWord, .asWord, .fromWord, .defaultWord, .openBrace, .closeBrace, .openBracket,
   .closeBracket, .openParen, .closeParen, .pipes, .thinArrow, .fatArrow, .comparison,
   .reassignment, .equals, .define, .dot, .ellipsis, .comma, .colon, .tilde, .tildeStar,
   .additive, .multiplicative, .power, .bang, .indent, .dedent, .functionMark, .patternMark,
   .receiverMark, .cascadeRef, .star, .stringLiteral, .quote, .embeddedLine, .embeddedBlock]

/-- Place of a kind in `all`. -/
def index (k : TokenKind) : Nat := k.ctorIdx

/-- The name of the terminal that stands for a kind in a grammar. -/
def name : TokenKind → String
  | .blank => "ws"
  | .comment => "comment"
  | .newline => "nl"
  | .simpleString => "simple-string"
  | .richString => "rich-string"
  | .embedded => "embedded"
  | .number => "number"
  | .identifier => "id"
  | .self => "this"
  | .symbolRef => "@@"
  | .trueWord => "true"
  | .falseWord => "false"
  | .nullWord => "null"
  | .undefinedWord => "undefined"
  | .defWord => "def"
  | .inWord => "in"
  | .onWord => "on"
  | .doWord => "do"
  | .forWord => "for"
  | .andWord => "and"
  | .orWord => "or"
  | .notWord => "not"
  | .ifWord => "if"
  | .elseWord => "else"
  | .returnWord => "return"
  | .whileWord => "while"
  | .functionWord => "function"
  | .awaitWord => "await"
  | .yieldWord => "yield"
  | .breakWord => "break"
  | .continueWord => "continue"
  | .tryWord => "try"
  | .catchWord => "catch"
  | .finallyWord => "finally"
  | .throwWord => "throw"
  | .newWord => "new"
  | .classWord => "class"
  | .staticWord => "static"
  | .importWord => "import"
  | .exportWord => "export"
  | .asWord => "as"
  | .fromWord => "from"
  | .defaultWord => "default"
  | .openBrace => "\x7b"
  | .closeBrace => "\x7d"
  | .openBracket => "["
  | .closeBracket => "]"
  | .openParen => "("
  | .closeParen => ")"
  | .pipes => "pipes"
  | .thinArrow => "->"
  | .fatArrow => "=>"
  | .comparison => "compare"
  | .reassignment => "reassign"
  | .equals => "="
  | .define => ":="
  | .dot => "."
  | .ellipsis => "..."
  | .comma => ","
  | .colon => ":"
  | .tilde => "~"
  | .tildeStar => "~*"
  | .additive => "linear"
  | .multiplicative => "scalar"
  | .power => "pow"
  | .bang => "!"
  | .indent => "indent"
  | .dedent => "dedent"
  | .functionMark => "fn"
  | .patternMark => "assign"
  | .receiverMark => "obj"
  | .cascadeRef => "ref"
  | .star => "*"
  | .stringLiteral => "string-literal"
  | .quote => "\""
  | .embeddedLine => "embedded-sl"
  | .embeddedBlock => "embedded-ml"

instance : ToString TokenKind := ⟨name⟩

/-- The kind whose name is `s`. -/
def ofName? (s : String) : Option TokenKind := all.find? fun k => k.name == s

/-- Kinds that separate other tokens and mean nothing else. -/
def isTrivia : TokenKind → Bool
  | .blank | .comment => true
  | _ => false

/-- Whether a kind is spelled by a word of the source: it is neither a run of blanks, a comment or
a line break nor a kind that only the pipeline makes. -/
def isSpelled (k : TokenKind) : Bool := index .newline < k.index && k.index ≤ index .bang

end TokenKind

/-- No kind has this name. -/
structure UnknownKind where
  /-- The name that was looked up. -/
  name : String
  deriving DecidableEq, Repr

/-- What is said about an unknown kind. -/
def UnknownKind.message (e : UnknownKind) : String := s!"unknown token kind `{e.name}`"

/-- The kind whose name is `s`, or the complaint that there is none. -/
def TokenKind.parse (s : String) : Except UnknownKind TokenKind :=
  match ofName? s with
  | some k => .ok k
  | none => .error ⟨s⟩

end ScriptReader
