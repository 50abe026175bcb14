/-!
The kinds of tokens of C source text: keywords, operators, delimiters, preprocessor directives,
words and literals, and the trivia between them. Each kind has a name, and most have one fixed
spelling.
-/

namespace CSurvey.Token

/-- The reserved words. -/
inductive Keyword where
  | autoKw | breakKw | caseKw | charKw | constKw | continueKw | defaultKw | doKw | doubleKw
  | elseKw | enumKw | externKw | floatKw | forKw | gotoKw | ifKw | intKw | longKw | registerKw
  | returnKw | shortKw | signedKw | sizeofKw | staticKw | structKw | switchKw | typedefKw
  | unionKw | unsignedKw | voidKw | volatileKw | whileKw
deriving DecidableEq, Repr

/-- The operators. -/
inductive Operator where
  | plus | minus | star | slash | percent | equal | notEqual | less | lessEqual | greater
  | greaterEqual | bothHold | eitherHolds | bang | ampersand | pipe | caret | tilde | shiftLeft
  | shiftRight | assign | plusAssign | minusAssign | starAssign | slashAssign | percentAssign
  | ampersandAssign | pipeAssign | caretAssign | shiftLeftAssign | shiftRightAssign | increment
  | decrement | arrow | question
deriving DecidableEq, Repr

/-- The brackets and separators. -/
inductive Delimiter where
  | leftParen | rightParen | leftBracket | rightBracket | leftBrace | rightBrace | comma
  | semicolon | colon | dot
deriving DecidableEq, Repr

/-- The markers that open a preprocessor line. A number sign before a word that is no directive
is `unknown`. -/
inductive Directive where
  | unknown | inclusion | definition | ifDefined | ifNotDefined | endIf | elseIf | otherwise
deriving DecidableEq, Repr

/-- What a token is. -/
inductive Kind where
  | keyword (word : Keyword)
  | operator (sign : Operator)
  | delimiter (mark : Delimiter)
  | directive (marker : Directive)
  | identifier | number | string | character
  | newline | lineComment | blockComment
  | endOfInput
deriving DecidableEq, Repr

namespace Keyword

/-- The keywords in alphabetical order. -/
def all : List Keyword :=
  [ .autoKw, .breakKw, .caseKw, .charKw, .constKw, .continueKw, .defaultKw, .doKw, .doubleKw,
    .elseKw, .enumKw, .externKw, .floatKw, .forKw, .gotoKw, .ifKw, .intKw, .longKw, .registerKw,
    .returnKw, .shortKw, .signedKw, .sizeofKw, .staticKw, .structKw, .switchKw, .typedefKw,
    .unionKw, .unsignedKw, .voidKw, .volatileKw, .whileKw ]

theorem mem_all (k : Keyword) : k ∈ all := by
  cases k <;> decide

/-- The lower-case spelling. -/
def spelling : Keyword → String
  | .autoKw => "auto"
  | .breakKw => "break"
  | .caseKw => "case"
  | .charKw => "char"
  | .constKw => "const"
  | .continueKw => "continue"
  | .defaultKw => "default"
  | .doKw => "do"
  | .doubleKw => "double"
  | .elseKw => "else"
  | .enumKw => "enum"
  | .externKw => "extern"
  | .floatKw => "float"
  | .forKw => "for"
  | .gotoKw => "goto"
  | .ifKw => "if"
  | .intKw => "int"
  | .longKw => "long"
  | .registerKw => "register"
  | .returnKw => "return"
  | .shortKw => "short"
  | .signedKw => "signed"
  | .sizeofKw => "sizeof"
  | .staticKw => "static"
  | .structKw => "struct"
  | .switchKw => "switch"
  | .typedefKw => "typedef"
  | .unionKw => "union"
  | .unsignedKw => "unsigned"
  | .voidKw => "void"
  | .volatileKw => "volatile"
  | .whileKw => "while"

/-- The name of the kind. -/
def name : Keyword → String
  | .autoKw => "Auto"
  | .breakKw => "Break"
  | .caseKw => "Case"
  | .charKw => "Char"
  | .constKw => "Const"
  | .continueKw => "Continue"
  | .defaultKw => "Default"
  | .doKw => "Do"
  | .doubleKw => "Double"
  | .elseKw => "Else"
  | .enumKw => "Enum"
  | .externKw => "Extern"
  | .floatKw => "Float"
  | .forKw => "For"
  | .gotoKw => "Goto"
  | .ifKw => "If"
  | .intKw => "Int"
  | .longKw => "Long"
  | .registerKw => "Register"
  | .returnKw => "Return"
  | .shortKw => "Short"
  | .signedKw => "Signed"
  | .sizeofKw => "Sizeof"
  | .staticKw => "Static"
  | .structKw => "Struct"
  | .switchKw => "Switch"
  | .typedefKw => "Typedef"
  | .unionKw => "Union"
  | .unsignedKw => "Unsigned"
  | .voidKw => "Void"
  | .volatileKw => "Volatile"
  | .whileKw => "While"

end Keyword

namespace Operator

/-- The operators, long and short. -/
def all : List Operator :=
  [ .plus, .minus, .star, .slash, .percent, .equal, .notEqual, .less, .lessEqual, .greater,
    .greaterEqual, .bothHold, .eitherHolds, .bang, .ampersand, .pipe, .caret, .tilde, .shiftLeft,
    .shiftRight, .assign, .plusAssign, .minusAssign, .starAssign, .slashAssign, .percentAssign,
    .ampersandAssign, .pipeAssign, .caretAssign, .shiftLeftAssign, .shiftRightAssign, .increment,
    .decrement, .arrow, .question ]

theorem mem_all (o : Operator) : o ∈ all := by
  cases o <;> decide

/-- How the operator is written. -/
def spelling : Operator → String
  | .plus => "+"
  | .minus => "-"
  | .star => "*"
  | .slash => "/"
  | .percent => "%"
  | .equal => "=="
  | .notEqual => "!="
  | .less => "<"
  | .lessEqual => "<="
  | .greater => ">"
  | .greaterEqual => ">="
  | .bothHold => "&&"
  | .eitherHolds => "||"
  | .bang => "!"
  | .ampersand => "&"
  | .pipe => "|"
  | .caret => "^"
  | .tilde => "~"
  | .shiftLeft => "<<"
  | .shiftRight => ">>"
  | .assign => "="
  | .plusAssign => "+="
  | .minusAssign => "-="
  | .starAssign => "*="
  | .slashAssign => "/="
  | .percentAssign => "%="
  | .ampersandAssign => "&="
  | .pipeAssign => "|="
  | .caretAssign => "^="
  | .shiftLeftAssign => "<<="
  | .shiftRightAssign => ">>="
  | .increment => "++"
  | .decrement => "--"
  | .arrow => "->"
  | .question => "?"

/-- The name of the kind. -/
def name : Operator → String
  | .plus => "Plus"
  | .minus => "Minus"
  | .star => "Star"
  | .slash => "Slash"
  | .percent => "Percent"
  | .equal => "EqEq"
  | .notEqual => "NotEq"
  | .less => "Lt"
  | .lessEqual => "Le"
  | .greater => "Gt"
  | .greaterEqual => "Ge"
  | .bothHold => "AndAnd"
  | .eitherHolds => "OrOr"
  | .bang => "Bang"
  | .ampersand => "Amp"
  | .pipe => "Pipe"
  | .caret => "Caret"
  | .tilde => "Tilde"
  | .shiftLeft => "LtLt"
  | .shiftRight => "GtGt"
  | .assign => "Eq"
  | .plusAssign => "PlusEq"
  | .minusAssign => "MinusEq"
  | .starAssign => "StarEq"
  | .slashAssign => "SlashEq"
  | .percentAssign => "PercentEq"
  | .ampersandAssign => "AmpEq"
  | .pipeAssign => "PipeEq"
  | .caretAssign => "CaretEq"
  | .shiftLeftAssign => "LtLtEq"
  | .shiftRightAssign => "GtGtEq"
  | .increment => "PlusPlus"
  | .decrement => "MinusMinus"
  | .arrow => "Arrow"
  | .question => "Question"

/-- The operators that store into their left operand. -/
def isAssignment : Operator → Bool
  | .assign | .plusAssign | .minusAssign | .starAssign | .slashAssign | .percentAssign
  | .ampersandAssign | .pipeAssign | .caretAssign | .shiftLeftAssign | .shiftRightAssign => true
  | _ => false

/-- The operators that stand before one operand of any unary form. -/
def isSign : Operator → Bool
  | .plus | .minus | .bang | .tilde | .star | .ampersand => true
  | _ => false

/-- The operators that add or take one, before or after their operand. -/
def isUpdate : Operator → Bool
  | .increment | .decrement => true
  | _ => false

/-- How loosely an operator with two operands binds: level 1 binds tightest. Operators of one
level group to the left. -/
def level : Operator → Option Nat
  | .star | .slash | .percent => some 1
  | .plus | .minus => some 2
  | .shiftLeft | .shiftRight => some 3
  | .less | .lessEqual | .greater | .greaterEqual => some 4
  | .equal | .notEqual => some 5
  | .ampersand => some 6
  | .caret => some 7
  | .pipe => some 8
  | .bothHold => some 9
  | .eitherHolds => some 10
  | _ => none

end Operator

namespace Delimiter

/-- The delimiters. -/
def all : List Delimiter :=
  [ .leftParen, .rightParen, .leftBracket, .rightBracket, .leftBrace, .rightBrace, .comma,
    .semicolon, .colon, .dot ]

theorem mem_all (d : Delimiter) : d ∈ all := by
  cases d <;> decide

/-- How the delimiter is written. -/
def spelling : Delimiter → String
  | .leftParen => "("
  | .rightParen => ")"
  | .leftBracket => "["
  | .rightBracket => "]"
  | .leftBrace => "\x7b"
  | .rightBrace => "\x7d"
  | .comma => ","
  | .semicolon => ";"
  | .colon => ":"
  | .dot => "."

/-- The name of the kind. -/
def name : Delimiter → String
  | .leftParen => "LParen"
  | .rightParen => "RParen"
  | .leftBracket => "LBracket"
  | .rightBracket => "RBracket"
  | .leftBrace => "LBrace"
  | .rightBrace => "RBrace"
  | .comma => "Comma"
  | .semicolon => "Semicolon"
  | .colon => "Colon"
  | .dot => "Dot"

end Delimiter

namespace Directive

/-- The directives, the unknown one first. -/
def all : List Directive :=
  [ .unknown, .inclusion, .definition, .ifDefined, .ifNotDefined, .endIf, .elseIf, .otherwise ]

theorem mem_all (d : Directive) : d ∈ all := by
  cases d <;> decide

/-- The word after the number sign; an unknown directive has none. -/
def word : Directive → String
  | .unknown => ""
  | .inclusion => "include"
  | .definition => "define"
  | .ifDefined => "ifdef"
  | .ifNotDefined => "ifndef"
  | .endIf => "endif"
  | .elseIf => "elif"
  | .otherwise => "else"

/-- The number sign and the word. -/
def spelling (d : Directive) : String :=
  "#" ++ d.word

/-- The name of the kind. -/
def name : Directive → String
  | .unknown => "Hash"
  | .inclusion => "Include"
  | .definition => "Define"
  | .ifDefined => "Ifdef"
  | .ifNotDefined => "Ifndef"
  | .endIf => "Endif"
  | .elseIf => "Elif"
  | .otherwise => "ElsePp"

end Directive

namespace Kind

/-- Every kind. -/
def all : List Kind :=
  Keyword.all.map .keyword ++ [.identifier, .number, .string, .character]
    ++ Operator.all.map .operator ++ Delimiter.all.map .delimiter
    ++ Directive.all.map .directive ++ [.newline, .lineComment, .blockComment, .endOfInput]

theorem mem_all (k : Kind) : k ∈ all := by
  cases k <;>
    simp [all, Keyword.mem_all, Operator.mem_all, Delimiter.mem_all, Directive.mem_all]

/-- The name of a kind, one word. -/
def name : Kind → String
  | .keyword w => w.name
  | .operator o => o.name
  | .delimiter d => d.name
  | .directive d => d.name
  | .identifier => "Identifier"
  | .number => "Number"
  | .string => "String"
  | .character => "Character"
  | .newline => "Newline"
  | .lineComment => "Comment"
  | .blockComment => "CommentBlock"
  | .endOfInput => "EndOfInput"

/-- The kind of a given name. -/
def ofName? (name : String) : Option Kind :=
  all.find? fun k => k.name = name

/-- The one spelling of a kind, for the kinds that have just one. -/
def spelling? : Kind → Option String
  | .keyword w => some w.spelling
  | .operator o => some o.spelling
  | .delimiter d => some d.spelling
  | .directive d => some d.spelling
  | _ => none

/-- How messages speak of a kind: its spelling in quotes, or a few words. -/
def describe (k : Kind) : String :=
  match k.spelling? with
  | some s => s!"'{s}'"
  | none =>
    match k with
    | .identifier => "identifier"
    | .number => "number"
    | .string => "string literal"
    | .character => "character literal"
    | .newline => "newline"
    | .lineComment | .blockComment => "comment"
    | _ => "end of input"

/-- A comment of either form. -/
def isComment : Kind → Bool
  | .lineComment | .blockComment => true
  | _ => false

/-- A reserved word. -/
def isKeyword : Kind → Bool
  | .keyword _ => true
  | _ => false

/-- The marker of a preprocessor line. -/
def isDirective : Kind → Bool
  | .directive _ => true
  | _ => false

/-- The marker of a preprocessor line that is kept as it stands: neither an inclusion nor a
definition. -/
def isOtherDirective : Kind → Bool
  | .directive .inclusion | .directive .definition => false
  | .directive _ => true
  | _ => false

/-- The words that name a type by themselves. -/
def isBaseType : Kind → Bool
  | .keyword .intKw | .keyword .charKw | .keyword .floatKw | .keyword .doubleKw
  | .keyword .voidKw => true
  | _ => false

/-- The types whose members a struct keeps. -/
def isMemberType : Kind → Bool
  | .keyword .intKw | .keyword .charKw | .keyword .floatKw | .keyword .doubleKw => true
  | _ => false

/-- Storage classes, qualifiers and the words for sign and width. -/
def isTypeModifier : Kind → Bool
  | .keyword .constKw | .keyword .staticKw | .keyword .externKw | .keyword .volatileKw
  | .keyword .registerKw | .keyword .autoKw | .keyword .signedKw | .keyword .unsignedKw
  | .keyword .shortKw | .keyword .longKw | .keyword .typedefKw => true
  | _ => false

/-- What can open a type. -/
def startsType (k : Kind) : Bool :=
  k.isBaseType || k.isTypeModifier || k = .keyword .structKw

/-- An operator that stores into its left operand. -/
def isAssignment : Kind → Bool
  | .operator o => o.isAssignment
  | _ => false

/-- What can open an expression. -/
def startsExpression : Kind → Bool
  | .identifier | .number | .string | .character => true
  | .delimiter .leftParen | .keyword .sizeofKw => true
  | .operator o => o.isSign || o.isUpdate
  | _ => false

end Kind

end CSurvey.Token
