/-!
The kinds of nodes of a syntax tree, their names, and the two classes that other parts ask for.
-/

namespace CSurvey.Node

/-- What a node stands for: parts of a file, declarations, statements, expressions, a missing part
and a part that could not be read. -/
inductive Kind where
  | program | inclusion | macroDefinition | macroBody | directive | comment
  | structDefinition | structDeclaration | structMember | variableDeclaration
  | functionDefinition | functionDeclaration | variableDeclarator | functionDeclarator
  | parameter | initializerList
  | block | ifStatement | forStatement | whileStatement | doWhileStatement | switchStatement
  | caseLabel | defaultLabel | returnStatement | breakStatement | continueStatement
  | gotoStatement | label | expressionStatement
  | assignment | conditional | binary | unary | update | cast | sizeOf | index | call | member
  | pointerMember | number | string | character | identifier
  | empty | error
deriving DecidableEq, Repr

namespace Kind

/-- Every kind. -/
def all : List Kind :=
  [ .program, .inclusion, .macroDefinition, .macroBody, .directive, .comment, .structDefinition,
    .structDeclaration, .structMember, .variableDeclaration, .functionDefinition,
    .functionDeclaration, .variableDeclarator, .functionDeclarator, .parameter, .initializerList,
    .block, .ifStatement, .forStatement, .whileStatement, .doWhileStatement, .switchStatement,
    .caseLabel, .defaultLabel, .returnStatement, .breakStatement, .continueStatement,
    .gotoStatement, .label, .expressionStatement, .assignment, .conditional, .binary, .unary,
    .update, .cast, .sizeOf, .index, .call, .member, .pointerMember, .number, .string,
    .character, .identifier, .empty, .error ]

theorem mem_all (k : Kind) : k ∈ all := by
  cases k <;> decide

/-- The name of a kind. -/
def name : Kind → String
  | .program => "Program"
  | .inclusion => "Include"
  | .macroDefinition => "Define"
  | .macroBody => "MacroBody"
  | .directive => "Directive"
  | .comment => "Comment"
  | .structDefinition => "StructDefinition"
  | .structDeclaration => "StructDeclaration"
  | .structMember => "StructMember"
  | .variableDeclaration => "VariableDeclaration"
  | .functionDefinition => "FunctionDefinition"
  | .functionDeclaration => "FunctionDeclaration"
  | .variableDeclarator => "VariableDeclarator"
  | .functionDeclarator => "FunctionDeclarator"
  | .parameter => "Parameter"
  | .initializerList => "InitializerList"
  | .block => "CompoundStatement"
  | .ifStatement => "IfStatement"
  | .forStatement => "ForStatement"
  | .whileStatement => "WhileStatement"
  | .doWhileStatement => "DoWhileStatement"
  | .switchStatement => "SwitchStatement"
  | .caseLabel => "CaseLabel"
  | .defaultLabel => "DefaultLabel"
  | .returnStatement => "ReturnStatement"
  | .breakStatement => "BreakStatement"
  | .continueStatement => "ContinueStatement"
  | .gotoStatement => "GotoStatement"
  | .label => "LabeledStatement"
  | .expressionStatement => "ExpressionStatement"
  | .assignment => "AssignmentExpression"
  | .conditional => "ConditionalExpression"
  | .binary => "BinaryExpression"
  | .unary => "UnaryExpression"
  | .update => "PostfixExpression"
  | .cast => "CastExpression"
  | .sizeOf => "SizeofExpression"
  | .index => "ArrayAccess"
  | .call => "FunctionCall"
  | .member => "MemberAccess"
  | .pointerMember => "PointerMemberAccess"
  | .number => "Number"
  | .string => "String"
  | .character => "Character"
  | .identifier => "Identifier"
  | .empty => "Empty"
  | .error => "Error"

/-- The kind of a given name. -/
def ofName? (name : String) : Option Kind :=
  all.find? fun k => k.name = name

/-- The statements that decide whether or how often another one runs. -/
def isBranch : Kind → Bool
  | .ifStatement | .forStatement | .whileStatement | .doWhileStatement => true
  | _ => false

/-- The kinds that have a value, initializer lists included. -/
def isExpression : Kind → Bool
  | .assignment | .conditional | .binary | .unary | .update | .cast | .sizeOf | .index | .call
  | .member | .pointerMember | .number | .string | .character | .identifier
  | .initializerList => true
  | _ => false

/-- The expressions that need parentheses as an operand. -/
def isCompound : Kind → Bool
  | .binary | .assignment | .conditional => true
  | _ => false

end Kind

end CSurvey.Node
