/-!
# Kinds of phrases and tokens

The interior nodes of a syntax tree are phrases and its leaves are tokens.  Both kinds have a label, the word that
names them in written trees; `ofLabel?` reads it back.
-/

namespace CodeAtlas

/-- The kinds of interior nodes. -/
inductive PhraseKind where
  | statementList | compoundStatement | expressionStatement | returnStatement | echoStatement | namespaceDefinition
  | namespaceName | namespaceUseDeclaration | namespaceUseClause | namespaceAliasingClause | qualifiedName
  | fullyQualifiedName | relativeQualifiedName | qualifiedNameList | classDeclaration | classDeclarationHeader
  | classBaseClause | classInterfaceClause | classDeclarationBody | interfaceDeclaration
  | interfaceDeclarationHeader | interfaceBaseClause | interfaceDeclarationBody | traitDeclaration
  | traitDeclarationHeader | traitDeclarationBody | traitUseClause | anonymousClassDeclaration
  | anonymousClassDeclarationHeader | memberModifierList | classConstDeclaration | classConstElement
  | propertyDeclaration | propertyElement | methodDeclaration | methodDeclarationHeader | methodDeclarationBody
  | functionDeclaration | functionDeclarationHeader | functionDeclarationBody | parameterDeclarationList
  | parameterDeclaration | typeDeclaration | returnType | anonymousFunctionCreationExpression
  | anonymousFunctionHeader | anonymousFunctionUseClause | arrowFunctionCreationExpression | constDeclaration
  | constElement | globalDeclaration | simpleVariable | functionCallExpression | argumentExpressionList
  | constantAccessExpression | objectCreationExpression | classTypeDesignator | propertyAccessExpression
  | methodCallExpression | scopedPropertyAccessExpression | scopedCallExpression | classConstantAccessExpression
  | scopeResolutionQualifier | simpleAssignmentExpression | byRefAssignmentExpression | compoundAssignmentExpression
  | instanceOfExpression | instanceofTypeDesignator | arrayCreationExpression | arrayElement | subscriptExpression
  | encapsulatedExpression | cloneExpression | ternaryExpression | coalesceExpression | binaryExpression
  | unaryExpression | ifStatement | elseIfClause | elseClause | switchStatement | caseStatement | defaultStatement
  | whileStatement | doStatement | forStatement | foreachStatement | foreachCollection | foreachKey | foreachValue
  | tryStatement | catchClause | catchNameList | finallyClause | error
  deriving DecidableEq, Repr

/-- The kinds of leaves. -/
inductive TokenKind where
  | name | variableName | backslash | documentComment | comment | integerLiteral | floatingLiteral | stringLiteral
  | abstractKeyword | finalKeyword | staticKeyword | publicKeyword | protectedKeyword | privateKeyword
  | readonlyKeyword | varKeyword | classKeyword | interfaceKeyword | traitKeyword | extendsKeyword
  | implementsKeyword | useKeyword | asKeyword | insteadofKeyword | namespaceKeyword | functionKeyword | fnKeyword
  | constKeyword | newKeyword | cloneKeyword | instanceOfKeyword | globalKeyword | returnKeyword | echoKeyword
  | selfKeyword | parentKeyword | arrayKeyword | callableKeyword | ifKeyword | elseIfKeyword | elseKeyword
  | switchKeyword | caseKeyword | defaultKeyword | foreachKeyword | whileKeyword | doKeyword | forKeyword
  | tryKeyword | catchKeyword | finallyKeyword | arrow | nullsafeArrow | colonColon | equals | ampersand | ellipsis
  | question | colon | bar | fatArrow | comma | semicolon | openParen | closeParen | openBrace | closeBrace
  | openBracket | closeBracket | punctuation
  deriving DecidableEq, Repr

namespace PhraseKind

def all : List PhraseKind :=
  [ .statementList, .compoundStatement, .expressionStatement, .returnStatement, .echoStatement, .namespaceDefinition,
    .namespaceName, .namespaceUseDeclaration, .namespaceUseClause, .namespaceAliasingClause, .qualifiedName,
    .fullyQualifiedName, .relativeQualifiedName, .qualifiedNameList, .classDeclaration, .classDeclarationHeader,
    .classBaseClause, .classInterfaceClause, .classDeclarationBody, .interfaceDeclaration,
    .interfaceDeclarationHeader, .interfaceBaseClause, .interfaceDeclarationBody, .traitDeclaration,
    .traitDeclarationHeader, .traitDeclarationBody, .traitUseClause, .anonymousClassDeclaration,
    .anonymousClassDeclarationHeader, .memberModifierList, .classConstDeclaration, .classConstElement,
    .propertyDeclaration, .propertyElement, .methodDeclaration, .methodDeclarationHeader, .methodDeclarationBody,
    .functionDeclaration, .functionDeclarationHeader, .functionDeclarationBody, .parameterDeclarationList,
    .parameterDeclaration, .typeDeclaration, .returnType, .anonymousFunctionCreationExpression,
    .anonymousFunctionHeader, .anonymousFunctionUseClause, .arrowFunctionCreationExpression, .constDeclaration,
    .constElement, .globalDeclaration, .simpleVariable, .functionCallExpression, .argumentExpressionList,
    .constantAccessExpression, .objectCreationExpression, .classTypeDesignator, .propertyAccessExpression,
    .methodCallExpression, .scopedPropertyAccessExpression, .scopedCallExpression, .classConstantAccessExpression,
    .scopeResolutionQualifier, .simpleAssignmentExpression, .byRefAssignmentExpression, .compoundAssignmentExpression,
    .instanceOfExpression, .instanceofTypeDesignator, .arrayCreationExpression, .arrayElement, .subscriptExpression,
    .encapsulatedExpression, .cloneExpression, .ternaryExpression, .coalesceExpression, .binaryExpression,
    .unaryExpression, .ifStatement, .elseIfClause, .elseClause, .switchStatement, .caseStatement, .defaultStatement,
    .whileStatement, .doStatement, .forStatement, .foreachStatement, .foreachCollection, .foreachKey, .foreachValue,
    .tryStatement, .catchClause, .catchNameList, .finallyClause, .error ]

def label : PhraseKind → String
  | .statementList => "StatementList"
  | .compoundStatement => "CompoundStatement"
  | .expressionStatement => "ExpressionStatement"
  | .returnStatement => "ReturnStatement"
  | .echoStatement => "EchoStatement"
  | .namespaceDefinition => "NamespaceDefinition"
  | .namespaceName => "NamespaceName"
  | .namespaceUseDeclaration => "NamespaceUseDeclaration"
  | .namespaceUseClause => "NamespaceUseClause"
  | .namespaceAliasingClause => "NamespaceAliasingClause"
  | .qualifiedName => "QualifiedName"
  | .fullyQualifiedName => "FullyQualifiedName"
  | .relativeQualifiedName => "RelativeQualifiedName"
  | .qualifiedNameList => "QualifiedNameList"
  | .classDeclaration => "ClassDeclaration"
  | .classDeclarationHeader => "ClassDeclarationHeader"
  | .classBaseClause => "ClassBaseClause"
  | .classInterfaceClause => "ClassInterfaceClause"
  | .classDeclarationBody => "ClassDeclarationBody"
  | .interfaceDeclaration => "InterfaceDeclaration"
  | .interfaceDeclarationHeader => "InterfaceDeclarationHeader"
  | .interfaceBaseClause => "InterfaceBaseClause"
  | .interfaceDeclarationBody => "InterfaceDeclarationBody"
  | .traitDeclaration => "TraitDeclaration"
  | .traitDeclarationHeader => "TraitDeclarationHeader"
  | .traitDeclarationBody => "TraitDeclarationBody"
  | .traitUseClause => "TraitUseClause"
  | .anonymousClassDeclaration => "AnonymousClassDeclaration"
  | .anonymousClassDeclarationHeader => "AnonymousClassDeclarationHeader"
  | .memberModifierList => "MemberModifierList"
  | .classConstDeclaration => "ClassConstDeclaration"
  | .classConstElement => "ClassConstElement"
  | .propertyDeclaration => "PropertyDeclaration"
  | .propertyElement => "PropertyElement"
  | .methodDeclaration => "MethodDeclaration"
  | .methodDeclarationHeader => "MethodDeclarationHeader"
  | .methodDeclarationBody => "MethodDeclarationBody"
  | .functionDeclaration => "FunctionDeclaration"
  | .functionDeclarationHeader => "FunctionDeclarationHeader"
  | .functionDeclarationBody => "FunctionDeclarationBody"
  | .parameterDeclarationList => "ParameterDeclarationList"
  | .parameterDeclaration => "ParameterDeclaration"
  | .typeDeclaration => "TypeDeclaration"
  | .returnType => "ReturnType"
  | .anonymousFunctionCreationExpression => "AnonymousFunctionCreationExpression"
  | .anonymousFunctionHeader => "AnonymousFunctionHeader"
  | .anonymousFunctionUseClause => "AnonymousFunctionUseClause"
  | .arrowFunctionCreationExpression => "ArrowFunctionCreationExpression"
  | .constDeclaration => "ConstDeclaration"
  | .constElement => "ConstElement"
  | .globalDeclaration => "GlobalDeclaration"
  | .simpleVariable => "SimpleVariable"
  | .functionCallExpression => "FunctionCallExpression"
  | .argumentExpressionList => "ArgumentExpressionList"
  | .constantAccessExpression => "ConstantAccessExpression"
  | .objectCreationExpression => "ObjectCreationExpression"
  | .classTypeDesignator => "ClassTypeDesignator"
  | .propertyAccessExpression => "PropertyAccessExpression"
  | .methodCallExpression => "MethodCallExpression"
  | .scopedPropertyAccessExpression => "ScopedPropertyAccessExpression"
  | .scopedCallExpression => "ScopedCallExpression"
  | .classConstantAccessExpression => "ClassConstantAccessExpression"
  | .scopeResolutionQualifier => "ScopeResolutionQualifier"
  | .simpleAssignmentExpression => "SimpleAssignmentExpression"
  | .byRefAssignmentExpression => "ByRefAssignmentExpression"
  | .compoundAssignmentExpression => "CompoundAssignmentExpression"
  | .instanceOfExpression => "InstanceOfExpression"
  | .instanceofTypeDesignator => "InstanceofTypeDesignator"
  | .arrayCreationExpression => "ArrayCreationExpression"
  | .arrayElement => "ArrayElement"
  | .subscriptExpression => "SubscriptExpression"
  | .encapsulatedExpression => "EncapsulatedExpression"
  | .cloneExpression => "CloneExpression"
  | .ternaryExpression => "TernaryExpression"
  | .coalesceExpression => "CoalesceExpression"
  | .binaryExpression => "BinaryExpression"
  | .unaryExpression => "UnaryExpression"
  | .ifStatement => "IfStatement"
  | .elseIfClause => "ElseIfClause"
  | .elseClause => "ElseClause"
  | .switchStatement => "SwitchStatement"
  | .caseStatement => "CaseStatement"
  | .defaultStatement => "DefaultStatement"
  | .whileStatement => "WhileStatement"
  | .doStatement => "DoStatement"
  | .forStatement => "ForStatement"
  | .foreachStatement => "ForeachStatement"
  | .foreachCollection => "ForeachCollection"
  | .foreachKey => "ForeachKey"
  | .foreachValue => "ForeachValue"
  | .tryStatement => "TryStatement"
  | .catchClause => "CatchClause"
  | .catchNameList => "CatchNameList"
  | .finallyClause => "FinallyClause"
  | .error => "Error"

def ofLabel? (s : String) : Option PhraseKind :=
  all.find? (·.label == s)

/-- The three ways in which a name can be written in an expression or a type. -/
def isQualifiedName : PhraseKind → Bool
  | .qualifiedName | .fullyQualifiedName | .relativeQualifiedName => true
  | _ => false

/-- The phrases that have parameters and a body of their own. -/
def isCallable : PhraseKind → Bool
  | .functionDeclaration | .methodDeclaration | .anonymousFunctionCreationExpression
  | .arrowFunctionCreationExpression => true
  | _ => false

end PhraseKind

namespace TokenKind

def all : List TokenKind :=
  [ .name, .variableName, .backslash, .documentComment, .comment, .integerLiteral, .floatingLiteral, .stringLiteral,
    .abstractKeyword, .finalKeyword, .staticKeyword, .publicKeyword, .protectedKeyword, .privateKeyword,
    .readonlyKeyword, .varKeyword, .classKeyword, .interfaceKeyword, .traitKeyword, .extendsKeyword,
    .implementsKeyword, .useKeyword, .asKeyword, .insteadofKeyword, .namespaceKeyword, .functionKeyword, .fnKeyword,
    .constKeyword, .newKeyword, .cloneKeyword, .instanceOfKeyword, .globalKeyword, .returnKeyword, .echoKeyword,
    .selfKeyword, .parentKeyword, .arrayKeyword, .callableKeyword, .ifKeyword, .elseIfKeyword, .elseKeyword,
    .switchKeyword, .caseKeyword, .defaultKeyword, .foreachKeyword, .whileKeyword, .doKeyword, .forKeyword,
    .tryKeyword, .catchKeyword, .finallyKeyword, .arrow, .nullsafeArrow, .colonColon, .equals, .ampersand, .ellipsis,
    .question, .colon, .bar, .fatArrow, .comma, .semicolon, .openParen, .closeParen, .openBrace, .closeBrace,
    .openBracket, .closeBracket, .punctuation ]

def label : TokenKind → String
  | .name => "Name"
  | .variableName => "VariableName"
  | .backslash => "Backslash"
  | .documentComment => "DocumentComment"
  | .comment => "Comment"
  | .integerLiteral => "IntegerLiteral"
  | .floatingLiteral => "FloatingLiteral"
  | .stringLiteral => "StringLiteral"
  | .abstractKeyword => "Abstract"
  | .finalKeyword => "Final"
  | .staticKeyword => "Static"
  | .publicKeyword => "Public"
  | .protectedKeyword => "Protected"
  | .privateKeyword => "Private"
  | .readonlyKeyword => "Readonly"
  | .varKeyword => "Var"
  | .classKeyword => "Class"
  | .interfaceKeyword => "Interface"
  | .traitKeyword => "Trait"
  | .extendsKeyword => "Extends"
  | .implementsKeyword => "Implements"
  | .useKeyword => "Use"
  | .asKeyword => "As"
  | .insteadofKeyword => "Insteadof"
  | .namespaceKeyword => "Namespace"
  | .functionKeyword => "Function"
  | .fnKeyword => "Fn"
  | .constKeyword => "Const"
  | .newKeyword => "New"
  | .cloneKeyword => "Clone"
  | .instanceOfKeyword => "InstanceOf"
  | .globalKeyword => "Global"
  | .returnKeyword => "Return"
  | .echoKeyword => "Echo"
  | .selfKeyword => "SelfKeyword"
  | .parentKeyword => "Parent"
  | .arrayKeyword => "Array"
  | .callableKeyword => "Callable"
  | .ifKeyword => "If"
  | .elseIfKeyword => "ElseIf"
  | .elseKeyword => "Else"
  | .switchKeyword => "Switch"
  | .caseKeyword => "Case"
  | .defaultKeyword => "Default"
  | .foreachKeyword => "Foreach"
  | .whileKeyword => "While"
  | .doKeyword => "Do"
  | .forKeyword => "For"
  | .tryKeyword => "Try"
  | .catchKeyword => "Catch"
  | .finallyKeyword => "Finally"
  | .arrow => "Arrow"
  | .nullsafeArrow => "NullsafeArrow"
  | .colonColon => "ColonColon"
  | .equals => "Equals"
  | .ampersand => "Ampersand"
  | .ellipsis => "Ellipsis"
  | .question => "Question"
  | .colon => "Colon"
  | .bar => "Bar"
  | .fatArrow => "FatArrow"
  | .comma => "Comma"
  | .semicolon => "Semicolon"
  | .openParen => "OpenParen"
  | .closeParen => "CloseParen"
  | .openBrace => "OpenBrace"
  | .closeBrace => "CloseBrace"
  | .openBracket => "OpenBracket"
  | .closeBracket => "CloseBracket"
  | .punctuation => "Punctuation"

def ofLabel? (s : String) : Option TokenKind :=
  all.find? (·.label == s)

def isLiteral : TokenKind → Bool
  | .integerLiteral | .floatingLiteral | .stringLiteral => true
  | _ => false

def isTrivia : TokenKind → Bool
  | .comment | .documentComment => true
  | _ => false

end TokenKind

end CodeAtlas
