import Redeploy.Syntax.Rule

set_option autoImplicit false

/-! # The grammar of scripts

The rules of the language that scripts are written in. Keywords are told from names by where they
stand: a word is a keyword only where the grammar has a use for it, and a name everywhere else, so
`x.import` and `f(class=1)` can be read. Five words alone are never names within an expression. -/

namespace Redeploy.Syntax

/-- The names of the rules that other rules refer to. -/
inductive Phrase where
  | statement
  | simpleStatements
  | suite
  | elseClause
  | dottedName
  | importList
  | parameter
  | typeHint
  | target
  | targetList
  | assignment
  | rightSide
  | expressions
  | yieldExpression
  | expression
  | disjunction
  | conjunction
  | inversion
  | comparison
  | bitOr
  | bitXor
  | bitAnd
  | shift
  | sum
  | product
  | unary
  | power
  | postfixed
  | atom
  | strings
  | interpolation
  | arguments
  | comprehension
  | element
  | casePattern
  | simplePattern
  deriving DecidableEq, Repr

namespace Grammar

/-! ## Shorthands -/

/-- A keyword. -/
def word (w : String) : Rule Phrase := .token (.word [w])

/-- A symbol. -/
def symbol (s : String) : Rule Phrase := .token (.symbol [s])

/-- A rule or nothing. -/
def optional (r : Rule Phrase) : Rule Phrase := .alt r .empty

/-- Several rules, one after the other. -/
def seqs : List (Rule Phrase) → Rule Phrase
  | [] => .empty
  | [r] => r
  | r :: rs => .seq r (seqs rs)

/-- The first of several rules that can be read. -/
def alts : List (Rule Phrase) → Rule Phrase
  | [] => .empty
  | [r] => r
  | r :: rs => .alt r (alts rs)

/-- A rule at least once. -/
def many1 (r : Rule Phrase) : Rule Phrase := .seq r (.many r)

/-- Things with commas between them. -/
def commaSeparated (r : Rule Phrase) : Rule Phrase :=
  .seq r (.many (.seq (symbol ",") r))

/-- Things with commas between them, and perhaps one at the end. -/
def commaList (r : Rule Phrase) : Rule Phrase :=
  .seq (commaSeparated r) (optional (symbol ","))

/-- What may follow a first thing and a comma. -/
def moreAfterComma (r : Rule Phrase) : Rule Phrase :=
  .seq (symbol ",") (optional (commaList r))

/-- Something within two symbols. -/
def within (opening : String) (r : Rule Phrase) (closing : String) : Rule Phrase :=
  seqs [symbol opening, r, symbol closing]

/-- A node over one token. -/
def leaf (k : Kind) (t : Terminal) : Rule Phrase := .node k (.token t)

/-- The words that are never names within an expression. -/
def reservedOperands : List String := ["not", "lambda", "True", "False", "None"]

/-- Any word as a name. -/
def anyName : Rule Phrase := leaf .identifier (.kind .word)

/-- A name within an expression. -/
def operandName : Rule Phrase := leaf .identifier (.wordExcept reservedOperands)

/-- An expression. -/
def expression : Rule Phrase := .ref .expression

/-- A colon and the statements that belong to it. -/
def body : Rule Phrase := .seq (symbol ":") (.ref .suite)

/-- The end of a line. -/
def newline : Rule Phrase := .token (.kind .newline)

/-! ## Simple statements -/

/-- The words that a statement of an expression cannot start with. -/
def statementKeywords : List String :=
  ["import", "from", "assert", "return", "del", "raise", "pass", "break", "continue", "global",
    "nonlocal", "if", "while", "for", "try", "with", "def", "class"]

/-- A module or name with dots in it. -/
def dottedName : Rule Phrase :=
  .node .dottedName (.seq anyName (.many (.seq (symbol ".") anyName)))

/-- One name of an import, perhaps with an alias. -/
def importItem : Rule Phrase :=
  .role .name (.seq (.ref .dottedName)
    (optional (.wrap .aliasedImport (some .name) (.seq (word "as") (.role .asName anyName)))))

/-- The names of an import, in parentheses or not. -/
def importNames : Rule Phrase :=
  .alt (within "(" (.ref .importList) ")") (.ref .importList)

/-- A module given relative to the package of the script. -/
def relativeImport : Rule Phrase :=
  .node .relativeImport (.seq
    (.node .importDots (many1 (.token (.symbol [".", "..."]))))
    (optional (.seq (.notAhead (.word ["import"])) (.ref .dottedName))))

/-- Import statements. -/
def importStatements : List (Rule Phrase) :=
  [.node .futureImportStatement
      (seqs [word "from", word "__future__", word "import", importNames]),
    .node .importStatement (.seq (word "import") (.ref .importList)),
    .node .importFromStatement (seqs [word "from", .notAhead (.word ["__future__"]),
      .role .moduleName (.alt relativeImport (.ref .dottedName)), word "import",
      .alt (leaf .wildcardImport (.symbol ["*"])) importNames])]

/-- Statements that start with a keyword of their own. -/
def keywordStatements : List (Rule Phrase) :=
  [.node .assertStatement (.seq (word "assert") (commaSeparated expression)),
    .node .returnStatement (.seq (word "return") (optional (.ref .expressions))),
    .node .deleteStatement (.seq (word "del") (.ref .expressions)),
    .node .raiseStatement (seqs [word "raise", optional (.ref .expressions),
      optional (.seq (word "from") expression)]),
    leaf .passStatement (.word ["pass"]),
    leaf .breakStatement (.word ["break"]),
    leaf .continueStatement (.word ["continue"]),
    .node .globalStatement (.seq (word "global") (commaSeparated anyName)),
    .node .nonlocalStatement (.seq (word "nonlocal") (commaSeparated anyName))]

/-- The end of a simple statement. -/
def statementEnd : Rule Phrase := .alt (.ahead (.kind .newline)) (.ahead (.symbol [";"]))

/-- A new name for a type. -/
def typeAlias : Rule Phrase :=
  .seq (.node .typeAliasStatement
    (seqs [word "type", .ref .typeHint, symbol "=", .ref .typeHint])) statementEnd

/-- An expression, an assignment or several expressions. -/
def expressionStatement : Rule Phrase :=
  .node .expressionStatement (.seq (.notAhead (.word statementKeywords))
    (alts [.ref .assignment, .ref .yieldExpression, commaList expression]))

/-- Statements of former versions of the language. -/
def formerStatements : List (Rule Phrase) :=
  [.node .printStatement (.seq (word "print") (.alt
      (.seq (.node .chevron (.seq (symbol ">>") expression))
        (.seq (.many (.seq (symbol ",") expression)) (optional (symbol ","))))
      (commaList expression))),
    .node .execStatement (seqs [word "exec", .alt (.ref .strings) anyName,
      optional (.seq (word "in") (commaSeparated expression))])]

/-- One simple statement. -/
def simpleStatement : Rule Phrase :=
  alts (importStatements ++ keywordStatements ++
    [typeAlias, .seq expressionStatement statementEnd] ++ formerStatements)

/-- The simple statements of one line. -/
def simpleStatements : Rule Phrase :=
  seqs [simpleStatement, .many (.seq (symbol ";") simpleStatement), optional (symbol ";"), newline]

/-! ## Compound statements -/

/-- The statements that belong to a colon: on the same line, in a block, or none at all. -/
def suite : Rule Phrase :=
  alts [.node .block (.ref .simpleStatements),
    .seq (.token (.kind .indent))
      (.node .block (.seq (.many (.ref .statement)) (.token (.kind .dedent)))),
    .node .block newline]

/-- What is done if a condition never holds or a loop runs out. -/
def elseClause : Rule Phrase := .node .elseClause (.seq (word "else") body)

/-- A conditional statement. -/
def ifStatement : Rule Phrase :=
  .node .ifStatement (seqs [word "if", expression, body,
    .many (.node .elifClause (seqs [word "elif", expression, body])),
    optional (.ref .elseClause)])

/-- A loop over items. -/
def forStatement : Rule Phrase :=
  .node .forStatement (seqs [optional (word "async"), word "for", .role .left (.ref .targetList),
    word "in", .role .right (.ref .expressions), body, optional (.ref .elseClause)])

/-- A loop with a condition. -/
def whileStatement : Rule Phrase :=
  .node .whileStatement (seqs [word "while", expression, body, optional (.ref .elseClause)])

/-- What is done at last. -/
def finallyClause : Rule Phrase := .node .finallyClause (.seq (word "finally") body)

/-- What is done on an error. -/
def exceptClause : Rule Phrase :=
  .node .exceptClause (seqs [word "except", .notAhead (.symbol ["*"]),
    optional (.seq expression (optional (.seq (symbol ",") expression))), body])

/-- What is done on the errors of a group. -/
def exceptGroupClause : Rule Phrase :=
  .node .exceptClause (seqs [word "except", symbol "*", expression, body])

/-- A statement that handles errors. -/
def tryStatement : Rule Phrase :=
  .node .tryStatement (seqs [word "try", body,
    .alt (seqs [.alt (many1 exceptClause) (many1 exceptGroupClause),
      optional (.ref .elseClause), optional finallyClause]) finallyClause])

/-- A statement with contexts. -/
def withStatement : Rule Phrase :=
  let item := .node .withItem expression
  .node .withStatement (seqs [optional (word "async"), word "with",
    .node .withClause (.alt
      (.seq (within "(" (commaList item) ")") (.ahead (.symbol [":"])))
      (commaList item)),
    body])

/-- Type parameters of a definition. -/
def typeParameter : Rule Phrase :=
  .node .typeParameter (within "[" (commaList (.seq (.ref .typeHint)
    (optional (.wrap .constrainedType none (.seq (symbol ":") (.ref .typeHint)))))) "]")

/-- The parameters of a function. -/
def parameters : Rule Phrase :=
  .node .parameters (within "(" (optional (commaList (.ref .parameter))) ")")

/-- A function. -/
def functionDefinition : Rule Phrase :=
  .node .functionDefinition (seqs [optional (word "async"), word "def", .role .name anyName,
    optional typeParameter, parameters,
    optional (.seq (symbol "->") (.ref .typeHint)), body])

/-- A class. -/
def classDefinition : Rule Phrase :=
  .node .classDefinition (seqs [word "class", .role .name anyName, optional typeParameter,
    optional (.only [.argumentList] (.ref .arguments)), body])

/-- A function or class with decorators. -/
def decoratedDefinition : Rule Phrase :=
  .node .decoratedDefinition (.seq
    (many1 (.node .decorator (seqs [symbol "@", expression, newline])))
    (.alt classDefinition functionDefinition))

/-! ## Match statements -/

/-- A keyword that must not be taken for a name after a comma. -/
def notKeyword (keywords : List String) (r : Rule Phrase) : Rule Phrase :=
  .seq (.notAhead (.word keywords)) r

/-- A condition of a case or a comprehension. -/
def ifClause : Rule Phrase := .node .ifClause (.seq (word "if") (.ref .disjunction))

/-- One case. -/
def caseClause : Rule Phrase :=
  .node .caseClause (seqs [word "case", .ref .casePattern,
    .many (.seq (symbol ",") (notKeyword ["if"] (.ref .casePattern))), optional (symbol ","),
    optional ifClause, body])

/-- A statement that matches patterns. -/
def matchStatement : Rule Phrase :=
  .node .matchStatement (seqs [word "match", commaList expression, symbol ":",
    .alt (.seq (.token (.kind .indent))
        (.node .block (.seq (.many caseClause) (.token (.kind .dedent)))))
      (.node .block newline)])

/-- Patterns with commas between them. -/
def casePatterns : Rule Phrase := optional (commaList (.ref .casePattern))

/-- A number without a sign. -/
def number : Rule Phrase :=
  .alt (leaf .integer (.kind .integer)) (leaf .float (.kind .float))

/-- A pattern for several names or values. -/
def splatPattern : Rule Phrase :=
  .node .splatPattern (.seq (.token (.symbol ["*", "**"])) (.alt (word "_") anyName))

/-- The words that stand for values. -/
def constants : List (Rule Phrase) :=
  [leaf .true_ (.word ["True"]), leaf .false_ (.word ["False"]), leaf .none_ (.word ["None"])]

/-- A pattern without alternatives. -/
def closedPattern : Rule Phrase :=
  let dictItem := .alt splatPattern
    (seqs [.ref .simplePattern, symbol ":", .ref .casePattern])
  alts ([splatPattern, .ref .strings] ++ constants ++
    [.node .complexPattern (seqs [optional (symbol "-"), number, .token (.symbol ["+", "-"]), number]),
      .seq (optional (symbol "-")) number,
      .node .listPattern (within "[" casePatterns "]"),
      .node .tuplePattern (within "(" casePatterns ")"),
      .node .dictPattern (within "\x7b" (optional (commaList dictItem)) "\x7d"),
      word "_",
      .seq (.ref .dottedName)
        (optional (.wrap .classPattern none (within "(" casePatterns ")")))])

/-- A pattern, perhaps with alternatives. A pattern for anything builds no node that others could be
    put beside. -/
def simplePattern : Rule Phrase :=
  let others := many1 (.seq (symbol "|") closedPattern)
  .alt (.node .unionPattern (.seq (word "_") others))
    (.seq closedPattern (optional (.wrap .unionPattern none others)))

/-- A pattern, perhaps with a name for what it matches. -/
def casePattern : Rule Phrase :=
  let newName := .seq (word "as") anyName
  .node .casePattern (alts [
    .node .keywordPattern (seqs [anyName, symbol "=", .ref .simplePattern]),
    .node .asPattern (.seq (word "_") newName),
    .seq (.ref .simplePattern) (optional (.wrap .asPattern none newName))])

/-- One statement, or the simple statements of one line. -/
def statement : Rule Phrase :=
  alts [ifStatement, forStatement, whileStatement, tryStatement, withStatement, functionDefinition,
    classDefinition, decoratedDefinition, matchStatement, .ref .simpleStatements]

/-! ## Parameters and types -/

/-- The type of a parameter, and its default. -/
def typedTail : Rule Phrase :=
  .wrap .typedParameter none (seqs [symbol ":", .ref .typeHint,
    optional (seqs [.become .typedDefaultParameter, symbol "=", expression])])

/-- The default of a parameter. -/
def defaultTail : Rule Phrase :=
  .wrap .defaultParameter none (.seq (symbol "=") expression)

/-- Parameters that take the arguments left over, and the marks between parameters. -/
def specialParameters (tail : Rule Phrase) : List (Rule Phrase) :=
  [.seq (.node .listSplatPattern (.seq (symbol "*") anyName)) tail,
    leaf .keywordSeparator (.symbol ["*"]),
    .seq (.node .dictionarySplatPattern (.seq (symbol "**") anyName)) tail,
    leaf .positionalSeparator (.symbol ["/"])]

/-- A tuple of targets. -/
def tuplePattern : Rule Phrase :=
  .node .tuplePattern (within "(" (optional (commaList (.ref .target))) ")")

/-- One parameter of a function. -/
def parameter : Rule Phrase :=
  alts (.seq anyName (optional (.alt typedTail defaultTail)) ::
    specialParameters (optional typedTail) ++ [.seq tuplePattern (optional defaultTail)])

/-- One parameter of a lambda. -/
def lambdaParameter : Rule Phrase :=
  alts (.seq anyName (optional defaultTail) ::
    specialParameters .empty ++ [.seq tuplePattern (optional defaultTail)])

/-- A type. -/
def typeHint : Rule Phrase :=
  .node .typeHint (.alt
    (.node .splatType (.seq (.token (.symbol ["*", "**"])) anyName)) expression)

/-! ## Assignments -/

/-- What an assignment can give a value to. -/
def target : Rule Phrase :=
  let place := .only [.identifier, .attributeAccess, .subscript] (.ref .postfixed)
  alts [.node .listSplatPattern (.seq (symbol "*") place), place, tuplePattern,
    .node .listPattern (within "[" (optional (commaList (.ref .target))) "]")]

/-- A target, or several with commas between them. -/
def targetList : Rule Phrase :=
  .seq (.ref .target)
    (optional (.wrap .patternList none (moreAfterComma (notKeyword ["in"] (.ref .target)))))

/-- The operators that change a value in place. -/
def augmentedOperators : List String :=
  ["+=", "-=", "*=", "/=", "@=", "//=", "%=", "**=", ">>=", "<<=", "&=", "^=", "|="]

/-- An assignment to targets, an annotation, or a change in place. -/
def assignment : Rule Phrase :=
  .node .assignment (.seq (.role .left (.ref .targetList)) (alts [
    .seq (symbol "=") (.ref .rightSide),
    seqs [symbol ":", .ref .typeHint, optional (.seq (symbol "=") (.ref .rightSide))],
    seqs [.become .augmentedAssignment, .token (.symbol augmentedOperators), .ref .rightSide]]))

/-- What is assigned; another assignment hands its value on. -/
def rightSide : Rule Phrase :=
  .role .right (alts [.ref .assignment, .ref .yieldExpression, .ref .expressions])

/-! ## Expressions -/

/-- An expression, or several with commas between them. -/
def expressions : Rule Phrase :=
  .seq expression (optional (.wrap .expressionList none (moreAfterComma expression)))

/-- The suspension of a generator. -/
def yieldExpression : Rule Phrase :=
  .node .yieldExpression (.seq (word "yield")
    (.alt (.seq (word "from") expression) (optional (.ref .expressions))))

/-- A conditional expression, or anything that binds closer. -/
def conditional : Rule Phrase :=
  .seq (.ref .disjunction)
    (optional (.wrap .conditionalExpression none
      (seqs [word "if", expression, word "else", expression])))

/-- An expression, perhaps with a target for its value. -/
def expressionRule : Rule Phrase :=
  .seq conditional
    (.many (.wrap .asPattern none
      (.seq (word "as") (.role .asName (.node .asPatternTarget conditional)))))

/-- Operands with operators between them, grouped to the left. -/
def leftGrouped (k : Kind) (operand : Phrase) (operator : Terminal) : Rule Phrase :=
  .seq (.ref operand) (.many (.wrap k none (.seq (.token operator) (.ref operand))))

/-- A function without a name. -/
def lambdaExpression : Rule Phrase :=
  .node .lambda (seqs [word "lambda",
    optional (.node .lambdaParameters (commaList lambdaParameter)), symbol ":", expression])

/-- An assignment within an expression. -/
def namedExpression : Rule Phrase :=
  .node .namedExpression (seqs [.role .name operandName, symbol ":=", .role .value expression])

/-- A negation, or anything that binds closer. -/
def inversion : Rule Phrase :=
  alts [.node .notOperator (.seq (word "not") (.ref .inversion)), lambdaExpression, namedExpression,
    .ref .comparison]

/-- An operator that compares. -/
def comparisonOperator : Rule Phrase :=
  alts [.token (.symbol ["<", "<=", "==", "!=", ">=", ">", "<>"]), word "in",
    .seq (word "not") (word "in"), .seq (word "is") (optional (word "not"))]

/-- Comparisons in a chain, or anything that binds closer. -/
def comparison : Rule Phrase :=
  .seq (.ref .bitOr)
    (optional (.wrap .comparisonOperator none (many1 (.seq comparisonOperator (.ref .bitOr)))))

/-- A sign or an awaited value, or anything that binds closer. -/
def unary : Rule Phrase :=
  alts [.node .unaryOperator (.seq (.token (.symbol ["+", "-", "~"])) (.ref .unary)),
    .node .awaitExpression (.seq (word "await") (.ref .unary)), .ref .power]

/-- A power, or anything that binds closer. -/
def power : Rule Phrase :=
  .seq (.ref .postfixed)
    (optional (.wrap .binaryOperator none (.seq (symbol "**") (.ref .unary))))

/-- One item between the brackets of a subscript. -/
def subscriptItem : Rule Phrase :=
  let range := seqs [symbol ":", optional expression,
    optional (.seq (symbol ":") (optional expression))]
  .alt (.seq expression (optional (.wrap .slice none range))) (.node .slice range)

/-- An operand with its attributes, calls and subscripts. -/
def postfixed : Rule Phrase :=
  .seq (.ref .atom) (.many (alts [
    .wrap .attributeAccess (some .object) (.seq (symbol ".") (.role .attributeName anyName)),
    .wrap .call (some .function) (.role .arguments (.ref .arguments)),
    .wrap .subscript (some .value) (within "[" (commaList subscriptItem) "]")]))

/-! ## Brackets -/

/-- An expression spread with a star. -/
def listSplat : Rule Phrase := .node .listSplat (.seq (symbol "*") expression)

/-- A mapping spread with two stars. -/
def dictionarySplat : Rule Phrase := .node .dictionarySplat (.seq (symbol "**") expression)

/-- An element after the first one. A star binds to a name alone if it can. -/
def element : Rule Phrase :=
  alts [.ref .yieldExpression, expression, listSplat]

/-- The elements of a display. `single` ends a display of one element without a comma,
    `comprehended` one with loops, and `several` one of several elements. -/
def display (single comprehended several : Rule Phrase) : Rule Phrase :=
  let more := .seq (moreAfterComma (.ref .element)) several
  alts [.seq (.ref .yieldExpression) (.alt single more),
    seqs [listSplat, .ahead (.symbol [","]), more],
    .seq expression (alts [single, .seq (.ref .comprehension) comprehended, more]),
    .seq listSplat (.alt single more)]

/-- A node becomes of a kind if a symbol follows. -/
def closeAs (k : Kind) (closing : String) : Rule Phrase := .seq (.become k) (symbol closing)

/-- Something in parentheses: an expression, a tuple or a generator. -/
def parenthesized : Rule Phrase :=
  .node .parenthesizedExpression (.seq (symbol "(") (.alt (closeAs .tuple ")")
    (display (symbol ")") (closeAs .generatorExpression ")") (closeAs .tuple ")"))))

/-- Something in square brackets. -/
def bracketed : Rule Phrase :=
  .node .list (.seq (symbol "[") (.alt (symbol "]")
    (display (symbol "]") (closeAs .listComprehension "]") (symbol "]"))))

/-- The value that belongs to a key. -/
def pairTail : Rule Phrase := .wrap .pair none (.seq (symbol ":") expression)

/-- The rest of a dictionary after its first item. -/
def dictionaryRest : Rule Phrase :=
  seqs [.many (.seq (symbol ",") (.alt dictionarySplat (.seq expression pairTail))),
    optional (symbol ","), symbol "\x7d"]

/-- Something in braces: a dictionary or a set. -/
def braced : Rule Phrase :=
  .node .dictionary (.seq (symbol "\x7b") (alts [
    .seq (optional (symbol ",")) (symbol "\x7d"),
    .seq dictionarySplat dictionaryRest,
    seqs [expression, pairTail, .alt
      (.seq (.ref .comprehension) (closeAs .dictionaryComprehension "\x7d")) dictionaryRest],
    display (closeAs .set "\x7d") (closeAs .setComprehension "\x7d") (closeAs .set "\x7d")]))

/-- The loops and conditions of a comprehension. -/
def comprehension : Rule Phrase :=
  let loop := .node .forInClause (seqs [optional (word "async"), word "for",
    .role .left (.ref .targetList), word "in", .role .right (.ref .disjunction),
    .many (.seq (symbol ",") (notKeyword ["for", "if", "async"] (.ref .disjunction))),
    optional (symbol ",")])
  .seq loop (.many (.alt loop ifClause))

/-- An argument with a name. -/
def keywordArgument : Rule Phrase :=
  .node .keywordArgument (seqs [.role .name operandName, symbol "=", .role .value expression])

/-- The arguments of a call, or a generator in the place of them. -/
def arguments : Rule Phrase :=
  let argument := alts [keywordArgument, dictionarySplat, expression, listSplat]
  let rest := seqs [.many (.seq (symbol ",") argument), optional (symbol ","), symbol ")"]
  .node .argumentList (.seq (symbol "(") (alts [
    .seq (optional (symbol ",")) (symbol ")"),
    .seq (alts [keywordArgument, dictionarySplat, listSplat]) rest,
    .seq expression
      (.alt (.seq (.ref .comprehension) (closeAs .generatorExpression ")")) rest)]))

/-! ## Operands -/

/-- An expression within a string. -/
def interpolation : Rule Phrase :=
  .node .interpolation (seqs [.token (.kind .interpolationStart),
    .alt (.ref .yieldExpression) (.ref .expressions), optional (symbol "="),
    optional (.token (.kind .conversion)),
    optional (.seq (.token (.kind .formatStart)) (.many (.ref .interpolation))),
    .token (.kind .interpolationEnd)])

/-- A string, or several in a row. -/
def strings : Rule Phrase :=
  let one := .node .string (seqs [.token (.kind .stringStart), .many (.ref .interpolation),
    .token (.kind .stringEnd)])
  .seq one (optional (.wrap .concatenatedString none (many1 one)))

/-- An operand. -/
def atom : Rule Phrase :=
  alts ([operandName, .ref .strings, number] ++ constants ++
    [leaf .ellipsis (.symbol ["..."]), parenthesized, bracketed, braced,
      .node .listSplat (.seq (symbol "*") operandName)])

/-- The names of an import statement. -/
def importList : Rule Phrase := commaList importItem

/-- The rule of every phrase. -/
def rule : Phrase → Rule Phrase
  | .statement => statement
  | .simpleStatements => simpleStatements
  | .suite => suite
  | .elseClause => elseClause
  | .dottedName => dottedName
  | .importList => importList
  | .parameter => parameter
  | .typeHint => typeHint
  | .target => target
  | .targetList => targetList
  | .assignment => assignment
  | .rightSide => rightSide
  | .expressions => expressions
  | .yieldExpression => yieldExpression
  | .expression => expressionRule
  | .disjunction => leftGrouped .booleanOperator .conjunction (.word ["or"])
  | .conjunction => leftGrouped .booleanOperator .inversion (.word ["and"])
  | .inversion => inversion
  | .comparison => comparison
  | .bitOr => leftGrouped .binaryOperator .bitXor (.symbol ["|"])
  | .bitXor => leftGrouped .binaryOperator .bitAnd (.symbol ["^"])
  | .bitAnd => leftGrouped .binaryOperator .shift (.symbol ["&"])
  | .shift => leftGrouped .binaryOperator .sum (.symbol ["<<", ">>"])
  | .sum => leftGrouped .binaryOperator .product (.symbol ["+", "-"])
  | .product => leftGrouped .binaryOperator .unary (.symbol ["*", "@", "/", "%", "//"])
  | .unary => unary
  | .power => power
  | .postfixed => postfixed
  | .atom => atom
  | .strings => strings
  | .interpolation => interpolation
  | .arguments => arguments
  | .comprehension => comprehension
  | .element => element
  | .casePattern => casePattern
  | .simplePattern => simplePattern

end Grammar

end Redeploy.Syntax
