set_option autoImplicit false

/-! # Kinds of syntax nodes

The kinds of nodes that the syntax tree of a script is made of, and the roles in which a node can
stand under its parent. -/

namespace Redeploy.Syntax

/-- The kind of a node. -/
inductive Kind where
  -- statements
  | module
  | importStatement
  | importFromStatement
  | futureImportStatement
  | aliasedImport
  | relativeImport
  | importDots
  | wildcardImport
  | dottedName
  | printStatement
  | chevron
  | execStatement
  | assertStatement
  | expressionStatement
  | returnStatement
  | deleteStatement
  | raiseStatement
  | passStatement
  | breakStatement
  | continueStatement
  | globalStatement
  | nonlocalStatement
  | typeAliasStatement
  | ifStatement
  | elifClause
  | elseClause
  | forStatement
  | whileStatement
  | tryStatement
  | exceptClause
  | finallyClause
  | withStatement
  | withClause
  | withItem
  | functionDefinition
  | classDefinition
  | decoratedDefinition
  | decorator
  | matchStatement
  | caseClause
  | block
  -- parameters and types
  | parameters
  | lambdaParameters
  | typedParameter
  | defaultParameter
  | typedDefaultParameter
  | keywordSeparator
  | positionalSeparator
  | typeParameter
  | typeHint
  | splatType
  | constrainedType
  -- targets
  | patternList
  | tuplePattern
  | listPattern
  | listSplatPattern
  | dictionarySplatPattern
  | asPatternTarget
  -- patterns of a match
  | casePattern
  | asPattern
  | keywordPattern
  | classPattern
  | splatPattern
  | unionPattern
  | dictPattern
  | complexPattern
  -- expressions
  | assignment
  | augmentedAssignment
  | yieldExpression
  | namedExpression
  | conditionalExpression
  | lambda
  | booleanOperator
  | notOperator
  | comparisonOperator
  | binaryOperator
  | unaryOperator
  | awaitExpression
  | expressionList
  | attributeAccess
  | subscript
  | slice
  | call
  | argumentList
  | keywordArgument
  | listSplat
  | dictionarySplat
  | identifier
  | integer
  | float
  | string
  | interpolation
  | concatenatedString
  | true_
  | false_
  | none_
  | ellipsis
  | list
  | tuple
  | dictionary
  | set
  | pair
  | listComprehension
  | dictionaryComprehension
  | setComprehension
  | generatorExpression
  | forInClause
  | ifClause
  | parenthesizedExpression
  deriving DecidableEq, Repr, Inhabited

/-- The role of a node under its parent, as far as a migration asks for it. -/
inductive Role where
  | name
  | asName
  | moduleName
  | left
  | right
  | value
  | object
  | attributeName
  | function
  | arguments
  deriving DecidableEq, Repr

end Redeploy.Syntax
