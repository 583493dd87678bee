/-! The kinds of syntax nodes, each with the name it is reported under. Two kinds have no name of their
own: a `symbol` is reported as its own text, and `spacing` is not reported at all. -/

namespace Graft

inductive Kind where
  | symbol
  | spacing
  | program | hashBangLine | comment | htmlComment
  | importStatement | importClause | namespaceImport | namedImports | importSpecifier
  | importAttribute | importRequireClause | importAlias | exportStatement | namespaceExport
  | exportClause | exportSpecifier
  | expressionStatement | variableDeclaration | lexicalDeclaration | variableDeclarator
  | statementBlock | elseClause | ifStatement | switchStatement | switchBody | switchCase
  | switchDefault | forStatement | forInStatement | whileStatement | doStatement | tryStatement
  | catchClause | finallyClause | withStatement | breakStatement | continueStatement
  | debuggerStatement | returnStatement | throwStatement | emptyStatement | labeledStatement
  | statementIdentifier
  | functionDeclaration | generatorFunctionDeclaration | functionSignature | functionExpression
  | generatorFunction | classDeclaration | abstractClassDeclaration | classExpression
  | classHeritage | extendsClause | implementsClause | classBody | classStaticBlock
  | methodDefinition | publicFieldDefinition | methodSignature | abstractMethodSignature
  | accessibilityModifier | overrideModifier | decorator
  | interfaceDeclaration | interfaceBody | extendsTypeClause | enumDeclaration | enumBody
  | enumAssignment | typeAliasDeclaration | ambientDeclaration | moduleDeclaration | internalModule
  | nestedIdentifier
  | parenthesizedExpression | sequenceExpression | assignmentExpression
  | augmentedAssignmentExpression | awaitExpression | unaryExpression | binaryExpression
  | ternaryExpression | updateExpression | newExpression | yieldExpression | subscriptExpression
  | memberExpression | callExpression | asExpression | satisfiesExpression
  | instantiationExpression | nonNullExpression | arrowFunction | metaProperty | optionalChain
  | spreadElement | arguments
  | identifier | propertyIdentifier | privatePropertyIdentifier | shorthandPropertyIdentifier
  | shorthandPropertyIdentifierPattern | typeIdentifier | thisExpression | superExpression
  | trueLiteral | falseLiteral | nullLiteral | undefinedLiteral | number | string | stringFragment
  | escapeSequence | templateString | templateSubstitution | regex | regexPattern | regexFlags
  | object | pair | array | computedPropertyName | importKeyword
  | objectPattern | arrayPattern | pairPattern | restPattern | assignmentPattern
  | objectAssignmentPattern | formalParameters | requiredParameter | optionalParameter
  | jsxElement | jsxOpeningElement | jsxClosingElement | jsxSelfClosingElement | jsxAttribute
  | jsxExpression | jsxText | jsxNamespaceName | htmlCharacterReference
  | typeClause | asserts | assertsClause | typePredicate | predicateClause | omittingClause
  | addingClause | optingClause | typeParameters | typeParameter | defaultType | constraint
  | typeArguments | genericType | nestedTypeIdentifier | predefinedType | parenthesizedType
  | objectType | arrayType | tupleType | optionalType | restType | flowMaybeType | typeQuery
  | indexTypeQuery | thisType | existentialType | literalType | lookupType | conditionalType
  | templateLiteralType | templateType | intersectionType | unionType | functionType
  | constructorType | readonlyType | inferType | mappedTypeClause | propertySignature
  | callSignature | constructSignature | indexSignature
  deriving DecidableEq

namespace Kind

/-- The name a kind is reported under. -/
def name : Kind → String
  | symbol => ""
  | spacing => ""
  | program => "program"
  | hashBangLine => "hash_bang_line"
  | comment => "comment"
  | htmlComment => "html_comment"
  | importStatement => "import_statement"
  | importClause => "import_clause"
  | namespaceImport => "namespace_import"
  | namedImports => "named_imports"
  | importSpecifier => "import_specifier"
  | importAttribute => "import_attribute"
  | importRequireClause => "import_require_clause"
  | importAlias => "import_alias"
  | exportStatement => "export_statement"
  | namespaceExport => "namespace_export"
  | exportClause => "export_clause"
  | exportSpecifier => "export_specifier"
  | expressionStatement => "expression_statement"
  | variableDeclaration => "variable_declaration"
  | lexicalDeclaration => "lexical_declaration"
  | variableDeclarator => "variable_declarator"
  | statementBlock => "statement_block"
  | elseClause => "else_clause"
  | ifStatement => "if_statement"
  | switchStatement => "switch_statement"
  | switchBody => "switch_body"
  | switchCase => "switch_case"
  | switchDefault => "switch_default"
  | forStatement => "for_statement"
  | forInStatement => "for_in_statement"
  | whileStatement => "while_statement"
  | doStatement => "do_statement"
  | tryStatement => "try_statement"
  | catchClause => "catch_clause"
  | finallyClause => "finally_clause"
  | withStatement => "with_statement"
  | breakStatement => "break_statement"
  | continueStatement => "continue_statement"
  | debuggerStatement => "debugger_statement"
  | returnStatement => "return_statement"
  | throwStatement => "throw_statement"
  | emptyStatement => "empty_statement"
  | labeledStatement => "labeled_statement"
  | statementIdentifier => "statement_identifier"
  | functionDeclaration => "function_declaration"
  | generatorFunctionDeclaration => "generator_function_declaration"
  | functionSignature => "function_signature"
  | functionExpression => "function_expression"
  | generatorFunction => "generator_function"
  | classDeclaration => "class_declaration"
  | abstractClassDeclaration => "abstract_class_declaration"
  | classExpression => "class"
  | classHeritage => "class_heritage"
  | extendsClause => "extends_clause"
  | implementsClause => "implements_clause"
  | classBody => "class_body"
  | classStaticBlock => "class_static_block"
  | methodDefinition => "method_definition"
  | publicFieldDefinition => "public_field_definition"
  | methodSignature => "method_signature"
  | abstractMethodSignature => "abstract_method_signature"
  | accessibilityModifier => "accessibility_modifier"
  | overrideModifier => "override_modifier"
  | decorator => "decorator"
  | interfaceDeclaration => "interface_declaration"
  | interfaceBody => "interface_body"
  | extendsTypeClause => "extends_type_clause"
  | enumDeclaration => "enum_declaration"
  | enumBody => "enum_body"
  | enumAssignment => "enum_assignment"
  | typeAliasDeclaration => "type_alias_declaration"
  | ambientDeclaration => "ambient_declaration"
  | moduleDeclaration => "module"
  | internalModule => "internal_module"
  | nestedIdentifier => "nested_identifier"
  | parenthesizedExpression => "parenthesized_expression"
  | sequenceExpression => "sequence_expression"
  | assignmentExpression => "assignment_expression"
  | augmentedAssignmentExpression => "augmented_assignment_expression"
  | awaitExpression => "await_expression"
  | unaryExpression => "unary_expression"
  | binaryExpression => "binary_expression"
  | ternaryExpression => "ternary_expression"
  | updateExpression => "update_expression"
  | newExpression => "new_expression"
  | yieldExpression => "yield_expression"
  | subscriptExpression => "subscript_expression"
  | memberExpression => "member_expression"
  | callExpression => "call_expression"
  | asExpression => "as_expression"
  | satisfiesExpression => "satisfies_expression"
  | instantiationExpression => "instantiation_expression"
  | nonNullExpression => "non_null_expression"
  | arrowFunction => "arrow_function"
  | metaProperty => "meta_property"
  | optionalChain => "optional_chain"
  | spreadElement => "spread_element"
  | arguments => "arguments"
  | identifier => "identifier"
  | propertyIdentifier => "property_identifier"
  | privatePropertyIdentifier => "private_property_identifier"
  | shorthandPropertyIdentifier => "shorthand_property_identifier"
  | shorthandPropertyIdentifierPattern => "shorthand_property_identifier_pattern"
  | typeIdentifier => "type_identifier"
  | thisExpression => "this"
  | superExpression => "super"
  | trueLiteral => "true"
  | falseLiteral => "false"
  | nullLiteral => "null"
  | undefinedLiteral => "undefined"
  | number => "number"
  | string => "string"
  | stringFragment => "string_fragment"
  | escapeSequence => "escape_sequence"
  | templateString => "template_string"
  | templateSubstitution => "template_substitution"
  | regex => "regex"
  | regexPattern => "regex_pattern"
  | regexFlags => "regex_flags"
  | object => "object"
  | pair => "pair"
  | array => "array"
  | computedPropertyName => "computed_property_name"
  | importKeyword => "import"
  | objectPattern => "object_pattern"
  | arrayPattern => "array_pattern"
  | pairPattern => "pair_pattern"
  | restPattern => "rest_pattern"
  | assignmentPattern => "assignment_pattern"
  | objectAssignmentPattern => "object_assignment_pattern"
  | formalParameters => "formal_parameters"
  | requiredParameter => "required_parameter"
  | optionalParameter => "optional_parameter"
  | jsxElement => "jsx_element"
  | jsxOpeningElement => "jsx_opening_element"
  | jsxClosingElement => "jsx_closing_element"
  | jsxSelfClosingElement => "jsx_self_closing_element"
  | jsxAttribute => "jsx_attribute"
  | jsxExpression => "jsx_expression"
  | jsxText => "jsx_text"
  | jsxNamespaceName => "jsx_namespace_name"
  | htmlCharacterReference => "html_character_reference"
  | typeClause => "type_annotation"
  | asserts => "asserts"
  | assertsClause => "asserts_annotation"
  | typePredicate => "type_predicate"
  | predicateClause => "type_predicate_annotation"
  | omittingClause => "omitting_type_annotation"
  | addingClause => "adding_type_annotation"
  | optingClause => "opting_type_annotation"
  | typeParameters => "type_parameters"
  | typeParameter => "type_parameter"
  | defaultType => "default_type"
  | constraint => "constraint"
  | typeArguments => "type_arguments"
  | genericType => "generic_type"
  | nestedTypeIdentifier => "nested_type_identifier"
  | predefinedType => "predefined_type"
  | parenthesizedType => "parenthesized_type"
  | objectType => "object_type"
  | arrayType => "array_type"
  | tupleType => "tuple_type"
  | optionalType => "optional_type"
  | restType => "rest_type"
  | flowMaybeType => "flow_maybe_type"
  | typeQuery => "type_query"
  | indexTypeQuery => "index_type_query"
  | thisType => "this_type"
  | existentialType => "existential_type"
  | literalType => "literal_type"
  | lookupType => "lookup_type"
  | conditionalType => "conditional_type"
  | templateLiteralType => "template_literal_type"
  | templateType => "template_type"
  | intersectionType => "intersection_type"
  | unionType => "union_type"
  | functionType => "function_type"
  | constructorType => "constructor_type"
  | readonlyType => "readonly_type"
  | inferType => "infer_type"
  | mappedTypeClause => "mapped_type_clause"
  | propertySignature => "property_signature"
  | callSignature => "call_signature"
  | constructSignature => "construct_signature"
  | indexSignature => "index_signature"

/-- A named node stands for a construct; the others are punctuation, keywords and spacing. -/
def isNamed (kind : Kind) : Bool := kind ≠ symbol && kind ≠ spacing

/-- What may stand between any two tokens. -/
def isTrivia (kind : Kind) : Bool := kind = spacing || kind = comment || kind = htmlComment

end Kind

/-- The role a child plays for its parent. -/
inductive Role where
  | name | rename | source | body | value | declaration
  deriving DecidableEq

end Graft
