import Graft.Grammar.Token

/-! The phrases of the grammar. A phrase is either a node of the syntax tree or a group, whose trees
become children of the node around it. -/

namespace Graft

/-- Phrases that are no nodes of their own. -/
inductive Group where
  | statement | declaration | expression | primaryExpression | pattern | type | primaryType
  | fromClause | exportedName | importedName | forHeader | initializer | destructuringPattern
  | augmentedTarget | propertyName | attributeString | signature | parameter | parameterName
  | baseClass | moduleRest | decoratorMember | decoratorCall | decoratorParentheses
  | importMember | importCall | queryMember | querySubscript | queryCall | queryInstantiation
  | tupleParameter | optionalTupleParameter | tupleMember | signedNumber
  /-- The rest are repetitions: each is one or more of the same. -/
  | statements | decorators | exportSpecifiers | importSpecifiers | declarators | switchParts
  | objectEntries | patternEntries | arrayItems | patternItems | expressions | doubleStringParts
  | singleStringParts | templateParts | templateTypeParts | parameters | classMembers
  | markupChildren | tagAttributes | doubleAttributeParts | singleAttributeParts | baseClasses
  | types | baseTypes | enumMembers | memberTypes | typeParameters | tupleMembers
  deriving DecidableEq

inductive Phrase where
  | node (kind : Kind)
  | group (group : Group)
  deriving DecidableEq

namespace Phrase

def code : Phrase → Nat
  | node it => it.ctorIdx
  | group it => 256 + it.ctorIdx

def limit : Nat := 256 + 64

def isRepetition : Phrase → Bool
  | node _ => false
  | group it => Group.statements.ctorIdx ≤ it.ctorIdx

end Phrase

/-- What a phrase is made of: tokens and other phrases. -/
inductive Symbol where
  | token (token : Token)
  | phrase (phrase : Phrase)
  deriving DecidableEq

end Graft
