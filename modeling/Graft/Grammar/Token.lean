import Graft.Syntax.Kind

/-! The tokens of the grammar: words that can be keywords, punctuation marks, and classes of tokens such
as names and numbers. Every token has a number of its own, so that a set of tokens is a natural number
with one bit for each. -/

namespace Graft

/-- Words that mean something of their own in some place. In every other place they are names. -/
inductive Keyword where
  | export_ | default_ | type_ | typeof_ | import_ | from_ | as_ | with_ | assert_ | require_
  | var_ | let_ | const_ | using_ | if_ | else_ | switch_ | case_ | for_ | await_ | in_ | of_ | while_
  | do_ | try_ | catch_ | finally_ | break_ | continue_ | debugger_ | return_ | throw_ | yield_
  | class_ | abstract_ | extends_ | implements_ | interface_ | enum_ | async_ | function_ | new_
  | target_ | meta_ | void_ | delete_ | instanceof_ | satisfies_ | this_ | super_ | true_ | false_
  | null_ | undefined_ | static_ | get_ | set_ | accessor_ | declare_ | global_ | namespace_ | module_
  | public_ | private_ | protected_ | override_ | readonly_ | any_ | number_ | boolean_ | string_
  | symbol_ | object_ | unique_ | unknown_ | never_ | keyof_ | infer_ | asserts_ | is_
  deriving DecidableEq

namespace Keyword

def text : Keyword → String
  | export_ => "export" | default_ => "default" | type_ => "type" | typeof_ => "typeof"
  | import_ => "import" | from_ => "from" | as_ => "as" | with_ => "with" | assert_ => "assert"
  | require_ => "require" | var_ => "var" | let_ => "let" | const_ => "const" | using_ => "using"
  | if_ => "if" | else_ => "else" | switch_ => "switch" | case_ => "case" | for_ => "for"
  | await_ => "await" | in_ => "in" | of_ => "of" | while_ => "while" | do_ => "do" | try_ => "try"
  | catch_ => "catch" | finally_ => "finally" | break_ => "break" | continue_ => "continue"
  | debugger_ => "debugger" | return_ => "return" | throw_ => "throw" | yield_ => "yield"
  | class_ => "class" | abstract_ => "abstract" | extends_ => "extends" | implements_ => "implements"
  | interface_ => "interface" | enum_ => "enum" | async_ => "async" | function_ => "function"
  | new_ => "new" | target_ => "target" | meta_ => "meta" | void_ => "void" | delete_ => "delete"
  | instanceof_ => "instanceof" | satisfies_ => "satisfies" | this_ => "this" | super_ => "super"
  | true_ => "true" | false_ => "false" | null_ => "null" | undefined_ => "undefined"
  | static_ => "static" | get_ => "get" | set_ => "set" | accessor_ => "accessor"
  | declare_ => "declare" | global_ => "global" | namespace_ => "namespace" | module_ => "module"
  | public_ => "public" | private_ => "private" | protected_ => "protected"
  | override_ => "override" | readonly_ => "readonly" | any_ => "any" | number_ => "number"
  | boolean_ => "boolean" | string_ => "string" | symbol_ => "symbol" | object_ => "object"
  | unique_ => "unique" | unknown_ => "unknown" | never_ => "never" | keyof_ => "keyof"
  | infer_ => "infer" | asserts_ => "asserts" | is_ => "is"

def all : List Keyword :=
  [export_, default_, type_, typeof_, import_, from_, as_, with_, assert_, require_, var_, let_,
    const_, using_, if_, else_, switch_, case_, for_, await_, in_, of_, while_, do_, try_, catch_,
    finally_, break_, continue_, debugger_, return_, throw_, yield_, class_, abstract_, extends_,
    implements_, interface_, enum_, async_, function_, new_, target_, meta_, void_, delete_,
    instanceof_, satisfies_, this_, super_, true_, false_, null_, undefined_, static_, get_, set_,
    accessor_, declare_, global_, namespace_, module_, public_, private_, protected_, override_,
    readonly_, any_, number_, boolean_, string_, symbol_, object_, unique_, unknown_, never_,
    keyof_, infer_, asserts_, is_]

def kind : Keyword → Kind
  | this_ => .thisExpression
  | super_ => .superExpression
  | true_ => .trueLiteral
  | false_ => .falseLiteral
  | null_ => .nullLiteral
  | undefined_ => .undefinedLiteral
  | _ => .symbol

end Keyword

inductive Mark where
  | openBrace | closeBrace | openParen | closeParen | openBracket | closeBracket
  | openExactBrace | closeExactBrace | comma | semicolon | colon | dot | ellipsis | question
  | optionalChain | arrow | at_ | backquote | openSubstitution | doubleQuote | singleQuote
  | closeTag | selfCloseTag | optingColon | addingColon | omittingColon
  | assign | addAssign | subtractAssign | multiplyAssign | divideAssign | remainderAssign
  | xorAssign | andAssign | orAssign | shiftRightAssign | shiftRightZeroAssign | shiftLeftAssign
  | powerAssign | bothAssign | eitherAssign | defaultAssign
  | both | either | coalesce | shiftRight | shiftRightZero | shiftLeft | and_ | xor_ | or_
  | plus | minus | star | slash | percent | power | less | lessEqual | equal | strictEqual
  | notEqual | strictNotEqual | greaterEqual | greater | bang | tilde | increment | decrement
  deriving DecidableEq

namespace Mark

def text : Mark → String
  | openBrace => "\x7b" | closeBrace => "\x7d" | openParen => "(" | closeParen => ")"
  | openBracket => "[" | closeBracket => "]" | openExactBrace => "\x7b|" | closeExactBrace => "|\x7d"
  | comma => "," | semicolon => ";" | colon => ":" | dot => "." | ellipsis => "..." | question => "?"
  | optionalChain => "?." | arrow => "=>" | at_ => "@" | backquote => "\x60"
  | openSubstitution => "$\x7b" | doubleQuote => "\"" | singleQuote => "'" | closeTag => "</"
  | selfCloseTag => "/>" | optingColon => "?:" | addingColon => "+?:" | omittingColon => "-?:"
  | assign => "=" | addAssign => "+=" | subtractAssign => "-=" | multiplyAssign => "*="
  | divideAssign => "/=" | remainderAssign => "%=" | xorAssign => "^=" | andAssign => "&="
  | orAssign => "|=" | shiftRightAssign => ">>=" | shiftRightZeroAssign => ">>>="
  | shiftLeftAssign => "<<=" | powerAssign => "**=" | bothAssign => "&&=" | eitherAssign => "||="
  | defaultAssign => "??=" | both => "&&" | either => "||" | coalesce => "??" | shiftRight => ">>"
  | shiftRightZero => ">>>" | shiftLeft => "<<" | and_ => "&" | xor_ => "^" | or_ => "|"
  | plus => "+" | minus => "-" | star => "*" | slash => "/" | percent => "%" | power => "**"
  | less => "<" | lessEqual => "<=" | equal => "==" | strictEqual => "===" | notEqual => "!="
  | strictNotEqual => "!==" | greaterEqual => ">=" | greater => ">" | bang => "!" | tilde => "~"
  | increment => "++" | decrement => "--"

def all : List Mark :=
  [openBrace, closeBrace, openParen, closeParen, openBracket, closeBracket, openExactBrace,
    closeExactBrace, comma, semicolon, colon, dot, ellipsis, question, optionalChain, arrow, at_,
    backquote, openSubstitution, doubleQuote, singleQuote, closeTag, selfCloseTag, optingColon,
    addingColon, omittingColon, assign, addAssign, subtractAssign, multiplyAssign, divideAssign,
    remainderAssign, xorAssign, andAssign, orAssign, shiftRightAssign, shiftRightZeroAssign,
    shiftLeftAssign, powerAssign, bothAssign, eitherAssign, defaultAssign, both, either, coalesce,
    shiftRight, shiftRightZero, shiftLeft, and_, xor_, or_, plus, minus, star, slash, percent, power,
    less, lessEqual, equal, strictEqual, notEqual, strictNotEqual, greaterEqual, greater, bang,
    tilde, increment, decrement]

end Mark

inductive Token where
  /-- What comes after the last token of a text. -/
  | finish
  | identifier
  | privateName
  | number
  | hashBang
  | comment
  /-- A comment to the end of its line in the manner of a page. -/
  | pageComment
  /-- The plain characters of a string in double quotes, and in single ones. -/
  | doubleChars | singleChars
  | escape
  | templateChars
  | regexPattern | regexEnd | regexFlags
  /-- The question mark of a conditional expression. -/
  | condition
  /-- A place where a statement ends without a semicolon. -/
  | lineEnd
  /-- A place where the head of a function ends without a body. -/
  | headEnd
  /-- A name with dashes in it. -/
  | dashedName
  | markupText
  | characterReference
  /-- The plain characters of an attribute string in double quotes, and in single ones. -/
  | doubleAttributeChars | singleAttributeChars
  | mark (mark : Mark)
  | word (word : Keyword)
  deriving DecidableEq

namespace Token

def code : Token → Nat
  | finish => 0
  | identifier => 1
  | privateName => 2
  | number => 3
  | hashBang => 4
  | comment => 5
  | pageComment => 6
  | doubleChars => 7
  | singleChars => 8
  | escape => 9
  | templateChars => 10
  | regexPattern => 11
  | regexEnd => 12
  | regexFlags => 13
  | condition => 14
  | lineEnd => 15
  | headEnd => 16
  | dashedName => 17
  | markupText => 18
  | characterReference => 19
  | doubleAttributeChars => 20
  | singleAttributeChars => 21
  | mark m => 22 + m.ctorIdx
  | word w => 128 + w.ctorIdx

def set (token : Token) : Nat := 1 <<< token.code

def kind : Token → Kind
  | identifier => .identifier
  | privateName => .privatePropertyIdentifier
  | number => .number
  | hashBang => .hashBangLine
  | comment => .comment
  | pageComment => .htmlComment
  | doubleChars => .stringFragment
  | singleChars => .stringFragment
  | escape => .escapeSequence
  | templateChars => .stringFragment
  | regexPattern => .regexPattern
  | regexFlags => .regexFlags
  | dashedName => .identifier
  | markupText => .jsxText
  | characterReference => .htmlCharacterReference
  | doubleAttributeChars => .stringFragment
  | singleAttributeChars => .stringFragment
  | word w => w.kind
  | _ => .symbol

/-- Comments may stand between any two tokens. -/
def isExtra (token : Token) : Bool := token = comment || token = pageComment

end Token
end Graft
