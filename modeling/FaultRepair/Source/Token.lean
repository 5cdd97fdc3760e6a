/-
# Tokens of Go source

The token classes of the analysed language with their spelling, the keyword
table, and the binding strength of binary operators.
-/

import FaultRepair.Text.Basic

namespace FaultRepair.Source

inductive Token where
  | illegal | eof | comment
  | ident | int | float | imag | char | string
  | add | sub | mul | quo | rem
  | and | or | xor | shl | shr | andNot
  | addAssign | subAssign | mulAssign | quoAssign | remAssign
  | andAssign | orAssign | xorAssign | shlAssign | shrAssign | andNotAssign
  | land | lor | arrow | inc | dec
  | eql | lss | gtr | assign | not
  | neq | leq | geq | define | ellipsis
  | lparen | lbrack | lbrace | comma | period
  | rparen | rbrack | rbrace | semicolon | colon | tilde
  | kwBreak | kwCase | kwChan | kwConst | kwContinue
  | kwDefault | kwDefer | kwElse | kwFallthrough | kwFor
  | kwFunc | kwGo | kwGoto | kwIf | kwImport
  | kwInterface | kwMap | kwPackage | kwRange | kwReturn
  | kwSelect | kwStruct | kwSwitch | kwType | kwVar
  deriving DecidableEq

namespace Token

/-- How the token is spelled; a class with many spellings has a name in capitals. -/
def spelling : Token → String
  | illegal => "ILLEGAL" | eof => "EOF" | comment => "COMMENT"
  | ident => "IDENT" | int => "INT" | float => "FLOAT" | imag => "IMAG"
  | char => "CHAR" | string => "STRING"
  | add => "+" | sub => "-" | mul => "*" | quo => "/" | rem => "%"
  | and => "&" | or => "|" | xor => "^" | shl => "<<" | shr => ">>" | andNot => "&^"
  | addAssign => "+=" | subAssign => "-=" | mulAssign => "*=" | quoAssign => "/="
  | remAssign => "%=" | andAssign => "&=" | orAssign => "|=" | xorAssign => "^="
  | shlAssign => "<<=" | shrAssign => ">>=" | andNotAssign => "&^="
  | land => "&&" | lor => "||" | arrow => "<-" | inc => "++" | dec => "--"
  | eql => "==" | lss => "<" | gtr => ">" | assign => "=" | not => "!"
  | neq => "!=" | leq => "<=" | geq => ">=" | define => ":=" | ellipsis => "..."
  | lparen => "(" | lbrack => "[" | lbrace => "\x7b" | comma => "," | period => "."
  | rparen => ")" | rbrack => "]" | rbrace => "\x7d" | semicolon => ";" | colon => ":"
  | tilde => "~"
  | kwBreak => "break" | kwCase => "case" | kwChan => "chan" | kwConst => "const"
  | kwContinue => "continue" | kwDefault => "default" | kwDefer => "defer"
  | kwElse => "else" | kwFallthrough => "fallthrough" | kwFor => "for"
  | kwFunc => "func" | kwGo => "go" | kwGoto => "goto" | kwIf => "if"
  | kwImport => "import" | kwInterface => "interface" | kwMap => "map"
  | kwPackage => "package" | kwRange => "range" | kwReturn => "return"
  | kwSelect => "select" | kwStruct => "struct" | kwSwitch => "switch"
  | kwType => "type" | kwVar => "var"

def text (t : Token) : Text := t.spelling

def keywords : List Token :=
  [kwBreak, kwCase, kwChan, kwConst, kwContinue, kwDefault, kwDefer, kwElse, kwFallthrough,
   kwFor, kwFunc, kwGo, kwGoto, kwIf, kwImport, kwInterface, kwMap, kwPackage, kwRange,
   kwReturn, kwSelect, kwStruct, kwSwitch, kwType, kwVar]

def keywordTable : List (Text × Token) := keywords.map fun k => (k.text, k)

def ofWord (word : Text) : Token := (keywordTable.lookup word).getD ident

/-- Does the class stand for identifiers and basic literals? -/
def isLiteral : Token → Bool
  | ident | int | float | imag | char | string => true
  | _ => false

/-- The weakest binding strength, that of an operand position. -/
def lowestPrec : Nat := 0

def unaryPrec : Nat := 6

def highestPrec : Nat := 7

/-- Binding strength of a binary operator, zero for all other tokens. -/
def precedence : Token → Nat
  | lor => 1
  | land => 2
  | eql | neq | lss | leq | gtr | geq => 3
  | add | sub | or | xor => 4
  | mul | quo | rem | shl | shr | and | andNot => 5
  | _ => lowestPrec

def assignOperator? : Token → Option Token
  | addAssign => some add | subAssign => some sub | mulAssign => some mul
  | quoAssign => some quo | remAssign => some rem | andAssign => some and
  | orAssign => some or | xorAssign => some xor | shlAssign => some shl
  | shrAssign => some shr | andNotAssign => some andNot
  | _ => none

end Token

end FaultRepair.Source
