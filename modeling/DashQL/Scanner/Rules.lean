import DashQL.Library.Patterns

/-!
# The rules of the scanner

The definitions and rules of the flex file, on the bytes of the text.  A rule is a pattern with
what its action does (`Action`); the rules of a start condition are listed in the order of the file,
which decides between matches of the same length.  The classes are caseless by themselves, except for
the markers of obfuscated literals, which are matched as they are written.
-/

namespace DashQL.Scanner

open Pattern

/-- The kinds of symbols.  A keyword has the token that `Keyword::Find` gives for it, an identifier
the name that is registered. -/
inductive SymbolKind (κ : Type*) where
  | keyword (token : κ)
  | ident (name : List UInt8)
  | sconst | iconst | fconst | xconst | bconst
  | typecast | dotDot | dot | dotTrailing
  | colonEquals | equalsGreater | lessEquals | greaterEquals | notEquals
  | comma | lrb | rrb | lsb | rsb | semicolon | colon
  | plus | minus | divide | star | modulo | circumflex
  | lessThan | greaterThan | equals | questionMark | dollar
  | op | rawChar | eof
  deriving DecidableEq

/-- The start conditions: the initial one and the exclusive ones of the extended rules. -/
inductive StartCondition where
  | initial | xb | xbt | xc | xd | xh | xq
  deriving DecidableEq

/-- What the action of a rule does. -/
inductive Action (κ : Type*) where
  | skip
  | addComment
  /-- Return a symbol for the match. -/
  | emit (kind : SymbolKind κ)
  /-- Return a symbol for the first character of the match only. -/
  | emitFirst (kind : SymbolKind κ)
  /-- Return a symbol without the last characters of the match, which are scanned again. -/
  | emitLess (count : ℕ) (kind : SymbolKind κ)
  | beginExtended (condition : StartCondition)
  | openComment
  | nestComment
  | closeComment
  /-- The closing quote of a literal with what it was matched with. -/
  | closeLiteral (kind : SymbolKind κ)
  /-- The closing quote of a literal with a single minus behind it. -/
  | failLiteral (kind : SymbolKind κ)
  | closeIdentifier (quote : UInt8) (emptyMessage : String)
  | readOperator
  | readInteger
  | readIdentifier
  deriving DecidableEq

/-! ## Classes -/

def bytes (letters : List Char) : List UInt8 := letters.map Char.toUInt8

def spaceChars : List UInt8 := bytes [' ', '\t', '\n', '\r', '\x0c']
def opChars : List UInt8 :=
  bytes ['~', '!', '@', '#', '^', '&', '|', '+', '-', '*', '/', '%', '<', '>', '=']

def isSpace (b : UInt8) : Bool := decide (b ∈ spaceChars)
def isHorizSpace (b : UInt8) : Bool := decide (b ∈ bytes [' ', '\t', '\x0c'])
def isNewline (b : UInt8) : Bool := decide (b ∈ bytes ['\n', '\r'])
def isOpChar (b : UInt8) : Bool := decide (b ∈ opChars)
def isDigit (b : UInt8) : Bool := decide ('0'.toUInt8 ≤ b ∧ b ≤ '9'.toUInt8)
def isUpperHex (b : UInt8) : Bool := isDigit b || decide ('A'.toUInt8 ≤ b ∧ b ≤ 'F'.toUInt8)
def isIdentStart (b : UInt8) : Bool :=
  decide ('A'.toUInt8 ≤ b ∧ b ≤ 'Z'.toUInt8) || decide ('a'.toUInt8 ≤ b ∧ b ≤ 'z'.toUInt8) ||
    decide (128 ≤ b) || decide (b = '_'.toUInt8)
def isIdentCont (b : UInt8) : Bool := isIdentStart b || isDigit b || decide (b = '$'.toUInt8)

def anyOf (letters : List Char) : Pattern UInt8 := one fun b => decide (b ∈ bytes letters)
def noneOf (letters : List Char) : Pattern UInt8 := one fun b => !decide (b ∈ bytes letters)
def exactly (letters : List Char) : Pattern UInt8 := word (bytes letters)

/-! ## Definitions -/

def space : Pattern UInt8 := one isSpace
def horizSpace : Pattern UInt8 := one isHorizSpace
def newline : Pattern UInt8 := one isNewline
def nonNewline : Pattern UInt8 := one fun b => !isNewline b

def comment : Pattern UInt8 := literal (bytes ['-', '-']) (star nonNewline)
def whitespace : Pattern UInt8 := alt (plus space) comment

def specialWhitespace : Pattern UInt8 := alt (plus space) (seq comment newline)
def horizWhitespace : Pattern UInt8 := alt horizSpace comment
def whitespaceWithNewline : Pattern UInt8 :=
  seq (star horizWhitespace) (seq newline (star specialWhitespace))

def quote : List Char := ['\'']
def quotestop : Pattern UInt8 := literal (bytes quote) (star whitespace)
def quotecontinue : Pattern UInt8 := literal (bytes quote) (seq whitespaceWithNewline (exactly quote))
def quotefail : Pattern UInt8 := literal (bytes quote) (seq (star whitespace) (exactly ['-']))

def xbstart : Pattern UInt8 := seq (anyOf ['b', 'B']) (exactly quote)
def xbinside : Pattern UInt8 := star (noneOf quote)
def xhstart : Pattern UInt8 := seq (anyOf ['x', 'X']) (exactly quote)
def xhinside : Pattern UInt8 := star (noneOf quote)

def xqstart : Pattern UInt8 := exactly quote
def xqdouble : Pattern UInt8 := exactly (quote ++ quote)
def xqinside : Pattern UInt8 := plus (noneOf quote)

def dquote : List Char := ['"']
def xdstart : Pattern UInt8 := exactly dquote
def xdstop : Pattern UInt8 := exactly dquote
def xddouble : Pattern UInt8 := exactly (dquote ++ dquote)
def xdinside : Pattern UInt8 := plus (noneOf dquote)

def backtick : List Char := ['\x60']
def xbtstart : Pattern UInt8 := exactly backtick
def xbtstop : Pattern UInt8 := exactly backtick
def xbtdouble : Pattern UInt8 := exactly (backtick ++ backtick)
def xbtinside : Pattern UInt8 := plus (noneOf backtick)

def opChar : Pattern UInt8 := one isOpChar
def operator : Pattern UInt8 := plus opChar

def xcstart : Pattern UInt8 := literal (bytes ['/', '*']) (star opChar)
def xcstop : Pattern UInt8 := seq (plus (anyOf ['*'])) (exactly ['/'])
def xcinside : Pattern UInt8 := plus (noneOf ['*', '/'])
def stars : Pattern UInt8 := plus (anyOf ['*'])

/-- A typed block comment with a hash of four digits, which stands for a literal. -/
def hyperObfuscated (name : List Char) : Pattern UInt8 :=
  let hex : Pattern UInt8 := one isUpperHex
  literal (bytes (['/', '*'] ++ name ++ ['(']))
    (seq hex (seq hex (seq hex (seq hex (exactly [')', '*', '/'])))))

def hyperObfuscatedString : Pattern UInt8 := hyperObfuscated ['S', 't', 'r', 'i', 'n', 'g']
def hyperObfuscatedInteger : Pattern UInt8 := hyperObfuscated ['I', 'n', 't', 'e', 'g', 'e', 'r']
def hyperObfuscatedFloat : Pattern UInt8 := hyperObfuscated ['F', 'l', 'o', 'a', 't']
def hyperObfuscatedHexString : Pattern UInt8 :=
  hyperObfuscated ['H', 'e', 'x', 'S', 't', 'r', 'i', 'n', 'g']
def hyperObfuscatedBitString : Pattern UInt8 :=
  hyperObfuscated ['B', 'i', 't', 'S', 't', 'r', 'i', 'n', 'g']

def identifier : Pattern UInt8 := seq (one isIdentStart) (star (one isIdentCont))

def digit : Pattern UInt8 := one isDigit
def integer : Pattern UInt8 := plus digit
def decimal : Pattern UInt8 :=
  alt (seq (star digit) (seq (exactly ['.']) (plus digit)))
    (seq (plus digit) (seq (exactly ['.']) (star digit)))
def decimalfail : Pattern UInt8 := seq (plus digit) (exactly ['.', '.'])
def mantissa : Pattern UInt8 := seq (alt integer decimal) (anyOf ['E', 'e'])
def sign : Pattern UInt8 := anyOf ['-', '+']
def real : Pattern UInt8 := seq mantissa (seq (alt sign empty) (plus digit))
def realfail1 : Pattern UInt8 := mantissa
def realfail2 : Pattern UInt8 := seq mantissa sign

def other : Pattern UInt8 := noneOf ['\n']

/-! ## Rules -/

variable {κ : Type*}

/-- The markers of obfuscated literals. -/
def hyperRules : List (Action κ × Pattern UInt8) :=
  [(.emit .sconst, hyperObfuscatedString), (.emit .iconst, hyperObfuscatedInteger),
    (.emit .fconst, hyperObfuscatedFloat), (.emit .xconst, hyperObfuscatedHexString),
    (.emit .bconst, hyperObfuscatedBitString)]

/-- The starts of literals and quoted identifiers and the symbols of fixed characters. -/
def fixedRules : List (Action κ × Pattern UInt8) :=
  [(.beginExtended .xb, xbstart), (.beginExtended .xh, xhstart), (.beginExtended .xq, xqstart),
    (.beginExtended .xd, xdstart), (.beginExtended .xbt, xbtstart),
    (.emit .typecast, exactly [':', ':']), (.emit .dotDot, exactly ['.', '.']),
    (.emit .dot, exactly ['.']), (.emitFirst .dotTrailing, literal (bytes ['.']) space),
    (.emit .colonEquals, exactly [':', '=']), (.emit .equalsGreater, exactly ['=', '>']),
    (.emit .lessEquals, exactly ['<', '=']), (.emit .greaterEquals, exactly ['>', '=']),
    (.emit .notEquals, exactly ['<', '>']), (.emit .notEquals, exactly ['!', '=']),
    (.emit .comma, exactly [',']), (.emit .lrb, exactly ['(']), (.emit .rrb, exactly [')']),
    (.emit .lsb, exactly ['[']), (.emit .rsb, exactly [']']), (.emit .semicolon, exactly [';']),
    (.emit .colon, exactly [':']), (.emit .plus, exactly ['+']), (.emit .minus, exactly ['-']),
    (.emit .divide, exactly ['/']), (.emit .star, exactly ['*']), (.emit .modulo, exactly ['%']),
    (.emit .circumflex, exactly ['^']), (.emit .lessThan, exactly ['<']),
    (.emit .greaterThan, exactly ['>']), (.emit .equals, exactly ['=']),
    (.emit .questionMark, exactly ['?']), (.emit .dollar, exactly ['$'])]

/-- The rules for numbers and names and the one for everything else. -/
def wordRules : List (Action κ × Pattern UInt8) :=
  [(.readInteger, integer), (.emit .fconst, decimal), (.emitLess 2 .fconst, decimalfail),
    (.emit .fconst, real), (.emitLess 1 .fconst, realfail1), (.emitLess 2 .fconst, realfail2),
    (.readIdentifier, identifier), (.emit .rawChar, other)]

def initialRules : List (Action κ × Pattern UInt8) :=
  [(.skip, plus space), (.addComment, comment)] ++ hyperRules ++ [(.openComment, xcstart)] ++
    fixedRules ++ [(.readOperator, operator)] ++ wordRules

def xcRules : List (Action κ × Pattern UInt8) :=
  [(.nestComment, xcstart), (.closeComment, xcstop), (.skip, xcinside), (.skip, opChar),
    (.skip, stars)]

def xbRules : List (Action κ × Pattern UInt8) :=
  [(.closeLiteral .bconst, quotestop), (.failLiteral .bconst, quotefail), (.skip, xbinside),
    (.skip, quotecontinue)]

def xhRules : List (Action κ × Pattern UInt8) :=
  [(.skip, xhinside), (.skip, quotecontinue), (.closeLiteral .xconst, quotestop),
    (.failLiteral .xconst, quotefail)]

def xqRules : List (Action κ × Pattern UInt8) :=
  [(.closeLiteral .sconst, quotestop), (.failLiteral .sconst, quotefail), (.skip, xqdouble),
    (.skip, xqinside)]

def xdRules : List (Action κ × Pattern UInt8) :=
  [(.skip, xddouble), (.skip, xdinside),
    (.closeIdentifier '"'.toUInt8 "zero-length delimited identifier", xdstop)]

def xbtRules : List (Action κ × Pattern UInt8) :=
  [(.skip, xbtdouble), (.skip, xbtinside),
    (.closeIdentifier '\x60'.toUInt8 "zero-length backtick-quoted identifier", xbtstop)]

def rules : StartCondition → List (Action κ × Pattern UInt8)
  | .initial => initialRules
  | .xb => xbRules
  | .xbt => xbtRules
  | .xc => xcRules
  | .xd => xdRules
  | .xh => xhRules
  | .xq => xqRules

/-- What the end of the text means inside of an extended rule. -/
def unterminatedMessage : StartCondition → Option String
  | .initial => none
  | .xb => some "unterminated bit string literal"
  | .xbt => some "unterminated backtick-quoted identifier"
  | .xc => some "unterminated comment"
  | .xd => some "unterminated delimited identifier"
  | .xh => some "unterminated hexadecimal bit string literal"
  | .xq => some "unterminated quoted string"

end DashQL.Scanner
