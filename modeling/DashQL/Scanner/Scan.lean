import DashQL.Library.Loops
import DashQL.Scanner.Rules

/-!
# Scanning

One call of the action of a rule is one step (`step`): the rule with the longest match at the
position is chosen, the newlines of the match are recorded, and then the action runs, which may give
back a part of the match with `yyless`.  The scanner runs until it returns the symbol for the end of
the text (`scan`).  The symbols stand as the lexer returns them, before `NOT`, `NULLS` and `WITH` are
replaced by what the next symbol makes of them, which keeps their spans.

The compiler's `__builtin_unreachable` behind the cases of `matchSpecialCharacter`, none of which
returns, is an error, as is a position at which no rule matches.
-/

namespace DashQL.Scanner

variable {κ : Type*}

/-- A range of the text. -/
structure SymbolSpan where
  offset : ℕ
  length : ℕ
  deriving DecidableEq

/-- The range from the begin of one range to the end of another. -/
def loc (first last : SymbolSpan) : SymbolSpan :=
  ⟨min first.offset last.offset,
    max (first.offset + first.length) (last.offset + last.length) - min first.offset last.offset⟩

structure Symbol (κ : Type*) where
  kind : SymbolKind κ
  location : SymbolSpan
  deriving DecidableEq

/-- The scanner with its output. -/
structure State (κ : Type*) where
  position : ℕ := 0
  condition : StartCondition := .initial
  extBegin : SymbolSpan := ⟨0, 0⟩
  extDepth : ℕ := 0
  symbols : List (Symbol κ) := []
  errors : List (SymbolSpan × String) := []
  lineBreaks : List SymbolSpan := []
  comments : List SymbolSpan := []
  deriving DecidableEq

namespace State

def push (state : State κ) (kind : SymbolKind κ) (location : SymbolSpan) : State κ :=
  { state with symbols := state.symbols ++ [⟨kind, location⟩] }

def addComment (state : State κ) (location : SymbolSpan) : State κ :=
  { state with comments := state.comments ++ [location] }

def addError (state : State κ) (location : SymbolSpan) (message : String) : State κ :=
  { state with errors := state.errors ++ [(location, message)] }

/-- Move on by the length of what is kept of a match. -/
def consume (state : State κ) (length : ℕ) : State κ :=
  { state with position := state.position + length }

end State

/-! ## Reading symbols -/

def substr (text : List UInt8) (location : SymbolSpan) : List UInt8 :=
  (text.drop location.offset).take location.length

def isNoSpace (b : UInt8) : Bool := !decide (b ∈ bytes [' ', '\n'])

def trimViewRight (s : List UInt8) (keep : UInt8 → Bool) : List UInt8 := s.rdropWhile fun b => !keep b
def trimViewLeft (s : List UInt8) (keep : UInt8 → Bool) : List UInt8 := s.dropWhile fun b => !keep b
def trimView (s : List UInt8) (keep : UInt8 → Bool) : List UInt8 :=
  trimViewLeft (trimViewRight s keep) keep

def tolowerFuzzy (b : UInt8) : UInt8 :=
  if 'A'.toUInt8 ≤ b ∧ b ≤ 'Z'.toUInt8 then b + 32 else b

/-- `std::from_chars` finds no number: there is no digit behind an optional minus. -/
def noNumber (s : List UInt8) : Bool :=
  match s with
  | [] => true
  | b :: s => if b = '-'.toUInt8 then !s.head?.any isDigit else !isDigit b

def readInteger (text : List UInt8) (location : SymbolSpan) : SymbolKind κ :=
  if noNumber (substr text location) then .fconst else .iconst

def readIdentifier (findKeyword : List UInt8 → Option κ) (text : List UInt8)
    (location : SymbolSpan) : SymbolKind κ :=
  let lower := (substr text location).map tolowerFuzzy
  match findKeyword lower with
  | some token => .keyword token
  | none => .ident lower

/-- `ReadDoubleQuotedIdentifier` and `ReadBacktickQuotedIdentifier`. -/
def readQuotedIdentifier (quote : UInt8) (text : List UInt8) (location : SymbolSpan) :
    SymbolKind κ :=
  .ident (trimView (trimViewRight (substr text location) isNoSpace) fun b => !decide (b = quote))

/-- `ReadStringLiteral`, `ReadHexStringLiteral` and `ReadBitStringLiteral`: the location without the
spaces at its end. -/
def readLiteral (text : List UInt8) (location : SymbolSpan) : SymbolSpan :=
  ⟨location.offset, (trimViewRight (substr text location) isNoSpace).length⟩

/-! ## Operators -/

/-- Where a word starts for the first time in a text. -/
def strstr (s word : List UInt8) : Option ℕ :=
  (List.range s.length).find? fun i => decide (word <+: s.drop i)

/-- Where the first comment starts in an operator. -/
def commentStart (yytext : List UInt8) : Option ℕ :=
  match strstr yytext (bytes ['/', '*']), strstr yytext (bytes ['-', '-']) with
  | some slashstar, some dashdash => some (min slashstar dashdash)
  | some slashstar, none => some slashstar
  | none, dashdash => dashdash

/-- Take the signs off the end of an operator, unless it has a character that is not in SQL
operators. -/
def stripSigns (yytext : List UInt8) : ℕ → ℕ
  | nchars + 2 =>
    if (yytext[nchars + 1]?).any (fun b => decide (b ∈ bytes ['+', '-'])) then
      if (yytext.take (nchars + 1)).any
          (fun b => decide (b ∈ bytes ['~', '!', '@', '#', '^', '&', '|', '?', '%'])) then nchars + 2
      else stripSigns yytext (nchars + 1)
    else nchars + 2
  | nchars => nchars

def questionOperators : List (List UInt8) :=
  [bytes ['?', '|'], bytes ['?', '&'], bytes ['?', '#'], bytes ['?', '-'], bytes ['?', '-', '|'],
    bytes ['?', '|', '|']]

/-- The number of characters that the operator rule decides to keep. -/
def nchars (yytext : List UInt8) : ℕ :=
  let stripped := stripSigns yytext ((commentStart yytext).getD yytext.length)
  if yytext.head? = some '?'.toUInt8 ∧ yytext ∉ questionOperators then 1
  else if yytext.head? ≠ some '?'.toUInt8 ∧ '?'.toUInt8 ∈ yytext then yytext.idxOf '?'.toUInt8
  else stripped

def specialCharacters : List UInt8 :=
  bytes [',', '(', ')', '[', ']', '.', ';', ':', '+', '-', '*', '/', '%', '^', '<', '>', '=', '?']

/-- No case returns what it makes; the last one is unreachable. -/
def matchSpecialCharacter (_ : UInt8) : Except String (SymbolKind κ) := .error "unreachable"

/-- The symbol that two characters have of their own. -/
def comparison (yytext : List UInt8) : Option (SymbolKind κ) :=
  let two := yytext.take 2
  if two = bytes ['=', '>'] then some .equalsGreater
  else if two = bytes ['>', '='] then some .greaterEquals
  else if two = bytes ['<', '='] then some .lessEquals
  else if two = bytes ['<', '>'] then some .notEquals
  else if two = bytes ['!', '='] then some .notEquals
  else none

def operatorTooLong : String :=
  "operator too long: operators longer than 64 bytes are not supported"

/-- The symbol for an operator of which `kept` characters are left. -/
def pushOp (state : State κ) (nchars kept : ℕ) : State κ :=
  let location : SymbolSpan := ⟨state.position, kept⟩
  let checked := if 64 ≤ nchars then state.addError location operatorTooLong else state
  (checked.push .op location).consume kept

/-- The action of the operator rule.  What is left of the match is `yyleng - nchars` long. -/
def operatorAction (state : State κ) (yytext : List UInt8) : Except String (State κ) :=
  let count := nchars yytext
  if count < yytext.length then
    let kept := yytext.length - count
    let left := yytext.take kept
    if count = 1 ∧ left.head?.any (fun b => decide (b ∈ specialCharacters)) then
      (matchSpecialCharacter (left.headD 0)).map fun kind =>
        (state.push kind ⟨state.position, kept⟩).consume kept
    else
      match (if count = 2 then comparison left else none) with
      | some kind => .ok ((state.push kind ⟨state.position, kept⟩).consume kept)
      | none => .ok (pushOp state count kept)
  else .ok (pushOp state count yytext.length)

/-! ## Steps -/

/-- The newlines of a match, which are recorded before its action runs. -/
def newlinesOf (offset : ℕ) (yytext : List UInt8) : List SymbolSpan :=
  (yytext.zipIdx offset).filterMap fun entry =>
    if entry.1 = '\n'.toUInt8 then some ⟨entry.2, 1⟩ else none

def State.addLineBreaks (state : State κ) (yytext : List UInt8) : State κ :=
  { state with lineBreaks := state.lineBreaks ++ newlinesOf state.position yytext }

def act (findKeyword : List UInt8 → Option κ) (text : List UInt8) (action : Action κ)
    (yytext : List UInt8) (state : State κ) : Except String (State κ) :=
  let yyleng := yytext.length
  let location : SymbolSpan := ⟨state.position, yyleng⟩
  match action with
  | .skip => .ok (state.consume yyleng)
  | .addComment => .ok ((state.addComment location).consume yyleng)
  | .emit kind => .ok ((state.push kind location).consume yyleng)
  | .emitFirst kind => .ok ((state.push kind ⟨state.position, 1⟩).consume yyleng)
  | .emitLess count kind =>
    .ok ((state.push kind ⟨state.position, yyleng - count⟩).consume (yyleng - count))
  | .beginExtended condition =>
    .ok { state.consume yyleng with extBegin := location, condition := condition }
  | .openComment =>
    .ok { state.consume yyleng with
      extBegin := location, extDepth := state.extDepth + 1, condition := .xc }
  | .nestComment =>
    .ok { state.consume yyleng with extBegin := location, extDepth := state.extDepth + 1 }
  | .closeComment =>
    let closed := { state.consume yyleng with extDepth := state.extDepth - 1 }
    if state.extDepth - 1 = 0 then
      .ok { closed.addComment (loc state.extBegin location) with condition := .initial }
    else .ok closed
  | .closeLiteral kind =>
    .ok { (state.push kind (readLiteral text (loc state.extBegin location))).consume yyleng with
      condition := .initial }
  | .failLiteral kind =>
    .ok { (state.push kind (readLiteral text (loc state.extBegin ⟨state.position, 1⟩))).consume 1
      with condition := .initial }
  | .closeIdentifier quote emptyMessage =>
    let whole := loc state.extBegin location
    let checked := if whole.length = 2 then state.addError whole emptyMessage else state
    .ok { (checked.push (readQuotedIdentifier quote text whole) whole).consume yyleng with
      condition := .initial }
  | .readOperator => operatorAction state yytext
  | .readInteger => .ok ((state.push (readInteger text location) location).consume yyleng)
  | .readIdentifier =>
    .ok ((state.push (readIdentifier findKeyword text location) location).consume yyleng)

/-- The end of the text: an extended rule is given up, then the last symbol is returned. -/
def endOfText (state : State κ) : State κ :=
  let location : SymbolSpan := ⟨state.position, 1⟩
  match unterminatedMessage state.condition with
  | some message =>
    { state.addError (loc state.extBegin location) message with condition := .initial }
  | none => state.push .eof location

def step (findKeyword : List UInt8 → Option κ) (text : List UInt8) (state : State κ) :
    Except String (State κ) :=
  let rest := text.drop state.position
  if rest = [] then .ok (endOfText state)
  else
    match selectRule (rules state.condition) rest with
    | none => .error "flex scanner jammed"
    | some (action, yyleng) =>
      let yytext := rest.take yyleng
      act findKeyword text action yytext (state.addLineBreaks yytext)

/-! ## Runs -/

def SymbolKind.isEof : SymbolKind κ → Bool
  | .eof => true
  | _ => false

/-- The symbol for the end has not been returned. -/
def isScanning (state : State κ) : Bool :=
  !(state.symbols.getLast?.any fun symbol => symbol.kind.isEof)

def scan (findKeyword : List UInt8 → Option κ) (text : List UInt8) :
    Option (Except String (State κ)) :=
  whileLoop isScanning (step findKeyword text) (text.length + 3) {}

/-- The scanner comes from one state to another. -/
def Reaches (findKeyword : List UInt8 → Option κ) (text : List UInt8) : State κ → State κ → Prop :=
  Relation.ReflTransGen fun state next =>
    isScanning state = true ∧ step findKeyword text state = .ok next

end DashQL.Scanner
