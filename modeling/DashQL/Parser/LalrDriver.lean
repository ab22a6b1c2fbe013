import DashQL.Library.Machines
import Mathlib.Data.Int.Notation
import Mathlib.Order.Monotone.Defs
import Mathlib.Order.Nat

/-!
# The LALR driver

`DriveLALR` is the loop of a bison parser without the actions of the grammar: a stack of
states, a lookahead symbol, the tables, and lookahead correction.  A policy watches the
loop and may change what it reads, or stop it.

The tables and the lookahead correction are parameters.  What is relied on is that
lookahead correction is an exploratory parse: it accepts a symbol that the automaton
will shift (`Tables.Corrects`).
-/

namespace DashQL.Parser

/-! ## Tables -/

/-- `symbol_kind_type`.  The first kinds are the same for every grammar. -/
abbrev SymbolKind := ℕ

def yyeof : SymbolKind := 0

def yyerror : SymbolKind := 1

def yyundef : SymbolKind := 2

abbrev State := ℕ

/-- The tables of a grammar, under their names, and `yy_lac_check_` on a stack of states. -/
structure Tables where
  yyntokens : ℕ
  yyfinal : State
  yylast : ℤ
  yypact : State → ℤ
  yypactValueIsDefault : ℤ → Bool
  yytable : ℤ → ℤ
  yytableValueIsError : ℤ → Bool
  yycheck : ℤ → ℤ
  yydefact : State → ℕ
  yyr1 : ℕ → ℕ
  yyr2 : ℕ → ℕ
  yyLrGotoState : State → ℕ → State
  yyLacCheck : List State → SymbolKind → Bool

namespace Tables

variable (tables : Tables)

def index (state : State) (kind : SymbolKind) : ℤ := tables.yypact state + kind

/-- The table has no entry for the lookahead. -/
def lacks (state : State) (kind : SymbolKind) : Bool :=
  tables.index state kind < 0 || tables.yylast < tables.index state kind ||
    tables.yycheck (tables.index state kind) ≠ kind

/-- `yyreduce`, on the stack with its top first. -/
def reduce (rule : ℕ) (stack : List State) : List State :=
  let below := stack.drop (tables.yyr2 rule)
  tables.yyLrGotoState (below.headD 0) (tables.yyr1 rule) :: below

/-- The stack with the error token shifted: states are popped until one shifts it.  The last state
is not popped. -/
def shiftError : List State → Option (List State)
  | [] => none
  | state :: below =>
    let entry := tables.yytable (tables.index state yyerror)
    if ¬ tables.yypactValueIsDefault (tables.yypact state) ∧ 0 ≤ tables.index state yyerror ∧
        tables.index state yyerror ≤ tables.yylast ∧
        tables.yycheck (tables.index state yyerror) = yyerror ∧ 0 < entry then
      some (entry.toNat :: state :: below)
    else if below = [] then none
    else shiftError below

/-- The exploratory parse of lookahead correction: the automaton reduces until it shifts the
symbol. -/
inductive Shifts (kind : SymbolKind) : List State → Prop
  | shift {stack : List State}
      (hpact : tables.yypactValueIsDefault (tables.yypact (stack.headD 0)) = false)
      (hentry : tables.lacks (stack.headD 0) kind = false)
      (herror : tables.yytableValueIsError
        (tables.yytable (tables.index (stack.headD 0) kind)) = false)
      (hshift : 0 < tables.yytable (tables.index (stack.headD 0) kind)) :
      Shifts kind stack
  | reduce {stack : List State}
      (hpact : tables.yypactValueIsDefault (tables.yypact (stack.headD 0)) = false)
      (hentry : tables.lacks (stack.headD 0) kind = false)
      (herror : tables.yytableValueIsError
        (tables.yytable (tables.index (stack.headD 0) kind)) = false)
      (hreduce : tables.yytable (tables.index (stack.headD 0) kind) ≤ 0)
      (hrest : Shifts kind
        (tables.reduce (-tables.yytable (tables.index (stack.headD 0) kind)).toNat stack)) :
      Shifts kind stack
  | default {stack : List State}
      (hdefault : tables.yypactValueIsDefault (tables.yypact (stack.headD 0)) = true ∨
        tables.lacks (stack.headD 0) kind = true)
      (hrule : tables.yydefact (stack.headD 0) ≠ 0)
      (hrest : Shifts kind (tables.reduce (tables.yydefact (stack.headD 0)) stack)) :
      Shifts kind stack

/-- Lookahead correction accepts no symbol that leads to an error. -/
def Corrects : Prop := ∀ stack kind, tables.yyLacCheck stack kind = true → tables.Shifts kind stack

end Tables

/-! ## The parser -/

/-- The variables of `DriveLALR`, with the position of the scanner. -/
structure ParserState where
  yystack : List State
  yyla : Option SymbolKind := none
  yyerrstatus : ℕ := 0
  yyLacEstablished : Bool := false
  position : ℕ := 0

/-- Where the driver jumps to from `yynewstate`. -/
inductive Jump
  | yyacceptlab
  | read
  | yyreduce (rule : ℕ) (established : Bool)
  | shift (state : State)
  | yyerrlab (established : Bool)
  | yyerrlab1

section Driver

variable (tables : Tables)

def yydefault (state : State) (established : Bool) : Jump :=
  if tables.yydefact state = 0 then .yyerrlab established
  else .yyreduce (tables.yydefact state) established

/-- `yy_lac_establish_`, and where to jump to if it succeeds. -/
def yyLacEstablish (stack : List State) (kind : SymbolKind) (established : Bool) (next : Jump) :
    Jump :=
  if established || tables.yyLacCheck stack kind then next else .yyerrlab true

/-- `yybackup` with a lookahead. -/
def yybackup (stack : List State) (kind : SymbolKind) (established : Bool) : Jump :=
  let state := stack.headD 0
  if kind = yyerror then .yyerrlab1
  else if tables.lacks state kind then
    yyLacEstablish tables stack kind established (yydefault tables state true)
  else
    let entry := tables.yytable (tables.index state kind)
    if entry ≤ 0 then
      if tables.yytableValueIsError entry then .yyerrlab established
      else yyLacEstablish tables stack kind established (.yyreduce (-entry).toNat true)
    else .shift entry.toNat

def yynewstate (parser : ParserState) : Jump :=
  let state := parser.yystack.headD 0
  if state = tables.yyfinal then .yyacceptlab
  else if tables.yypactValueIsDefault (tables.yypact state) then
    yydefault tables state parser.yyLacEstablished
  else
    match parser.yyla with
    | none => .read
    | some kind => yybackup tables parser.yystack kind parser.yyLacEstablished

/-- `yyerrlab1`, or an abort. -/
def yyerrlab1 (parser : ParserState) : Option ParserState :=
  (tables.shiftError parser.yystack).map fun yystack =>
    { parser with yystack, yyerrstatus := 3, yyLacEstablished := false }

/-- `yyerrlab` behind the hook of the policy, or an abort. -/
def yyerrlab (parser : ParserState) : Option ParserState :=
  if parser.yyerrstatus = 3 then
    if parser.yyla = some yyeof then none
    else yyerrlab1 tables { parser with yyla := none }
  else yyerrlab1 tables parser

end Driver

/-! ## Tokens and policies -/

structure TokenStream where
  kinds : List SymbolKind
  chunk : ℕ → ℕ
  chunks : Monotone chunk

namespace TokenStream

def nextSymbol (kinds : List SymbolKind) (position : ℕ) : SymbolKind × ℕ :=
  match kinds[position]? with
  | some kind => (kind, position + 1)
  | none => (yyeof, position)

/-- The comparison of an iterator with the id of an entry. -/
def atLeast (stream : TokenStream) (position target : ℕ) : Bool :=
  stream.chunk position > stream.chunk target || position = target

end TokenStream

/-- What `OnLookaheadRead` leaves: the symbol, the position of the scanner, and the policy. -/
structure Read (σ : Type) where
  next : SymbolKind
  position : ℕ
  policy : σ
  stop : Bool := false

/-- The hooks of a policy with variables `σ`.  `onLookaheadRead` gets the stack, the symbol that
was read, the positions in front of it and behind it, and the variables. -/
structure Policy (σ : Type) where
  onLookaheadRead : List State → SymbolKind → ℕ → ℕ → σ → Read σ
  onShifted : SymbolKind → σ → σ
  onAccept : σ → σ
  shortCircuitOnError : σ → Bool × σ

variable {σ : Type}

/-- The driver goes on, or aborts. -/
def proceed (parser : Option ParserState) (policy : σ) : ParserState × σ ⊕ σ :=
  match parser with
  | some parser => .inl (parser, policy)
  | none => .inr policy

/-- A round of `DriveLALR`, from `yynewstate` to the next one.  A lookahead that is read is decided
on in the next round. -/
def driveStep (tables : Tables) (kinds : List SymbolKind) (hooks : Policy σ)
    (config : ParserState × σ) : ParserState × σ ⊕ σ :=
  let parser := config.1
  match yynewstate tables parser with
  | .yyacceptlab => .inr (hooks.onAccept config.2)
  | .read =>
    let symbol := TokenStream.nextSymbol kinds parser.position
    let read := hooks.onLookaheadRead parser.yystack symbol.1 parser.position symbol.2 config.2
    if read.stop then .inr read.policy
    else .inl ({ parser with yyla := some read.next, position := read.position }, read.policy)
  | .yyreduce rule established =>
    .inl ({ parser with
      yystack := tables.reduce rule parser.yystack, yyLacEstablished := established }, config.2)
  | .shift state =>
    .inl ({ parser with
      yystack := state :: parser.yystack
      yyla := none
      yyerrstatus := parser.yyerrstatus - 1
      yyLacEstablished := false }, hooks.onShifted (parser.yyla.getD yyeof) config.2)
  | .yyerrlab established =>
    let circuit := hooks.shortCircuitOnError config.2
    if circuit.1 then .inr circuit.2
    else proceed (yyerrlab tables { parser with yyLacEstablished := established }) circuit.2
  | .yyerrlab1 => proceed (yyerrlab1 tables { parser with yyla := some yyundef }) config.2

section Rounds

variable {tables : Tables} {kinds : List SymbolKind} {hooks : Policy σ} {parser : ParserState}
  {policy : σ}

theorem driveStep_accept (h : yynewstate tables parser = .yyacceptlab) :
    driveStep tables kinds hooks (parser, policy) = .inr (hooks.onAccept policy) := by
  simp only [driveStep, h]

theorem driveStep_read (h : yynewstate tables parser = .read) {read : Read σ}
    (hread : hooks.onLookaheadRead parser.yystack
      (TokenStream.nextSymbol kinds parser.position).1 parser.position
      (TokenStream.nextSymbol kinds parser.position).2 policy = read) :
    driveStep tables kinds hooks (parser, policy) =
      if read.stop then .inr read.policy
      else .inl ({ parser with yyla := some read.next, position := read.position }, read.policy) := by
  simp only [driveStep, h, hread]

theorem driveStep_reduce {rule : ℕ} {established : Bool}
    (h : yynewstate tables parser = .yyreduce rule established) :
    driveStep tables kinds hooks (parser, policy) =
      .inl ({ parser with
        yystack := tables.reduce rule parser.yystack, yyLacEstablished := established }, policy) := by
  simp only [driveStep, h]

theorem driveStep_shift {state : State} {kind : SymbolKind}
    (h : yynewstate tables parser = .shift state) (hla : parser.yyla = some kind) :
    driveStep tables kinds hooks (parser, policy) =
      .inl ({ parser with
        yystack := state :: parser.yystack
        yyla := none
        yyerrstatus := parser.yyerrstatus - 1
        yyLacEstablished := false }, hooks.onShifted kind policy) := by
  simp only [driveStep, h, hla, Option.getD_some]

theorem driveStep_error {established : Bool}
    (h : yynewstate tables parser = .yyerrlab established) {circuit : Bool × σ}
    (hcircuit : hooks.shortCircuitOnError policy = circuit) :
    driveStep tables kinds hooks (parser, policy) =
      if circuit.1 then .inr circuit.2
      else proceed (yyerrlab tables { parser with yyLacEstablished := established }) circuit.2 := by
  simp only [driveStep, h, hcircuit]

theorem driveStep_error_token (h : yynewstate tables parser = .yyerrlab1) :
    driveStep tables kinds hooks (parser, policy) =
      proceed (yyerrlab1 tables { parser with yyla := some yyundef }) policy := by
  simp only [driveStep, h]

end Rounds

/-- `DriveLALR`, for so many rounds; the result is in the variables of the policy. -/
def driveLALR (tables : Tables) (kinds : List SymbolKind) (hooks : Policy σ) (fuel : ℕ)
    (parser : ParserState) (policy : σ) : Option σ :=
  (Machines.run (driveStep tables kinds hooks) fuel (parser, policy)).getRight?

def initStack : ParserState := { yystack := [0] }

end DashQL.Parser
