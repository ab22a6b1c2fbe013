import DashQL.Library.Arenas
import DashQL.Library.Loops

/-!
# Formatting programs

A formatting program is an arena of layout operations.  An operation is made of registers of
operations that were pushed before it; register 0 is the empty operation, and a separator that
is 0 is no separator.

A program is rendered with an explicit stack of commands.  Where a join or a parenthesis may
stand on one line, a dry run over a stack of its own says whether what is left of the line
suffices.  Stacks have their top in front.
-/

namespace DashQL.Formatter

open List

abbrev Text := List UInt8

inductive FormattingMode
  | inline | compact | pretty
  deriving DecidableEq

inductive FormattingOpCode
  | empty | text | lineBreak | concat | join | indent | parenthesis
  deriving DecidableEq

inductive FormattingJoinPolicy
  | breakAllOrNone | breakOnOverflow | forceBreak
  deriving DecidableEq

structure FormattingOperation where
  code : FormattingOpCode := .empty
  text : Text := []
  children : List ℕ := []
  inlineSeparator : ℕ := 0
  breakSeparator : ℕ := 0
  indentAfterBreaks : Bool := false
  joinPolicy : FormattingJoinPolicy := .breakAllOrNone
  deriving DecidableEq

/-- The register of a separator, when there is one. -/
def separator (reg : ℕ) : List ℕ := if reg ≠ 0 then [reg] else []

def FormattingOperation.registers (op : FormattingOperation) : List ℕ :=
  op.children ++ separator op.inlineSeparator ++ separator op.breakSeparator

structure FormattingProgram where
  mode : FormattingMode := .compact
  program : List FormattingOperation
  ordered : Arena.Ordered FormattingOperation.registers program

structure FormattingRenderOptions where
  maxWidth : ℕ := 120
  indentationWidth : ℕ := 2
  debugMode : Bool := false
  mode : FormattingMode := .compact

namespace FormattingProgram

def reset (mode : FormattingMode) : FormattingProgram where
  mode := mode
  program := [{}]
  ordered i op h r hr := by
    cases i with
    | zero =>
      obtain rfl := Option.some.inj h
      exact absurd hr not_mem_nil
    | succ i => simp at h

section Build

variable (p : FormattingProgram)

/-- `Push`, for an operation made of registers of the program. -/
def push (op : FormattingOperation) (h : ∀ r ∈ op.registers, r < p.program.length) :
    FormattingProgram × ℕ where
  fst :=
    { mode := p.mode
      program := p.program ++ [op]
      ordered := by
        intro i other hother r hr
        have hi := (List.getElem?_eq_some_iff.mp hother).1
        rw [length_append, length_singleton] at hi
        rcases Nat.lt_succ_iff_lt_or_eq.mp hi with hlt | rfl
        · rw [getElem?_append_left hlt] at hother
          exact p.ordered i other hother r hr
        · rw [getElem?_concat_length, Option.some_inj] at hother
          exact h r (hother ▸ hr) }
  snd := p.program.length

def text (text : Text) : FormattingProgram × ℕ :=
  p.push { code := .text, text := text } fun _ hr => absurd hr not_mem_nil

def lineBreak : FormattingProgram × ℕ :=
  p.push { code := .lineBreak } fun _ hr => absurd hr not_mem_nil

def concat (parts : List (Fin p.program.length)) : FormattingProgram × ℕ :=
  match h : (parts.map Fin.val).filter (· ≠ 0) with
  | [] => (p, 0)
  | [part] => (p, part)
  | part :: rest =>
    p.push { code := .concat, children := part :: rest } <| by
      intro r hr
      have hmem : r ∈ part :: rest := by
        simpa [FormattingOperation.registers, separator] using hr
      rw [← h] at hmem
      obtain ⟨fin, -, rfl⟩ := mem_map.mp (mem_of_mem_filter hmem)
      exact fin.isLt

def indented (child : Fin p.program.length) : FormattingProgram × ℕ :=
  if child.val = 0 then (p, 0)
  else p.push { code := .indent, children := [child.val] } <| by
    intro r hr
    obtain rfl : r = child.val := by
      simpa [FormattingOperation.registers, separator] using hr
    exact child.isLt

def parenthesized (child : Fin p.program.length) : FormattingProgram × ℕ :=
  if child.val = 0 then (p, 0)
  else p.push { code := .parenthesis, children := [child.val] } <| by
    intro r hr
    obtain rfl : r = child.val := by
      simpa [FormattingOperation.registers, separator] using hr
    exact child.isLt

def join (items : List (Fin p.program.length))
    (inlineSeparator breakSeparator : Fin p.program.length)
    (joinPolicy : Option FormattingJoinPolicy := none) (indentAfterBreaks : Bool := false) :
    FormattingProgram × ℕ :=
  match h : (items.map Fin.val).filter (· ≠ 0) with
  | [] => (p, 0)
  | [item] => (p, item)
  | item :: rest =>
    p.push
      { code := .join
        children := item :: rest
        inlineSeparator := inlineSeparator.val
        breakSeparator := breakSeparator.val
        indentAfterBreaks := indentAfterBreaks
        joinPolicy := joinPolicy.getD
          (if p.mode = .pretty then .breakAllOrNone else .breakOnOverflow) } <| by
      intro r hr
      simp only [FormattingOperation.registers, separator, mem_append] at hr
      rcases hr with (hr | hr) | hr
      · rw [← h] at hr
        obtain ⟨fin, -, rfl⟩ := mem_map.mp (mem_of_mem_filter hr)
        exact fin.isLt
      · split_ifs at hr
        · rw [mem_singleton.mp hr]
          exact inlineSeparator.isLt
        · exact absurd hr not_mem_nil
      · split_ifs at hr
        · rw [mem_singleton.mp hr]
          exact breakSeparator.isLt
        · exact absurd hr not_mem_nil

end Build

def operation (p : FormattingProgram) (reg : ℕ) : FormattingOperation :=
  p.program.getD reg {}

theorem value_operation {β : Type} {eval : FormattingOperation → (ℕ → β) → β} {default : β}
    (p : FormattingProgram)
    (hlocal : ∀ op (f g : ℕ → β), (∀ r ∈ op.registers, f r = g r) → eval op f = eval op g)
    (hempty : ∀ f, eval {} f = default) (reg : ℕ) :
    Arena.value eval default p.program reg =
      eval (p.operation reg) (Arena.value eval default p.program) := by
  cases h : p.program[reg]? with
  | none =>
    have hop : p.operation reg = {} := by
      rw [operation, getD_eq_getElem?_getD, h, Option.getD_none]
    have hlength : (Arena.values eval default p.program).length ≤ reg := by
      rw [Arena.length_values]
      exact List.getElem?_eq_none_iff.mp h
    rw [hop, hempty, Arena.value, getD_eq_default _ _ hlength]
  | some op =>
    have hop : p.operation reg = op := by
      rw [operation, getD_eq_getElem?_getD, h, Option.getD_some]
    rw [hop]
    exact Arena.value_eq p.ordered hlocal h

end FormattingProgram

/-! ## Rendering -/

/-- Children with a separator between them, in the order in which they are rendered. -/
def joinSequence (children : List ℕ) (sep : ℕ) : List ℕ :=
  match children with
  | [] => []
  | first :: rest => first :: rest.flatMap fun child => separator sep ++ [child]

structure InlineRenderCommand where
  doc : ℕ
  indentation : ℕ

/-- Commands for registers on top of a stack of the dry run. -/
def pushInline (regs : List ℕ) (indentation : ℕ) (stack : List InlineRenderCommand) :
    List InlineRenderCommand :=
  (regs.map fun reg => ⟨reg, indentation⟩) ++ stack

/-- What an operation costs a dry run, by the costs of its registers. -/
def evalCost (op : FormattingOperation) (cost : ℕ → ℕ) : ℕ :=
  1 + (op.children.map fun child => cost child + 1).sum +
    op.children.length * ((separator op.inlineSeparator).map fun sep => cost sep + 1).sum

section DryRun

variable (p : FormattingProgram) (options : FormattingRenderOptions)

/-- What a register costs a dry run. -/
def cost (reg : ℕ) : ℕ := Arena.value evalCost 0 p.program reg

def stackCost (stack : List InlineRenderCommand) : ℕ :=
  (stack.map fun command => cost p command.doc + 1).sum

variable {p}

theorem evalCost_congr (op : FormattingOperation) (f g : ℕ → ℕ)
    (h : ∀ r ∈ op.registers, f r = g r) : evalCost op f = evalCost op g := by
  have hchildren : (op.children.map fun child => f child + 1) =
      op.children.map fun child => g child + 1 := by
    apply map_congr_left
    intro child hchild
    rw [h child (mem_append_left _ (mem_append_left _ hchild))]
  have hseparator : ((separator op.inlineSeparator).map fun sep => f sep + 1) =
      (separator op.inlineSeparator).map fun sep => g sep + 1 := by
    apply map_congr_left
    intro sep hsep
    rw [h sep (mem_append_left _ (mem_append_right _ hsep))]
  rw [evalCost, evalCost, hchildren, hseparator]

/-- An operation costs more than its registers do. -/
theorem cost_operation (reg : ℕ) : evalCost (p.operation reg) (cost p) ≤ cost p reg + 1 := by
  cases h : p.program[reg]? with
  | none =>
    have hop : p.operation reg = {} := by
      rw [FormattingProgram.operation, getD_eq_getElem?_getD, h, Option.getD_none]
    rw [hop]
    exact Nat.le_add_left 1 _
  | some op =>
    have hop : p.operation reg = op := by
      rw [FormattingProgram.operation, getD_eq_getElem?_getD, h, Option.getD_some]
    rw [hop, cost, Arena.value_eq p.ordered evalCost_congr h]
    exact Nat.le_succ _

theorem stackCost_pushInline (regs : List ℕ) (indentation : ℕ) (stack : List InlineRenderCommand) :
    stackCost p (pushInline regs indentation stack) =
      (regs.map fun reg => cost p reg + 1).sum + stackCost p stack := by
  rw [stackCost, pushInline, map_append, sum_append, map_map]
  rfl

theorem sum_joinSequence (f : ℕ → ℕ) (children : List ℕ) (sep : ℕ) :
    ((joinSequence children sep).map f).sum ≤
      (children.map f).sum + children.length * ((separator sep).map f).sum := by
  have hrest : ∀ rest : List ℕ, ((rest.flatMap fun child => separator sep ++ [child]).map f).sum =
      (rest.map f).sum + rest.length * ((separator sep).map f).sum := by
    intro rest
    induction rest with
    | nil => simp
    | cons child rest ih =>
      rw [flatMap_cons, map_append, sum_append, ih, map_append,
        sum_append, map_singleton, sum_singleton, map_cons, sum_cons,
        length_cons, Nat.succ_mul]
      omega
  cases children with
  | nil => exact Nat.zero_le _
  | cons first rest =>
    rw [joinSequence, map_cons, sum_cons, hrest, map_cons, sum_cons, length_cons, Nat.succ_mul]
    omega

theorem stackCost_lt {regs : List ℕ} {command : InlineRenderCommand} (indentation : ℕ)
    (stack : List InlineRenderCommand)
    (h : (regs.map fun reg => cost p reg + 1).sum < evalCost (p.operation command.doc) (cost p)) :
    stackCost p (pushInline regs indentation stack) < stackCost p (command :: stack) := by
  have hcost := cost_operation (p := p) command.doc
  rw [stackCost_pushInline, stackCost, stackCost, map_cons, sum_cons]
  omega

theorem stackCost_pop (command : InlineRenderCommand) (stack : List InlineRenderCommand) :
    stackCost p stack < stackCost p (command :: stack) := by
  rw [stackCost, stackCost, map_cons, sum_cons]
  omega

theorem evalCost_children (op : FormattingOperation) (f : ℕ → ℕ) :
    (op.children.map fun reg => f reg + 1).sum < evalCost op f := by
  rw [evalCost]
  omega

theorem evalCost_joinSequence (op : FormattingOperation) (f : ℕ → ℕ) :
    ((joinSequence op.children op.inlineSeparator).map fun reg => f reg + 1).sum <
      evalCost op f := by
  have hsum := sum_joinSequence (fun reg => f reg + 1) op.children op.inlineSeparator
  rw [evalCost]
  omega

theorem evalCost_take (op : FormattingOperation) (f : ℕ → ℕ) :
    ((op.children.take 1).map fun reg => f reg + 1).sum < evalCost op f := by
  cases h : op.children with
  | nil => simp [evalCost]
  | cons child rest =>
    have hall := evalCost_children op f
    rw [h, map_cons, sum_cons] at hall
    rw [take_succ_cons, take_zero, map_singleton, sum_singleton]
    omega

variable (p)

/-- `DryRunInline`: whether the commands fit into what remains of a line. -/
def dryRunInline (remaining : ℤ) (stack : List InlineRenderCommand) : Bool :=
  match stack with
  | [] => 0 ≤ remaining
  | command :: stack =>
    if remaining < 0 then false
    else
      let doc := p.operation command.doc
      match doc.code with
      | .empty => dryRunInline remaining stack
      | .text => dryRunInline (remaining - doc.text.length) stack
      | .lineBreak => false
      | .concat =>
        dryRunInline remaining (pushInline doc.children command.indentation stack)
      | .join =>
        if doc.joinPolicy = .forceBreak ∧ 1 < doc.children.length then false
        else
          dryRunInline remaining
            (pushInline (joinSequence doc.children doc.inlineSeparator) command.indentation stack)
      | .indent =>
        dryRunInline remaining
          (pushInline (doc.children.take 1) (command.indentation + options.indentationWidth) stack)
      | .parenthesis =>
        dryRunInline (remaining - 2) (pushInline (doc.children.take 1) command.indentation stack)
termination_by stackCost p stack
decreasing_by
  · exact stackCost_pop command stack
  · exact stackCost_pop command stack
  · exact stackCost_lt _ stack (evalCost_children _ _)
  · exact stackCost_lt _ stack (evalCost_joinSequence _ _)
  · exact stackCost_lt _ stack (evalCost_take _ _)
  · exact stackCost_lt _ stack (evalCost_take _ _)

def joinFitsInline (remaining : ℤ) (doc : FormattingOperation) (indentation : ℕ) : Bool :=
  dryRunInline p options remaining
    (pushInline (joinSequence doc.children doc.inlineSeparator) indentation [])

def canInlineJoinStep (remaining : ℤ) (doc : FormattingOperation) (nextIndex indentation : ℕ) :
    Bool :=
  match doc.children[nextIndex]? with
  | none => true
  | some child =>
    dryRunInline p options remaining
      (pushInline (separator doc.inlineSeparator ++ [child]) indentation [])

def parenthesisFitsInline (remaining : ℤ) (doc : FormattingOperation) (indentation : ℕ) : Bool :=
  if remaining < 2 then false
  else dryRunInline p options (remaining - 2) (pushInline (doc.children.take 1) indentation [])

end DryRun

def remainingInlineWidth (maxWidth currentLineWidth : ℕ) : ℤ :=
  (maxWidth : ℤ) - (currentLineWidth : ℤ) - 2

inductive RenderCommand
  | format (reg indentation : ℕ)
  | joinNextBreakOnOverflow (reg indentation nextIndex : ℕ)
  | closeParenthesis (indentation : ℕ)
  | closeParenthesisAfterBreak (indentation : ℕ)

structure RenderState where
  stack : List RenderCommand
  output : Text := []
  currentLineWidth : ℕ := 0

def formatAll (regs : List ℕ) (indentation : ℕ) : List RenderCommand :=
  regs.map fun reg => .format reg indentation

/-- A text is put out on the current line. -/
def RenderState.write (state : RenderState) (text : Text) : RenderState :=
  { state with
    output := state.output ++ text
    currentLineWidth := state.currentLineWidth + text.length }

def RenderState.push (state : RenderState) (commands : List RenderCommand) : RenderState :=
  { state with stack := commands ++ state.stack }

section Render

variable (p : FormattingProgram) (options : FormattingRenderOptions)

def appendLineBreak (state : RenderState) (indentation : ℕ) : RenderState :=
  let comment := if options.debugMode then
      " /*".toUTF8.toList ++ (toString state.currentLineWidth).toUTF8.toList ++ "*/".toUTF8.toList
    else []
  { state with
    output := state.output ++ comment ++ [10] ++ List.replicate indentation 32
    currentLineWidth := indentation }

def renderJoinNext (state : RenderState) (reg indentation nextIndex : ℕ) : RenderState :=
  let doc := p.operation reg
  match doc.children[nextIndex]? with
  | none => state
  | some child =>
    let next := [.format child indentation,
      .joinNextBreakOnOverflow reg indentation (nextIndex + 1)]
    if canInlineJoinStep p options
        (remainingInlineWidth options.maxWidth state.currentLineWidth) doc nextIndex
        indentation then
      state.push (formatAll (separator doc.inlineSeparator) indentation ++ next)
    else
      let nextIsParenthesis :=
        child < p.program.length ∧ (p.operation child).code = .parenthesis
      let used := if nextIsParenthesis ∧ doc.inlineSeparator ≠ 0 then doc.inlineSeparator
        else doc.breakSeparator
      state.push ((if doc.breakSeparator ≠ 0 then [.format used indentation] else []) ++ next)

def brokenJoin (doc : FormattingOperation) (reg indent : ℕ) : List RenderCommand :=
  match doc.joinPolicy with
  | .breakAllOrNone | .forceBreak => formatAll (joinSequence doc.children doc.breakSeparator) indent
  | .breakOnOverflow =>
    match doc.children with
    | [] => []
    | [child] => [.format child indent]
    | child :: _ :: _ => [.format child indent, .joinNextBreakOnOverflow reg indent 1]

def renderJoin (state : RenderState) (reg indentation : ℕ) : RenderState :=
  let doc := p.operation reg
  if options.mode = .inline ∨ (doc.joinPolicy ≠ .forceBreak ∧
      joinFitsInline p options (remainingInlineWidth options.maxWidth state.currentLineWidth)
        doc indentation) then
    state.push (formatAll (joinSequence doc.children doc.inlineSeparator) indentation)
  else
    let indent := indentation + if doc.indentAfterBreaks then options.indentationWidth else 0
    state.push (brokenJoin doc reg indent)

def renderParenthesis (state : RenderState) (reg indentation : ℕ) : RenderState :=
  let doc := p.operation reg
  let renderFlat := options.mode = .inline ∨
    parenthesisFitsInline p options
      (remainingInlineWidth options.maxWidth state.currentLineWidth) doc indentation
  let child := formatAll (doc.children.take 1) (indentation + options.indentationWidth)
  let state := state.write [40]
  if renderFlat then state.push (child ++ [.closeParenthesis indentation])
  else
    (appendLineBreak options state (indentation + options.indentationWidth)).push
      (child ++ [.closeParenthesisAfterBreak indentation])

def renderFormat (state : RenderState) (reg indentation : ℕ) : RenderState :=
  let doc := p.operation reg
  match doc.code with
  | .empty => state
  | .text => state.write doc.text
  | .lineBreak => appendLineBreak options state indentation
  | .concat => state.push (formatAll doc.children indentation)
  | .join => renderJoin p options state reg indentation
  | .indent =>
    state.push (formatAll (doc.children.take 1) (indentation + options.indentationWidth))
  | .parenthesis => renderParenthesis p options state reg indentation

/-- A round of the loop of `Render`. -/
def renderStep (state : RenderState) : Except Unit RenderState :=
  match state.stack with
  | [] => .error ()
  | command :: stack =>
    let state := { state with stack := stack }
    match command with
    | .closeParenthesis _ => .ok (state.write [41])
    | .closeParenthesisAfterBreak indentation =>
      .ok ((appendLineBreak options state indentation).write [41])
    | .joinNextBreakOnOverflow reg indentation nextIndex =>
      .ok (renderJoinNext p options state reg indentation nextIndex)
    | .format reg indentation => .ok (renderFormat p options state reg indentation)

/-- The condition of the loop. -/
def hasCommands (state : RenderState) : Bool := !state.stack.isEmpty

def Renders (root : Fin p.program.length) (output : Text) : Prop :=
  if root.val = 0 then output = []
  else
    ∃ width, LoopEnds hasCommands (renderStep p options) ⟨[.format root.val 0], [], 0⟩
      ⟨[], output, width⟩

end Render

end DashQL.Formatter
