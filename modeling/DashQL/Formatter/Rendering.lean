import DashQL.Formatter.FormattingProgram

/-!
# The text of a formatting program

However a program is laid out, what it puts out besides whitespace is the same: `plain`, which
is read off the operations without a line, a width or a dry run.  The separators of a join have
to agree on it, since a join puts out either of them.

A command on the stack ends up as its text whatever lies below it (`Emits`); the induction is
over the arena, and over the children that are left for a join that breaks on overflow.
-/

namespace DashQL.Formatter

open List

/-- Whitespace, as `isspace` has it. -/
def isSpace (c : UInt8) : Bool := c = 32 ∨ (9 ≤ c ∧ c ≤ 13)

/-- A text without its whitespace. -/
def strip (text : Text) : Text := text.filter fun c => !isSpace c

@[simp] theorem strip_append (text text' : Text) :
    strip (text ++ text') = strip text ++ strip text' :=
  filter_append text text'

/-- The text of an operation without whitespace, by the texts of its registers. -/
def evalPlain (op : FormattingOperation) (plain : ℕ → Text) : Text :=
  match op.code with
  | .empty | .lineBreak => []
  | .text => strip op.text
  | .concat => op.children.flatMap plain
  | .join => (joinSequence op.children op.inlineSeparator).flatMap plain
  | .indent => (op.children.take 1).flatMap plain
  | .parenthesis => 40 :: (op.children.take 1).flatMap plain ++ [41]

section Plain

variable (p : FormattingProgram)

/-- The text of a register without whitespace. -/
def plain (reg : ℕ) : Text := Arena.value evalPlain [] p.program reg

/-- The text of a separator without whitespace. -/
def separatorText (sep : ℕ) : Text := (separator sep).flatMap (plain p)

/-- A register that is rendered as a part of another one. -/
def IsPart : ℕ → ℕ → Prop :=
  Relation.ReflTransGen fun reg part => part ∈ (p.operation reg).registers

def SameSeparators (root : ℕ) : Prop :=
  ∀ reg, IsPart p root reg → (p.operation reg).code = .join →
    separatorText p (p.operation reg).inlineSeparator =
      separatorText p (p.operation reg).breakSeparator

end Plain

variable {p : FormattingProgram} {options : FormattingRenderOptions}

theorem flatMap_congr_mem {α β : Type} {f g : α → List β} {l : List α}
    (h : ∀ a ∈ l, f a = g a) : l.flatMap f = l.flatMap g := by
  induction l with
  | nil => rfl
  | cons a l ih =>
    rw [flatMap_cons, flatMap_cons, h a mem_cons_self, ih fun b hb => h b (mem_cons_of_mem _ hb)]

theorem mem_joinSequence {children : List ℕ} {sep reg : ℕ} (h : reg ∈ joinSequence children sep) :
    reg ∈ children ++ separator sep := by
  cases children with
  | nil => exact absurd h not_mem_nil
  | cons first rest =>
    rcases mem_cons.mp h with rfl | hrest
    · exact mem_append_left _ mem_cons_self
    · obtain ⟨child, hchild, hreg⟩ := mem_flatMap.mp hrest
      rcases mem_append.mp hreg with hsep | hself
      · exact mem_append_right _ hsep
      · rw [mem_singleton.mp hself]
        exact mem_append_left _ (mem_cons_of_mem _ hchild)

variable {op : FormattingOperation}

theorem mem_registers_of_child {reg : ℕ} (h : reg ∈ op.children) :
    reg ∈ op.registers := mem_append_left _ (mem_append_left _ h)

theorem mem_registers_of_inline {reg : ℕ} (h : reg ∈ separator op.inlineSeparator) :
    reg ∈ op.registers :=
  mem_append_left _ (mem_append_right _ h)

theorem mem_registers_of_break {reg : ℕ} (h : reg ∈ separator op.breakSeparator) :
    reg ∈ op.registers :=
  mem_append_right _ h

theorem evalPlain_congr (op : FormattingOperation) (f g : ℕ → Text)
    (h : ∀ r ∈ op.registers, f r = g r) : evalPlain op f = evalPlain op g := by
  have htake : (op.children.take 1).flatMap f = (op.children.take 1).flatMap g :=
    flatMap_congr_mem fun r hr => h r (mem_registers_of_child (mem_of_mem_take hr))
  unfold evalPlain
  cases op.code with
  | empty => rfl
  | lineBreak => rfl
  | text => rfl
  | concat => exact flatMap_congr_mem fun r hr => h r (mem_registers_of_child hr)
  | join =>
    apply flatMap_congr_mem
    intro r hr
    rcases mem_append.mp (mem_joinSequence hr) with hchild | hsep
    · exact h r (mem_registers_of_child hchild)
    · exact h r (mem_registers_of_inline hsep)
  | indent => exact htake
  | parenthesis => exact congrArg (fun text => 40 :: text ++ [41]) htake

/-- The text of a register is the one of its operation. -/
theorem plain_eq (reg : ℕ) : plain p reg = evalPlain (p.operation reg) (plain p) :=
  p.value_operation evalPlain_congr (fun _ => rfl) reg

theorem flatMap_joinSequence (first : ℕ) (rest : List ℕ) (sep : ℕ) :
    (joinSequence (first :: rest) sep).flatMap (plain p) =
      plain p first ++ rest.flatMap fun child => separatorText p sep ++ plain p child := by
  rw [joinSequence, flatMap_cons, flatMap_assoc]
  congr 1
  apply flatMap_congr_mem
  intro child _
  rw [flatMap_append, flatMap_singleton, separatorText]

theorem flatMap_joinSequence_congr {sep sep' : ℕ} (h : separatorText p sep = separatorText p sep')
    (children : List ℕ) :
    (joinSequence children sep).flatMap (plain p) =
      (joinSequence children sep').flatMap (plain p) := by
  cases children with
  | nil => rfl
  | cons first rest => rw [flatMap_joinSequence, flatMap_joinSequence, h]

/-! ## Commands -/

/-- Commands are rendered as a text without whitespace, whatever is below them. -/
def Emits (p : FormattingProgram) (options : FormattingRenderOptions)
    (commands : List RenderCommand) (text : Text) : Prop :=
  ∀ rest output width, ∃ out width',
    LoopReaches hasCommands (renderStep p options) ⟨commands ++ rest, output, width⟩
      ⟨rest, output ++ out, width'⟩ ∧ strip out = text

theorem emits_nil : Emits p options [] [] := by
  intro rest output width
  refine ⟨[], width, ?_, rfl⟩
  rw [append_nil]
  exact loopReaches_refl _

theorem Emits.append {commands commands' : List RenderCommand} {text text' : Text}
    (h : Emits p options commands text) (h' : Emits p options commands' text') :
    Emits p options (commands ++ commands') (text ++ text') := by
  intro rest output width
  obtain ⟨out, width₁, hreaches, rfl⟩ := h (commands' ++ rest) output width
  obtain ⟨out', width₂, hreaches', rfl⟩ := h' rest (output ++ out) width₁
  refine ⟨out ++ out', width₂, ?_, strip_append out out'⟩
  rw [append_assoc, ← append_assoc output]
  exact hreaches.trans hreaches'

/-- A command is rendered as what its round puts out and the commands that it pushes. -/
theorem emits_of_step {command : RenderCommand} {text : Text}
    (h : ∀ rest output width, ∃ commands out width' text',
      renderStep p options ⟨command :: rest, output, width⟩ =
        .ok ⟨commands ++ rest, output ++ out, width'⟩ ∧
      Emits p options commands text' ∧ strip out ++ text' = text) :
    Emits p options [command] text := by
  intro rest output width
  obtain ⟨commands, out, width₁, text', hstep, hemits, rfl⟩ := h rest output width
  obtain ⟨out', width₂, hreaches, rfl⟩ := hemits rest (output ++ out) width₁
  refine ⟨out ++ out', width₂, ?_, strip_append out out'⟩
  rw [← append_assoc]
  exact (loopReaches_of_test rfl hstep).trans hreaches

theorem strip_lineBreak (indentation : ℕ) : strip ([10] ++ List.replicate indentation 32) = [] := by
  rw [strip_append, strip, strip, filter_replicate]
  rfl

theorem appendLineBreak_eq (hdebug : options.debugMode = false) (state : RenderState)
    (indentation : ℕ) :
    appendLineBreak options state indentation =
      ⟨state.stack, state.output ++ ([10] ++ List.replicate indentation 32), indentation⟩ := by
  simp only [appendLineBreak, hdebug, Bool.false_eq_true, if_false, append_nil, append_assoc]

theorem emits_closeParenthesis (indentation : ℕ) :
    Emits p options [.closeParenthesis indentation] [41] :=
  emits_of_step fun _ _ width => ⟨[], [41], width + 1, [], rfl, emits_nil, rfl⟩

theorem emits_closeParenthesisAfterBreak (hdebug : options.debugMode = false) (indentation : ℕ) :
    Emits p options [.closeParenthesisAfterBreak indentation] [41] := by
  apply emits_of_step
  intro rest output width
  refine ⟨[], [10] ++ List.replicate indentation 32 ++ [41], indentation + 1, [], ?_, emits_nil, ?_⟩
  · simp only [renderStep, appendLineBreak_eq hdebug, RenderState.write, append_assoc]
    rfl
  · rw [strip_append, strip_lineBreak]
    rfl

theorem emits_formatAll {regs : List ℕ} {indentation : ℕ}
    (h : ∀ reg ∈ regs, Emits p options [.format reg indentation] (plain p reg)) :
    Emits p options (formatAll regs indentation) (regs.flatMap (plain p)) := by
  induction regs with
  | nil => exact emits_nil
  | cons reg regs ih =>
    have hfirst := h reg mem_cons_self
    have hrest := ih fun other hother => h other (mem_cons_of_mem _ hother)
    exact hfirst.append hrest

theorem formatAll_separator {sep : ℕ} (h : sep ≠ 0) (indentation : ℕ) :
    formatAll (separator sep) indentation = [.format sep indentation] := by
  rw [separator, if_pos h]
  rfl

/-- The separator that is put out where the next child does not fit. -/
theorem emits_usedSeparator {indentation : ℕ}
    (hsame : separatorText p op.inlineSeparator = separatorText p op.breakSeparator)
    (hemits : ∀ part ∈ op.registers, Emits p options [.format part indentation] (plain p part))
    (parenthesis : Prop) [Decidable parenthesis] :
    Emits p options
      (if op.breakSeparator ≠ 0 then
        [.format (if parenthesis ∧ op.inlineSeparator ≠ 0 then op.inlineSeparator
          else op.breakSeparator) indentation] else [])
      (separatorText p op.inlineSeparator) := by
  have hinline : Emits p options (formatAll (separator op.inlineSeparator) indentation)
      (separatorText p op.inlineSeparator) :=
    emits_formatAll fun sep hsep => hemits sep (mem_registers_of_inline hsep)
  have hbreak : Emits p options (formatAll (separator op.breakSeparator) indentation)
      (separatorText p op.breakSeparator) :=
    emits_formatAll fun sep hsep => hemits sep (mem_registers_of_break hsep)
  by_cases hzero : op.breakSeparator ≠ 0
  · rw [if_pos hzero]
    by_cases hused : parenthesis ∧ op.inlineSeparator ≠ 0
    · rw [if_pos hused, ← formatAll_separator hused.2]
      exact hinline
    · rw [if_neg hused, ← formatAll_separator hzero, hsame]
      exact hbreak
  · rw [if_neg hzero, hsame, separatorText, separator, if_neg hzero]
    exact emits_nil

theorem emits_joinNext {reg indentation : ℕ}
    (hsame : separatorText p (p.operation reg).inlineSeparator =
      separatorText p (p.operation reg).breakSeparator)
    (hemits : ∀ part ∈ (p.operation reg).registers,
      Emits p options [.format part indentation] (plain p part)) (k : ℕ) :
    Emits p options [.joinNextBreakOnOverflow reg indentation k]
      (((p.operation reg).children.drop k).flatMap fun child =>
        separatorText p (p.operation reg).inlineSeparator ++ plain p child) := by
  -- by the number of children that are left
  induction hn : (p.operation reg).children.length - k generalizing k with
  | zero =>
    have hnone : (p.operation reg).children[k]? = none :=
      List.getElem?_eq_none_iff.mpr (Nat.sub_eq_zero_iff_le.mp hn)
    rw [drop_eq_nil_of_le (Nat.sub_eq_zero_iff_le.mp hn)]
    apply emits_of_step
    intro rest output width
    refine ⟨[], [], width, [], ?_, emits_nil, rfl⟩
    simp only [renderStep, renderJoinNext, hnone, append_nil]
    rfl
  | succ n ih =>
    have hk : k < (p.operation reg).children.length := by omega
    have hsome := getElem?_eq_getElem hk
    have hchild := hemits _ (mem_registers_of_child (getElem_mem hk))
    have hrest := ih (k + 1) (by omega)
    have hinline : Emits p options
        (formatAll (separator (p.operation reg).inlineSeparator) indentation)
        (separatorText p (p.operation reg).inlineSeparator) :=
      emits_formatAll fun sep hsep => hemits sep (mem_registers_of_inline hsep)
    rw [drop_eq_getElem_cons hk, flatMap_cons, append_assoc]
    apply emits_of_step
    intro rest output width
    by_cases hfits : canInlineJoinStep p options
        (remainingInlineWidth options.maxWidth width) (p.operation reg) k indentation = true
    · refine ⟨_, [], width, _, ?_, hinline.append (hchild.append hrest), rfl⟩
      simp only [renderStep, renderJoinNext, hsome, hfits, if_true, RenderState.push, append_nil]
      rfl
    · have hused := emits_usedSeparator hsame hemits
        ((p.operation reg).children[k] < p.program.length ∧
          (p.operation (p.operation reg).children[k]).code = .parenthesis)
      refine ⟨_, [], width, _, ?_, hused.append (hchild.append hrest), rfl⟩
      simp only [renderStep, renderJoinNext, hsome, hfits, RenderState.push, append_nil]
      rfl

/-! ## Operations -/

section Operations

variable {reg : ℕ} (hemits : ∀ part ∈ (p.operation reg).registers, ∀ indentation,
  Emits p options [.format part indentation] (plain p part))
include hemits

theorem emits_children (indentation : ℕ) :
    Emits p options (formatAll (p.operation reg).children indentation)
      ((p.operation reg).children.flatMap (plain p)) :=
  emits_formatAll fun child hchild => hemits child (mem_registers_of_child hchild) indentation

theorem emits_onlyChild (indentation : ℕ) :
    Emits p options (formatAll ((p.operation reg).children.take 1) indentation)
      (((p.operation reg).children.take 1).flatMap (plain p)) :=
  emits_formatAll fun child hchild =>
    hemits child (mem_registers_of_child (mem_of_mem_take hchild)) indentation

theorem emits_joinSequence {sep : ℕ} (hsep : ∀ r ∈ separator sep, r ∈ (p.operation reg).registers)
    (indentation : ℕ) :
    Emits p options (formatAll (joinSequence (p.operation reg).children sep) indentation)
      ((joinSequence (p.operation reg).children sep).flatMap (plain p)) := by
  apply emits_formatAll
  intro part hpart
  rcases mem_append.mp (mem_joinSequence hpart) with hchild | hmem
  · exact hemits part (mem_registers_of_child hchild) indentation
  · exact hemits part (hsep part hmem) indentation

theorem emits_brokenJoin (hsame : separatorText p (p.operation reg).inlineSeparator =
      separatorText p (p.operation reg).breakSeparator) (indent : ℕ) :
    Emits p options (brokenJoin (p.operation reg) reg indent)
      ((joinSequence (p.operation reg).children (p.operation reg).inlineSeparator).flatMap
        (plain p)) := by
  have hbreak : Emits p options
      (formatAll (joinSequence (p.operation reg).children (p.operation reg).breakSeparator) indent)
      _ := emits_joinSequence hemits (fun r hr => mem_registers_of_break hr) indent
  rw [← flatMap_joinSequence_congr hsame] at hbreak
  unfold brokenJoin
  cases (p.operation reg).joinPolicy with
  | breakAllOrNone => exact hbreak
  | forceBreak => exact hbreak
  | breakOnOverflow =>
    have hnext : Emits p options [.joinNextBreakOnOverflow reg indent 1] _ :=
      emits_joinNext hsame (fun part hpart => hemits part hpart indent) 1
    cases hchildren : (p.operation reg).children with
    | nil => exact emits_nil
    | cons first rest =>
      have hfirst := hemits first (mem_registers_of_child (hchildren ▸ mem_cons_self)) indent
      rw [hchildren, drop_succ_cons, drop_zero] at hnext
      rw [flatMap_joinSequence]
      cases rest with
      | nil =>
        rw [flatMap_nil, append_nil]
        exact hfirst
      | cons second rest => exact hfirst.append hnext

theorem emits_join (hcode : (p.operation reg).code = .join)
    (hsame : separatorText p (p.operation reg).inlineSeparator =
      separatorText p (p.operation reg).breakSeparator) (indentation : ℕ) :
    Emits p options [.format reg indentation]
      ((joinSequence (p.operation reg).children (p.operation reg).inlineSeparator).flatMap
        (plain p)) := by
  apply emits_of_step
  intro rest output width
  by_cases hflat : options.mode = .inline ∨ ((p.operation reg).joinPolicy ≠ .forceBreak ∧
      joinFitsInline p options (remainingInlineWidth options.maxWidth width) (p.operation reg)
        indentation)
  · refine ⟨_, [], width, _, ?_, emits_joinSequence hemits
      (fun r hr => mem_registers_of_inline hr) indentation, rfl⟩
    simp only [renderStep, renderFormat, hcode, renderJoin, if_pos hflat, RenderState.push,
      append_nil]
  · have hbroken := emits_brokenJoin hemits hsame (indentation +
      if (p.operation reg).indentAfterBreaks then options.indentationWidth else 0)
    refine ⟨_, [], width, _, ?_, hbroken, rfl⟩
    simp only [renderStep, renderFormat, hcode, renderJoin, if_neg hflat, RenderState.push,
      append_nil]

/-- A parenthesis is rendered with its child, on one line or on several. -/
theorem emits_parenthesis (hdebug : options.debugMode = false)
    (hcode : (p.operation reg).code = .parenthesis) (indentation : ℕ) :
    Emits p options [.format reg indentation]
      (40 :: ((p.operation reg).children.take 1).flatMap (plain p) ++ [41]) := by
  have hchild := emits_onlyChild hemits (indentation + options.indentationWidth)
  apply emits_of_step
  intro rest output width
  by_cases hflat : options.mode = .inline ∨ parenthesisFitsInline p options
      (remainingInlineWidth options.maxWidth width) (p.operation reg) indentation
  · refine ⟨_, [40], width + 1, _, ?_, hchild.append (emits_closeParenthesis indentation), rfl⟩
    simp only [renderStep, renderFormat, hcode, renderParenthesis, if_pos hflat, RenderState.push,
      RenderState.write]
    rfl
  · refine ⟨_, [40] ++ ([10] ++ List.replicate (indentation + options.indentationWidth) 32),
      indentation + options.indentationWidth, _, ?_,
      hchild.append (emits_closeParenthesisAfterBreak hdebug indentation), ?_⟩
    · simp only [renderStep, renderFormat, hcode, renderParenthesis, if_neg hflat,
        RenderState.push, RenderState.write, appendLineBreak_eq hdebug, append_assoc]
    · rw [strip_append, strip_lineBreak]
      rfl

/-- An operation is rendered as its text when its registers are. -/
theorem emits_operation (hdebug : options.debugMode = false)
    (hsame : (p.operation reg).code = .join →
      separatorText p (p.operation reg).inlineSeparator =
        separatorText p (p.operation reg).breakSeparator) (indentation : ℕ) :
    Emits p options [.format reg indentation] (plain p reg) := by
  rw [plain_eq, evalPlain]
  cases hcode : (p.operation reg).code with
  | empty =>
    apply emits_of_step
    intro rest output width
    refine ⟨[], [], width, [], ?_, emits_nil, rfl⟩
    simp only [renderStep, renderFormat, hcode, append_nil, nil_append]
  | text =>
    apply emits_of_step
    intro rest output width
    refine ⟨[], (p.operation reg).text, width + (p.operation reg).text.length, [], ?_,
      emits_nil, append_nil _⟩
    simp only [renderStep, renderFormat, hcode, RenderState.write, nil_append]
  | lineBreak =>
    apply emits_of_step
    intro rest output width
    refine ⟨[], [10] ++ List.replicate indentation 32, indentation, [], ?_, emits_nil, ?_⟩
    · simp only [renderStep, renderFormat, hcode, appendLineBreak_eq hdebug, nil_append]
    · rw [strip_lineBreak, append_nil]
  | concat =>
    apply emits_of_step
    intro rest output width
    refine ⟨_, [], width, _, ?_, emits_children hemits indentation, rfl⟩
    simp only [renderStep, renderFormat, hcode, RenderState.push, append_nil]
  | join => exact emits_join hemits hcode (hsame hcode) indentation
  | indent =>
    have hchild := emits_onlyChild hemits (indentation + options.indentationWidth)
    apply emits_of_step
    intro rest output width
    refine ⟨_, [], width, _, ?_, hchild, rfl⟩
    simp only [renderStep, renderFormat, hcode, RenderState.push, append_nil]
  | parenthesis => exact emits_parenthesis hemits hdebug hcode indentation

end Operations

theorem emits_register (hdebug : options.debugMode = false) {reg : ℕ}
    (hreg : reg < p.program.length) (hsame : SameSeparators p reg) (indentation : ℕ) :
    Emits p options [.format reg indentation] (plain p reg) := by
  revert hsame indentation
  apply Arena.induction p.ordered ?_ hreg
  intro reg op hop ih hsame indentation
  have hoperation : p.operation reg = op := by
    rw [FormattingProgram.operation, getD_eq_getElem?_getD, hop, Option.getD_some]
  apply emits_operation
  · intro part hpart indent
    apply ih part (hoperation ▸ hpart)
    exact fun other hother => hsame other (.head hpart hother)
  · exact hdebug
  · exact hsame reg .refl

theorem exists_renders (hdebug : options.debugMode = false) (root : Fin p.program.length)
    (hsame : SameSeparators p root) : ∃ output, Renders p options root output := by
  by_cases hzero : root.val = 0
  · exact ⟨[], by rw [Renders, if_pos hzero]⟩
  · obtain ⟨out, width, hreaches, -⟩ := emits_register hdebug root.isLt hsame 0 [] [] 0
    refine ⟨out, ?_⟩
    rw [Renders, if_neg hzero]
    exact ⟨width, hreaches.ends rfl⟩

/-- What is put out besides whitespace is the text of the root. -/
theorem strip_of_renders (hdebug : options.debugMode = false) {root : Fin p.program.length}
    (hsame : SameSeparators p root) {output : Text} (h : Renders p options root output) :
    strip output = if root.val = 0 then [] else plain p root := by
  rw [Renders] at h
  split_ifs at h ⊢ with hzero
  · rw [h]
    rfl
  · obtain ⟨width, hends⟩ := h
    obtain ⟨out, width', hreaches, hstrip⟩ := emits_register hdebug root.isLt hsame 0 [] [] 0
    have heq := hends.unique (hreaches.ends rfl)
    rw [nil_append, RenderState.mk.injEq] at heq
    rw [heq.2.1, hstrip]

/-- Two renderings of a program differ in whitespace only. -/
theorem renders_same (p : FormattingProgram) (root : Fin p.program.length)
    (hsame : SameSeparators p root) (options options' : FormattingRenderOptions)
    (hdebug : options.debugMode = false) (hdebug' : options'.debugMode = false) :
    (∃ output, Renders p options root output) ∧
      ∀ output output', Renders p options root output → Renders p options' root output' →
        strip output = strip output' := by
  refine ⟨exists_renders hdebug root hsame, ?_⟩
  intro output output' h h'
  rw [strip_of_renders hdebug hsame h, strip_of_renders hdebug' hsame h']

/-- Two columns, with a comma and a space or a line break between them. -/
def twoColumns : FormattingProgram where
  program :=
    [{}, { code := .text, text := [97] }, { code := .text, text := [98] },
      { code := .text, text := [44, 32] }, { code := .text, text := [44] }, { code := .lineBreak },
      { code := .concat, children := [4, 5] },
      { code := .join, children := [1, 2], inlineSeparator := 3, breakSeparator := 6 }]
  ordered := Arena.ordered_of_zipIdx (by decide)

/-- The two columns in one line and in a line of three characters. -/
theorem renders_same_twoColumns :
    ∃ output output', Renders twoColumns { mode := .inline } ⟨7, by decide⟩ output ∧
      Renders twoColumns { maxWidth := 3 } ⟨7, by decide⟩ output' ∧
      strip output = strip output' := by
  have hsame : SameSeparators twoColumns 7 := by
    intro reg _ hcode
    by_cases hreg : reg < 8
    · interval_cases reg <;> first | exact absurd hcode (by decide) | decide
    · have hdefault : twoColumns.operation reg = {} :=
        getD_eq_default _ _ (Nat.le_of_not_lt hreg)
      rw [hdefault] at hcode
      exact absurd hcode (by decide)
  obtain ⟨⟨output, houtput⟩, hall⟩ := renders_same twoColumns ⟨7, by decide⟩ hsame
    { mode := .inline } { maxWidth := 3 } rfl rfl
  obtain ⟨output', houtput'⟩ : ∃ output', Renders twoColumns { maxWidth := 3 } ⟨7, by decide⟩
      output' := exists_renders rfl ⟨7, by decide⟩ hsame
  exact ⟨output, output', houtput, houtput', hall output output' houtput houtput'⟩

end DashQL.Formatter
