import DashQL.Formatter.Rendering

/-!
# What fits on a line

A dry run decides whether a join or a parenthesis fits into what is left of a line.  What it
measures is the text of the operations on one line: `inlineText`, which there is unless an operation
breaks the line or a join has to be broken.  `dryRunInline_iff` says that the dry run succeeds exactly
if there is such a text and it is short enough.

While that text is rendered, the joins and parentheses in it make their own dry runs.  Each of them
has at least what is left of the line that the first dry run counted on (`Inlines`), so that all of
them decide alike.  The texts of the operations themselves are put out as they are: the only line
breaks are those that they contain.
-/

namespace DashQL.Formatter

open List

/-! ## The text on one line -/

/-- The texts of registers one after another, if all of them have one. -/
def inlineAll (text : ℕ → Option Text) : List ℕ → Option Text
  | [] => some []
  | reg :: regs => (text reg).bind fun first => (inlineAll text regs).map (first ++ ·)

/-- The text of an operation on one line, by the texts of its registers. -/
def evalInline (op : FormattingOperation) (text : ℕ → Option Text) : Option Text :=
  match op.code with
  | .empty => some []
  | .text => some op.text
  | .lineBreak => none
  | .concat => inlineAll text op.children
  | .join =>
    if op.joinPolicy = .forceBreak ∧ 1 < op.children.length then none
    else inlineAll text (joinSequence op.children op.inlineSeparator)
  | .indent => inlineAll text (op.children.take 1)
  | .parenthesis => (inlineAll text (op.children.take 1)).map fun child => 40 :: child ++ [41]

/-- The text of a register on one line. -/
def inlineText (p : FormattingProgram) (reg : ℕ) : Option Text :=
  Arena.value evalInline (some []) p.program reg

variable {p : FormattingProgram} {options : FormattingRenderOptions} {regs regs' : List ℕ}
  {text : Text}

theorem inlineAll_congr {f g : ℕ → Option Text} (h : ∀ r ∈ regs, f r = g r) :
    inlineAll f regs = inlineAll g regs := by
  induction regs with
  | nil => rfl
  | cons reg regs ih =>
    rw [inlineAll, inlineAll, h reg mem_cons_self, ih fun r hr => h r (mem_cons_of_mem _ hr)]

variable {op : FormattingOperation}

theorem mem_registers_of_joinSequence {reg : ℕ}
    (h : reg ∈ joinSequence op.children op.inlineSeparator) : reg ∈ op.registers :=
  mem_append_left _ (mem_joinSequence h)

theorem evalInline_congr (op : FormattingOperation) (f g : ℕ → Option Text)
    (h : ∀ r ∈ op.registers, f r = g r) : evalInline op f = evalInline op g := by
  have hchildren : inlineAll f op.children = inlineAll g op.children :=
    inlineAll_congr fun r hr => h r (mem_registers_of_child hr)
  have htake : inlineAll f (op.children.take 1) = inlineAll g (op.children.take 1) :=
    inlineAll_congr fun r hr => h r (mem_registers_of_child (mem_of_mem_take hr))
  have hjoin : inlineAll f (joinSequence op.children op.inlineSeparator) =
      inlineAll g (joinSequence op.children op.inlineSeparator) :=
    inlineAll_congr fun r hr => h r (mem_registers_of_joinSequence hr)
  unfold evalInline
  rw [hchildren, htake, hjoin]

theorem inlineText_eq (reg : ℕ) : inlineText p reg = evalInline (p.operation reg) (inlineText p) :=
  p.value_operation evalInline_congr (fun _ => rfl) reg

/-! ## The dry run -/

def Fits (p : FormattingProgram) (remaining : ℤ) (regs : List ℕ) : Prop :=
  ∃ text, inlineAll (inlineText p) regs = some text ∧ (text.length : ℤ) ≤ remaining

theorem inlineAll_append (f : ℕ → Option Text) (regs regs' : List ℕ) :
    inlineAll f (regs ++ regs') =
      (inlineAll f regs).bind fun first => (inlineAll f regs').map (first ++ ·) := by
  induction regs with
  | nil =>
    show inlineAll f regs' = (inlineAll f regs').map ([] ++ ·)
    simp
  | cons reg regs ih =>
    rw [cons_append, inlineAll, inlineAll, ih]
    cases f reg with
    | none => rfl
    | some first => cases inlineAll f regs <;> simp [Function.comp_def]

theorem fits_append {remaining : ℤ} :
    Fits p remaining (regs ++ regs') ↔
      ∃ first, inlineAll (inlineText p) regs = some first ∧
        Fits p (remaining - first.length) regs' := by
  unfold Fits
  rw [inlineAll_append]
  constructor
  · rintro ⟨text, htext, hlength⟩
    obtain ⟨first, hfirst, hrest⟩ := Option.bind_eq_some_iff.mp htext
    obtain ⟨rest, hrest', rfl⟩ := Option.map_eq_some_iff.mp hrest
    rw [length_append] at hlength
    exact ⟨first, hfirst, rest, hrest', by omega⟩
  · rintro ⟨first, hfirst, rest, hrest, hlength⟩
    refine ⟨first ++ rest, by rw [hfirst, hrest]; rfl, ?_⟩
    rw [length_append]
    omega

theorem fits_cons {remaining : ℤ} {reg : ℕ} :
    Fits p remaining (reg :: regs) ↔
      ∃ first, inlineText p reg = some first ∧ Fits p (remaining - first.length) regs := by
  have hsingle : inlineAll (inlineText p) [reg] = inlineText p reg := by
    cases h : inlineText p reg <;> simp [inlineAll, h]
  have happend := @fits_append p [reg] regs remaining
  rwa [hsingle] at happend

theorem not_fits_of_neg {remaining : ℤ} (h : remaining < 0) : ¬ Fits p remaining regs := by
  rintro ⟨text, -, hlength⟩
  omega

theorem docs_pushInline (regs : List ℕ) (indentation : ℕ) (stack : List InlineRenderCommand) :
    (pushInline regs indentation stack).map InlineRenderCommand.doc =
      regs ++ stack.map InlineRenderCommand.doc := by
  rw [pushInline, map_append, map_map]
  congr 1
  exact map_id regs

theorem fits_command {remaining : ℤ} {command : InlineRenderCommand}
    {stack : List InlineRenderCommand} :
    Fits p remaining ((command :: stack).map InlineRenderCommand.doc) ↔
      ∃ first, evalInline (p.operation command.doc) (inlineText p) = some first ∧
        Fits p (remaining - first.length) (stack.map InlineRenderCommand.doc) := by
  rw [map_cons, fits_cons, inlineText_eq]

/-- A dry run succeeds exactly if the commands have a text on one line that is short enough. -/
theorem dryRunInline_iff (remaining : ℤ) (stack : List InlineRenderCommand) :
    dryRunInline p options remaining stack = true ↔
      Fits p remaining (stack.map InlineRenderCommand.doc) := by
  induction remaining, stack using dryRunInline.induct p options with
  | case1 remaining => simp [dryRunInline, Fits, inlineAll]
  | case2 remaining command stack hneg =>
    rw [dryRunInline, if_pos hneg]
    exact iff_of_false Bool.false_ne_true (not_fits_of_neg hneg)
  | case3 remaining command stack hneg doc hcode ih =>
    have hop : (p.operation command.doc).code = .empty := hcode
    rw [dryRunInline, if_neg hneg, fits_command, evalInline]
    simp only [hop, ih]
    simp
  | case4 remaining command stack hneg doc hcode ih =>
    have hop : (p.operation command.doc).code = .text := hcode
    rw [dryRunInline, if_neg hneg, fits_command, evalInline]
    simp only [hop]
    rw [ih]
    simp [doc]
  | case5 remaining command stack hneg doc hcode =>
    have hop : (p.operation command.doc).code = .lineBreak := hcode
    rw [dryRunInline, if_neg hneg, fits_command, evalInline]
    simp [hop]
  | case6 remaining command stack hneg doc hcode ih =>
    have hop : (p.operation command.doc).code = .concat := hcode
    rw [dryRunInline, if_neg hneg, fits_command, evalInline]
    simp only [hop]
    rw [ih, docs_pushInline, fits_append]
  | case7 remaining command stack hneg doc hcode hforced =>
    have hop : (p.operation command.doc).code = .join := hcode
    rw [dryRunInline, if_neg hneg, fits_command, evalInline]
    simp only [hop]
    rw [if_pos hforced, if_pos hforced]
    simp
  | case8 remaining command stack hneg doc hcode hforced ih =>
    have hop : (p.operation command.doc).code = .join := hcode
    rw [dryRunInline, if_neg hneg, fits_command, evalInline]
    simp only [hop]
    rw [if_neg hforced, if_neg hforced, ih, docs_pushInline, fits_append]
  | case9 remaining command stack hneg doc hcode ih =>
    have hop : (p.operation command.doc).code = .indent := hcode
    rw [dryRunInline, if_neg hneg, fits_command, evalInline]
    simp only [hop]
    rw [ih, docs_pushInline, fits_append]
  | case10 remaining command stack hneg doc hcode ih =>
    have hop : (p.operation command.doc).code = .parenthesis := hcode
    rw [dryRunInline, if_neg hneg, fits_command, evalInline]
    simp only [hop]
    rw [ih, docs_pushInline, fits_append]
    -- both parentheses were taken off before the child
    constructor
    · rintro ⟨child, hchild, hrest⟩
      refine ⟨40 :: child ++ [41], by rw [hchild]; rfl, ?_⟩
      have hlength : ((40 :: child ++ [41] : Text).length : ℤ) = 2 + child.length := by
        simp
        omega
      rwa [hlength, ← sub_sub]
    · rintro ⟨first, hfirst, hrest⟩
      obtain ⟨child, hchild, rfl⟩ := Option.map_eq_some_iff.mp hfirst
      have hlength : ((40 :: child ++ [41] : Text).length : ℤ) = 2 + child.length := by
        simp
        omega
      rw [hlength, ← sub_sub] at hrest
      exact ⟨child, hchild, hrest⟩

variable {indentation : ℕ}

theorem joinFitsInline_iff {remaining : ℤ} :
    joinFitsInline p options remaining op indentation = true ↔
      Fits p remaining (joinSequence op.children op.inlineSeparator) := by
  rw [joinFitsInline, dryRunInline_iff, docs_pushInline]
  simp

theorem parenthesisFitsInline_iff {remaining : ℤ} :
    parenthesisFitsInline p options remaining op indentation = true ↔
      Fits p (remaining - 2) (op.children.take 1) := by
  rw [parenthesisFitsInline]
  split_ifs with hshort
  · exact iff_of_false id (not_fits_of_neg (by omega))
  · rw [dryRunInline_iff, docs_pushInline]
    simp

/-! ## Rendering on one line -/

/-- Where the line has room for a text, commands put it out and nothing else. -/
def Inlines (p : FormattingProgram) (options : FormattingRenderOptions)
    (commands : List RenderCommand) (text : Text) : Prop :=
  ∀ rest output width, width + text.length + 2 ≤ options.maxWidth →
    LoopReaches hasCommands (renderStep p options) ⟨commands ++ rest, output, width⟩
      ⟨rest, output ++ text, width + text.length⟩

theorem inlines_nil : Inlines p options [] [] := by
  intro rest output width _
  rw [append_nil]
  exact loopReaches_refl _

theorem Inlines.append {commands commands' : List RenderCommand} {text' : Text}
    (h : Inlines p options commands text) (h' : Inlines p options commands' text') :
    Inlines p options (commands ++ commands') (text ++ text') := by
  intro rest output width hroom
  rw [length_append] at hroom
  have hfirst := h (commands' ++ rest) output width (by omega)
  have hsecond := h' rest (output ++ text) (width + text.length) (by omega)
  rw [append_assoc, ← append_assoc output, length_append, ← Nat.add_assoc]
  exact hfirst.trans hsecond

/-- A command puts out the text of the commands that its round pushes, if there is room for it. -/
theorem inlines_of_step {command : RenderCommand} {commands : List RenderCommand}
    (hstep : ∀ rest output width, width + text.length + 2 ≤ options.maxWidth →
      renderStep p options ⟨command :: rest, output, width⟩ = .ok ⟨commands ++ rest, output, width⟩)
    (h : Inlines p options commands text) : Inlines p options [command] text := by
  intro rest output width hroom
  exact (loopReaches_of_test rfl (hstep rest output width hroom)).trans (h rest output width hroom)

/-- A command puts out a text without a command left. -/
theorem inlines_of_write {command : RenderCommand}
    (hstep : ∀ rest output width, renderStep p options ⟨command :: rest, output, width⟩ =
      .ok ⟨rest, output ++ text, width + text.length⟩) : Inlines p options [command] text := by
  intro rest output width _
  exact loopReaches_of_test rfl (hstep rest output width)

theorem inlines_formatAll (h : ∀ reg ∈ regs, ∀ text, inlineText p reg = some text →
      Inlines p options [.format reg indentation] text)
    (hall : inlineAll (inlineText p) regs = some text) :
    Inlines p options (formatAll regs indentation) text := by
  induction regs generalizing text with
  | nil =>
    obtain rfl := Option.some.inj hall
    exact inlines_nil
  | cons reg regs ih =>
    obtain ⟨first, hfirst, hrest⟩ := Option.bind_eq_some_iff.mp hall
    obtain ⟨others, hothers, rfl⟩ := Option.map_eq_some_iff.mp hrest
    have hreg := h reg mem_cons_self first hfirst
    exact hreg.append (ih (fun r hr => h r (mem_cons_of_mem _ hr)) hothers)

theorem fits_of_room {width : ℕ} (hall : inlineAll (inlineText p) regs = some text)
    (hroom : width + text.length + 2 ≤ options.maxWidth) :
    Fits p (remainingInlineWidth options.maxWidth width) regs := by
  refine ⟨text, hall, ?_⟩
  unfold remainingInlineWidth
  omega

/-- A join with one child is the same with either separator. -/
theorem joinSequence_of_length_le {children : List ℕ} (h : children.length ≤ 1) (sep sep' : ℕ) :
    joinSequence children sep = joinSequence children sep' := by
  rcases children with _ | ⟨first, _ | ⟨second, rest⟩⟩
  · rfl
  · rfl
  · simp at h

section Operations

variable {reg : ℕ} (hparts : ∀ part ∈ (p.operation reg).registers, ∀ text indentation,
  inlineText p part = some text → Inlines p options [.format part indentation] text)
include hparts

/-- A join on one line, also when it is one that is broken if it has several children. -/
theorem inlines_join (hcode : (p.operation reg).code = .join)
    (hplain : ¬ ((p.operation reg).joinPolicy = .forceBreak ∧ 1 < (p.operation reg).children.length))
    (hall : inlineAll (inlineText p)
      (joinSequence (p.operation reg).children (p.operation reg).inlineSeparator) = some text)
    (indentation : ℕ) : Inlines p options [.format reg indentation] text := by
  have hsequence : ∀ indent, Inlines p options
      (formatAll (joinSequence (p.operation reg).children (p.operation reg).inlineSeparator) indent)
      text := fun indent =>
    inlines_formatAll
      (fun part hpart text => hparts part (mem_registers_of_joinSequence hpart) text indent) hall
  by_cases hforced : (p.operation reg).joinPolicy = .forceBreak
  · by_cases hmode : options.mode = .inline
    · refine inlines_of_step (fun rest output width _ => ?_) (hsequence indentation)
      simp only [renderStep, renderFormat, hcode, renderJoin, hmode, true_or, if_true,
        RenderState.push]
    · have hlength : (p.operation reg).children.length ≤ 1 := by
        by_contra hlength
        exact hplain ⟨hforced, by omega⟩
      refine inlines_of_step (fun rest output width _ => ?_) (hsequence (indentation +
        if (p.operation reg).indentAfterBreaks then options.indentationWidth else 0))
      simp only [renderStep, renderFormat, hcode, renderJoin, hmode, hforced, brokenJoin,
        ne_eq, not_true_eq_false, false_and, or_self, if_false, RenderState.push]
      rw [joinSequence_of_length_le hlength]
  · refine inlines_of_step (fun rest output width hroom => ?_) (hsequence indentation)
    have hfits : joinFitsInline p options _ (p.operation reg) indentation = true :=
      joinFitsInline_iff.mpr (fits_of_room hall hroom)
    simp only [renderStep, renderFormat, hcode, renderJoin, hfits, ne_eq, hforced,
      not_false_eq_true, and_self, or_true, if_true, RenderState.push]

theorem inlines_parenthesis (hcode : (p.operation reg).code = .parenthesis)
    (hall : inlineAll (inlineText p) ((p.operation reg).children.take 1) = some text)
    (indentation : ℕ) : Inlines p options [.format reg indentation] (40 :: text ++ [41]) := by
  have hchild : Inlines p options (formatAll ((p.operation reg).children.take 1)
      (indentation + options.indentationWidth)) text :=
    inlines_formatAll (fun part hpart text => hparts part
      (mem_registers_of_child (mem_of_mem_take hpart)) text _) hall
  have hclose : Inlines p options [.closeParenthesis indentation] [41] :=
    inlines_of_write fun _ _ _ => rfl
  intro rest output width hroom
  simp only [length_append, length_cons, length_nil] at hroom
  have hfits : parenthesisFitsInline p options (remainingInlineWidth options.maxWidth width)
      (p.operation reg) indentation = true := by
    refine parenthesisFitsInline_iff.mpr ⟨text, hall, ?_⟩
    unfold remainingInlineWidth
    omega
  have hstep : renderStep p options ⟨.format reg indentation :: rest, output, width⟩ =
      .ok ⟨formatAll ((p.operation reg).children.take 1) (indentation + options.indentationWidth) ++
        [.closeParenthesis indentation] ++ rest, output ++ [40], width + 1⟩ := by
    simp only [renderStep, renderFormat, hcode, renderParenthesis, hfits, or_true, if_true,
      RenderState.push, RenderState.write]
    rfl
  have hrest := (hchild.append hclose) rest (output ++ [40]) (width + 1) (by
    simp only [length_append, length_cons, length_nil]
    omega)
  have hreaches := (loopReaches_of_test rfl hstep).trans hrest
  have houtput : output ++ [40] ++ (text ++ [41]) = output ++ (40 :: text ++ [41]) := by simp
  have hwidth : width + 1 + (text ++ [41]).length = width + (40 :: text ++ [41]).length := by
    simp
    omega
  rw [houtput, hwidth] at hreaches
  exact hreaches

end Operations

theorem lt_of_mem_registers {reg part : ℕ} (h : part ∈ (p.operation reg).registers) :
    part < reg := by
  cases hop : p.program[reg]? with
  | none =>
    rw [FormattingProgram.operation, getD_eq_getElem?_getD, hop] at h
    exact absurd h not_mem_nil
  | some op =>
    rw [FormattingProgram.operation, getD_eq_getElem?_getD, hop] at h
    exact p.ordered reg op hop part h

/-- A register with a text on one line puts it out where there is room for it. -/
theorem inlines_of_inlineText (reg indentation : ℕ) (htext : inlineText p reg = some text) :
    Inlines p options [.format reg indentation] text := by
  induction reg using Nat.strongRecOn generalizing text indentation with
  | ind reg ih =>
    have hparts : ∀ part ∈ (p.operation reg).registers, ∀ text indentation,
        inlineText p part = some text → Inlines p options [.format part indentation] text :=
      fun part hpart text indentation => ih part (lt_of_mem_registers hpart) indentation
    rw [inlineText_eq, evalInline] at htext
    cases hcode : (p.operation reg).code with
    | empty =>
      simp only [hcode, Option.some.injEq] at htext
      subst htext
      exact inlines_of_step
        (fun _ _ _ _ => by simp only [renderStep, renderFormat, hcode, nil_append]) inlines_nil
    | text =>
      simp only [hcode, Option.some.injEq] at htext
      subst htext
      exact inlines_of_write fun _ _ _ => by
        simp only [renderStep, renderFormat, hcode, RenderState.write]
    | lineBreak => simp [hcode] at htext
    | concat =>
      simp only [hcode] at htext
      refine inlines_of_step (fun rest output width _ => ?_) (inlines_formatAll
        (fun part hpart text => hparts part (mem_registers_of_child hpart) text indentation) htext)
      simp only [renderStep, renderFormat, hcode, RenderState.push]
    | join =>
      simp only [hcode] at htext
      split_ifs at htext with hforced
      exact inlines_join hparts hcode hforced htext indentation
    | indent =>
      simp only [hcode] at htext
      refine inlines_of_step (fun rest output width _ => ?_) (inlines_formatAll
        (fun part hpart text => hparts part
          (mem_registers_of_child (mem_of_mem_take hpart)) text
          (indentation + options.indentationWidth)) htext)
      simp only [renderStep, renderFormat, hcode, RenderState.push]
    | parenthesis =>
      simp only [hcode] at htext
      obtain ⟨child, hchild, rfl⟩ := Option.map_eq_some_iff.mp htext
      exact inlines_parenthesis hparts hcode hchild indentation

theorem exists_text_of_mem {reg : ℕ} {c : UInt8} (htext : inlineText p reg = some text)
    (hc : c ∈ text) :
    c = 40 ∨ c = 41 ∨ ∃ part, IsPart p reg part ∧ (p.operation part).code = .text ∧
      c ∈ (p.operation part).text := by
  induction reg using Nat.strongRecOn generalizing text with
  | ind reg ih =>
    have hall : ∀ (regs : List ℕ) (text : Text), (∀ part ∈ regs, part ∈ (p.operation reg).registers) →
        inlineAll (inlineText p) regs = some text → c ∈ text →
        c = 40 ∨ c = 41 ∨ ∃ part, IsPart p reg part ∧ (p.operation part).code = .text ∧
          c ∈ (p.operation part).text := by
      intro regs
      induction regs with
      | nil =>
        intro text _ hregs hmem
        obtain rfl := Option.some.inj hregs
        exact absurd hmem not_mem_nil
      | cons first regs ihregs =>
        intro text hsub hregs hmem
        obtain ⟨front, hfront, hrest⟩ := Option.bind_eq_some_iff.mp hregs
        obtain ⟨back, hback, rfl⟩ := Option.map_eq_some_iff.mp hrest
        have hfirst := hsub first mem_cons_self
        rcases mem_append.mp hmem with hmem | hmem
        · rcases ih first (lt_of_mem_registers hfirst) hfront hmem with h | h | ⟨part, hpart, h⟩
          · exact .inl h
          · exact .inr (.inl h)
          · exact .inr (.inr ⟨part, .head hfirst hpart, h⟩)
        · exact ihregs back (fun part hpart => hsub part (mem_cons_of_mem _ hpart)) hback hmem
    rw [inlineText_eq, evalInline] at htext
    cases hcode : (p.operation reg).code with
    | empty =>
      simp only [hcode, Option.some.injEq] at htext
      exact absurd (htext ▸ hc) not_mem_nil
    | text =>
      simp only [hcode, Option.some.injEq] at htext
      exact .inr (.inr ⟨reg, .refl, hcode, htext ▸ hc⟩)
    | lineBreak => simp [hcode] at htext
    | concat =>
      simp only [hcode] at htext
      exact hall _ text (fun _ => mem_registers_of_child) htext hc
    | join =>
      simp only [hcode] at htext
      split_ifs at htext
      exact hall _ text (fun _ => mem_registers_of_joinSequence) htext hc
    | indent =>
      simp only [hcode] at htext
      exact hall _ text (fun _ h => mem_registers_of_child (mem_of_mem_take h)) htext hc
    | parenthesis =>
      simp only [hcode] at htext
      obtain ⟨child, hchild, rfl⟩ := Option.map_eq_some_iff.mp htext
      rcases mem_cons.mp hc with h | h
      · exact .inl h
      · rcases mem_append.mp h with h | h
        · exact hall _ child (fun _ h => mem_registers_of_child (mem_of_mem_take h)) hchild h
        · exact .inr (.inl (mem_singleton.mp h))

/-! ## What a dry run promises -/

/-- The dry run behind a join or a parenthesis of `Render` reports that it fits. -/
def ReportsFit (p : FormattingProgram) (options : FormattingRenderOptions)
    (reg indentation width : ℕ) : Prop :=
  let doc := p.operation reg
  let remaining := remainingInlineWidth options.maxWidth width
  doc.code = .join ∧ doc.joinPolicy ≠ .forceBreak ∧
      joinFitsInline p options remaining doc indentation = true ∨
    doc.code = .parenthesis ∧ parenthesisFitsInline p options remaining doc indentation = true

theorem inlineText_of_reportsFit {reg width : ℕ} (h : ReportsFit p options reg indentation width) :
    ∃ text, inlineText p reg = some text ∧ width + text.length + 2 ≤ options.maxWidth := by
  rcases h with ⟨hcode, hpolicy, hfits⟩ | ⟨hcode, hfits⟩
  · obtain ⟨text, hall, hlength⟩ := joinFitsInline_iff.mp hfits
    refine ⟨text, ?_, ?_⟩
    · rw [inlineText_eq, evalInline]
      simp only [hcode]
      rw [if_neg fun hforced => hpolicy hforced.1, hall]
    · unfold remainingInlineWidth at hlength
      omega
  · obtain ⟨child, hall, hlength⟩ := parenthesisFitsInline_iff.mp hfits
    refine ⟨40 :: child ++ [41], ?_, ?_⟩
    · rw [inlineText_eq, evalInline]
      simp only [hcode]
      rw [hall, Option.map_some]
    · unfold remainingInlineWidth at hlength
      simp only [length_append, length_cons, length_nil]
      omega

/-- What is reported to fit is rendered on the line: as the text that the dry run measures, within
the width that it checked, and with no line break but those in the texts of its operations. -/
theorem rendered_as_measured {reg indentation width : ℕ}
    (h : ReportsFit p options reg indentation width) :
    ∃ text, inlineText p reg = some text ∧
      (∀ remaining, dryRunInline p options remaining [⟨reg, indentation⟩] =
        decide ((text.length : ℤ) ≤ remaining)) ∧
      (∀ rest output, LoopReaches hasCommands (renderStep p options)
        ⟨.format reg indentation :: rest, output, width⟩
        ⟨rest, output ++ text, width + text.length⟩) ∧
      width + text.length + 2 ≤ options.maxWidth ∧
      (10 ∈ text → ∃ part, IsPart p reg part ∧ (p.operation part).code = .text ∧
        10 ∈ (p.operation part).text) := by
  obtain ⟨text, htext, hroom⟩ := inlineText_of_reportsFit h
  refine ⟨text, htext, fun remaining => ?_, fun rest output => ?_, hroom, fun hbreak => ?_⟩
  · rw [Bool.eq_iff_iff, dryRunInline_iff, fits_command, ← inlineText_eq, htext, decide_eq_true_iff]
    simp [Fits, inlineAll]
  · exact inlines_of_inlineText reg indentation htext rest output width hroom
  · rcases exists_text_of_mem htext hbreak with h | h | h
    · exact absurd h (by decide)
    · exact absurd h (by decide)
    · exact h

/-- The two columns of `twoColumns`, which fit into an empty line. -/
theorem rendered_as_measured_twoColumns :
    ReportsFit twoColumns {} 7 0 0 ∧ ∃ text, inlineText twoColumns 7 = some text ∧
      ∀ rest output, LoopReaches hasCommands (renderStep twoColumns {})
        ⟨.format 7 0 :: rest, output, 0⟩ ⟨rest, output ++ text, 0 + text.length⟩ := by
  have hfits : ReportsFit twoColumns {} 7 0 0 :=
    .inl ⟨by decide, by decide, joinFitsInline_iff.mpr ⟨[97, 44, 32, 98], by decide, by decide⟩⟩
  obtain ⟨text, htext, -, hreaches, -⟩ := rendered_as_measured hfits
  exact ⟨hfits, text, htext, hreaches⟩

/-- A literal with a line break, in parentheses. -/
def brokenLiteral : FormattingProgram where
  program := [{}, { code := .text, text := [39, 10, 39] }, { code := .parenthesis, children := [1] }]
  ordered := Arena.ordered_of_zipIdx (by decide)

/-- The literal is reported to fit, and puts out a line break. -/
theorem line_break_in_literal :
    ReportsFit brokenLiteral {} 2 0 0 ∧
      LoopReaches hasCommands (renderStep brokenLiteral {}) ⟨[.format 2 0], [], 0⟩
        ⟨[], [40, 39, 10, 39, 41], 5⟩ := by
  have htext : inlineText brokenLiteral 2 = some [40, 39, 10, 39, 41] := by decide
  constructor
  · exact .inr ⟨by decide, parenthesisFitsInline_iff.mpr ⟨[39, 10, 39], by decide, by decide⟩⟩
  · exact inlines_of_inlineText 2 0 htext [] [] 0 (by decide)

end DashQL.Formatter
