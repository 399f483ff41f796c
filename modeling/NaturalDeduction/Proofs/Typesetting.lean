import NaturalDeduction.Proofs.BranchBars
import NaturalDeduction.Proofs.CanonicalNumbering
import NaturalDeduction.Proofs.Replies

/-!
# Reading a TeX drawing

In the TeX drawing a proof is a program for a stack of figures. A leaf puts a
figure on it, and an inference takes as many as its command says and puts one
back, with the label that was set last. The program can go wrong, as there may
be too few figures to take or too many left in the end, and this is how it is
read here (`Tex.Figure.read`). What the drawing of a tree makes of it is that
tree again (`ProofTree.runLines_texLines`): the premises of an inference come
before it in their order, so they are on top of the stack, in the reverse
order, when it is read.

What is read are lines, and a claim is written into one as it is. A name may be
any text, so a claim may have a newline in it that breaks its line in two. Both
halves can be commands, and then one leaf is drawn as two figures
(`ProofTree.brokenLeaf`). Without newlines the lines of the text are the lines
that were drawn (`ProofTree.lines_drawTex`). With one there is no text that the
tree could be read from, since no line can hold the claim
(`ProofTree.RebuiltFrom.oneLine`).

Whether a leaf is in brackets depends on all the numbers that the tree
discharges, wherever this is. In an accepted tree it is the same to ask if a
node above the leaf discharges its number, or if the number is not one of the
context (`ProofTree.Anchored.dischargedAbove_iff`), since every leaf refers to
something and no number is discharged that the context has.
-/

namespace NaturalDeduction

namespace Tex

/-! ## Commands -/

/-- **The commands that draw proofs.** -/
inductive Command where
  /-- A figure that is a formula alone. -/
  | leaf (formula : String)
  /-- The label of the next inference. -/
  | label (text : String)
  /-- A line under a number of figures, and a formula below it. -/
  | inference (premises : Nat) (conclusion : String)
deriving DecidableEq, Repr

/-- The text that a command is given. -/
def Command.argument : Command → String
  | leaf formula => formula
  | label text => text
  | inference _ conclusion => conclusion

/-- How a command is written. -/
structure Form where
  /-- What stands before the argument. -/
  before : String
  /-- What stands after the argument. -/
  after : String
  /-- The command with an argument. -/
  command : String → Command

namespace Form

/-- A command with a formula for its argument. -/
def formula (name : String) (command : String → Command) : Form :=
  ⟨name ++ "\x7b$", "$\x7d", command⟩

/-- The command for labels, which are in a small size. -/
def label : Form :=
  ⟨"\\RightLabel\x7b\\scriptsize ", "\x7d", .label⟩

/-- The text of a command. -/
def text (form : Form) (argument : String) : String :=
  form.before ++ argument ++ form.after

/-- The command of a text in this form. -/
def read? (form : Form) (text : List Char) : Option Command :=
  ((form.before.toList.isPrefixOf? text).bind form.after.toList.isSuffixOf?).map fun argument =>
    form.command (String.ofList argument)

end Form

/-- The forms of all commands. -/
def forms : List Form :=
  [.formula "\\AxiomC" .leaf, .label, .formula "\\UnaryInfC" (.inference 1),
    .formula "\\BinaryInfC" (.inference 2), .formula "\\TrinaryInfC" (.inference 3)]

/-- **The command on a line**, after blanks. -/
def Command.ofLine? (line : String) : Option Command :=
  forms.findSome? (·.read? (line.toList.dropWhile (· = ' ')))

/-! ## Figures -/

/-- **A figure**: a formula, or an inference that may have a label. -/
inductive Figure where
  | leaf (formula : String)
  | inference (label : Option String) (premises : List Figure) (conclusion : String)

namespace Figure

/-- The formula at the foot of a figure. -/
def formula : Figure → String
  | leaf formula => formula
  | inference _ _ conclusion => conclusion

/-- The figures above the line of an inference. -/
def premises : Figure → List Figure
  | leaf _ => []
  | inference _ premises _ => premises

/-- **The figure at a place** of a figure, if there is one. -/
def nodeAt? : Figure → List Nat → Option Figure
  | t, [] => some t
  | t, i :: place => (t.premises[i]?).bind fun s => s.nodeAt? place

/-- **A figure that lines can hold**: none of its formulas has a newline. -/
def OneLine (t : Figure) : Prop :=
  ∀ place s, t.nodeAt? place = some s → Text.OneLine s.formula

end Figure

/-- **What has been read of a drawing**: the figures that no inference has
taken yet, the last one first, and the label for the next inference. -/
structure Stack where
  /-- The label that was set last, unless an inference has taken it. -/
  label : Option String
  /-- The figures, the last one first. -/
  figures : List Figure

/-- **A command changes the stack.** There may be too few figures for an
inference. -/
def Command.run (s : Stack) : Command → Option Stack
  | leaf formula => some ⟨s.label, .leaf formula :: s.figures⟩
  | label text => some ⟨some text, s.figures⟩
  | inference premises conclusion =>
    if premises ≤ s.figures.length then
      some ⟨none, .inference s.label (s.figures.take premises).reverse conclusion ::
        s.figures.drop premises⟩
    else none

/-- What a line does to the stack, if it is a command. -/
def runLine (s : Stack) (line : String) : Option Stack :=
  (Command.ofLine? line).bind fun command => command.run s

/-- What lines do to the stack, one after the other. -/
def runLines (s : Stack) (lines : List String) : Option Stack :=
  lines.foldlM runLine s

/-- **The figure that lines draw**, if they draw one and leave nothing else
behind. -/
def Figure.read (lines : List String) : Option Figure :=
  match runLines ⟨none, []⟩ lines with
  | some ⟨none, [t]⟩ => some t
  | _ => none

/-- The line that begins an environment for proofs. -/
def beginLine : String := "\\begin\x7bprooftree\x7d"

/-- The line that ends an environment for proofs. -/
def endLine : String := "\\end\x7bprooftree\x7d"

/-- **The lines inside the environment** of a text: those after the line that
begins it and before the next line that ends it. -/
def bodyLines (text : String) : List String :=
  (((Text.lines text).dropWhile (· ≠ beginLine)).drop 1).takeWhile (· ≠ endLine)

theorem runLines_append (s : Stack) (xs ys : List String) :
    runLines s (xs ++ ys) = (runLines s xs).bind fun s' => runLines s' ys :=
  List.foldlM_append

theorem runLines_cons (s : Stack) (line : String) (lines : List String) :
    runLines s (line :: lines) = (runLine s line).bind fun s' => runLines s' lines :=
  List.foldlM_cons

/-- What becomes of a line and those after it, if nothing goes wrong. -/
theorem exists_of_runLines_cons {s s' : Stack} {line : String} {lines : List String}
    (h : runLines s (line :: lines) = some s') :
    ∃ command next, Command.ofLine? line = some command ∧ command.run s = some next
      ∧ runLines next lines = some s' := by
  rw [runLines_cons] at h
  obtain ⟨next, hnext, hlater⟩ := Option.bind_eq_some_iff.mp h
  obtain ⟨command, hcommand, hrun⟩ := Option.bind_eq_some_iff.mp hnext
  exact ⟨command, next, hcommand, hrun, hlater⟩

theorem runLines_singleton (s : Stack) (line : String) : runLines s [line] = runLine s line := by
  rw [runLines_cons]
  exact Option.bind_fun_some _

/-! ## Lines as they are drawn -/

theorem Form.read?_text (form : Form) (argument : String) :
    form.read? (form.text argument).toList = some (form.command argument) := by
  have hbefore : form.before.toList.isPrefixOf? (form.text argument).toList
      = some (argument ++ form.after).toList := by
    rw [List.isPrefixOf?_eq_some_iff_append_eq, ← String.toList_append, text, String.append_assoc]
  have hafter : form.after.toList.isSuffixOf? (argument ++ form.after).toList
      = some argument.toList := by
    rw [List.isSuffixOf?_eq_some_iff_append_eq, String.toList_append]
  rw [Form.read?, hbefore, Option.bind_some, hafter, Option.map_some, String.ofList_toList]

theorem mem_forms_iff {form : Form} : form ∈ forms ↔
    form = .formula "\\AxiomC" .leaf ∨ form = .label
    ∨ form = .formula "\\UnaryInfC" (.inference 1)
    ∨ form = .formula "\\BinaryInfC" (.inference 2)
    ∨ form = .formula "\\TrinaryInfC" (.inference 3) := by
  simp only [forms, List.mem_cons, List.not_mem_nil, or_false]

theorem leaf_mem_forms : Form.formula "\\AxiomC" .leaf ∈ forms := List.mem_cons_self

theorem label_mem_forms : Form.label ∈ forms := List.mem_cons_of_mem _ List.mem_cons_self

/-- No form begins as another one does. -/
theorem findSome?_read? {form : Form} (hform : form ∈ forms) (argument : String) :
    forms.findSome? (·.read? (form.text argument).toList) = some (form.command argument) := by
  have hread := form.read?_text argument
  rw [Form.text, String.toList_append, String.toList_append] at hread ⊢
  rcases mem_forms_iff.mp hform with rfl | hlater
  · simp only [forms, List.findSome?_cons, hread]
  · rcases hlater with rfl | rfl | rfl | rfl
    all_goals
      -- the forms before it differ from it in their second character
      simp only [forms, List.findSome?_cons, hread]
      rfl

/-- **A command is read as it is written**, at whatever level it stands and
whatever its argument is. -/
theorem ofLine?_text {form : Form} (hform : form ∈ forms) (depth : Nat) (argument : String) :
    Command.ofLine? (ProofTree.texMargin depth ++ form.text argument)
      = some (form.command argument) := by
  have hmargin : ∀ c ∈ (ProofTree.texMargin depth).toList, decide (c = ' ') = true := by
    simp [ProofTree.texMargin]
  have hblank : (form.text argument).toList.dropWhile (· = ' ') = (form.text argument).toList := by
    rw [Form.text, String.toList_append, String.toList_append]
    rcases mem_forms_iff.mp hform with rfl | rfl | rfl | rfl | rfl <;> rfl
  rw [Command.ofLine?, String.toList_append, List.dropWhile_append_of_pos hmargin, hblank,
    findSome?_read? hform]

theorem runLine_text {form : Form} (hform : form ∈ forms) (depth : Nat) (argument : String)
    (s : Stack) : runLine s (ProofTree.texMargin depth ++ form.text argument)
      = (form.command argument).run s := by
  rw [runLine, ofLine?_text hform, Option.bind_some]

/-- An inference takes what was put on the stack last. -/
theorem run_inference (label : Option String) (ts figures : List Figure) (conclusion : String) :
    (Command.inference ts.length conclusion).run ⟨label, ts.reverse ++ figures⟩
      = some ⟨none, .inference label ts conclusion :: figures⟩ := by
  have hlength : ts.reverse.length = ts.length := List.length_reverse
  rw [Command.run, if_pos (by simp), List.take_left' hlength, List.drop_left' hlength,
    List.reverse_reverse]

/-! ## Figures that lines can hold -/

theorem Form.eq_of_read? {form : Form} {text : List Char} {command : Command}
    (h : form.read? text = some command) :
    ∃ argument, text = (form.text argument).toList ∧ command = form.command argument := by
  obtain ⟨argument, hargument, rfl⟩ := Option.map_eq_some_iff.mp h
  obtain ⟨rest, hbefore, hafter⟩ := Option.bind_eq_some_iff.mp hargument
  rw [List.isPrefixOf?_eq_some_iff_append_eq] at hbefore
  rw [List.isSuffixOf?_eq_some_iff_append_eq] at hafter
  refine ⟨String.ofList argument, ?_, rfl⟩
  rw [Form.text, String.toList_append, String.toList_append, String.toList_ofList,
    List.append_assoc, hafter, hbefore]

theorem argument_command {form : Form} (hform : form ∈ forms) (argument : String) :
    (form.command argument).argument = argument := by
  rcases mem_forms_iff.mp hform with rfl | rfl | rfl | rfl | rfl <;> rfl

/-- A command is given a part of its line. -/
theorem oneLine_argument {line : String} {command : Command}
    (h : Command.ofLine? line = some command) (hline : Text.OneLine line) :
    Text.OneLine command.argument := by
  obtain ⟨form, hform, hread⟩ := List.exists_of_findSome?_eq_some h
  obtain ⟨argument, htext, rfl⟩ := Form.eq_of_read? hread
  rw [argument_command hform]
  have hpart : Text.OneLine (form.text argument) := fun hmem =>
    hline ((List.dropWhile_sublist _).subset (htext ▸ hmem))
  exact (Text.oneLine_append.mp (Text.oneLine_append.mp hpart).1).2

theorem Figure.oneLine_leaf {formula : String} (h : Text.OneLine formula) :
    (Figure.leaf formula).OneLine := by
  intro place s hs
  cases place with
  | nil => exact Option.some.inj hs ▸ h
  | cons i place => cases hs

theorem Figure.oneLine_inference {label : Option String} {ts : List Figure} {conclusion : String}
    (hts : ∀ t ∈ ts, t.OneLine) (h : Text.OneLine conclusion) :
    (Figure.inference label ts conclusion).OneLine := by
  intro place s hs
  cases place with
  | nil => exact Option.some.inj hs ▸ h
  | cons i place =>
    obtain ⟨t, ht, hs⟩ := Option.bind_eq_some_iff.mp hs
    exact hts t (List.mem_of_getElem? ht) place s hs

/-- A command whose text has no newline keeps the stack to figures that lines can
hold. -/
theorem oneLine_run {command : Command} {s s' : Stack} (hargument : Text.OneLine command.argument)
    (hs : ∀ t ∈ s.figures, t.OneLine) (h : command.run s = some s') :
    ∀ t ∈ s'.figures, t.OneLine := by
  cases command with
  | leaf formula =>
    obtain rfl := Option.some.inj h
    exact List.forall_mem_cons.mpr ⟨Figure.oneLine_leaf hargument, hs⟩
  | label text =>
    obtain rfl := Option.some.inj h
    exact hs
  | inference premises conclusion =>
    rw [Command.run] at h
    split at h
    · obtain rfl := Option.some.inj h
      have htaken : ∀ t ∈ (s.figures.take premises).reverse, t.OneLine := fun t ht =>
        hs t (List.mem_of_mem_take (List.mem_reverse.mp ht))
      exact List.forall_mem_cons.mpr ⟨Figure.oneLine_inference htaken hargument,
        fun t ht => hs t (List.mem_of_mem_drop ht)⟩
    · cases h

/-- **Lines draw figures that lines can hold.** -/
theorem oneLine_runLines {lines : List String} {s s' : Stack}
    (hlines : ∀ line ∈ lines, Text.OneLine line) (hs : ∀ t ∈ s.figures, t.OneLine)
    (h : runLines s lines = some s') : ∀ t ∈ s'.figures, t.OneLine := by
  induction lines generalizing s with
  | nil =>
    obtain rfl := Option.some.inj h
    exact hs
  | cons line lines ih =>
    obtain ⟨hline, hlater⟩ := List.forall_mem_cons.mp hlines
    obtain ⟨command, next, hcommand, hrun, h⟩ := exists_of_runLines_cons h
    exact ih hlater (oneLine_run (oneLine_argument hcommand hline) hs hrun) h

theorem runLines_of_read {lines : List String} {t : Figure} (h : Figure.read lines = some t) :
    runLines ⟨none, []⟩ lines = some ⟨none, [t]⟩ := by
  rw [Figure.read] at h
  split at h
  · next heq => rw [heq, Option.some.inj h]
  · cases h

theorem oneLine_of_mem_bodyLines {text line : String} (h : line ∈ bodyLines text) :
    Text.OneLine line :=
  Text.oneLine_of_mem_lines <| (List.dropWhile_sublist _).subset <| List.mem_of_mem_drop <|
    (List.takeWhile_sublist _).subset h

/-- **What is read from a text** has no newline in any formula. -/
theorem oneLine_read {text : String} {t : Figure} (h : Figure.read (bodyLines text) = some t) :
    t.OneLine :=
  oneLine_runLines (fun _ => oneLine_of_mem_bodyLines) (fun _ ht => absurd ht List.not_mem_nil)
    (runLines_of_read h) t List.mem_cons_self

/-- Every line that was read is a command. -/
theorem isSome_ofLine?_of_runLines {lines : List String} {s s' : Stack}
    (h : runLines s lines = some s') : ∀ line ∈ lines, (Command.ofLine? line).isSome := by
  induction lines generalizing s with
  | nil => exact fun line hline => absurd hline List.not_mem_nil
  | cons line lines ih =>
    obtain ⟨command, next, hcommand, -, h⟩ := exists_of_runLines_cons h
    exact List.forall_mem_cons.mpr ⟨Option.isSome_of_eq_some hcommand, ih h⟩

/-- **An environment is taken out of its text** if its lines are commands, as
the line that ends it is none. -/
theorem bodyLines_eq {text : String} {body : List String} {s s' : Stack}
    (htext : Text.lines text = beginLine :: body ++ [endLine, ""])
    (hbody : runLines s body = some s') : bodyLines text = body := by
  have hinside : ∀ line ∈ body, decide (line ≠ endLine) = true := fun line hline => by
    refine decide_eq_true fun heq => ?_
    have hcommand := isSome_ofLine?_of_runLines hbody line hline
    rw [heq] at hcommand
    revert hcommand
    decide
  rw [bodyLines, htext, List.cons_append, List.dropWhile_cons_of_neg (by simp), List.drop_one,
    List.tail_cons, List.takeWhile_append_of_pos hinside, List.takeWhile_cons_of_neg (by simp),
    List.append_nil]

end Tex

namespace ProofTree

open Tex

variable {closed : List Int} {depth : Nat} {p : ProofTree}

/-! ## Drawings as programs -/

/-- The formula of a leaf as it is drawn. -/
def leafText (closed : List Int) (leaf : ProofTree) : String :=
  if ∃ n ∈ leaf.reference, n ∈ closed then "[" ++ leaf.claim.tex ++ "]" else leaf.claim.tex

mutual

/-- **A tree as a figure**, when the numbers in `closed` are discharged. -/
def figure (closed : List Int) : ProofTree → Figure
  | ⟨claim, rule, premises, reference, discharges⟩ =>
    if rule = .assumption then
      .leaf (leafText closed ⟨claim, rule, premises, reference, discharges⟩)
    else .inference (some rule.texLabel) (figuresOf closed premises) claim.tex

/-- A list of trees as figures. -/
def figuresOf (closed : List Int) : List ProofTree → List Figure
  | [] => []
  | p :: ps => p.figure closed :: figuresOf closed ps

end

theorem figuresOf_eq (closed : List Int) (ps : List ProofTree) :
    figuresOf closed ps = ps.map (figure closed) := by
  induction ps with
  | nil => rfl
  | cons p ps ih => rw [figuresOf, List.map_cons, ih]

theorem figure_eq (closed : List Int) (p : ProofTree) : p.figure closed =
    if p.rule = .assumption then .leaf (leafText closed p)
    else .inference (some p.rule.texLabel) (p.premises.map (figure closed)) p.claim.tex := by
  obtain ⟨claim, rule, premises, reference, discharges⟩ := p
  rw [figure, figuresOf_eq]

/-- What the lines of a tree can be. -/
theorem texLines_cases {lines : List String} (h : p.texLines closed depth = .ok lines) :
    (p.rule = .assumption ∧ lines = [texLeaf depth closed p.claim p.reference])
    ∨ (p.rule ≠ .assumption ∧ ∃ above command,
      texLinesOf closed (depth + 1) p.premises = .ok above
      ∧ inferenceCommand? p.premises.length = some command
      ∧ lines = above ++ texInference depth command p.rule p.claim) := by
  obtain ⟨claim, rule, premises, reference, discharges⟩ := p
  rw [texLines] at h
  split at h
  case isTrue hrule => exact .inl ⟨hrule, (Except.ok.inj h).symm⟩
  case isFalse hrule =>
    split at h
    · cases h
    · rename_i above habove
      split at h
      · rename_i command hcommand
        exact .inr ⟨hrule, above, command, habove, hcommand, (Except.ok.inj h).symm⟩
      · cases h

theorem texLinesOf_cons {ps : List ProofTree} {lines : List String}
    (h : texLinesOf closed depth (p :: ps) = .ok lines) :
    ∃ here rest, p.texLines closed depth = .ok here ∧ texLinesOf closed depth ps = .ok rest
      ∧ lines = here ++ rest := by
  rw [texLinesOf] at h
  split at h
  · cases h
  · rename_i here hhere
    split at h
    · cases h
    · rename_i rest hrest
      exact ⟨here, rest, hhere, hrest, (Except.ok.inj h).symm⟩

theorem texLeaf_eq (depth : Nat) (closed : List Int) (leaf : ProofTree) :
    texLeaf depth closed leaf.claim leaf.reference
      = texMargin depth ++ (Form.formula "\\AxiomC" .leaf).text (leafText closed leaf) := by
  show texMargin depth ++ texFormula "\\AxiomC" _ = texMargin depth ++ texFormula "\\AxiomC" _
  rw [leafText]
  cases leaf.reference <;> simp

theorem texInference_eq (depth : Nat) (command : String) (rule : Rule) (claim : Formula) (n : Nat) :
    texInference depth command rule claim
      = [texMargin depth ++ Form.label.text rule.texLabel,
        texMargin depth ++ (Form.formula command (.inference n)).text claim.tex] := by
  have hlabel : texMargin depth ++ Form.label.text rule.texLabel
      = texMargin depth ++ "\\RightLabel\x7b\\scriptsize " ++ rule.texLabel ++ "\x7d" := by
    simp only [Form.text, Form.label, String.append_assoc]
  rw [hlabel]
  rfl

theorem formula_mem_forms {command : String} {n : Nat} (h : inferenceCommand? n = some command) :
    Form.formula command (.inference n) ∈ forms := by
  unfold inferenceCommand? at h
  split at h
  case h_1 => exact mem_forms_iff.mpr (.inr (.inr (.inl (by rw [Option.some.inj h]))))
  case h_2 => exact mem_forms_iff.mpr (.inr (.inr (.inr (.inl (by rw [Option.some.inj h])))))
  case h_3 => exact mem_forms_iff.mpr (.inr (.inr (.inr (.inr (by rw [Option.some.inj h])))))
  case h_4 => cases h

/-- **The lines of an inference take its premises off the stack** and put the
inference there. -/
theorem runLines_texInference {command : String} {ts : List Figure}
    (hcommand : inferenceCommand? ts.length = some command) (depth : Nat) (rule : Rule)
    (claim : Formula) (figures : List Figure) :
    runLines ⟨none, ts.reverse ++ figures⟩ (texInference depth command rule claim)
      = some ⟨none, .inference (some rule.texLabel) ts claim.tex :: figures⟩ := by
  have hlabel : (Form.label.command rule.texLabel).run ⟨none, ts.reverse ++ figures⟩
      = some ⟨some rule.texLabel, ts.reverse ++ figures⟩ := rfl
  rw [texInference_eq depth command rule claim ts.length, runLines_cons,
    runLine_text label_mem_forms, hlabel, Option.bind_some,
    runLines_singleton, runLine_text (formula_mem_forms hcommand)]
  exact run_inference (some rule.texLabel) ts figures claim.tex

/-- Trees that are drawn one after the other are on the stack in the end, the
last one first. -/
theorem runLines_texLinesOf {ps : List ProofTree}
    (h : ∀ p ∈ ps, ∀ figures lines, p.texLines closed depth = .ok lines →
      runLines ⟨none, figures⟩ lines = some ⟨none, p.figure closed :: figures⟩)
    {lines : List String} (hlines : texLinesOf closed depth ps = .ok lines)
    (figures : List Figure) :
    runLines ⟨none, figures⟩ lines
      = some ⟨none, (ps.map (figure closed)).reverse ++ figures⟩ := by
  induction ps generalizing lines figures with
  | nil =>
    obtain rfl := Except.ok.inj hlines
    rfl
  | cons p ps ih =>
    rw [List.forall_mem_cons] at h
    obtain ⟨here, rest, hhere, hrest, rfl⟩ := texLinesOf_cons hlines
    rw [runLines_append, h.1 figures here hhere, Option.bind_some, ih h.2 hrest, List.map_cons,
      List.reverse_cons, List.append_assoc, List.singleton_append]

/-- **The lines of a tree put the tree on the stack**, whatever there is on it
already. -/
theorem runLines_texLines {lines : List String} (h : p.texLines closed depth = .ok lines)
    (figures : List Figure) :
    runLines ⟨none, figures⟩ lines = some ⟨none, p.figure closed :: figures⟩ := by
  induction p using ProofTree.induction generalizing depth lines figures with
  | node p ih =>
    rw [figure_eq]
    rcases texLines_cases h with ⟨hrule, rfl⟩ | ⟨hrule, above, command, habove, hcommand, rfl⟩
    · rw [if_pos hrule, texLeaf_eq, runLines_singleton, runLine_text leaf_mem_forms]
      rfl
    · rw [if_neg hrule, runLines_append,
        runLines_texLinesOf (fun q hq figures lines hq' => ih q hq hq' figures) habove,
        Option.bind_some]
      exact runLines_texInference (by rw [List.length_map, hcommand]) depth p.rule p.claim figures

/-! ## Lines of the text -/

theorem exists_of_mem_texLinesOf {ps : List ProofTree} {lines : List String} {line : String}
    (h : texLinesOf closed depth ps = .ok lines) (hline : line ∈ lines) :
    ∃ p ∈ ps, ∃ here, p.texLines closed depth = .ok here ∧ line ∈ here := by
  induction ps generalizing lines with
  | nil =>
    obtain rfl := Except.ok.inj h
    cases hline
  | cons p ps ih =>
    obtain ⟨here, rest, hhere, hrest, rfl⟩ := texLinesOf_cons h
    rcases List.mem_append.mp hline with hline | hline
    · exact ⟨p, List.mem_cons_self, here, hhere, hline⟩
    · obtain ⟨q, hq, hlater⟩ := ih hrest hline
      exact ⟨q, List.mem_cons_of_mem p hq, hlater⟩

theorem oneLine_texLabel (rule : Rule) : Text.OneLine rule.texLabel := by
  cases rule <;> decide

theorem oneLine_leafText (h : Text.OneLine p.claim.tex) : Text.OneLine (leafText closed p) := by
  rw [leafText]
  split
  · exact Text.oneLine_append.mpr ⟨Text.oneLine_append.mpr ⟨by decide, h⟩, by decide⟩
  · exact h

/-- A line that is drawn ends where the next one begins. -/
theorem oneLine_text {form : Form} (hform : form ∈ forms) (depth : Nat) {argument : String}
    (h : Text.OneLine argument) : Text.OneLine (texMargin depth ++ form.text argument) := by
  have hmargin : Text.OneLine (texMargin depth) := by simp [Text.OneLine, texMargin]
  have hform : Text.OneLine form.before ∧ Text.OneLine form.after := by
    rcases mem_forms_iff.mp hform with rfl | rfl | rfl | rfl | rfl <;> decide
  exact Text.oneLine_append.mpr
    ⟨hmargin, Text.oneLine_append.mpr ⟨Text.oneLine_append.mpr ⟨hform.1, h⟩, hform.2⟩⟩

theorem oneLine_texLines {lines : List String} (h : p.texLines closed depth = .ok lines)
    (hclaims : p.Everywhere fun node => Text.OneLine node.claim.tex) :
    ∀ line ∈ lines, Text.OneLine line := by
  induction p using ProofTree.induction generalizing depth lines with
  | node p ih =>
    obtain ⟨hclaim, hpremises⟩ := everywhere_iff.mp hclaims
    intro line hline
    rcases texLines_cases h with ⟨hrule, rfl⟩ | ⟨hrule, above, command, habove, hcommand, rfl⟩
    · obtain rfl := List.mem_singleton.mp hline
      rw [texLeaf_eq]
      exact oneLine_text leaf_mem_forms depth (oneLine_leafText hclaim)
    · rw [texInference_eq depth command p.rule p.claim p.premises.length] at hline
      rcases List.mem_append.mp hline with hline | hline
      · obtain ⟨q, hq, here, hhere, hline⟩ := exists_of_mem_texLinesOf habove hline
        exact ih q hq hhere (hpremises q hq) line hline
      · simp only [List.mem_cons, List.not_mem_nil, or_false] at hline
        rcases hline with rfl | rfl
        · exact oneLine_text label_mem_forms depth (oneLine_texLabel p.rule)
        · exact oneLine_text (formula_mem_forms hcommand) depth hclaim

/-- **The lines of the drawing**: those of the tree inside the environment, if no
claim has a newline in it. -/
theorem lines_drawTex {body : List String} (h : p.texLines p.allDischarged 1 = .ok body)
    (hclaims : p.Everywhere fun node => Text.OneLine node.claim.tex) :
    ∃ text, p.drawTex = .ok text ∧ Text.lines text = beginLine :: body ++ [endLine, ""] := by
  refine ⟨_, by rw [drawTex, h], ?_⟩
  rw [Text.lines_joinLines_newline (by simp), List.append_assoc]
  · rfl
  · intro line hline
    simp only [List.cons_append, List.mem_cons, List.mem_append, List.not_mem_nil, or_false]
      at hline
    rcases hline with rfl | hline | rfl
    · decide
    · exact oneLine_texLines h hclaims line hline
    · decide

/-! ## What the figure shows -/

theorem premises_figure (h : p.HasShape) :
    (p.figure closed).premises = p.premises.map (figure closed) := by
  rw [figure_eq]
  split
  case isTrue hrule =>
    cases h with
    | assumption => rfl
    | _ => cases hrule
  case isFalse => rfl

/-- The figure has the shape of the tree. -/
theorem nodeAt?_figure (hshape : p.Everywhere HasShape) (closed : List Int) (place : List Nat) :
    (p.figure closed).nodeAt? place = (p.nodeAt? place).map (figure closed) := by
  induction place generalizing p with
  | nil => rfl
  | cons i place ih =>
    obtain ⟨hroot, hpremises⟩ := everywhere_iff.mp hshape
    rw [Figure.nodeAt?, nodeAt?, premises_figure hroot, List.getElem?_map]
    cases hq : p.premises[i]? with
    | none => rfl
    | some q => exact ih (hpremises q (List.mem_of_getElem? hq))

/-- **A figure that shows a node**: its claim, and the rule of an inference. The
claim of a leaf may be in brackets. -/
inductive Shows (node : ProofTree) (bracketed : Prop) : Figure → Prop
  | leaf : node.rule = .assumption → ¬ bracketed → Shows node bracketed (.leaf node.claim.tex)
  | bracketedLeaf : node.rule = .assumption → bracketed →
      Shows node bracketed (.leaf ("[" ++ node.claim.tex ++ "]"))
  | inference (premises : List Figure) : node.rule ≠ .assumption →
      Shows node bracketed (.inference (some node.rule.texLabel) premises node.claim.tex)

/-- **A node above the leaf at a place discharges its number.** -/
def DischargedAbove (p : ProofTree) (place : List Nat) : Prop :=
  ∃ n, p.leafNumber? place = some n ∧ ∃ above i below node,
    place = above ++ i :: below ∧ p.nodeAt? above = some node ∧ n ∈ node.discharged

theorem mem_discharged_iff {node : ProofTree} {n : Int} :
    n ∈ node.discharged ↔ ∃ index : Nat, node.discharges[index]?.join = some n := by
  rw [discharged, List.mem_filterMap]
  constructor
  · rintro ⟨slot, hslot, rfl⟩
    obtain ⟨index, hindex⟩ := List.mem_iff_getElem?.mp hslot
    exact ⟨index, by rw [hindex]; rfl⟩
  · rintro ⟨index, hindex⟩
    exact ⟨some n, List.mem_of_getElem? (Option.join_eq_some_iff.mp hindex), rfl⟩

theorem DischargedAbove.mem_allDischarged {place : List Nat} {n : Int}
    (hn : p.leafNumber? place = some n) (h : p.DischargedAbove place) : n ∈ p.allDischarged := by
  obtain ⟨n', hn', above, i, below, node, -, hnode, hmem⟩ := h
  obtain rfl := Option.some.inj (hn.symm.trans hn')
  obtain ⟨index, hindex⟩ := mem_discharged_iff.mp hmem
  refine mem_allDischarged_iff.mpr ⟨⟨above, index⟩, ?_⟩
  rw [slotNumber?, hnode, Option.bind_some, hindex]

/-- A number that the context has not is discharged above the leaf. -/
theorem Anchored.dischargedAbove {ctx : Context} (h : Anchored ctx p) {place : List Nat} {n : Int}
    (hn : p.leafNumber? place = some n) (hctx : n ∉ ctx.numbers) : p.DischargedAbove place := by
  obtain ⟨leaf, hleaf, hrule, -⟩ := leafNumber?_eq_some_iff.mp hn
  obtain ⟨o, ho⟩ := h.origin place leaf hleaf hrule
  cases o with
  | assumed index =>
    obtain ⟨n', hn', hindex⟩ := ho
    obtain rfl := Option.some.inj (hn.symm.trans hn')
    exact absurd (mem_of_idxOf? hindex) hctx
  | opened s =>
    obtain ⟨n', hn', hslot, node, i, below, hnode, -, hplace⟩ := ho
    obtain rfl := Option.some.inj (hn.symm.trans hn')
    rw [slotNumber?, hnode, Option.bind_some] at hslot
    exact ⟨n, hn, s.place, i, below, node, hplace, hnode, mem_discharged_iff.mpr ⟨s.index, hslot⟩⟩

/-- **Which leaves are closed** can be asked of the nodes above the leaf, of all
nodes, or of the context. -/
theorem Anchored.dischargedAbove_iff {ctx : Context} (h : Anchored ctx p) {place : List Nat}
    {n : Int} (hn : p.leafNumber? place = some n) :
    (p.DischargedAbove place ↔ n ∈ p.allDischarged) ∧ (p.DischargedAbove place ↔ n ∉ ctx.numbers) :=
  ⟨⟨DischargedAbove.mem_allDischarged hn, fun hmem => h.dischargedAbove hn (h.unused n hmem)⟩,
    fun habove => h.unused n (habove.mem_allDischarged hn), h.dischargedAbove hn⟩

theorem Anchored.exists_number {ctx : Context} (h : Anchored ctx p) {place : List Nat}
    {leaf : ProofTree} (hleaf : p.nodeAt? place = some leaf) (hrule : leaf.rule = .assumption) :
    ∃ n, p.leafNumber? place = some n ∧ leaf.reference = some n := by
  obtain ⟨o, ho⟩ := h.origin place leaf hleaf hrule
  obtain ⟨n, hn⟩ := ho.exists_leafNumber
  obtain ⟨leaf', hleaf', -, href⟩ := leafNumber?_eq_some_iff.mp hn
  obtain rfl := Option.some.inj (hleaf.symm.trans hleaf')
  exact ⟨n, hn, href⟩

/-- The figure of a node shows it. -/
theorem Anchored.shows_figure {ctx : Context} (h : Anchored ctx p) {place : List Nat}
    {node : ProofTree} (hnode : p.nodeAt? place = some node) :
    Shows node (p.DischargedAbove place) (node.figure p.allDischarged) := by
  rw [figure_eq]
  split
  case isTrue hrule =>
    obtain ⟨n, hn, href⟩ := h.exists_number hnode hrule
    have hclosed : (∃ m ∈ node.reference, m ∈ p.allDischarged) ↔ p.DischargedAbove place := by
      rw [(h.dischargedAbove_iff hn).1, href]
      simp
    rw [leafText]
    split
    case isTrue hmem => exact .bracketedLeaf hrule (hclosed.mp hmem)
    case isFalse hmem => exact .leaf hrule fun habove => hmem (hclosed.mpr habove)
  case isFalse hrule => exact .inference _ hrule

/-- **A text that a tree can be rebuilt from.** The lines of its environment
draw one figure, without taking from too short a stack. The figure has a node
where the tree has one, and shows there what the tree has; a leaf is in brackets
if a node above it discharges its number. -/
def RebuiltFrom (p : ProofTree) (text : String) : Prop :=
  ∃ t, Figure.read (bodyLines text) = some t
    ∧ ∀ place, Option.Rel (fun node s => Shows node (p.DischargedAbove place) s)
      (p.nodeAt? place) (t.nodeAt? place)

theorem Shows.oneLine_claim {node : ProofTree} {bracketed : Prop} {s : Figure}
    (h : Shows node bracketed s) (hs : Text.OneLine s.formula) : Text.OneLine node.claim.tex := by
  cases h with
  | leaf | inference => exact hs
  | bracketedLeaf => exact (Text.oneLine_append.mp (Text.oneLine_append.mp hs).1).2

/-- **A claim with a newline is not read from any text.** -/
theorem RebuiltFrom.oneLine {text : String} (h : p.RebuiltFrom text) :
    p.Everywhere fun node => Text.OneLine node.claim.tex := by
  obtain ⟨t, hread, hshows⟩ := h
  intro place node hnode
  have hrel := hshows place
  rw [hnode] at hrel
  generalize hs : t.nodeAt? place = shown at hrel
  cases hrel with
  | some hshow => exact hshow.oneLine_claim (oneLine_read hread place _ hs)

/-! ## The drawing -/

/-- **The TeX drawing rebuilds the proof.** An accepted tree with numbers only
where they belong and no newline in a claim is drawn as an environment and
nothing else, and the tree can be rebuilt from the lines inside it. That a leaf
is in brackets, as a node above it discharges its number, is so if and only if
the context does not have the number. -/
theorem drawTex_rebuilds {ctx : Context} (htidy : p.Everywhere Tidy)
    (hcheck : p.check ctx = .ok ())
    (hclaims : p.Everywhere fun node => Text.OneLine node.claim.tex) :
    ∃ text, p.drawTex = .ok text
      ∧ Text.lines text = beginLine :: bodyLines text ++ [endLine, ""]
      ∧ p.RebuiltFrom text
      ∧ ∀ place leaf, p.nodeAt? place = some leaf → leaf.rule = .assumption →
        ∃ n, leaf.reference = some n ∧ (p.DischargedAbove place ↔ n ∉ ctx.numbers) := by
  have hshape : p.Everywhere HasShape := hasShape_of_check hcheck
  have hanchored : Anchored ctx p := anchored_of_check hcheck htidy.discharged_leaves
  obtain ⟨body, hbody⟩ := texLines_eq_ok hshape p.allDischarged 1
  obtain ⟨text, htext, hlines⟩ := lines_drawTex hbody hclaims
  have hrun := runLines_texLines hbody []
  have hinside : bodyLines text = body := bodyLines_eq hlines hrun
  refine ⟨text, htext, by rw [hlines, hinside], ⟨p.figure p.allDischarged, ?_, fun place => ?_⟩,
    fun place leaf hleaf hrule => ?_⟩
  · rw [hinside, Figure.read, hrun]
  · rw [nodeAt?_figure hshape]
    cases hnode : p.nodeAt? place with
    | none => exact .none
    | some node => exact .some (hanchored.shows_figure hnode)
  · obtain ⟨n, hn, href⟩ := hanchored.exists_number hleaf hrule
    exact ⟨n, href, (hanchored.dischargedAbove_iff hn).2⟩

/-- In a proof by cases from an assumption of the context, the cases are in
brackets and the assumption is not. -/
theorem drawTex_rebuilds_swapCases :
    ∃ text, swapCases.drawTex = .ok text
      ∧ Text.lines text =
        ["\\begin\x7bprooftree\x7d",
          "    \\AxiomC\x7b$A \\lor B$\x7d",
          "      \\AxiomC\x7b$[A]$\x7d",
          "    \\RightLabel\x7b\\scriptsize $\\lor$I\x7d",
          "    \\UnaryInfC\x7b$B \\lor A$\x7d",
          "      \\AxiomC\x7b$[B]$\x7d",
          "    \\RightLabel\x7b\\scriptsize $\\lor$I\x7d",
          "    \\UnaryInfC\x7b$B \\lor A$\x7d",
          "  \\RightLabel\x7b\\scriptsize $\\lor$E\x7d",
          "  \\TrinaryInfC\x7b$B \\lor A$\x7d",
          "\\end\x7bprooftree\x7d",
          ""]
      ∧ swapCases.RebuiltFrom text
      ∧ swapCases.DischargedAbove [1, 0] ∧ ¬ swapCases.DischargedAbove [0] := by
  have htidy : swapCases.Everywhere Tidy := by
    have hnodes : ∀ e ∈ swapCases.nodes, (e.2.rule ≠ .assumption → e.2.reference = none)
        ∧ (e.2.rule ≠ .impIntro → e.2.rule ≠ .orElim → e.2.discharged = []) := by decide +kernel
    exact everywhere_iff_nodes.mpr fun e he => ⟨(hnodes e he).1, (hnodes e he).2⟩
  have hcheck : swapCases.check ⟨[⟨.or (.atom "A") (.atom "B"), 1⟩]⟩ = .ok () := by decide +kernel
  have hclaims : swapCases.Everywhere fun node => Text.OneLine node.claim.tex :=
    everywhere_iff_nodes.mpr (by decide +kernel)
  obtain ⟨text, htext, -, hrebuilt, hclosed⟩ := drawTex_rebuilds htidy hcheck hclaims
  refine ⟨text, htext, ?_, hrebuilt, ?_, ?_⟩
  · have hbody : swapCases.texLines swapCases.allDischarged 1 = .ok _ := rfl
    obtain ⟨text', htext', hlines⟩ := lines_drawTex hbody hclaims
    obtain rfl := Except.ok.inj (htext.symm.trans htext')
    rw [hlines]
    decide +kernel
  · obtain ⟨n, hn, hiff⟩ := hclosed [1, 0] _ rfl rfl
    obtain rfl := Option.some.inj hn
    exact hiff.mpr (by decide)
  · obtain ⟨n, hn, hiff⟩ := hclosed [0] _ rfl rfl
    obtain rfl := Option.some.inj hn
    exact fun habove => hiff.mp habove (by decide)

/-- A leaf whose name goes on in the next line, with another command. -/
def brokenLeaf : ProofTree :=
  .ofAssumption ⟨.atom "A$\x7d\n  \\AxiomC\x7b$B", 1⟩

/-- **A newline in a name makes another figure.** The leaf is accepted, with
numbers only where they belong. Its drawing has the lines of two leaves, which
are not read as one figure, so the tree is not rebuilt from it. -/
theorem drawTex_brokenLeaf :
    brokenLeaf.Everywhere Tidy
    ∧ brokenLeaf.check ⟨[⟨.atom "A$\x7d\n  \\AxiomC\x7b$B", 1⟩]⟩ = .ok ()
    ∧ ∃ text, brokenLeaf.drawTex = .ok text
      ∧ Text.lines text =
        ["\\begin\x7bprooftree\x7d",
          "  \\AxiomC\x7b$A$\x7d",
          "  \\AxiomC\x7b$B$\x7d",
          "\\end\x7bprooftree\x7d",
          ""]
      ∧ Figure.read (bodyLines text) = none
      ∧ ¬ brokenLeaf.RebuiltFrom text := by
  have htidy : brokenLeaf.Everywhere Tidy :=
    everywhere_iff.mpr ⟨⟨fun hrule => absurd rfl hrule, fun _ _ => rfl⟩,
      fun q hq => absurd hq List.not_mem_nil⟩
  refine ⟨htidy, by decide +kernel, _, rfl, ?_, ?_, fun hrebuilt => ?_⟩
  · decide +kernel
  · refine Option.isNone_iff_eq_none.mp ?_
    decide +kernel
  · exact absurd hrebuilt.oneLine.root (by decide +kernel)

end ProofTree

end NaturalDeduction
