/-
Lean model of `Parse` and `parseLine` of `builder/dockerfile/parser/parser.go`: the line bookkeeping of the
Dockerfile parser.

The input is scanned into lines as `bufio.ScanLines` does (`scanLines`). `Parse` has an outer loop over instructions
and an inner loop that reads continuation lines from the same scanner; the model reads one line at a time, in the
mode of the loop that would read it (`Mode.scan` or `Mode.cont`), and `finish` is the code after the inner loop
when the input ends inside a continuation. What the line parsers of `line_parsers.go` build from an instruction
(`splitCommand` and `fullDispatch`) is the parameter `instruction`: the line numbers never look into it.

`parse_lines` is what the code guarantees: children are numbered from 1, each ends no earlier than it starts and
before the next one starts, the root ends where the last child ends, and the root starts where the FIRST CHILD
ENDS. `parse_root_start` shows that last point at `"FROM a \\\nb\n"`.
-/
import Mathlib.Tactic
import DockerEngine.Go.Strings

namespace DockerEngine.Parser

open DockerEngine.Go

/-! ## Lines -/

/-- `dropCR` of `bufio`: drop one trailing carriage return -/
def dropCR (s : Text) : Text := if s.getLast? = some '\r' then s.dropLast else s

/-- `bufio.ScanLines` run to the end: `cur` holds the current line, reversed -/
def scanLinesAux (cur : Text) : Text → List Text
  | [] => if cur = [] then [] else [dropCR cur.reverse]
  | '\n' :: cs => dropCR cur.reverse :: scanLinesAux [] cs
  | c :: cs => scanLinesAux (c :: cur) cs

/-- the lines `scanner.Scan()` yields -/
def scanLines (s : Text) : List Text := scanLinesAux [] s

/-- `stripComments`: `tokenComment` is `^#.*$` and a line holds no newline -/
def stripComments (s : Text) : Text := if s.head? = some '#' then [] else s

/-- `tokenLineContinuation` (`\\[ \t]*$`): the line without its final backslash and the blanks after it -/
def lineContinuation (s : Text) : Option Text :=
  let t := s.rdropWhile fun c => c = ' ' ∨ c = '\t'
  if t.getLast? = some '\\' then some t.dropLast else none

/-! ## `Parse` -/

section Parse

variable {α : Type} (instruction : Text → Except String α)

/-- `parseLine(line)`: the rest of a continued line, or the instruction's node -/
def parseLine (line : Text) : Except String (Text × Option α) :=
  let line := stripComments line
  if line = [] then .ok ([], none)
  else
    match lineContinuation line with
    | some rest => .ok (rest, none)
    | none => (instruction line).map fun n => ([], some n)

theorem parseLine_continued {line rest : Text} (hl : stripComments line ≠ [])
    (hc : lineContinuation (stripComments line) = some rest) : parseLine instruction line = .ok (rest, none) := by
  simp only [parseLine, hl, if_false, hc]

theorem parseLine_instruction {line : Text} {n : α} (hl : stripComments line ≠ [])
    (hc : lineContinuation (stripComments line) = none) (hn : instruction (stripComments line) = .ok n) :
    parseLine instruction line = .ok ([], some n) := by
  simp only [parseLine, hl, if_false, hc, hn]
  rfl

/-- a child of the root: the instruction's node and its line information -/
structure Node (α : Type) where
  inst : α
  startLine : ℤ
  endLine : ℤ

structure Root (α : Type) where
  children : List (Node α)
  startLine : ℤ
  endLine : ℤ

/-- the loop reading the next line: the outer one, or the inner one continuing `line` from `startLine` -/
inductive Mode where
  | scan
  | cont (line : Text) (startLine : ℕ)

structure St (α : Type) where
  root : Root α
  currentLine : ℕ
  mode : Mode

/-- the update of the root once `child` is parsed, at `currentLine` -/
def addChild (root : Root α) (n : α) (startLine currentLine : ℕ) : Root α :=
  { children := root.children ++ [⟨n, startLine, currentLine⟩]
    startLine := if root.startLine < 0 then currentLine else root.startLine
    endLine := currentLine }

/-- one scanned line -/
def step (st : St α) (l : Text) : Except String (St α) :=
  let cur := st.currentLine + 1
  match st.mode with
  | .scan => do
    let (line, child) ← parseLine instruction (trimLeft l)
    match child with
    | some n => pure ⟨addChild st.root n cur cur, cur, .scan⟩
    | none => pure ⟨st.root, cur, if line ≠ [] then .cont line cur else .scan⟩
  | .cont line start =>
    if stripComments (trimSpace l) = [] then pure ⟨st.root, cur, .cont line start⟩
    else do
      let (line, child) ← parseLine instruction (line ++ l)
      match child with
      | some n => pure ⟨addChild st.root n start cur, cur, .scan⟩
      | none => pure ⟨st.root, cur, .cont line start⟩

/-- the end of the input: `if child == nil && line != ""` after the inner loop -/
def finish (st : St α) : Except String (Root α) :=
  match st.mode with
  | .scan => pure st.root
  | .cont line start =>
    if line ≠ [] then do
      let (_, child) ← parseLine instruction line
      match child with
      | some n => pure (addChild st.root n start st.currentLine)
      | none => pure st.root
    else pure st.root

def init : St α := ⟨⟨[], -1, 0⟩, 0, .scan⟩

/-- `Parse(rwc)` -/
def parse (text : Text) : Except String (Root α) := do
  let st ← (scanLines text).foldlM (step instruction) init
  finish instruction st

/-! ## Line information over a whole parse -/

/-- the line information the parse has built so far -/
structure Lines (st : St α) : Prop where
  bounds : ∀ c ∈ st.root.children, 1 ≤ c.startLine ∧ c.startLine ≤ c.endLine ∧ c.endLine ≤ st.currentLine
  ordered : st.root.children.IsChain fun a b => a.endLine < b.startLine
  /-- the root starts where its first child ENDS -/
  first : st.root.startLine = (st.root.children.head?.map (·.endLine)).getD (-1)
  last : ∀ c ∈ st.root.children.getLast?, st.root.endLine = c.endLine
  /-- an instruction being continued starts after every child -/
  pending : ∀ line start, st.mode = .cont line start →
    1 ≤ start ∧ start ≤ st.currentLine ∧ ∀ c ∈ st.root.children, c.endLine < start

theorem init_lines : Lines (init : St α) where
  bounds := by simp [init]
  ordered := List.IsChain.nil
  first := rfl
  last := by simp [init]
  pending := by simp [init]

variable {instruction}

/-- a new child that starts after every child and ends at the current line -/
theorem addChild_lines {st : St α} (h : Lines st) (n : α) {start cur : ℕ} (hs : 1 ≤ start) (hsc : start ≤ cur)
    (hcur : st.currentLine ≤ cur) (hafter : ∀ c ∈ st.root.children, c.endLine < start) :
    Lines ⟨addChild st.root n start cur, cur, .scan⟩ where
  bounds := by
    intro c hc
    rcases List.mem_append.mp hc with hc | hc
    · obtain ⟨h1, h2, h3⟩ := h.bounds c hc
      exact ⟨h1, h2, by simp only at h3 ⊢; omega⟩
    · rw [List.mem_singleton] at hc
      subst hc
      simp only
      omega
  ordered := by
    apply h.ordered.append (List.IsChain.singleton _)
    intro x hx y hy
    rw [List.head?_singleton, Option.mem_some_iff] at hy
    subst hy
    exact hafter x (List.mem_of_getLast? hx)
  first := by
    have hfirst := h.first
    simp only [addChild]
    cases hch : st.root.children with
    | nil =>
      rw [hch] at hfirst
      simp [hfirst]
    | cons c cs =>
      rw [hch] at hfirst
      -- the root already has a first child, which starts on line 1 or later
      obtain ⟨h1, h2, -⟩ := h.bounds c (by rw [hch]; exact List.mem_cons_self)
      simp only [List.head?_cons, Option.map_some, Option.getD_some] at hfirst
      simp [hfirst]
      omega
  last := by
    intro c hc
    simp only [addChild, List.getLast?_append, List.getLast?_singleton, Option.some_or, Option.mem_some_iff] at hc ⊢
    rw [← hc]
  pending := by
    intro line start' hm
    cases hm

/-- a line that adds no child -/
theorem Lines.tick {st : St α} (h : Lines st) {cur : ℕ} (hcur : st.currentLine ≤ cur) {mode : Mode}
    (hm : ∀ line start, mode = .cont line start →
      1 ≤ start ∧ start ≤ cur ∧ ∀ c ∈ st.root.children, c.endLine < start) :
    Lines ⟨st.root, cur, mode⟩ where
  bounds := by
    intro c hc
    obtain ⟨h1, h2, h3⟩ := h.bounds c hc
    exact ⟨h1, h2, by simp only at h3 ⊢; omega⟩
  ordered := h.ordered
  first := h.first
  last := h.last
  pending := hm

/-- every scanned line keeps the line information right -/
theorem step_lines {st st' : St α} {l : Text} (h : Lines st) (hs : step instruction st l = .ok st') :
    Lines st' := by
  unfold step at hs
  split at hs
  · -- the outer loop
    rename_i hmode
    cases hp : parseLine instruction (trimLeft l) with
    | error e =>
      rw [hp] at hs
      cases hs
    | ok r =>
      obtain ⟨line, child⟩ := r
      rw [hp] at hs
      cases child with
      | some n =>
        -- a one-line instruction
        cases hs
        exact addChild_lines h n (by omega) le_rfl (by omega)
          fun c hc => by have := (h.bounds c hc).2.2; omega
      | none =>
        cases hs
        refine h.tick (by omega) fun line' start hm => ?_
        split at hm
        · cases hm
          exact ⟨by omega, le_rfl, fun c hc => by have := (h.bounds c hc).2.2; omega⟩
        · cases hm
  · -- the continuation loop
    rename_i line start hmode
    obtain ⟨hs1, hs2, hafter⟩ := h.pending line start hmode
    split at hs
    · -- a blank or comment line inside the continuation
      cases hs
      exact h.tick (by omega) fun line' start' hm => by
        cases hm
        exact ⟨hs1, by omega, hafter⟩
    · cases hp : parseLine instruction (line ++ l) with
      | error e =>
        rw [hp] at hs
        cases hs
      | ok r =>
        obtain ⟨line', child⟩ := r
        rw [hp] at hs
        cases child with
        | some n =>
          cases hs
          exact addChild_lines h n hs1 (by omega) (by omega) hafter
        | none =>
          cases hs
          exact h.tick (by omega) fun line'' start' hm => by
            cases hm
            exact ⟨hs1, by omega, hafter⟩

/-- the parse keeps the line information right over all the lines -/
theorem foldlM_lines (lines : List Text) {st st' : St α} (h : Lines st)
    (hs : lines.foldlM (step instruction) st = .ok st') : Lines st' := by
  induction lines generalizing st with
  | nil =>
    cases hs
    exact h
  | cons l lines ih =>
    rw [List.foldlM_cons] at hs
    cases hstep : step instruction st l with
    | error e =>
      rw [hstep] at hs
      cases hs
    | ok st₁ =>
      rw [hstep] at hs
      exact ih (step_lines h hstep) hs

/-- the root `finish` returns, from line information that is right -/
theorem finish_lines {st : St α} {root : Root α} (h : Lines st) (hf : finish instruction st = .ok root) :
    ∃ st' : St α, Lines st' ∧ st'.root = root := by
  unfold finish at hf
  split at hf
  · cases hf
    exact ⟨st, h, rfl⟩
  · rename_i line start hmode
    obtain ⟨hs1, hs2, hafter⟩ := h.pending line start hmode
    split at hf
    · cases hp : parseLine instruction line with
      | error e =>
        rw [hp] at hf
        cases hf
      | ok r =>
        obtain ⟨line', child⟩ := r
        rw [hp] at hf
        cases child with
        | some n =>
          -- the input ended inside a continuation: the instruction ends on the last line
          cases hf
          exact ⟨_, addChild_lines h n hs1 hs2 le_rfl hafter, rfl⟩
        | none =>
          cases hf
          exact ⟨st, h, rfl⟩
    · cases hf
      exact ⟨st, h, rfl⟩

/-- what `Parse` guarantees of its line information: every child starts on line 1 or later and ends no earlier
than it starts, each ends before the next starts, the root ends where its last child ends, and the root starts
where its first child ends (`-1` without children) -/
theorem parse_lines (text : Text) (root : Root α) (h : parse instruction text = .ok root) :
    (∀ c ∈ root.children, 1 ≤ c.startLine ∧ c.startLine ≤ c.endLine) ∧
    root.children.IsChain (fun a b => a.endLine < b.startLine) ∧
    root.startLine = (root.children.head?.map (·.endLine)).getD (-1) ∧
    ∀ c ∈ root.children.getLast?, root.endLine = c.endLine := by
  unfold parse at h
  cases hfold : (scanLines text).foldlM (step instruction) init with
  | error e =>
    rw [hfold] at h
    cases h
  | ok st =>
    rw [hfold] at h
    obtain ⟨st', hl, rfl⟩ := finish_lines (foldlM_lines _ init_lines hfold) h
    exact ⟨fun c hc => ⟨(hl.bounds c hc).1, (hl.bounds c hc).2.1⟩, hl.ordered, hl.first, hl.last⟩

/-- at `"FROM a \\\nb\n"` the instruction starts on line 1 and ends on line 2, and the root starts on line 2 -/
theorem parse_root_start (n : α) (hn : instruction "FROM a b".toList = .ok n) :
    (parse instruction "FROM a \\\nb\n".toList).map (fun r => (r.startLine, r.children.map (·.startLine))) =
      .ok (2, [1]) := by
  have hscan : scanLines "FROM a \\\nb\n".toList = ["FROM a \\".toList, "b".toList] := by decide
  have hfirst : parseLine instruction (trimLeft "FROM a \\".toList) = .ok ("FROM a ".toList, none) :=
    parseLine_continued instruction (by decide) (by decide)
  have hsecond : parseLine instruction ("FROM a ".toList ++ "b".toList) = .ok ([], some n) :=
    parseLine_instruction instruction (by decide) (by decide) hn
  have hblank : stripComments (trimSpace "b".toList) ≠ [] := by decide
  -- line 1 opens a continuation, line 2 ends the instruction
  have h1 : step instruction init "FROM a \\".toList = .ok ⟨⟨[], -1, 0⟩, 1, .cont "FROM a ".toList 1⟩ := by
    simp only [step, init, hfirst]
    rfl
  have h2 : step instruction ⟨⟨[], -1, 0⟩, 1, .cont "FROM a ".toList 1⟩ "b".toList =
      .ok ⟨addChild ⟨[], -1, 0⟩ n 1 2, 2, .scan⟩ := by
    simp only [step, hblank, if_false, hsecond]
    rfl
  have hfold : (scanLines "FROM a \\\nb\n".toList).foldlM (step instruction) init =
      .ok ⟨addChild ⟨[], -1, 0⟩ n 1 2, 2, .scan⟩ := by
    rw [hscan, List.foldlM_cons, h1]
    show List.foldlM (step instruction) _ ["b".toList] = _
    rw [List.foldlM_cons, h2]
    rfl
  unfold parse
  rw [hfold]
  rfl

/-- the same with the line parsers keeping each instruction's line, as `node.Original` does -/
theorem parse_root_start_original :
    (fun s : Text => (Except.ok s : Except String Text)) "FROM a b".toList = .ok "FROM a b".toList ∧
    (parse (fun s : Text => (Except.ok s : Except String Text)) "FROM a \\\nb\n".toList).map
      (fun r => (r.startLine, r.children.map (·.startLine))) = .ok (2, [1]) :=
  ⟨rfl, @parse_root_start Text (fun s => Except.ok s) _ rfl⟩

end Parse

end DockerEngine.Parser
