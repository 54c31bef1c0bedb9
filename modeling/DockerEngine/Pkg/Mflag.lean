/-
Lean model of the parsing loop of `pkg/mflag/flag.go`: `parseOne`, which reads one argument (and the value of a flag
that takes one), and `Parse`, whose loop calls it until the flags end and, when an argument names no flag, tries it
letter by letter (`ErrRetry`).

A flag set is what the loop reads of it: `fs.formal`, each flag's `IsBoolFlag`, and its `Value.Set`, which leaves a
value whether it fails or not (`boolValue.Set` stores the `false` of a failed `strconv.ParseBool`). The loop changes
`fs.args`, the flags' values and `fs.actual`. Only `ContinueOnError` is modelled: `Parse` returns the error. What is
printed (usage, deprecation warnings, the text of `failf`) is left out. `trimQuotes` slices `str[1:0]` for a value
that is one quote, which panics (`none`).

Each call of `parseOne` that lets the loop go on takes at least one argument (`parseOne_progress`), so the loop is run
on as many calls as there are arguments, plus one, and any more calls give the same result (`parseLoop_congr`). A
`Parse` without an error leaves as `Args()` what is left of its arguments (`run_suffix_of_ok`): from the first one that
is no flag (`run_of_not_flag`), or after `--` (`run_of_terminator`).

Combined short flags `-abc` are read as `-a -b -c` when their letters are flags, the first ones bool flags
(`run_combined_of_ne_help`), except when the letters spell `help`: that argument is the request for help whatever
flags `h`, `e`, `l` and `p` are (`parse_combined_help`).
-/
import DockerEngine.Go.Strconv

namespace DockerEngine.Mflag

open Go Go.Strconv

/-- the errors of `parseOne` and `Parse`: `ErrHelp`, `ErrRetry`, and those of `fs.failf`, with the error `E` of a
flag's `Value.Set` -/
inductive FlagError (E : Type) where
  /-- `ErrHelp`, "flag: help requested" -/
  | help
  /-- `ErrRetry`, "flag: retry" -/
  | retry
  /-- "bad flag syntax: %s" -/
  | badSyntax (s : Text)
  /-- "flag provided but not defined: -%s" -/
  | notDefined (name : Text)
  /-- "invalid boolean value %q for  -%s: %v" -/
  | invalidBool (value name : Text) (err : E)
  /-- "flag needs an argument: -%s" -/
  | needsArgument (name : Text)
  /-- "invalid value %q for flag -%s: %v" -/
  | invalidValue (value name : Text) (err : E)
  deriving DecidableEq, Repr

/-- what the loop reads of a `FlagSet`: the flag of each name, and each flag's `IsBoolFlag` and `Value.Set` (the value
it leaves, and its error) -/
structure FlagSet (ι V E : Type) where
  formal : Text → Option ι
  isBoolFlag : ι → Bool
  set : ι → Text → V → V × Option E

/-- what the loop changes: `fs.args`, the flags' values and `fs.actual` -/
structure State (ι V : Type) where
  args : List Text
  values : ι → V
  actual : Text → Option ι

/-- what `parseOne` returns: whether a flag was seen, the name to retry letter by letter, and the error -/
abbrev OneResult (E : Type) := Bool × Text × Option (FlagError E)

/-- `len` of a Go string: its bytes in UTF-8 -/
def byteLen (s : Text) : ℕ := (s.map Char.utf8Size).sum

theorem length_le_byteLen (s : Text) : s.length ≤ byteLen s := by
  -- every character takes one byte or more
  have h := List.length_le_sum_of_one_le (s.map Char.utf8Size) fun n hn => by
    obtain ⟨c, -, rfl⟩ := List.mem_map.mp hn
    exact Char.utf8Size_pos c
  rwa [List.length_map] at h

/-- `trimQuotes(str)`: one pair of outer double or single quotes taken off; `none` for the panic of `str[1:0]` on a
single quote -/
def trimQuotes (str : Text) : Option Text :=
  match str with
  | [] => some str
  | c :: _ =>
    if (c = '"' ∧ str.getLast? = some '"') ∨ (c = '\'' ∧ str.getLast? = some '\'') then
      if str.length < 2 then none else some (str.drop 1).dropLast
    else some str

variable {ι V E : Type} [DecidableEq ι] (fs : FlagSet ι V E)

/-- `flag.Value.Set(value)`: the value `Set` leaves, and its error -/
def State.setValue (st : State ι V) (i : ι) (value : Text) : State ι V × Option E :=
  let r := fs.set i value (st.values i)
  ({ st with values := Function.update st.values i r.1 }, r.2)

/-- `fs.actual[name] = flag`, and the flag is seen -/
def State.markActual (st : State ι V) (name : Text) (i : ι) : OneResult E × State ι V :=
  ((true, [], none), { st with actual := Function.update st.actual name (some i) })

/-- the end of `parseOne` for a defined flag `i`: a bool flag is set to its value or `"true"`; another takes its value
from the argument or from the next one -/
def setFlag (i : ι) (name : Text) (hasValue : Bool) (value : Text) (st : State ι V) : OneResult E × State ι V :=
  if fs.isBoolFlag i then
    if hasValue then
      let r := st.setValue fs i value
      match r.2 with
      | some err => ((false, [], some (.invalidBool value name err)), r.1)
      | none => r.1.markActual name i
    else (st.setValue fs i "true".toList).1.markActual name i
  else
    -- it must have a value, which might be the next argument
    match hasValue, st.args with
    | false, [] => ((false, [], some (.needsArgument name)), st)
    | false, v :: args => valueOf v { st with args }
    | true, _ => valueOf value st
where
  valueOf (value : Text) (st : State ι V) : OneResult E × State ι V :=
    let r := st.setValue fs i value
    match r.2 with
    | some err => ((false, [], some (.invalidValue value name err)), r.1)
    | none => r.1.markActual name i

/-- `parseOne` after the argument is taken: the flag of `name`, or for an undefined name the request for help, an
error, or `ErrRetry` -/
def lookupFlag (name : Text) (hasValue : Bool) (value : Text) (st : State ι V) : OneResult E × State ι V :=
  match fs.formal name with
  | some i => setFlag fs i name hasValue value st
  | none =>
    if name = "-help".toList ∨ name = "help".toList ∨ name = "h".toList then ((false, [], some .help), st)
    else if name.head? = some '-' then ((false, [], some (.notDefined name)), st)
    else ((false, name, some .retry), st)

/-- `fs.parseOne()`; `none` where it panics -/
def parseOne (st : State ι V) : Option (OneResult E × State ι V) :=
  match st.args with
  | ('-' :: c :: rest) :: args =>
    -- "--" terminates the flags
    if c = '-' ∧ rest = [] then some ((false, [], none), { st with args })
    else if c = '=' then some ((false, [], some (.badSyntax ('-' :: c :: rest))), st)
    else
      -- it's a flag. does it have an argument?
      match cutRune '=' (c :: rest) with
      | some (name, value) => (trimQuotes value).map fun value => lookupFlag fs name true value { st with args }
      | none => some (lookupFlag fs (c :: rest) false [] { st with args })
  -- no argument, or one that is empty, has no leading '-', or is "-" alone: not a flag
  | _ => some ((false, [], none), st)

/-- the loop of `Parse` over the letters of `name` after `ErrRetry`: each is pushed back as `-letter` and parsed; the
first that fails makes the whole name undefined -/
def retryLetters (name : Text) : List Char → State ι V → Option (Option (FlagError E) × State ι V)
  | [], st => some (none, st)
  | letter :: letters, st =>
    (parseOne fs { st with args := ['-', letter] :: st.args }).bind fun (r, st) =>
      if r.1 then retryLetters name letters st
      else if r.2.2.isSome then some (some (.notDefined name), st)
      else retryLetters name letters st

/-- the loop of `Parse` with `ContinueOnError`, on at most `fuel` calls of `parseOne` -/
def parseLoop : ℕ → State ι V → Option (Option (FlagError E) × State ι V)
  | 0, st => some (none, st)
  | fuel + 1, st =>
    (parseOne fs st).bind fun (r, st) =>
      if r.1 then parseLoop fuel st
      else
        match r.2.2 with
        | none => some (none, st)
        | some .retry =>
          if 1 < byteLen r.2.1 then
            (retryLetters fs r.2.1 r.2.1 st).bind fun (err, st) =>
              match err with
              | none => parseLoop fuel st
              | some err => some (some err, st)
          else some (some (.notDefined r.2.1), st)
        | some err => some (some err, st)

/-- the loop from a state, on one call more than there are arguments -/
def run (st : State ι V) : Option (Option (FlagError E) × State ι V) := parseLoop fs (st.args.length + 1) st

/-- `fs.Parse(arguments)`: the error it returns and the flag set it leaves; `none` where it panics -/
def parse (arguments : List Text) (st : State ι V) : Option (Option (FlagError E) × State ι V) :=
  run fs { st with args := arguments }

/-- what `setFlag` can return: the flag seen, or an error other than `ErrRetry` -/
def Settled (r : OneResult E) : Prop := r = (true, [], none) ∨ ∃ e, r = (false, [], some e) ∧ e ≠ .retry

/-- the loop's outcome as the claim compares it: a panic, or whether an error came and the flag set left -/
def outcome (o : Option (Option (FlagError E) × State ι V)) : Option (Bool × State ι V) :=
  o.map fun p => (p.1.isSome, p.2)

/-! ## One call of `parseOne` -/

section One

variable {fs}

@[simp] theorem setValue_args (st : State ι V) (i : ι) (value : Text) : (st.setValue fs i value).1.args = st.args :=
  rfl

omit [DecidableEq ι] in
@[simp] theorem markActual_args (st : State ι V) (name : Text) (i : ι) :
    (st.markActual (E := E) name i).2.args = st.args := rfl

theorem valueOf_spec (i : ι) (name value : Text) (st : State ι V) :
    Settled (setFlag.valueOf fs i name value st).1 ∧ (setFlag.valueOf fs i name value st).2.args = st.args := by
  unfold setFlag.valueOf
  dsimp only
  split
  · exact ⟨.inr ⟨_, rfl, nofun⟩, rfl⟩
  · exact ⟨.inl rfl, rfl⟩

/-- a defined flag is seen or fails with its own error; it takes at most the next argument -/
theorem setFlag_spec (i : ι) (name : Text) (hasValue : Bool) (value : Text) (st : State ι V) :
    Settled (setFlag fs i name hasValue value st).1 ∧ (setFlag fs i name hasValue value st).2.args <:+ st.args := by
  unfold setFlag
  split_ifs with hbool hv
  · dsimp only
    split
    · exact ⟨.inr ⟨_, rfl, nofun⟩, List.suffix_refl _⟩
    · exact ⟨.inl rfl, List.suffix_refl _⟩
  · exact ⟨.inl rfl, List.suffix_refl _⟩
  · split
    · exact ⟨.inr ⟨_, rfl, nofun⟩, List.suffix_refl _⟩
    · rename_i v args hargs
      obtain ⟨hs, ha⟩ := valueOf_spec i name v { st with args }
      refine ⟨hs, ?_⟩
      rw [ha, hargs]
      exact List.suffix_cons v args
    · obtain ⟨hs, ha⟩ := valueOf_spec i name value st
      exact ⟨hs, ha ▸ List.suffix_refl _⟩

theorem setFlag_of_isBoolFlag {i : ι} (hb : fs.isBoolFlag i = true) (name value : Text) (st : State ι V) :
    setFlag fs i name false value st = (st.setValue fs i "true".toList).1.markActual name i := by
  simp [setFlag, hb]

theorem lookupFlag_suffix (name : Text) (hasValue : Bool) (value : Text) (st : State ι V) :
    (lookupFlag fs name hasValue value st).2.args <:+ st.args := by
  unfold lookupFlag
  split
  · exact (setFlag_spec _ _ _ _ _).2
  · split_ifs <;> exact List.suffix_refl _

/-- an argument `-c...` other than `-=...` is taken, with at most the next one -/
theorem parseOne_pops {st st' : State ι V} {r : OneResult E} {c : Char} {rest : Text} {args : List Text}
    (hargs : st.args = ('-' :: c :: rest) :: args) (hc : c ≠ '=') (h : parseOne fs st = some (r, st')) :
    st'.args <:+ args := by
  simp only [parseOne, hargs, if_neg hc] at h
  split_ifs at h with hdash
  · cases h
    exact List.suffix_refl _
  · split at h
    · rename_i name value _
      obtain ⟨v, -, hv⟩ := Option.map_eq_some_iff.mp h
      have hl := @lookupFlag_suffix ι V E _ fs name true v { st with args }
      rw [hv] at hl
      exact hl
    · have hl := @lookupFlag_suffix ι V E _ fs (c :: rest) false [] { st with args }
      rw [Option.some.inj h] at hl
      exact hl

/-- a call that sees a flag or asks for a retry has taken an argument -/
theorem parseOne_progress {st st' : State ι V} {r : OneResult E} (h : parseOne fs st = some (r, st'))
    (hr : r.1 = true ∨ r.2.2 = some .retry) : st'.args.length < st.args.length := by
  have h0 := h
  unfold parseOne at h
  split at h
  · rename_i c rest args hargs
    by_cases hc : c = '='
    · -- `-=...` is a bad syntax
      subst hc
      simp only [show ('=' : Char) ≠ '-' by decide, false_and, if_false, if_true, Option.some.injEq] at h
      cases h
      simp at hr
    · have hpop := (parseOne_pops hargs hc h0).length_le
      rw [hargs, List.length_cons]
      omega
  · cases h
    simp at hr

/-- a call never adds arguments -/
theorem parseOne_suffix {st st' : State ι V} {r : OneResult E} (h : parseOne fs st = some (r, st')) :
    st'.args <:+ st.args := by
  have h0 := h
  unfold parseOne at h
  split at h
  · rename_i c rest args hargs
    by_cases hc : c = '='
    · subst hc
      simp only [show ('=' : Char) ≠ '-' by decide, false_and, if_false, if_true, Option.some.injEq] at h
      cases h
      exact List.suffix_refl _
    · rw [hargs]
      exact (parseOne_pops hargs hc h0).trans (List.suffix_cons _ _)
  · cases h
    exact List.suffix_refl _

end One

/-! ## The loop -/

section Loop

variable {fs}

/-- the letters pushed back and parsed without an error leave no more arguments than there were -/
theorem retryLetters_suffix (name : Text) : ∀ (letters : List Char) (st st' : State ι V),
    retryLetters fs name letters st = some (none, st') → st'.args <:+ st.args
  | [], st, st', h => by
    cases h
    exact List.suffix_refl _
  | letter :: letters, st, st', h => by
    rw [retryLetters] at h
    obtain ⟨⟨r, st₁⟩, hone, h⟩ := Option.bind_eq_some_iff.mp h
    dsimp only at h
    -- each way on takes the pushed letter back: it was seen, or it was "--"
    have hpop : r.1 = true ∨ r.2.2 = none → st₁.args <:+ st.args := by
      intro hr
      by_cases hc : letter = '='
      · subst hc
        simp only [parseOne, show ('=' : Char) ≠ '-' by decide, false_and, if_false, if_true,
          Option.some.injEq] at hone
        cases hone
        simp at hr
      · exact parseOne_pops rfl hc hone
    split_ifs at h with hseen herr
    · exact (retryLetters_suffix name letters st₁ st' h).trans (hpop (.inl hseen))
    · cases h
    · exact (retryLetters_suffix name letters st₁ st' h).trans (hpop (.inr (by simpa using herr)))

/-- the loop gives the same result on any number of calls above the number of arguments -/
theorem parseLoop_congr : ∀ (n₁ n₂ : ℕ) (st : State ι V), st.args.length < n₁ → st.args.length < n₂ →
    parseLoop fs n₁ st = parseLoop fs n₂ st
  | 0, _, _, h₁, _ => absurd h₁ (Nat.not_lt_zero _)
  | _ + 1, 0, _, _, h₂ => absurd h₂ (Nat.not_lt_zero _)
  | n₁ + 1, n₂ + 1, st, h₁, h₂ => by
    rw [parseLoop, parseLoop]
    cases hone : parseOne fs st with
    | none => rfl
    | some p =>
      obtain ⟨⟨seen, name, err⟩, st₁⟩ := p
      dsimp only [Option.bind_some]
      split_ifs with hseen hlen
      · have := parseOne_progress hone (.inl hseen)
        exact parseLoop_congr n₁ n₂ st₁ (by omega) (by omega)
      · rcases err with _ | e
        · rfl
        · by_cases he : e = .retry
          · -- the letters of the name: the loop goes on if none fails
            subst he
            dsimp only
            cases hr : retryLetters fs name name st₁ with
            | none => rfl
            | some q =>
              obtain ⟨err', st₂⟩ := q
              cases err' with
              | none =>
                have h₁₂ := (retryLetters_suffix name name st₁ st₂ hr).length_le
                have := parseOne_progress hone (.inr rfl)
                exact parseLoop_congr n₁ n₂ st₂ (by omega) (by omega)
              | some e => rfl
          · cases e <;> first | rfl | exact absurd rfl he
      · rfl

theorem parseLoop_eq_run {n : ℕ} {st : State ι V} (h : st.args.length < n) : parseLoop fs n st = run fs st :=
  parseLoop_congr n _ st h (Nat.lt_succ_self _)

/-- a flag seen: the loop goes on -/
theorem run_of_seen {st st₁ : State ι V} {name : Text} {err : Option (FlagError E)}
    (h : parseOne fs st = some ((true, name, err), st₁)) : run fs st = run fs st₁ := by
  have hlen := parseOne_progress h (.inl rfl)
  rw [run, parseLoop, h]
  exact parseLoop_eq_run (by omega)

/-- no flag, and no error: the loop ends -/
theorem run_of_done {st st₁ : State ι V} {name : Text} (h : parseOne fs st = some ((false, name, none), st₁)) :
    run fs st = some (none, st₁) := by
  rw [run, parseLoop, h]
  rfl

/-- an error other than `ErrRetry`: `Parse` returns it -/
theorem run_of_error {st st₁ : State ι V} {name : Text} {e : FlagError E} (he : e ≠ .retry)
    (h : parseOne fs st = some ((false, name, some e), st₁)) : run fs st = some (some e, st₁) := by
  rw [run, parseLoop, h]
  cases e <;> first | rfl | exact absurd rfl he

/-- `ErrRetry` for a name of more than one byte: its letters are parsed, and the loop goes on if none fails -/
theorem run_of_retry {st st₁ : State ι V} {name : Text} (hlen : 1 < byteLen name)
    (h : parseOne fs st = some ((false, name, some .retry), st₁)) :
    run fs st = (retryLetters fs name name st₁).bind fun p =>
      match p.1 with
      | none => run fs p.2
      | some e => some (some e, p.2) := by
  have hprog := parseOne_progress h (.inr rfl)
  rw [run, parseLoop, h]
  dsimp only [Option.bind_some]
  rw [if_neg Bool.false_ne_true, if_pos hlen]
  cases hr : retryLetters fs name name st₁ with
  | none => rfl
  | some q =>
    obtain ⟨err, st₂⟩ := q
    cases err with
    | none =>
      have := (retryLetters_suffix name name st₁ st₂ hr).length_le
      exact parseLoop_eq_run (show st₂.args.length < _ by omega)
    | some e => rfl

/-- an argument that is no flag ends the loop, and it and those after it are left as `Args()` -/
theorem run_of_not_flag {st : State ι V} {s : Text} {args : List Text} (hargs : st.args = s :: args)
    (hs : ∀ c rest, s ≠ '-' :: c :: rest) : run fs st = some (none, st) := by
  have hone : parseOne fs st = some ((false, [], none), st) := by
    unfold parseOne
    split
    · rename_i c rest args' h
      rw [hargs] at h
      exact absurd (List.cons.inj h).1 (hs c rest)
    · rfl
  exact run_of_done hone

/-- `--` ends the loop, and the arguments after it are left as `Args()` -/
theorem run_of_terminator {st : State ι V} {args : List Text} (hargs : st.args = ['-', '-'] :: args) :
    run fs st = some (none, { st with args }) := by
  have hone : parseOne fs st = some ((false, [], none), { st with args }) := by
    simp only [parseOne, hargs]
    rfl
  exact run_of_done hone

/-- when `Parse` returns no error, `Args()` is what is left of its arguments -/
theorem parseLoop_suffix_of_ok : ∀ (n : ℕ) (st st' : State ι V), parseLoop fs n st = some (none, st') →
    st'.args <:+ st.args
  | 0, st, st', h => by
    cases h
    exact List.suffix_refl _
  | n + 1, st, st', h => by
    rw [parseLoop] at h
    obtain ⟨⟨⟨seen, name, err⟩, st₁⟩, hone, h⟩ := Option.bind_eq_some_iff.mp h
    have h₁ := parseOne_suffix hone
    dsimp only at h
    split_ifs at h with hseen hlen
    · exact (parseLoop_suffix_of_ok n st₁ st' h).trans h₁
    · rcases err with _ | e
      · cases h
        exact h₁
      · by_cases he : e = .retry
        · subst he
          obtain ⟨⟨err', st₂⟩, hr, h⟩ := Option.bind_eq_some_iff.mp h
          cases err' with
          | none =>
            have h₂ := retryLetters_suffix name name st₁ st₂ hr
            exact ((parseLoop_suffix_of_ok n st₂ st' h).trans h₂).trans h₁
          | some e => cases h
        · cases e <;> first | cases h | exact absurd rfl he
    · rcases err with _ | e
      · cases h
        exact h₁
      · cases e <;> cases h

theorem run_suffix_of_ok {st st' : State ι V} (h : run fs st = some (none, st')) : st'.args <:+ st.args :=
  parseLoop_suffix_of_ok _ st st' h

end Loop

/-! ## Combined short flags -/

section Combined

variable {fs}

/-- `-c` for a flag `c`: the flag is set, from the argument after it if it takes a value -/
theorem parseOne_letter {c : Char} {i : ι} (hi : fs.formal [c] = some i) (hdash : c ≠ '-') (heq : c ≠ '=')
    (st : State ι V) (rest : List Text) :
    parseOne fs { st with args := ['-', c] :: rest } = some (setFlag fs i [c] false [] { st with args := rest }) := by
  have hcut : cutRune '=' [c] = none := cutRune_eq_none (by simpa [eq_comm] using heq)
  simp only [parseOne, hdash, heq, false_and, if_false, hcut, lookupFlag, hi]

/-- `-c...` for letters that name no flag and are not `help`: the loop is told to retry them -/
theorem parseOne_combined {cs : Text} (hlen : 2 ≤ cs.length) (heq : '=' ∉ cs) (hhead : cs.head? ≠ some '-')
    (hformal : fs.formal cs = none) (hhelp : cs ≠ "help".toList) (st : State ι V) (post : List Text) :
    parseOne fs { st with args := ('-' :: cs) :: post } = some ((false, cs, some .retry), { st with args := post }) := by
  obtain ⟨c, rest, rfl⟩ : ∃ c rest, cs = c :: rest := List.exists_cons_of_length_pos (by omega)
  have hc : c ≠ '-' := fun h => hhead (by simp [h])
  have hc' : c ≠ '=' := fun h => heq (h ▸ List.mem_cons_self ..)
  have hrest : rest ≠ [] := by
    rintro rfl
    simp at hlen
  -- the texts of the help flags start with '-' or are one letter
  have hnames : ¬(c :: rest = "-help".toList ∨ c :: rest = "help".toList ∨ c :: rest = "h".toList) := by
    rintro (h | h | h)
    · exact hc (List.cons.inj h).1
    · exact hhelp h
    · exact hrest (List.cons.inj h).2
  simp only [parseOne, hc, false_and, if_false, hc', cutRune_eq_none heq, lookupFlag, hformal, if_neg hnames,
    List.head?_cons, Option.some.injEq]

/-- letters pushed back one by one end as they would given one by one, those before the last being bool flags -/
theorem retryLetters_sim (name : Text) {l : Char} (hl : (fs.formal [l]).isSome) (hl' : l ≠ '-') (hl'' : l ≠ '=') :
    ∀ (bs : List Char) (st : State ι V),
      (∀ b ∈ bs, (∃ i, fs.formal [b] = some i ∧ fs.isBoolFlag i) ∧ b ≠ '-' ∧ b ≠ '=') →
      outcome ((retryLetters fs name (bs ++ [l]) st).bind fun p =>
          match p.1 with
          | none => run fs p.2
          | some e => some (some e, p.2)) =
        outcome (run fs { st with args := (bs ++ [l]).map (fun c => ['-', c]) ++ st.args })
  | [], st, _ => by
    obtain ⟨i, hi⟩ := Option.isSome_iff_exists.mp hl
    have hone := parseOne_letter hi hl' hl'' st st.args
    have hspec := (@setFlag_spec ι V E _ fs i [l] false [] { st with args := st.args }).1
    generalize setFlag fs i [l] false [] { st with args := st.args } = S at hone hspec
    obtain ⟨r, S₁⟩ := S
    simp only [List.nil_append, List.map_cons, List.map_nil, List.cons_append]
    rw [retryLetters, hone]
    rcases hspec with hs | ⟨e, hs, he⟩
    · -- the last letter is seen: both loops go on from the same flag set
      cases hs
      rw [run_of_seen hone]
      rfl
    · -- it fails: the retry's error, and the letter's own
      cases hs
      rw [run_of_error he hone]
      rfl
  | b :: bs, st, hbs => by
    obtain ⟨⟨i, hi, hbool⟩, hb', hb''⟩ := hbs b List.mem_cons_self
    have hone := parseOne_letter hi hb' hb'' st (((bs ++ [l]).map fun c => ['-', c]) ++ st.args)
    have hpush := parseOne_letter hi hb' hb'' st st.args
    rw [setFlag_of_isBoolFlag hbool] at hone hpush
    rw [List.cons_append, retryLetters, hpush, List.map_cons, List.cons_append, run_of_seen hone]
    exact retryLetters_sim name hl hl' hl'' bs _ fun b hb => hbs b (List.mem_cons_of_mem _ hb)

/-- combined short flags `-c₁...cₖ`, whose letters are flags, none `-`, the first `k - 1` bool flags, and which
neither name a flag nor spell `help`, end the loop as `-c₁ ... -cₖ` do: with the same error or none, and the same
values, flags set and arguments left -/
theorem run_combined_of_ne_help (cs : Text) (hlen : 2 ≤ cs.length) (heq : '=' ∉ cs) (hformal : fs.formal cs = none)
    (hhelp : cs ≠ "help".toList) (hletters : ∀ c ∈ cs, (fs.formal [c]).isSome ∧ c ≠ '-')
    (hbool : ∀ c ∈ cs.dropLast, ∀ i, fs.formal [c] = some i → fs.isBoolFlag i = true)
    (st : State ι V) (post : List Text) :
    outcome (run fs { st with args := ('-' :: cs) :: post }) =
      outcome (run fs { st with args := cs.map (fun c => ['-', c]) ++ post }) := by
  have hhead : cs.head? ≠ some '-' := fun h => (hletters _ (List.mem_of_mem_head? h)).2 rfl
  have hbytes : 1 < byteLen cs := lt_of_lt_of_le (by omega) (length_le_byteLen cs)
  rw [run_of_retry hbytes (parseOne_combined hlen heq hhead hformal hhelp st post)]
  -- the last letter may take a value; those before it are bool flags
  obtain ⟨bs, l, rfl⟩ : ∃ bs l, cs = bs ++ [l] :=
    ⟨cs.dropLast, cs.getLast (List.ne_nil_of_length_pos (by omega)), (List.dropLast_append_getLast _).symm⟩
  have hl := hletters l (by simp)
  have hl'' : l ≠ '=' := fun h => heq (h ▸ by simp)
  refine retryLetters_sim (bs ++ [l]) hl.1 hl.2 hl'' bs { st with args := post } fun b hb => ?_
  have hflag := hletters b (List.mem_append_left _ hb)
  obtain ⟨i, hi⟩ := Option.isSome_iff_exists.mp hflag.1
  have hbool' := hbool b (by rwa [List.dropLast_concat]) i hi
  exact ⟨⟨i, hi, hbool'⟩, hflag.2, fun h => heq (h ▸ List.mem_append_left _ hb)⟩

/-- `-help` is the request for help when no flag is named `help`, whatever flags its letters name -/
theorem run_help (hformal : fs.formal "help".toList = none) (st : State ι V) (post : List Text) :
    run fs { st with args := ('-' :: "help".toList) :: post } = some (some .help, { st with args := post }) := by
  have hone : parseOne fs { st with args := ('-' :: "help".toList) :: post } =
      some ((false, [], some .help), { st with args := post }) := by
    have hcut : cutRune '=' "help".toList = none := cutRune_eq_none (by decide)
    rw [show "help".toList = ['h', 'e', 'l', 'p'] from rfl] at hcut hformal ⊢
    simp only [parseOne, show ('h' : Char) ≠ '-' by decide, show ('h' : Char) ≠ '=' by decide, false_and, if_false,
      hcut, lookupFlag, hformal]
    rfl
  exact run_of_error nofun hone

end Combined

/-! ## Two flag sets -/

/-- a flag set before `Parse`: no arguments, every value `false`, no flag set -/
def unset : State Char Bool := ⟨[], fun _ => false, fun _ => none⟩

/-- the bool flags `-h`, `-e`, `-l` and `-p`, as `BoolVar` defines them, and no flag `-help` -/
def helpLetters : FlagSet Char Bool NumErr where
  formal name := match name with
    | [c] => if c ∈ "help".toList then some c else none
    | _ => none
  isBoolFlag _ := true
  set _ value _ := parseBool value

/-- `-help` asks for help and sets nothing; `-h -e -l -p` sets the four flags with no error -/
theorem parse_combined_help :
    parse helpLetters [('-' :: "help".toList)] unset = some (some .help, unset) ∧
      (parse helpLetters ("help".toList.map fun c => ['-', c]) unset).map (fun p => (p.1, p.2.values 'h')) =
        some (none, true) :=
  ⟨run_help rfl unset [], by decide⟩

/-- the bool flags `-a` and `-b`, and `-n`, which takes a value; a flag's value is the text it was set to -/
def shortFlags : FlagSet Char Text Unit where
  formal name := match name with
    | [c] => if c ∈ "abn".toList then some c else none
    | _ => none
  isBoolFlag c := c ≠ 'n'
  set _ value _ := (value, none)

/-- a flag set of texts before `Parse`: no arguments, every value empty, no flag set -/
def unsetTexts : State Char Text := ⟨[], fun _ => [], fun _ => none⟩

/-- `-a -- -b`: the terminator ends the flags, and `-b` is left as an argument -/
theorem run_suffix_of_ok_terminator :
    ∃ st', run shortFlags { unsetTexts with args := [['-', 'a'], ['-', '-'], ['-', 'b']] } = some (none, st') ∧
      st'.args = [['-', 'b']] ∧ st'.args <:+ [['-', 'a'], ['-', '-'], ['-', 'b']] := by
  have hrun : (run shortFlags { unsetTexts with args := [['-', 'a'], ['-', '-'], ['-', 'b']] }).map
      (fun r => (r.1, r.2.args)) = some (none, [['-', 'b']]) := by decide
  obtain ⟨⟨err, st'⟩, h, heq⟩ := Option.map_eq_some_iff.mp hrun
  simp only [Prod.mk.injEq] at heq
  obtain ⟨rfl, hargs⟩ := heq
  exact ⟨st', h, hargs, run_suffix_of_ok h⟩

/-- `-abn 7` is `-a -b -n 7` -/
theorem run_combined_abn :
    outcome (run shortFlags { unsetTexts with args := ['-', 'a', 'b', 'n'] :: ["7".toList] }) =
      outcome (run shortFlags { unsetTexts with args := [['-', 'a'], ['-', 'b'], ['-', 'n'], "7".toList] }) := by
  have hletters : ∀ c ∈ ['a', 'b', 'n'], (shortFlags.formal [c]).isSome ∧ c ≠ '-' := by
    simp [shortFlags]
  have hbool : ∀ c ∈ ['a', 'b', 'n'].dropLast, ∀ i, shortFlags.formal [c] = some i → shortFlags.isBoolFlag i = true := by
    intro c hc i hi
    have hci : c = i := by
      simp only [shortFlags] at hi
      split_ifs at hi
      exact Option.some.inj hi
    subst hci
    simp only [List.dropLast_cons_cons, List.dropLast_singleton, List.mem_cons, List.not_mem_nil, or_false] at hc
    rcases hc with rfl | rfl <;> simp [shortFlags]
  exact run_combined_of_ne_help ['a', 'b', 'n'] (by decide) (by decide) rfl (by decide) hletters hbool
    unsetTexts ["7".toList]

end DockerEngine.Mflag
