/-
Lean model of `volumeSplitN` in `runconfig/opts/parse.go`, which splits a bind specification such as
`C:\foo:d:\:rw` into at most `n` parts at its separator colons.

A colon separates unless it follows an ASCII letter that is the first character or follows `:` or `\`, which makes the
letter a drive letter (`IsSeparator`). The loop cuts at each separator until it has `n` parts, then glues the rest,
colon included, back onto the last one; a separator that ends the string leaves no empty part. The string is a list of
characters: the loop compares single bytes with ASCII characters only, and no byte of a longer UTF-8 sequence is ASCII,
so indices into the characters decide as indices into the bytes do.

`volumeSplitLoop_eq` says what the loop leaves: the string cut at its first `n` separators (all of them when `n` is
negative). `volumeSplitN_spec` follows: for `n` not zero there is no panic, the result is nil exactly for an empty
string or one that starts with `:`, it has at most `n` parts, its parts joined with `:` give the string back (less a
separator that ends it), and its cuts are the first separators of the string, all of them below the joined length
when the limit is not reached.
-/
import DockerEngine.Go.Strings
import Mathlib.Tactic

namespace DockerEngine.Runconfig.Opts

open Go

/-- `raw[i]`, which the loop reads only below `len(raw)` -/
def charAt (raw : Text) (i : ℕ) : Char := raw.getD i ' '

/-- `(c >= 'A' && c <= 'Z') || (c >= 'a' && c <= 'z')` -/
def isDriveLetter (c : Char) : Bool := ('A' ≤ c ∧ c ≤ 'Z') ∨ ('a' ≤ c ∧ c ≤ 'z')

/-- the loop `for right := 1; right < len(raw); right++` of `volumeSplitN(raw, n)` at `right`, with the parts found,
their number and the start `left` of the next; `fuel` bounds the turns -/
def volumeSplitLoop (raw : Text) (n : ℤ) : ℕ → ℕ → List Text → ℕ → ℕ → List Text × ℕ × ℕ
  | 0, _, array, numberOfParts, left => (array, numberOfParts, left)
  | fuel + 1, right, array, numberOfParts, left =>
    if raw.length ≤ right then (array, numberOfParts, left)
    else if 0 ≤ n ∧ n ≤ numberOfParts then (array, numberOfParts, left)
    else if charAt raw right ≠ ':' then volumeSplitLoop raw n fuel (right + 1) array numberOfParts left
    else if isDriveLetter (charAt raw (right - 1)) then
      -- a letter after the start, and not after `:` or `\`, is no drive letter
      if 1 < right ∧ charAt raw (right - 2) ≠ ':' ∧ charAt raw (right - 2) ≠ '\\' then
        volumeSplitLoop raw n fuel (right + 1) (array ++ [(raw.take right).drop left]) (numberOfParts + 1)
          (right + 1)
      else volumeSplitLoop raw n fuel (right + 1) array numberOfParts left
    else
      volumeSplitLoop raw n fuel (right + 1) (array ++ [(raw.take right).drop left]) (numberOfParts + 1) (right + 1)

/-- `volumeSplitN(raw, n)`: the parts, nil for an empty `raw` or one that starts with `:`; none for the panic of
`array[n-1]` out of range -/
def volumeSplitN (raw : Text) (n : ℤ) : Option (List Text) :=
  if raw = [] ∨ raw.head? = some ':' then some []
  else
    let (array, numberOfParts, left) := volumeSplitLoop raw n raw.length 1 [] 0 0
    if left < raw.length then
      if 0 ≤ n ∧ n ≤ numberOfParts then
        -- `array[n-1] += raw[left-1:]`: the rest, with the colon before it
        if 1 ≤ n ∧ (n - 1).toNat < array.length then
          some (array.modify (n - 1).toNat (· ++ raw.drop (left - 1)))
        else none
      else some (array ++ [raw.drop left])
    else some array

/-! ## Separators and cuts -/

/-- whether the colon at index `i` of `raw` separates: one after a character that is not an ASCII letter, or after a
letter that is neither the first character nor after `:` or `\` -/
def IsSeparator (raw : Text) (i : ℕ) : Prop :=
  1 ≤ i ∧ i < raw.length ∧ charAt raw i = ':' ∧
    (isDriveLetter (charAt raw (i - 1)) = false ∨ (2 ≤ i ∧ charAt raw (i - 2) ≠ ':' ∧ charAt raw (i - 2) ≠ '\\'))

instance (raw : Text) (i : ℕ) : Decidable (IsSeparator raw i) := by unfold IsSeparator; infer_instance

/-- the indices of the separators of `raw` below `k`, in order -/
def separatorsBelow (raw : Text) (k : ℕ) : List ℕ := (List.range k).filter fun i => decide (IsSeparator raw i)

/-- the indices of the separators of `raw`, in order -/
def separators (raw : Text) : List ℕ := separatorsBelow raw raw.length

/-- the parts of `raw` from index `start`, cut at the indices `cuts` -/
def slices (raw : Text) (start : ℕ) : List ℕ → List Text
  | [] => [raw.drop start]
  | c :: cuts => (raw.take c).drop start :: slices raw (c + 1) cuts

/-- where the part after the cuts `cuts` starts -/
def nextStart (start : ℕ) (cuts : List ℕ) : ℕ := (cuts.getLast?.map (· + 1)).getD start

/-- the indices of the colons that join `parts` -/
def cutsOf : List Text → List ℕ
  | [] => []
  | [_] => []
  | p :: q :: rest => p.length :: (cutsOf (q :: rest)).map (· + p.length + 1)

/-- `cuts` are increasing indices of colons of `raw`, from `start` on -/
def Cuts (raw : Text) : ℕ → List ℕ → Prop
  | _, [] => True
  | start, c :: cuts => start ≤ c ∧ c < raw.length ∧ charAt raw c = ':' ∧ Cuts raw (c + 1) cuts

/-- every cut is a colon of `raw` from `start` on -/
theorem Cuts.mem {raw : Text} {start : ℕ} {cuts : List ℕ} (h : Cuts raw start cuts) {d : ℕ} (hd : d ∈ cuts) :
    start ≤ d ∧ d < raw.length ∧ charAt raw d = ':' := by
  induction cuts generalizing start with
  | nil => exact absurd hd List.not_mem_nil
  | cons c cuts ih =>
    rcases List.mem_cons.mp hd with rfl | hd
    · exact ⟨h.1, h.2.1, h.2.2.1⟩
    · have hd' := ih h.2.2.2 hd
      have hc := h.1
      exact ⟨by omega, hd'.2⟩

theorem length_slices (raw : Text) (start : ℕ) (cuts : List ℕ) : (slices raw start cuts).length = cuts.length + 1 := by
  induction cuts generalizing start with
  | nil => rfl
  | cons c cuts ih => simp [slices, ih]

theorem slices_ne_nil (raw : Text) (start : ℕ) (cuts : List ℕ) : slices raw start cuts ≠ [] := by
  rw [← List.length_pos_iff, length_slices]
  omega

theorem nextStart_cons (start d : ℕ) (cuts : List ℕ) : nextStart start (d :: cuts) = nextStart (d + 1) cuts := by
  cases cuts with
  | nil => rfl
  | cons e cuts =>
    simp only [nextStart, List.getLast?_cons_cons, List.getLast?_eq_some_getLast (List.cons_ne_nil e cuts), Option.map_some,
      Option.getD_some]

/-- a cut more splits the last part in two -/
theorem slices_append_singleton (raw : Text) (start : ℕ) (cuts : List ℕ) (c : ℕ) :
    slices raw start (cuts ++ [c]) =
      (slices raw start cuts).dropLast ++ [(raw.take c).drop (nextStart start cuts), raw.drop (c + 1)] := by
  induction cuts generalizing start with
  | nil => rfl
  | cons d cuts ih =>
    rw [List.cons_append, slices, ih, slices, List.dropLast_cons_of_ne_nil (slices_ne_nil raw (d + 1) cuts),
      nextStart_cons]
    rfl

/-- the text from `start` is its parts joined by the colons -/
theorem join_slices {raw : Text} {start : ℕ} {cuts : List ℕ} (h : Cuts raw start cuts) :
    join (slices raw start cuts) ':' = raw.drop start := by
  induction cuts generalizing start with
  | nil => simp [slices, join]
  | cons c cuts ih =>
    obtain ⟨hstart, hlt, hcolon, hrest⟩ := h
    obtain ⟨p, ps, hp⟩ := List.exists_cons_of_ne_nil (slices_ne_nil raw (c + 1) cuts)
    have hjoin : join (slices raw (c + 1) cuts) ':' = raw.drop (c + 1) := ih hrest
    have hsplit : raw.drop start = (raw.take c).drop start ++ ':' :: raw.drop (c + 1) := by
      have hc : raw.drop c = ':' :: raw.drop (c + 1) := by
        rw [List.drop_eq_getElem_cons hlt]
        congr 1
        simpa [charAt, List.getD_eq_getElem?_getD, List.getElem?_eq_getElem hlt] using hcolon
      conv_lhs => rw [← List.take_append_drop c raw]
      rw [List.drop_append_of_le_length (by simp; omega), hc]
    rw [hsplit, ← hjoin, slices, hp]
    simp [join, List.intercalate_cons_cons]

/-- the cuts of the parts are the cuts, counted from `start` -/
theorem cutsOf_slices {raw : Text} {start : ℕ} {cuts : List ℕ} (h : Cuts raw start cuts) :
    cutsOf (slices raw start cuts) = cuts.map (· - start) := by
  induction cuts generalizing start with
  | nil => rfl
  | cons c cuts ih =>
    obtain ⟨hstart, hlt, -, hrest⟩ := h
    obtain ⟨p, ps, hp⟩ := List.exists_cons_of_ne_nil (slices_ne_nil raw (c + 1) cuts)
    have hlen : ((raw.take c).drop start).length = c - start := by simp; omega
    rw [slices, hp, cutsOf, ← hp, ih hrest, hlen, List.map_cons, List.map_map]
    congr 1
    apply List.map_congr_left
    intro d hd
    -- every later cut is past `c`
    have : c + 1 ≤ d := (hrest.mem hd).1
    simp
    omega

/-- the last part starts after the last cut -/
theorem slices_eq_dropLast_append (raw : Text) (start : ℕ) (cuts : List ℕ) :
    slices raw start cuts = (slices raw start cuts).dropLast ++ [raw.drop (nextStart start cuts)] := by
  induction cuts generalizing start with
  | nil => rfl
  | cons c cuts ih =>
    rw [slices, List.dropLast_cons_of_ne_nil (slices_ne_nil raw (c + 1) cuts), nextStart_cons, List.cons_append,
      ← ih]

theorem nextStart_append_singleton (start : ℕ) (cuts : List ℕ) (c : ℕ) : nextStart start (cuts ++ [c]) = c + 1 := by
  simp [nextStart]

theorem Cuts.append_singleton {raw : Text} {start : ℕ} {cuts : List ℕ} (h : Cuts raw start cuts) {c : ℕ}
    (hc : nextStart start cuts ≤ c) (hlt : c < raw.length) (hcolon : charAt raw c = ':') :
    Cuts raw start (cuts ++ [c]) := by
  induction cuts generalizing start with
  | nil => exact ⟨hc, hlt, hcolon, trivial⟩
  | cons d cuts ih =>
    obtain ⟨hd, hdl, hdc, hrest⟩ := h
    rw [nextStart_cons] at hc
    exact ⟨hd, hdl, hdc, ih hrest hc⟩

theorem Cuts.of_isPrefix {raw : Text} {start : ℕ} {cuts cuts' : List ℕ} (h : Cuts raw start cuts) (hp : cuts' <+: cuts) :
    Cuts raw start cuts' := by
  induction cuts generalizing start cuts' with
  | nil => rw [List.prefix_nil.mp hp]; trivial
  | cons c cuts ih =>
    cases cuts' with
    | nil => trivial
    | cons d cuts' =>
      obtain ⟨rfl, hp'⟩ := List.cons_prefix_cons.mp hp
      exact ⟨h.1, h.2.1, h.2.2.1, ih h.2.2.2 hp'⟩

/-- the part before the last cut starts at or before it -/
theorem Cuts.nextStart_le_of_append {raw : Text} {start : ℕ} {cuts : List ℕ} {c : ℕ}
    (h : Cuts raw start (cuts ++ [c])) : nextStart start cuts ≤ c := by
  induction cuts generalizing start with
  | nil => exact h.1
  | cons d cuts ih =>
    rw [nextStart_cons]
    exact ih h.2.2.2

/-! ## The separators -/

theorem separatorsBelow_succ (raw : Text) (k : ℕ) :
    separatorsBelow raw (k + 1) = separatorsBelow raw k ++ if IsSeparator raw k then [k] else [] := by
  simp only [separatorsBelow, List.range_succ, List.filter_append]
  split_ifs with h <;> simp [h]

theorem mem_separatorsBelow {raw : Text} {k i : ℕ} : i ∈ separatorsBelow raw k ↔ i < k ∧ IsSeparator raw i := by
  simp [separatorsBelow]

/-- the separators below `j` are the first of those below `k` -/
theorem separatorsBelow_prefix (raw : Text) {j k : ℕ} (h : j ≤ k) :
    separatorsBelow raw j <+: separatorsBelow raw k := by
  induction k, h using Nat.le_induction with
  | base => exact List.prefix_refl _
  | succ k _ ih =>
    rw [separatorsBelow_succ]
    exact ih.trans (List.prefix_append _ _)

/-- past the end there are no more separators -/
theorem separatorsBelow_of_le (raw : Text) {k : ℕ} (h : raw.length ≤ k) : separatorsBelow raw k = separators raw := by
  induction k, h using Nat.le_induction with
  | base => rfl
  | succ k hk ih =>
    rw [separatorsBelow_succ, ih, if_neg (fun hs => by have := hs.2.1; omega), List.append_nil]

theorem cuts_separatorsBelow (raw : Text) (k : ℕ) : Cuts raw 0 (separatorsBelow raw k) := by
  induction k with
  | zero => trivial
  | succ k ih =>
    rw [separatorsBelow_succ]
    split_ifs with h
    · apply ih.append_singleton _ h.2.1 h.2.2.1
      -- every separator found so far is below `k`
      unfold nextStart
      cases hl : (separatorsBelow raw k).getLast? with
      | none => simp
      | some x =>
        have := (mem_separatorsBelow.mp (List.mem_of_getLast? hl)).1
        simp only [Option.map_some, Option.getD_some]
        omega
    · simpa using ih

theorem cuts_separators (raw : Text) : Cuts raw 0 (separators raw) := cuts_separatorsBelow raw raw.length

/-! ## The loop -/

/-- the first `n` cuts, all of them for a negative `n` -/
def limitCuts (n : ℤ) (cuts : List ℕ) : List ℕ := if n < 0 then cuts else cuts.take n.toNat

theorem limitCuts_isPrefix (n : ℤ) (cuts : List ℕ) : limitCuts n cuts <+: cuts := by
  unfold limitCuts
  split
  · exact List.prefix_refl _
  · exact List.take_prefix _ _

/-- the state of the loop once it has cut at `cuts` -/
def loopState (raw : Text) (cuts : List ℕ) : List Text × ℕ × ℕ :=
  ((slices raw 0 cuts).dropLast, cuts.length, nextStart 0 cuts)

/-- one turn of the loop before the limit: a cut at a separator, and nothing at another character -/
theorem volumeSplitLoop_step (raw : Text) (n : ℤ) (fuel right : ℕ) (array : List Text) (numberOfParts left : ℕ)
    (h1 : 1 ≤ right) (hright : right < raw.length) (hlim : ¬(0 ≤ n ∧ n ≤ numberOfParts)) :
    volumeSplitLoop raw n (fuel + 1) right array numberOfParts left =
      if IsSeparator raw right then
        volumeSplitLoop raw n fuel (right + 1) (array ++ [(raw.take right).drop left]) (numberOfParts + 1) (right + 1)
      else volumeSplitLoop raw n fuel (right + 1) array numberOfParts left := by
  rw [volumeSplitLoop, if_neg (by omega), if_neg hlim]
  by_cases hc : charAt raw right = ':'
  · rw [if_neg (not_not.mpr hc)]
    by_cases hl : isDriveLetter (charAt raw (right - 1)) = true
    · rw [if_pos hl]
      by_cases hcond : 1 < right ∧ charAt raw (right - 2) ≠ ':' ∧ charAt raw (right - 2) ≠ '\\'
      · rw [if_pos hcond, if_pos ⟨h1, hright, hc, Or.inr ⟨by omega, hcond.2⟩⟩]
      · rw [if_neg hcond, if_neg]
        rintro ⟨-, -, -, hsep | hsep⟩
        · simp [hl] at hsep
        · exact hcond ⟨by omega, hsep.2⟩
    · rw [if_neg hl, if_pos ⟨h1, hright, hc, Or.inl (by simpa using hl)⟩]
  · rw [if_pos hc, if_neg (fun hs => hc hs.2.2.1)]

/-- from the state after the separators below `right`, the loop ends after the first `n` separators -/
theorem volumeSplitLoop_eq (raw : Text) (n : ℤ) :
    ∀ fuel right, 1 ≤ right → right ≤ raw.length → raw.length < fuel + right →
      (0 ≤ n → (separatorsBelow raw right).length ≤ n.toNat) →
      volumeSplitLoop raw n fuel right (slices raw 0 (separatorsBelow raw right)).dropLast
          (separatorsBelow raw right).length (nextStart 0 (separatorsBelow raw right)) =
        loopState raw (limitCuts n (separators raw)) := by
  intro fuel
  induction fuel with
  | zero => intro right _ hle hlt; omega
  | succ fuel ih =>
    intro right h1 hle hfuel hn
    have hprefix : separatorsBelow raw right <+: separators raw := separatorsBelow_prefix raw hle
    by_cases hend : raw.length ≤ right
    · -- every separator has been cut
      have hall : separatorsBelow raw right = separators raw := separatorsBelow_of_le raw hend
      rw [volumeSplitLoop, if_pos hend, hall, loopState, limitCuts]
      split
      · rfl
      · rw [List.take_of_length_le (by rw [← hall]; omega)]
    by_cases hlim : 0 ≤ n ∧ n ≤ (separatorsBelow raw right).length
    · -- `n` parts: the separators below `right` are the first `n`
      have hlen : (separatorsBelow raw right).length = n.toNat := by have := hn hlim.1; omega
      rw [volumeSplitLoop, if_neg hend, if_pos hlim, loopState, limitCuts, if_neg (by omega), ← hlen,
        ← List.prefix_iff_eq_take.mp hprefix]
    rw [volumeSplitLoop_step raw n fuel right _ _ _ h1 (by omega) hlim]
    split_ifs with hsep
    · -- a cut at `right`
      have hnext := ih (right + 1) (by omega) (by omega) (by omega) (fun h0 => by
        rw [separatorsBelow_succ, if_pos hsep, List.length_append]
        simp only [List.length_singleton]
        omega)
      rw [separatorsBelow_succ, if_pos hsep] at hnext
      rw [← hnext, slices_append_singleton, nextStart_append_singleton, List.length_append]
      simp
    · have hnext := ih (right + 1) (by omega) (by omega) (by omega) (fun h0 => by
        rw [separatorsBelow_succ, if_neg hsep, List.append_nil]
        exact hn h0)
      rw [separatorsBelow_succ, if_neg hsep, List.append_nil] at hnext
      simpa using hnext

theorem modify_concat {α : Type} (l : List α) (x : α) (f : α → α) : (l ++ [x]).modify l.length f = l ++ [f x] := by
  induction l with
  | nil => rfl
  | cons a l ih => simp [ih]

/-- gluing the rest, from the last cut, onto the last part undoes that cut -/
theorem slices_glue {raw : Text} {start : ℕ} {cuts : List ℕ} {c : ℕ} (h : Cuts raw start (cuts ++ [c])) :
    (slices raw start (cuts ++ [c])).dropLast.modify cuts.length (· ++ raw.drop c) = slices raw start cuts := by
  have hA : ((slices raw start cuts).dropLast).length = cuts.length := by simp [length_slices]
  have hc : nextStart start cuts ≤ c := h.nextStart_le_of_append
  have hlt : c < raw.length := (h.mem (List.mem_append_right _ (List.mem_singleton_self c))).2.1
  rw [slices_append_singleton]
  have hdrop : ((slices raw start cuts).dropLast ++
      [(raw.take c).drop (nextStart start cuts), raw.drop (c + 1)]).dropLast =
      (slices raw start cuts).dropLast ++ [(raw.take c).drop (nextStart start cuts)] := by simp
  rw [hdrop, ← hA, modify_concat]
  conv_rhs => rw [slices_eq_dropLast_append raw start cuts]
  -- the part before `c` and the text from `c` make the text after the cut before
  rw [← List.drop_append_of_le_length (by simp; omega), List.take_append_drop]

/-- what `volumeSplitN` returns for a valid string: the string cut at its first `n` separators, with the rest glued
back when `n` parts were cut, and without the empty part after a separator that ends the string -/
theorem volumeSplitN_eq (raw : Text) (n : ℤ) (hraw : ¬(raw = [] ∨ raw.head? = some ':')) :
    volumeSplitN raw n =
      if nextStart 0 (limitCuts n (separators raw)) < raw.length then
        if 0 ≤ n ∧ n ≤ (limitCuts n (separators raw)).length then
          if 1 ≤ n then some (slices raw 0 (limitCuts n (separators raw)).dropLast) else none
        else some (slices raw 0 (limitCuts n (separators raw)))
      else some (slices raw 0 (limitCuts n (separators raw))).dropLast := by
  have hlen : 1 ≤ raw.length := by
    rcases raw with _ | ⟨c, raw⟩
    · simp at hraw
    · simp
  have hstart : separatorsBelow raw 1 = [] := by simp [separatorsBelow, IsSeparator]
  have hloop := volumeSplitLoop_eq raw n raw.length 1 le_rfl hlen (by omega) (by simp [hstart])
  rw [hstart] at hloop
  change volumeSplitLoop raw n raw.length 1 [] 0 0 = _ at hloop
  set E := limitCuts n (separators raw) with hE
  have hcuts : Cuts raw 0 E := (cuts_separators raw).of_isPrefix (limitCuts_isPrefix n _)
  simp only [volumeSplitN, if_neg hraw, hloop, loopState]
  by_cases hleft : nextStart 0 E < raw.length
  · rw [if_pos hleft, if_pos hleft]
    by_cases hlim : 0 ≤ n ∧ n ≤ E.length
    · rw [if_pos hlim, if_pos hlim]
      -- the limit was reached: `n` cuts
      have hEn : E.length = n.toNat := by
        have : E.length ≤ n.toNat := by
          rw [hE, limitCuts, if_neg (by omega)]
          exact List.length_take_le _ _
        omega
      by_cases hn1 : 1 ≤ n
      · have hne : E ≠ [] := by
          rw [← List.length_pos_iff]
          omega
        rw [if_pos ⟨hn1, by simp [length_slices]; omega⟩, if_pos hn1]
        obtain ⟨E', c, hEc⟩ : ∃ E' c, E = E' ++ [c] :=
          ⟨E.dropLast, E.getLast hne, (List.dropLast_concat_getLast hne).symm⟩
        have hidx : (n - 1).toNat = E'.length := by
          rw [hEc, List.length_append, List.length_singleton] at hEn
          omega
        rw [hidx, hEc, nextStart_append_singleton, Nat.add_sub_cancel, List.dropLast_concat]
        exact congrArg some (slices_glue (hEc ▸ hcuts))
      · rw [if_neg (fun h => hn1 h.1), if_neg hn1]
    · rw [if_neg hlim, if_neg hlim, ← slices_eq_dropLast_append]
  · rw [if_neg hleft, if_neg hleft]

/-! ## What the parts are -/

/-- what is said of the parts `volumeSplitN raw n` returns -/
structure SplitSpec (raw : Text) (n : ℤ) (parts : List Text) : Prop where
  /-- nil exactly for an empty string or one that starts with `:` -/
  nil_iff : parts = [] ↔ raw = [] ∨ raw.head? = some ':'
  /-- at most `n` parts -/
  length_le : 0 < n → parts.length ≤ n.toNat
  /-- the parts joined with `:` are the string, or the string less a separator that ends it -/
  join_eq : parts ≠ [] → join parts ':' = raw ∨ (join parts ':' ++ [':'] = raw ∧ IsSeparator raw (raw.length - 1))
  /-- the colons between the parts are the first separators -/
  cuts_first : cutsOf parts = (separators raw).take (parts.length - 1)
  /-- below the limit, every separator of the joined text is between two parts -/
  cuts_all : n < 0 ∨ parts.length < n → cutsOf parts = (separators raw).filter (· < (join parts ':').length)

theorem limitCuts_eq_take (n : ℤ) (cuts : List ℕ) : limitCuts n cuts = cuts.take (limitCuts n cuts).length :=
  List.prefix_iff_eq_take.mp (limitCuts_isPrefix n cuts)

theorem length_limitCuts_le {n : ℤ} (hn : 0 ≤ n) (cuts : List ℕ) : (limitCuts n cuts).length ≤ n.toNat := by
  rw [limitCuts, if_neg (by omega)]
  exact List.length_take_le _ _

/-- below the limit every cut is kept -/
theorem limitCuts_eq_self {n : ℤ} {cuts : List ℕ} (h : n < 0 ∨ (limitCuts n cuts).length < n) :
    limitCuts n cuts = cuts := by
  unfold limitCuts at h ⊢
  split
  · rfl
  · next hn =>
    rcases h with h | h
    · omega
    · rw [if_neg hn, List.length_take] at h
      exact List.take_of_length_le (by omega)

theorem cutsOf_slices_zero {raw : Text} {cuts : List ℕ} (h : Cuts raw 0 cuts) : cutsOf (slices raw 0 cuts) = cuts := by
  simp [cutsOf_slices h]

theorem filter_separators_length (raw : Text) : (separators raw).filter (· < raw.length) = separators raw :=
  List.filter_eq_self.mpr fun i hi => by simpa using (mem_separatorsBelow.mp hi).1

/-- the result when `n` parts were cut: the first `n - 1` separators cut, the rest in the last part -/
theorem splitSpec_glued {raw : Text} {n : ℤ} (hraw : ¬(raw = [] ∨ raw.head? = some ':')) (hn : 1 ≤ n)
    (hlen : (limitCuts n (separators raw)).length = n.toNat) :
    SplitSpec raw n (slices raw 0 (limitCuts n (separators raw)).dropLast) := by
  set E := limitCuts n (separators raw) with hE
  have hcuts : Cuts raw 0 E.dropLast :=
    (cuts_separators raw).of_isPrefix ((List.dropLast_prefix E).trans (limitCuts_isPrefix n _))
  have hparts : (slices raw 0 E.dropLast).length = n.toNat := by
    rw [length_slices, List.length_dropLast]
    omega
  refine ⟨⟨fun h => absurd h (slices_ne_nil _ _ _), fun h => absurd h hraw⟩, fun _ => hparts.le,
    fun _ => Or.inl (by simpa using join_slices hcuts), ?_, fun h => by omega⟩
  -- the first `n - 1` of the first `n` separators
  have htake : E = (separators raw).take n.toNat := by rw [← hlen]; exact limitCuts_eq_take n _
  rw [cutsOf_slices_zero hcuts, hparts, List.dropLast_eq_take, hlen, htake, List.take_take,
    Nat.min_eq_left (Nat.sub_le _ _)]

/-- the result when fewer than `n` parts were cut and the string does not end with a cut: every separator cut -/
theorem splitSpec_all {raw : Text} {n : ℤ} (hraw : ¬(raw = [] ∨ raw.head? = some ':'))
    (hlim : ¬(0 ≤ n ∧ n ≤ (limitCuts n (separators raw)).length)) :
    SplitSpec raw n (slices raw 0 (limitCuts n (separators raw))) := by
  have hall : limitCuts n (separators raw) = separators raw := limitCuts_eq_self (by omega)
  have hcuts := cuts_separators raw
  have hjoin : join (slices raw 0 (separators raw)) ':' = raw := by simpa using join_slices hcuts
  rw [hall] at hlim ⊢
  refine ⟨⟨fun h => absurd h (slices_ne_nil _ _ _), fun h => absurd h hraw⟩, fun _ => ?_, fun _ => Or.inl hjoin,
    ?_, fun _ => ?_⟩
  · rw [length_slices]
    omega
  · rw [cutsOf_slices_zero hcuts, length_slices, Nat.add_sub_cancel, List.take_length]
  · rw [cutsOf_slices_zero hcuts, hjoin, filter_separators_length]

theorem Cuts.le_nextStart {raw : Text} {start : ℕ} {cuts : List ℕ} (h : Cuts raw start cuts) :
    start ≤ nextStart start cuts := by
  induction cuts generalizing start with
  | nil => simp [nextStart]
  | cons c cuts ih =>
    rw [nextStart_cons]
    have := ih h.2.2.2
    have := h.1
    omega

/-- every cut is before the start of the part after the cuts -/
theorem Cuts.lt_nextStart {raw : Text} {start : ℕ} {cuts : List ℕ} (h : Cuts raw start cuts) {d : ℕ}
    (hd : d ∈ cuts) : d < nextStart start cuts := by
  induction cuts generalizing start with
  | nil => exact absurd hd List.not_mem_nil
  | cons c cuts ih =>
    rw [nextStart_cons]
    rcases List.mem_cons.mp hd with rfl | hd
    · have := h.2.2.2.le_nextStart
      omega
    · exact ih h.2.2.2 hd

theorem charAt_take {raw : Text} {c d : ℕ} (h : d < c) : charAt (raw.take c) d = charAt raw d := by
  simp [charAt, List.getD_eq_getElem?_getD, h]

theorem Cuts.take {raw : Text} {start c : ℕ} {cuts : List ℕ} (h : Cuts raw start cuts) (hc : ∀ d ∈ cuts, d < c) :
    Cuts (raw.take c) start cuts := by
  induction cuts generalizing start with
  | nil => trivial
  | cons d cuts ih =>
    obtain ⟨hd, hdl, hcolon, hrest⟩ := h
    have hdc := hc d List.mem_cons_self
    refine ⟨hd, by simp; omega, by rw [charAt_take hdc]; exact hcolon, ih hrest fun e he => hc e ?_⟩
    exact List.mem_cons_of_mem _ he

/-- the parts of the text up to `c`, for cuts below `c` -/
theorem slices_take {raw : Text} {start c : ℕ} {cuts : List ℕ} (hc : ∀ d ∈ cuts, d < c) :
    slices (raw.take c) start cuts = (slices raw start cuts).dropLast ++ [(raw.take c).drop (nextStart start cuts)] := by
  induction cuts generalizing start with
  | nil => rfl
  | cons d cuts ih =>
    have hdc := hc d List.mem_cons_self
    rw [slices, slices, ih fun e he => hc e (List.mem_cons_of_mem _ he), List.take_take,
      Nat.min_eq_left hdc.le, List.dropLast_cons_of_ne_nil (slices_ne_nil raw (d + 1) cuts), nextStart_cons]
    rfl

/-- the result when the string ends with a cut: its last, empty part is left out -/
theorem splitSpec_trailing {raw : Text} {n : ℤ} (hraw : ¬(raw = [] ∨ raw.head? = some ':'))
    (hleft : ¬nextStart 0 (limitCuts n (separators raw)) < raw.length) :
    SplitSpec raw n (slices raw 0 (limitCuts n (separators raw))).dropLast := by
  set E := limitCuts n (separators raw) with hE
  have hcuts : Cuts raw 0 E := (cuts_separators raw).of_isPrefix (limitCuts_isPrefix n _)
  have hlen : 1 ≤ raw.length := by
    rcases raw with _ | ⟨c, raw⟩
    · simp at hraw
    · simp
  -- the last cut is the last character
  have hne : E ≠ [] := fun h => hleft (by rw [h]; simp [nextStart]; omega)
  obtain ⟨E', c, hEc⟩ : ∃ E' c, E = E' ++ [c] := ⟨E.dropLast, E.getLast hne, (List.dropLast_concat_getLast hne).symm⟩
  have hcuts' : Cuts raw 0 (E' ++ [c]) := hEc ▸ hcuts
  have hc := hcuts'.mem (List.mem_append_right _ List.mem_cons_self)
  have hclen : c + 1 = raw.length := by
    rw [hEc, nextStart_append_singleton] at hleft
    omega
  have hlt : ∀ d ∈ E', d < c := fun d hd =>
    (hcuts'.of_isPrefix (List.prefix_append E' [c]) |>.lt_nextStart hd).trans_le hcuts'.nextStart_le_of_append
  have hsep : IsSeparator raw (raw.length - 1) := by
    have hmem : c ∈ separators raw := (limitCuts_isPrefix n _).subset (by rw [← hE, hEc]; simp)
    rw [← hclen, Nat.add_sub_cancel]
    exact (mem_separatorsBelow.mp hmem).2
  -- the parts are those of the text up to the last cut
  have hparts : (slices raw 0 E).dropLast = slices (raw.take c) 0 E' := by
    rw [hEc, slices_append_singleton, slices_take hlt]
    simp
  have htake : Cuts (raw.take c) 0 E' := (hcuts'.of_isPrefix (List.prefix_append E' [c])).take hlt
  have hjoin : join (slices (raw.take c) 0 E') ':' = raw.take c := by simpa using join_slices htake
  have hraw' : raw.take c ++ [':'] = raw := by
    have hcolon : raw[c] = ':' := by
      simpa [charAt, List.getD_eq_getElem?_getD, List.getElem?_eq_getElem (show c < raw.length by omega)] using hc.2.2
    conv_rhs => rw [← List.take_append_drop c raw]
    rw [List.drop_eq_getElem_cons (by omega), List.drop_eq_nil_of_le (by omega), hcolon]
  have hE'seps : E' <+: separators raw := (List.prefix_append E' [c]).trans (hEc ▸ limitCuts_isPrefix n _)
  rw [hparts]
  refine ⟨⟨fun h => absurd h (slices_ne_nil _ _ _), fun h => absurd h hraw⟩, fun hn => ?_,
    fun _ => Or.inr ⟨by rw [hjoin, hraw'], hsep⟩, ?_, fun h => ?_⟩
  · have := length_limitCuts_le hn.le (separators raw)
    rw [← hE, hEc] at this
    simp only [length_slices, List.length_append, List.length_singleton] at this ⊢
    omega
  · rw [cutsOf_slices_zero htake, length_slices, Nat.add_sub_cancel]
    exact List.prefix_iff_eq_take.mp hE'seps
  · -- below the limit the last cut is the last separator
    have hall : E = separators raw := limitCuts_eq_self (by
      rw [← hE, hEc, List.length_append, List.length_singleton]
      rw [length_slices] at h
      omega)
    rw [cutsOf_slices_zero htake, hjoin, ← hall, hEc, List.length_take, Nat.min_eq_left (by omega),
      List.filter_append, List.filter_eq_self.mpr (fun d hd => by simpa using hlt d hd)]
    simp

theorem volumeSplitN_spec (raw : Text) (n : ℤ) (hn : n ≠ 0) :
    ∃ parts, volumeSplitN raw n = some parts ∧ SplitSpec raw n parts := by
  by_cases hraw : raw = [] ∨ raw.head? = some ':'
  · refine ⟨[], by simp [volumeSplitN, hraw], ⟨iff_of_true rfl hraw, fun _ => Nat.zero_le _, fun h => absurd rfl h,
      rfl, fun _ => ?_⟩⟩
    simp [cutsOf, join]
  rw [volumeSplitN_eq raw n hraw]
  split_ifs with hleft hlim hn1
  · have := length_limitCuts_le hlim.1 (separators raw)
    exact ⟨_, rfl, splitSpec_glued hraw hn1 (by omega)⟩
  · omega
  · exact ⟨_, rfl, splitSpec_all hraw hlim⟩
  · exact ⟨_, rfl, splitSpec_trailing hraw hleft⟩

example : volumeSplitN "C:\\foo:d:\\:rw".toList (-1) = some ["C:\\foo".toList, "d:\\".toList, "rw".toList] := by
  decide

theorem volumeSplitN_spec_windows :
    (-1 : ℤ) ≠ 0 ∧ ∃ parts, volumeSplitN "C:\\foo:d:\\:rw".toList (-1) = some parts ∧
      SplitSpec "C:\\foo:d:\\:rw".toList (-1) parts :=
  ⟨by decide, volumeSplitN_spec _ _ (by decide)⟩

end DockerEngine.Runconfig.Opts
