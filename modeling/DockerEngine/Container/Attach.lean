/-
Lean model of `copyEscapable` in `container/container.go`: the copy of an attached client's input to the stdin of a
container with a tty, which ends when the client types the detach keys (ctrl-p ctrl-q when none are given).

The source is a `Reader.Chunked` reader read into a buffer of 32 KiB; the destination answers each `Write` with
`(n, err)`, and `src.Close()` returns `closeErr`. When a read returns the one byte of the first key, the loop over the
keys reads again for the next one, and so on; after the last key it closes the source and returns `(0, nil)`. When a
read does not match, that loop ends and the bytes of the last read are written: the keys matched before it are not,
and the read that broke the match is not tried against the first key again.

On a source of whole chunks followed by `io.EOF` and a destination that takes every write, `copyEscapable_source`
says what it does for every input: it writes the chunks less some that each hold one key (`LessKeys`), and either
reads to the end and returns the count written, or stops right after the keys, each read as a chunk of its own, and
returns `0`. `copyLoop_source_plain` is the case with no chunk that is the first key alone: everything is written.
-/
import DockerEngine.Lib.Reader

namespace DockerEngine.Container

open Reader

/-- the errors `copyEscapable` returns or passes on -/
inductive Err where
  /-- `io.EOF` -/
  | eof
  /-- `io.ErrShortWrite` -/
  | shortWrite
  /-- any other error of the source or of the destination -/
  | other (msg : String)
  deriving DecidableEq, Repr

/-- an `io.Writer`: its answer `(n, err)` to `Write(p)` -/
structure Writer where
  write : List UInt8 → ℕ × Option Err

/-- a destination that takes every write in full -/
def acceptAll : Writer := ⟨fun p => (p.length, none)⟩

/-- the source of `copyEscapable` -/
abbrev Src := Chunked UInt8 Err

/-- `len(buf)` -/
def bufSize : ℕ := 32 * 1024

/-- how the loop over the keys ends: the keys were all read, or the bytes of the last read are to be written, with
the error that read returned -/
inductive Escape where
  | detach (src : Src)
  | write (data : List UInt8) (er : Option Err) (src : Src)

/-- the reader after the loop over the keys -/
def Escape.src : Escape → Src
  | .detach src => src
  | .write _ _ src => src

/-- `for i, key := range keys` over the keys still to match, after a read of `data` with error `er` -/
def escapeLoop : List UInt8 → List UInt8 → Option Err → Src → Escape
  | [], data, er, src => .write data er src
  | key :: keys, data, er, src =>
    if data.length ≠ 1 ∨ data.head? ≠ some key then .write data er src
    -- `i == len(keys)-1`: close the source
    else if keys = [] then .detach src
    else escapeLoop keys (src.read bufSize).data (src.read bufSize).err (src.read bufSize).next

theorem escapeLoop_size_le : ∀ (keys data : List UInt8) (er : Option Err) (src : Src),
    (escapeLoop keys data er src).src.size ≤ src.size
  | [], _, _, _ => le_refl _
  | key :: keys, data, er, src => by
    rw [escapeLoop]
    split_ifs
    · exact le_refl _
    · exact le_refl _
    · exact (escapeLoop_size_le keys _ _ _).trans (Chunked.read_size_le _ _)

/-- what `copyEscapable` leaves: the count and the error it returns, the bytes handed to `dst`, whether it closed
`src`, and the reader after its last read -/
structure Outcome where
  written : ℕ
  err : Option Err
  out : List UInt8
  closed : Bool
  src : Src

-- the equation of the loop over the keys is used only to show that the loop ends
set_option linter.unusedVariables false in
/-- the `for` loop of `copyEscapable`, with the bytes handed to `dst` so far -/
def copyLoop (dst : Writer) (closeErr : Option Err) (keys : List UInt8) (src : Src) (written : ℕ)
    (out : List UInt8) : Outcome :=
  let r := src.read bufSize
  if 0 < r.data.length then
    match h : escapeLoop keys r.data r.err r.next with
    | .detach src' => ⟨0, closeErr, out, true, src'⟩
    | .write data er src' =>
      let w := dst.write data
      let written := if 0 < w.1 then written + w.1 else written
      let out := out ++ data
      if w.2.isSome then ⟨written, w.2, out, false, src'⟩
      else if data.length ≠ w.1 then ⟨written, some .shortWrite, out, false, src'⟩
      else if er = some .eof then ⟨written, none, out, false, src'⟩
      else if er.isSome then ⟨written, er, out, false, src'⟩
      else copyLoop dst closeErr keys src' written out
  else if r.err = some .eof then ⟨written, none, out, false, r.next⟩
  else if r.err.isSome then ⟨written, r.err, out, false, r.next⟩
  else copyLoop dst closeErr keys r.next written out
termination_by src.size
decreasing_by
  · have hle := escapeLoop_size_le keys r.data r.err r.next
    rw [h] at hle
    have hne : src.chunks ≠ [] := fun hc => by simp [r, Chunked.read_of_chunks_nil _ _ hc] at *
    exact lt_of_le_of_lt hle (Chunked.read_size_lt _ _ (by decide) hne)
  · rename_i hsome
    exact Chunked.read_size_lt _ _ (by decide) (Chunked.chunks_ne_nil_of_read_err src bufSize (by simpa using hsome))

/-- the keys `copyEscapable` watches for: ctrl-p ctrl-q when none are given -/
def escapeKeys (keys : List UInt8) : List UInt8 := if keys = [] then [16, 17] else keys

/-- `copyEscapable(dst, src, keys)` -/
def copyEscapable (dst : Writer) (closeErr : Option Err) (src : Src) (keys : List UInt8) : Outcome :=
  copyLoop dst closeErr (escapeKeys keys) src 0 []

/-! ## A source of whole chunks -/


/-- the source the client's input gives: these chunks, each read whole, then `(0, io.EOF)` -/
def source (chunks : List (List UInt8)) : Src := ⟨chunks, .eof, false⟩

/-- chunks a read into the buffer hands over whole -/
def Fit (chunks : List (List UInt8)) : Prop := ∀ c ∈ chunks, c.length ≤ bufSize

theorem read_source_nil (n : ℕ) : (source []).read n = ⟨[], some .eof, source []⟩ :=
  Chunked.read_of_chunks_nil _ _ rfl

theorem read_source_cons {c : List UInt8} {cs : List (List UInt8)} (hc : c.length ≤ bufSize) :
    (source (c :: cs)).read bufSize = ⟨c, none, source cs⟩ := by
  rw [Chunked.read_of_length_le _ _ rfl hc]
  simp [source]

/-- a key read as a chunk of its own -/
def keyChunks (keys : List UInt8) : List (List UInt8) := keys.map fun k => [k]

theorem chunk_ne_key {data : List UInt8} {key : UInt8} :
    (data.length ≠ 1 ∨ data.head? ≠ some key) ↔ data ≠ [key] := by
  constructor
  · rintro (h | h) rfl <;> simp at h
  · intro h
    rcases data with _ | ⟨b, _ | ⟨b', l⟩⟩ <;> simp_all

/-- how the loop over the keys ends on a source of whole chunks: the keys were read, or the chunk that broke the
match is written after some key chunks that are not, or the source ended first -/
theorem escapeLoop_source : ∀ (keys data : List UInt8) (cs : List (List UInt8)), Fit cs →
    (∃ k ks rest, keys = k :: ks ∧ data = [k] ∧ cs = keyChunks ks ++ rest ∧
      escapeLoop keys data none (source cs) = .detach (source rest)) ∨
    (∃ dropped d rest, (∀ c ∈ dropped, c ∈ keyChunks keys) ∧ data :: cs = dropped ++ d :: rest ∧
      escapeLoop keys data none (source cs) = .write d none (source rest)) ∨
    (∃ dropped, (∀ c ∈ dropped, c ∈ keyChunks keys) ∧ data :: cs = dropped ∧
      escapeLoop keys data none (source cs) = .write [] (some .eof) (source []))
  | [], data, cs, _ => .inr (.inl ⟨[], data, cs, by simp, rfl, rfl⟩)
  | key :: keys, data, cs, hfit => by
    by_cases hd : data = [key]
    swap
    · -- the first read is not the key: it is written
      refine .inr (.inl ⟨[], data, cs, by simp, rfl, ?_⟩)
      rw [escapeLoop, if_pos (chunk_ne_key.mpr hd)]
    subst hd
    by_cases hk : keys = []
    · subst hk
      refine .inl ⟨key, [], cs, rfl, rfl, rfl, ?_⟩
      simp [escapeLoop]
    rcases cs with _ | ⟨c, cs⟩
    · -- the source ends while the keys are typed
      refine .inr (.inr ⟨[[key]], by simp [keyChunks], rfl, ?_⟩)
      rw [escapeLoop, if_neg (by simp), if_neg hk, read_source_nil]
      obtain ⟨k', ks', rfl⟩ := List.exists_cons_of_ne_nil hk
      simp [escapeLoop]
    have hc := hfit c List.mem_cons_self
    have hcs : Fit cs := fun c' h' => hfit c' (List.mem_cons_of_mem _ h')
    have hstep : escapeLoop (key :: keys) [key] none (source (c :: cs)) = escapeLoop keys c none (source cs) := by
      rw [escapeLoop, if_neg (by simp), if_neg hk, read_source_cons hc]
    rw [hstep]
    rcases escapeLoop_source keys c cs hcs with ⟨k, ks, rest, hkeys, hdata, hrest, hesc⟩ |
      ⟨dropped, d, rest, hdropped, hsplit, hesc⟩ | ⟨dropped, hdropped, hsplit, hesc⟩
    · refine .inl ⟨key, keys, rest, rfl, rfl, ?_, hesc⟩
      rw [hkeys, hdata, hrest]
      rfl
    · refine .inr (.inl ⟨[key] :: dropped, d, rest, ?_, by rw [List.cons_append, ← hsplit], hesc⟩)
      intro c' hc'
      rcases List.mem_cons.mp hc' with rfl | hc'
      · simp [keyChunks]
      · simpa [keyChunks] using Or.inr (by simpa [keyChunks] using hdropped c' hc')
    · refine .inr (.inr ⟨[key] :: dropped, ?_, by rw [← hsplit], hesc⟩)
      intro c' hc'
      rcases List.mem_cons.mp hc' with rfl | hc'
      · simp [keyChunks]
      · simpa [keyChunks] using Or.inr (by simpa [keyChunks] using hdropped c' hc')

section Steps

/-- `if nw > 0 { written += int64(nw) }` -/
theorem written_add (written n : ℕ) : (if 0 < n then written + n else written) = written + n := by
  split_ifs <;> omega

variable (closeErr : Option Err) (keys : List UInt8) (written : ℕ) (out : List UInt8)

theorem copyLoop_source_nil :
    copyLoop acceptAll closeErr keys (source []) written out = ⟨written, none, out, false, source []⟩ := by
  rw [copyLoop]
  simp [read_source_nil]

theorem copyLoop_source_empty {cs : List (List UInt8)} :
    copyLoop acceptAll closeErr keys (source ([] :: cs)) written out =
      copyLoop acceptAll closeErr keys (source cs) written out := by
  rw [copyLoop]
  simp [read_source_cons (show ([] : List UInt8).length ≤ bufSize by decide)]

variable {closeErr keys written out} {c : List UInt8} {cs : List (List UInt8)}

theorem copyLoop_source_detach (hc : c.length ≤ bufSize) (hne : c ≠ []) {src' : Src}
    (h : escapeLoop keys c none (source cs) = .detach src') :
    copyLoop acceptAll closeErr keys (source (c :: cs)) written out = ⟨0, closeErr, out, true, src'⟩ := by
  rw [copyLoop]
  simp only [read_source_cons hc, List.length_pos_iff.mpr hne, if_true]
  split
  · rename_i h'
    simp only [read_source_cons hc, h] at h'
    cases h'
    rfl
  · rename_i h'
    simp only [read_source_cons hc, h] at h'
    cases h'

theorem copyLoop_source_write (hc : c.length ≤ bufSize) (hne : c ≠ []) {d : List UInt8} {src' : Src}
    (h : escapeLoop keys c none (source cs) = .write d none src') :
    copyLoop acceptAll closeErr keys (source (c :: cs)) written out =
      copyLoop acceptAll closeErr keys src' (written + d.length) (out ++ d) := by
  rw [copyLoop]
  simp only [read_source_cons hc, List.length_pos_iff.mpr hne, if_true]
  split
  · rename_i h'
    simp only [read_source_cons hc, h] at h'
    cases h'
  · rename_i h'
    simp only [read_source_cons hc, h] at h'
    cases h'
    rw [written_add]
    simp [acceptAll]

theorem copyLoop_source_write_eof (hc : c.length ≤ bufSize) (hne : c ≠ []) {d : List UInt8} {src' : Src}
    (h : escapeLoop keys c none (source cs) = .write d (some .eof) src') :
    copyLoop acceptAll closeErr keys (source (c :: cs)) written out =
      ⟨written + d.length, none, out ++ d, false, src'⟩ := by
  rw [copyLoop]
  simp only [read_source_cons hc, List.length_pos_iff.mpr hne, if_true]
  split
  · rename_i h'
    simp only [read_source_cons hc, h] at h'
    cases h'
  · rename_i h'
    simp only [read_source_cons hc, h] at h'
    cases h'
    rw [written_add]
    simp [acceptAll]

end Steps

/-- `kept` is `cs` less some chunks that each hold one key -/
inductive LessKeys (keys : List UInt8) : List (List UInt8) → List (List UInt8) → Prop
  | nil : LessKeys keys [] []
  | keep (c : List UInt8) {cs kept : List (List UInt8)} : LessKeys keys cs kept → LessKeys keys (c :: cs) (c :: kept)
  | drop {k : UInt8} {cs kept : List (List UInt8)} : k ∈ keys → LessKeys keys cs kept → LessKeys keys ([k] :: cs) kept

theorem LessKeys.drops {keys : List UInt8} {kept : List (List UInt8)} :
    ∀ {dropped cs : List (List UInt8)}, (∀ c ∈ dropped, c ∈ keyChunks keys) → LessKeys keys cs kept →
      LessKeys keys (dropped ++ cs) kept
  | [], _, _, h => h
  | c :: dropped, cs, hd, h => by
    obtain ⟨k, hk, rfl⟩ : ∃ k ∈ keys, [k] = c := by simpa [keyChunks] using hd c List.mem_cons_self
    exact .drop hk (LessKeys.drops (fun c' h' => hd c' (List.mem_cons_of_mem _ h')) h)

theorem Fit.append_cons {pre rest : List (List UInt8)} {d : List UInt8} (h : Fit (pre ++ d :: rest)) : Fit rest :=
  fun c hc => h c (List.mem_append_right _ (List.mem_cons_of_mem _ hc))

section Run

variable {closeErr : Option Err} {keys : List UInt8}

/-- on a source of whole chunks `copyEscapable` writes the chunks less some that each hold one key, and either
reads to the end and returns what it wrote, or stops right after the keys, read one to a chunk, and returns `0` -/
theorem copyLoop_source (cs : List (List UInt8)) (hfit : Fit cs) (written : ℕ)
    (out : List UInt8) :
    ∃ kept, (∃ pre rest, cs = pre ++ keyChunks keys ++ rest ∧ LessKeys keys pre kept ∧
        copyLoop acceptAll closeErr keys (source cs) written out =
          ⟨0, closeErr, out ++ kept.flatten, true, source rest⟩) ∨
      (LessKeys keys cs kept ∧ copyLoop acceptAll closeErr keys (source cs) written out =
        ⟨written + kept.flatten.length, none, out ++ kept.flatten, false, source []⟩) := by
  -- on the chunks left: the loop over the keys may take several of them
  induction hn : cs.length using Nat.strong_induction_on generalizing cs written out with
  | _ n ih =>
  rcases cs with _ | ⟨c, cs⟩
  · exact ⟨[], .inr ⟨.nil, by simp [copyLoop_source_nil]⟩⟩
  have hc := hfit c List.mem_cons_self
  have hcs : Fit cs := fun c' h' => hfit c' (List.mem_cons_of_mem _ h')
  by_cases hc0 : c = []
  · -- an empty read is passed over
    subst hc0
    rw [copyLoop_source_empty]
    obtain ⟨kept, ⟨pre, rest, hsplit, hless, hrun⟩ | ⟨hless, hrun⟩⟩ :=
      ih cs.length (by simp [← hn]) cs hcs written out rfl
    · exact ⟨[] :: kept, .inl ⟨[] :: pre, rest, by rw [hsplit]; rfl, .keep _ hless, by simpa using hrun⟩⟩
    · exact ⟨[] :: kept, .inr ⟨.keep _ hless, by simpa using hrun⟩⟩
  rcases escapeLoop_source keys c cs hcs with ⟨k, ks, rest, hkeys', hdata, hrest, hesc⟩ |
    ⟨dropped, d, rest, hdropped, hsplit, hesc⟩ | ⟨dropped, hdropped, hsplit, hesc⟩
  · -- the detach keys
    refine ⟨[], .inl ⟨[], rest, ?_, .nil, by rw [copyLoop_source_detach hc hc0 hesc]; simp⟩⟩
    rw [hkeys', hdata, hrest]
    rfl
  · -- the keys matched so far are lost, and the chunk that broke the match is written
    have hlen : rest.length < n := by
      have := congrArg List.length hsplit
      simp only [List.length_cons, List.length_append] at this hn
      omega
    rw [copyLoop_source_write hc hc0 hesc]
    obtain ⟨kept, ⟨pre, rest', hsplit', hless, hrun⟩ | ⟨hless, hrun⟩⟩ :=
      ih rest.length hlen rest (Fit.append_cons (hsplit ▸ hfit)) (written + d.length) (out ++ d) rfl
    · refine ⟨d :: kept, .inl ⟨dropped ++ d :: pre, rest', ?_, LessKeys.drops hdropped (.keep d hless), by simpa using hrun⟩⟩
      rw [hsplit, hsplit']
      simp
    · refine ⟨d :: kept, .inr ⟨hsplit ▸ LessKeys.drops hdropped (.keep d hless), ?_⟩⟩
      rw [hrun]
      simp only [List.flatten_cons, List.length_append, List.append_assoc]
      congr 1
      omega
  · -- the source ends while the keys are typed: what was matched is lost
    rw [copyLoop_source_write_eof hc hc0 hesc]
    refine ⟨[], .inr ⟨?_, by simp⟩⟩
    rw [hsplit, ← List.append_nil dropped]
    exact LessKeys.drops hdropped .nil

/-- with no chunk that holds the first key alone, everything is written -/
theorem copyLoop_source_plain {k : UInt8} {ks : List UInt8} :
    ∀ (cs : List (List UInt8)), Fit cs → (∀ c ∈ cs, c ≠ [k]) → ∀ (written : ℕ) (out : List UInt8),
      copyLoop acceptAll closeErr (k :: ks) (source cs) written out =
        ⟨written + cs.flatten.length, none, out ++ cs.flatten, false, source []⟩
  | [], _, _, written, out => by simp [copyLoop_source_nil]
  | c :: cs, hfit, hk, written, out => by
    have hcs : Fit cs := fun c' h' => hfit c' (List.mem_cons_of_mem _ h')
    have hk' : ∀ c ∈ cs, c ≠ [k] := fun c' h' => hk c' (List.mem_cons_of_mem _ h')
    by_cases hc0 : c = []
    · subst hc0
      rw [copyLoop_source_empty, copyLoop_source_plain cs hcs hk' written out]
      simp
    have hesc : escapeLoop (k :: ks) c none (source cs) = .write c none (source cs) := by
      rw [escapeLoop, if_pos (chunk_ne_key.mpr (hk c List.mem_cons_self))]
    rw [copyLoop_source_write (hfit c List.mem_cons_self) hc0 hesc,
      copyLoop_source_plain cs hcs hk' (written + c.length) (out ++ c)]
    simp only [List.flatten_cons, List.length_append, List.append_assoc]
    congr 1
    omega

end Run

/-! ## `copyEscapable` -/

/-- what `copyEscapable` does on a source of whole chunks, from its start -/
theorem copyEscapable_source (closeErr : Option Err) (keys : List UInt8) (cs : List (List UInt8)) (hfit : Fit cs) :
    ∃ kept, (∃ pre rest, cs = pre ++ keyChunks (escapeKeys keys) ++ rest ∧ LessKeys (escapeKeys keys) pre kept ∧
        copyEscapable acceptAll closeErr (source cs) keys = ⟨0, closeErr, kept.flatten, true, source rest⟩) ∨
      (LessKeys (escapeKeys keys) cs kept ∧
        copyEscapable acceptAll closeErr (source cs) keys = ⟨kept.flatten.length, none, kept.flatten, false, source []⟩) := by
  simpa [copyEscapable] using @copyLoop_source closeErr _ cs hfit 0 []

/-- the first key typed alone, then anything but the second key: the first key is never written -/
theorem copyLoop_source_drops_first_key {closeErr : Option Err} {k k' : UInt8} {ks d : List UInt8}
    {cs : List (List UInt8)} (hd : d ≠ [k']) (hfit : d.length ≤ bufSize) (written : ℕ) (out : List UInt8) :
    copyLoop acceptAll closeErr (k :: k' :: ks) (source ([k] :: d :: cs)) written out =
      copyLoop acceptAll closeErr (k :: k' :: ks) (source cs) (written + d.length) (out ++ d) := by
  have hesc : escapeLoop (k :: k' :: ks) [k] none (source (d :: cs)) = .write d none (source cs) := by
    rw [escapeLoop, if_neg (by simp), if_neg (by simp), read_source_cons hfit, escapeLoop, if_pos (chunk_ne_key.mpr hd)]
  exact copyLoop_source_write (by simp [bufSize]) (by simp) hesc

/-- ctrl-p then `a`: the ctrl-p is lost. ctrl-p ctrl-p ctrl-q: the second ctrl-p breaks the match and is written
alone, and the detach keys that end the input are not seen -/
theorem copyEscapable_loses_typed_keys :
    copyEscapable acceptAll none (source [[16], [0x61]]) [] = ⟨1, none, [0x61], false, source []⟩ ∧
      copyEscapable acceptAll none (source [[16], [16], [17]]) [] = ⟨2, none, [16, 17], false, source []⟩ := by
  constructor
  · rw [copyEscapable, show escapeKeys [] = [16, 17] from rfl,
      copyLoop_source_drops_first_key (by decide) (by decide), copyLoop_source_nil]
    rfl
  · have hesc : escapeLoop [16, 17] [17] none (source []) = .write [17] none (source []) := by
      rw [escapeLoop, if_pos (chunk_ne_key.mpr (by decide))]
    rw [copyEscapable, show escapeKeys [] = [16, 17] from rfl,
      copyLoop_source_drops_first_key (by decide) (by decide), copyLoop_source_write (by decide) (by decide) hesc,
      copyLoop_source_nil]
    rfl

end DockerEngine.Container
