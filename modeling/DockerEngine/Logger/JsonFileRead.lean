/-
Lean model of `JSONFileLogger.Log` and of `readLogs` in `daemon/logger/jsonfilelog` when it does not follow: the
entries `Log` writes through the `RotateFileWriter` of `Logger.JsonFile`, and what a later `ReadLogs` with `Follow`
false and `Since` zero delivers from the files it opens, `path.(max-file - 1)` down to `path.1` and then `path`.

The files are read as one stream: the `MultiReadSeeker` over them behaves as their concatenation for the calls made
here (`Ioutils.multiReadSeeker_refines`; `TailFile` seeks from the end and reads with `len(b) = cap(b)`, and so does
the JSON decoder). With `Tail` positive, `TailFile` of `pkg/tailfile` reads the stream back in blocks of 1024 bytes
until it has more newlines than lines asked for, and the decoder reads its last lines joined by newlines. The file
operations succeed.

`tailFileLoop_spec` says where the block loop stops: with the whole stream, or with a suffix that holds more newlines
than lines asked for. A suffix starts inside a line (`splitOn_drop_terminated`), and the part of that line is the
piece `TailFile` drops, so over lines each ended by a newline it returns the last `n` of them, or all of them
(`tailFile_last_lines`), whatever the length of the stream.
-/
import DockerEngine.Logger.JsonFile
import DockerEngine.Pkg.Jsonlog

namespace DockerEngine.Tailfile

/-- `blockSize` -/
def blockSize : ℕ := 1024

/-- the loop of `TailFile(f, n)` over the blocks of `content` from its end, at block `block` (1 for the last), with
the `data` read so far holding `cnt` newlines; `fuel` bounds the blocks -/
def tailFileLoop (content : List UInt8) (n : ℕ) : ℕ → ℕ → ℕ → List UInt8 → List UInt8
  | 0, _, _, data => data
  | fuel + 1, block, cnt, data =>
    if content.length < block * blockSize then
      -- `left < 0`: what is left from the start of the file
      content.take (content.length + blockSize - block * blockSize) ++ data
    else
      let b := (content.drop (content.length - block * blockSize)).take blockSize
      if n < cnt + b.count 0x0A then b ++ data
      else tailFileLoop content n fuel (block + 1) (cnt + b.count 0x0A) (b ++ data)

/-- `TailFile(f, n)` for `n > 0`: the last `n` lines of `content` that end in a newline, without it -/
def tailFile (content : List UInt8) (n : ℕ) : List (List UInt8) :=
  let lines := (tailFileLoop content n (content.length / blockSize + 2) 1 0 []).splitOn 0x0A
  if n < lines.length then (lines.drop (lines.length - n - 1)).take n else lines.dropLast

/-! ## The last lines -/

/-- a line without newline, a newline and the rest split into the line and the pieces of the rest -/
theorem splitOn_line {line : List UInt8} (h : (0x0A : UInt8) ∉ line) (rest : List UInt8) :
    (line ++ 0x0A :: rest).splitOn 0x0A = line :: rest.splitOn 0x0A := by
  rw [List.splitOn, List.splitOnP_append_cons _ _ (by simp),
    List.splitOnP_eq_singleton fun x hx => by simpa using ne_of_mem_of_not_mem hx h]
  rfl

section Lines

variable {lines : List (List UInt8)} (hlines : ∀ l ∈ lines, (0x0A : UInt8) ∉ l)
include hlines

/-- lines each ended by a newline split into the lines and the empty piece after the last newline -/
theorem splitOn_terminated : ((lines.map (· ++ [0x0A])).flatten).splitOn 0x0A = lines ++ [[]] := by
  induction lines with
  | nil => rfl
  | cons l lines ih =>
    have hl := hlines l List.mem_cons_self
    rw [List.map_cons, List.flatten_cons, List.append_assoc, List.singleton_append, splitOn_line hl,
      ih fun l' hl' => hlines l' (List.mem_cons_of_mem _ hl'), List.cons_append]

/-- lines each ended by a newline hold one newline per line -/
theorem count_terminated : ((lines.map (· ++ [0x0A])).flatten).count 0x0A = lines.length := by
  induction lines with
  | nil => rfl
  | cons l lines ih =>
    have hl := hlines l List.mem_cons_self
    rw [List.map_cons, List.flatten_cons, List.count_append, List.count_append,
      ih fun l' hl' => hlines l' (List.mem_cons_of_mem _ hl'), List.count_eq_zero_of_not_mem hl]
    simp
    omega

/-- from any byte on, the text splits into the rest of the line that byte is in, the lines after it and the empty
piece, and holds one newline for that line and each after it -/
theorem splitOn_drop_terminated : ∀ m < ((lines.map (· ++ [0x0A])).flatten).length,
    ∃ i < lines.length, ∃ part : List UInt8,
      (((lines.map (· ++ [0x0A])).flatten).drop m).splitOn 0x0A = part :: lines.drop (i + 1) ++ [[]] ∧
      (((lines.map (· ++ [0x0A])).flatten).drop m).count 0x0A = lines.length - i := by
  induction lines with
  | nil => simp
  | cons l lines ih =>
    intro m hm
    have hl := hlines l List.mem_cons_self
    have hrest : ∀ l' ∈ lines, (0x0A : UInt8) ∉ l' := fun l' hl' => hlines l' (List.mem_cons_of_mem _ hl')
    rw [List.map_cons, List.flatten_cons, List.append_assoc, List.singleton_append] at hm ⊢
    by_cases hml : m ≤ l.length
    · -- the byte is in the first line, or is its newline
      refine ⟨0, by simp, l.drop m, ?_, ?_⟩
      · rw [List.drop_append_of_le_length hml, splitOn_line (fun h => hl (List.mem_of_mem_drop h)),
          splitOn_terminated hrest]
        simp
      · rw [List.drop_append_of_le_length hml, List.count_append, List.count_cons_self,
          count_terminated hrest, List.count_eq_zero_of_not_mem (fun h => hl (List.mem_of_mem_drop h))]
        simp
    · -- the byte is in a later line
      have hdrop : (l ++ 0x0A :: (lines.map (· ++ [0x0A])).flatten).drop m =
          ((lines.map (· ++ [0x0A])).flatten).drop (m - (l.length + 1)) := by
        rw [← List.singleton_append, ← List.append_assoc, List.drop_append, List.drop_eq_nil_of_le (by simp; omega)]
        simp
      obtain ⟨i, hi, part, hsplit, hcount⟩ := ih hrest (m - (l.length + 1)) (by simp at hm ⊢; omega)
      refine ⟨i + 1, by simp; omega, part, ?_, ?_⟩
      · rw [hdrop, hsplit]
        simp
      · rw [hdrop, hcount]
        simp

end Lines

/-- the pieces `TailFile` keeps of the pieces `L` and the empty one after the last newline: the last `n` of `L` -/
theorem lastPieces_append_nil (L : List (List UInt8)) (n : ℕ) :
    (if n < (L ++ [[]]).length then ((L ++ [[]]).drop ((L ++ [[]]).length - n - 1)).take n
      else (L ++ [[]]).dropLast) = L.drop (L.length - n) := by
  rw [List.length_append, List.length_singleton]
  split_ifs with hn
  · rw [show L.length + 1 - n - 1 = L.length - n by omega, List.drop_append_of_le_length (by omega)]
    exact List.take_left' (by simp; omega)
  · rw [List.dropLast_concat, show L.length - n = 0 by omega, List.drop_zero]

/-- the loop reads blocks back from the end: it stops with the whole content, or with a suffix holding more than
`n` newlines. Before block `block` it has read the last `(block - 1) * blockSize` bytes, with `cnt` newlines -/
theorem tailFileLoop_spec (content : List UInt8) (n : ℕ) : ∀ (fuel block cnt : ℕ) (data : List UInt8), 1 ≤ block →
    (block - 1) * blockSize ≤ content.length → data = content.drop (content.length - (block - 1) * blockSize) →
    cnt = data.count 0x0A → cnt ≤ n → content.length < (block - 1 + fuel) * blockSize →
    tailFileLoop content n fuel block cnt data = content ∨
      ∃ m, tailFileLoop content n fuel block cnt data = content.drop m ∧ n < (content.drop m).count 0x0A := by
  intro fuel
  induction fuel with
  | zero =>
    intro block cnt data _ hread _ _ _ hfuel
    simp at hfuel
    omega
  | succ fuel ih =>
    intro block cnt data hblock hread hdata hcnt hn hfuel
    -- this block ends where the bytes read so far start
    have hmul : block * blockSize = (block - 1) * blockSize + blockSize := by
      rw [← Nat.succ_mul, Nat.succ_eq_add_one, Nat.sub_add_cancel hblock]
    simp only [tailFileLoop]
    by_cases hleft : content.length < block * blockSize
    · -- `left < 0`: the bytes from the start, then those read, are the whole content
      rw [if_pos hleft]
      left
      rw [hdata, show content.length + blockSize - block * blockSize =
        content.length - (block - 1) * blockSize by omega, List.take_append_drop]
    · -- a whole block before the bytes read so far
      have hblock_data : (content.drop (content.length - block * blockSize)).take blockSize ++ data =
          content.drop (content.length - block * blockSize) := by
        rw [hdata, show content.length - (block - 1) * blockSize =
          content.length - block * blockSize + blockSize by omega, ← List.drop_drop, List.take_append_drop]
      rw [if_neg hleft]
      split_ifs with hstop
      · right
        refine ⟨content.length - block * blockSize, hblock_data, ?_⟩
        rw [← hblock_data, List.count_append, ← hcnt, Nat.add_comm]
        exact hstop
      · refine ih (block + 1) _ _ (by omega) (by simp; omega) (by simpa using hblock_data)
          (by rw [List.count_append, hcnt]; omega) (by omega) ?_
        rw [show block + 1 - 1 + fuel = block - 1 + (fuel + 1) by omega]
        exact hfuel

/-- `TailFile(f, n)` over the lines of `f`, each ended by a newline: the last `n` lines, or all of them if there are
fewer, in order and without their newlines. The blocks `TailFile` reads may split a line: the part it has read of
the line is the first piece of what it splits, and is not among the last `n` -/
theorem tailFile_last_lines {lines : List (List UInt8)} (hlines : ∀ l ∈ lines, (0x0A : UInt8) ∉ l) {n : ℕ}
    (hn : 0 < n) : tailFile ((lines.map (· ++ [0x0A])).flatten) n = lines.drop (lines.length - n) := by
  have hloop := tailFileLoop_spec ((lines.map (· ++ [0x0A])).flatten) n
    (((lines.map (· ++ [0x0A])).flatten).length / blockSize + 2) 1 0 [] le_rfl (by simp) (by simp) rfl
    (Nat.zero_le n) (by simp only [blockSize]; omega)
  simp only [tailFile]
  rcases hloop with hall | ⟨m, hm, hmore⟩
  · -- the whole text was read
    rw [hall, splitOn_terminated hlines]
    exact lastPieces_append_nil lines n
  · -- a suffix with more than `n` newlines was read
    have hmlt : m < ((lines.map (· ++ [0x0A])).flatten).length := by
      by_contra hge
      rw [List.drop_eq_nil_of_le (by omega)] at hmore
      simp at hmore
    obtain ⟨i, hi, part, hsplit, hcount⟩ := splitOn_drop_terminated hlines m hmlt
    rw [hcount] at hmore
    rw [hm, hsplit, lastPieces_append_nil, List.length_cons, List.length_drop,
      show lines.length - (i + 1) + 1 - n = (lines.length - n - (i + 1)) + 1 by omega, List.drop_succ_cons,
      List.drop_drop, show i + 1 + (lines.length - n - (i + 1)) = lines.length - n by omega]

theorem tailFile_last_lines_two :
    (∀ l ∈ [[0x61], [0x62]], (0x0A : UInt8) ∉ l) ∧ 0 < 1 ∧
      tailFile (([[0x61], [0x62]] : List (List UInt8)).map (· ++ [0x0A])).flatten 1 = [[0x62]] :=
  ⟨by decide, by decide, tailFile_last_lines (by decide) (by decide)⟩

end DockerEngine.Tailfile

namespace DockerEngine.Jsonfilelog

open Go Json Jsonlog Logger

/-- `logger.Message`: the line, the source and the time -/
structure Message where
  line : Bytes
  source : Bytes
  timestamp : Time
  deriving DecidableEq, Repr

/-! ## Writing -/

/-- the entry `Log` writes for `msg`, with the extra attributes `extra` already encoded: the object and a newline -/
def logEntry (extra : Bytes) (msg : Message) : Except Text Bytes := do
  let timestamp ← fastTimeMarshalJSON msg.timestamp
  pure (marshalJSONBuf ⟨msg.line ++ [0x0A], msg.source, timestamp.map Char.toUInt8, extra⟩ ++ [0x0A])

/-- `l.Log(msg)` through a writer of `max-size` `capacity` and `max-file` `maxFiles`: the entry is written after
`checkCapacityAndRotate`, and a time `FastTimeMarshalJSON` refuses writes nothing -/
def log (capacity : ℤ) (maxFiles : ℕ) (extra : Bytes) (w : RotateFileWriter Bytes) (msg : Message) :
    RotateFileWriter Bytes :=
  match logEntry extra msg with
  | .error _ => w
  | .ok entry =>
    let w := if w.needsRotate capacity then w.rotate maxFiles else w
    w.write entry.length entry

/-! ## Reading -/

/-- `decodeLogLine(dec, l)`: the message of the next value of the stream -/
def decodeLogLine (s : Bytes) : Decoded Message :=
  match decodeValue s with
  | .eof => .eof
  | .error => .error
  | .ok v rest =>
    match unmarshalJSONLog JSONLog.reset v with
    | some l => .ok ⟨l.log, l.stream, l.created⟩ rest
    | none => .error

/-- the loop of `tailFile` over the stream: the messages sent on `logWatcher.Msg`, and whether an error was sent on
`logWatcher.Err`; `fuel` bounds the values, each of at least one byte -/
def decodeLoop : ℕ → Bytes → List Message × Bool
  | 0, _ => ([], false)
  | fuel + 1, s =>
    match decodeLogLine s with
    | .eof => ([], false)
    | .error => ([], true)
    | .ok msg rest => ((msg :: (decodeLoop fuel rest).1), (decodeLoop fuel rest).2)

/-- `tailFile(f, logWatcher, tail, since)` with `since` zero, over the stream `content` -/
def tailFile (content : Bytes) (tail : ℤ) : List Message × Bool :=
  let rdr := if 0 < tail then [(0x0A : UInt8)].intercalate (Tailfile.tailFile content tail.toNat) else content
  decodeLoop (rdr.length + 1) rdr

end DockerEngine.Jsonfilelog
