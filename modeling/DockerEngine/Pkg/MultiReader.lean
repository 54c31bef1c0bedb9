/-
Lean model of `pkg/ioutils/multireader.go`: `MultiReadSeeker`, one `io.ReadSeeker` over the concatenation of two or
more in-memory readers (`strings.Reader`).

The state is the component readers, each with its own position, and `pos`: the index of the current reader and the
offset in it, `nil` before the first call. `Read` copies from the component readers at THEIR positions, up to
`cap(b)` bytes, and returns at most `len(b)` of them; `Seek(SEEK_SET)` puts every reader where the target needs it.
`Seek(SEEK_CUR)` by a non-zero offset only computes a new `pos`, and moves no reader: its `getReaderForOffset` assigns
to the loop's own `rdr`, so it returns `nil` and `posIdx[nil]` is 0, and `getOffsetToReader` adds the size of the
reader it was asked about once for every reader before it.

`Positioned m L` is the state of a multi-reader at logical position `L`: the readers before the current one at their
end, the current one at `pos.offset`, the ones after it at 0. `Read` with `len(b) = cap(b)`, `Seek(SEEK_SET)`,
`Seek(SEEK_END)` and `Seek(0, SEEK_CUR)` keep it and do what the concatenation does (`concatStep`), so over such
calls the multi-reader refines the concatenation (`multiReadSeeker_refines`). A `Seek(SEEK_CUR)` by a non-zero
offset and a `Read` with `cap(b) > len(b)` do not (`multiReadSeeker_seekCur`).

The `Seek`s that the code makes on its readers cannot fail on a `strings.Reader` where the code checks them, and
`io.CopyN` from one never fails; `getReadSeekerSize` is the size.
-/
import Mathlib.Tactic
import DockerEngine.Lib.Machine

namespace DockerEngine.Ioutils

/-- `os.SEEK_SET`, `os.SEEK_CUR` and `os.SEEK_END` -/
inductive Whence
  | seekSet
  | seekCur
  | seekEnd
  deriving DecidableEq, Repr

/-! ## `strings.Reader` -/

/-- a `strings.Reader`: its bytes and its read position -/
structure StringsReader where
  s : List UInt8
  i : ℕ
  deriving DecidableEq, Repr

namespace StringsReader

/-- `Seek(offset, whence)` -/
def seek (r : StringsReader) (offset : ℤ) (whence : Whence) : Except String (StringsReader × ℤ) :=
  let abs : ℤ :=
    match whence with
    | .seekSet => offset
    | .seekCur => r.i + offset
    | .seekEnd => r.s.length + offset
  if abs < 0 then .error "strings.Reader.Seek: negative position" else .ok ({ r with i := abs.toNat }, abs)

/-- `io.CopyN(buf, r, n)`: the reader after it, and the bytes copied, `n` of them or as many as are left -/
def copyN (r : StringsReader) (n : ℕ) : StringsReader × List UInt8 :=
  ({ r with i := r.i + min n (r.s.length - r.i) }, (r.s.drop r.i).take n)

@[simp] theorem seek_end (r : StringsReader) : r.seek 0 .seekEnd = .ok ({ r with i := r.s.length }, r.s.length) := by
  simp [seek]

@[simp] theorem seek_cur (r : StringsReader) : r.seek 0 .seekCur = .ok (r, r.i) := by
  simp [seek]

@[simp] theorem seek_set (r : StringsReader) (n : ℕ) : r.seek n .seekSet = .ok ({ r with i := n }, n) := by
  simp [seek]

@[simp] theorem seek_zero_set (r : StringsReader) : r.seek 0 .seekSet = .ok ({ r with i := 0 }, 0) := by
  simp [seek]

/-- `r.Seek(offset, SEEK_SET)` with its error unchecked -/
def seekTo (r : StringsReader) (offset : ℤ) : StringsReader :=
  match r.seek offset .seekSet with
  | .ok (r, _) => r
  | .error _ => r

@[simp] theorem seekTo_nat (r : StringsReader) (n : ℕ) : r.seekTo n = { r with i := n } := by
  simp [seekTo]

@[simp] theorem seekTo_zero (r : StringsReader) : r.seekTo 0 = { r with i := 0 } := by
  simp [seekTo]

theorem copyN_length (r : StringsReader) (n : ℕ) : (r.copyN n).2.length = min n (r.s.length - r.i) := by
  simp [copyN]

end StringsReader

/-- `getReadSeekerSize(rdr)`: `Seek(0, SEEK_END)` between saving and restoring the position -/
def getReadSeekerSize (rdr : StringsReader) : Except String ℤ := do
  let (rdr, pos) ← rdr.seek 0 .seekCur
  let (rdr, size) ← rdr.seek 0 .seekEnd
  let _ ← rdr.seek pos .seekSet
  pure size

@[simp] theorem getReadSeekerSize_eq (rdr : StringsReader) : getReadSeekerSize rdr = .ok rdr.s.length := by
  simp [getReadSeekerSize]
  rfl

/-! ## `multiReadSeeker` -/

/-- `multiReadSeeker`: the readers, by index (`posIdx` maps each reader to its index), and `pos` -/
structure MultiReadSeeker where
  readers : List StringsReader
  pos : Option (ℕ × ℤ)

/-- `MultiReadSeeker(readers...)`, for two or more readers -/
def multiReadSeeker (readers : List StringsReader) : MultiReadSeeker := ⟨readers, none⟩

/-- the loop of `getCurOffset()` over `readers[:pos.idx+1]`: the sizes of the readers before `pos.idx`, and then
`pos.offset` -/
def getCurOffsetLoop (p : ℕ × ℤ) : ℕ → ℤ → List StringsReader → Except String ℤ
  | _, total, [] => .ok total
  | j, total, rdr :: rest =>
    if j = p.1 then .ok (total + p.2)
    else
      match getReadSeekerSize rdr with
      | .error e => .error ("error getting seeker size: " ++ e)
      | .ok size => getCurOffsetLoop p (j + 1) (total + size) rest

/-- `getCurOffset()`; `none` where `readers[:pos.idx+1]` is out of range -/
def getCurOffset (readers : List StringsReader) (p : ℕ × ℤ) : Option (Except String ℤ) :=
  if p.1 < readers.length then some (getCurOffsetLoop p 0 0 (readers.take (p.1 + 1))) else none

/-- `getOffsetToReader(rdr)`, given the readers before `rdr`: the loop stops at `rdr`, but adds the size of `rdr`, not
of the reader it passes -/
def getOffsetToReader (before : List StringsReader) (rdr : StringsReader) : Except String ℤ :=
  match before with
  | [] => .ok 0
  | _ :: before =>
    match getReadSeekerSize rdr with
    | .error e => .error e
    | .ok size => (getOffsetToReader before rdr).map (size + ·)

/-- the loop of `getReaderForOffset(offset)`, at the reader of index `i`. The loop's `rdr` shadows the reader that
the function returns, which stays `nil`: only `rdrOffset` comes out. `readers[i-1]` panics (`none`) at `i = 0` -/
def getReaderForOffsetLoop (readers : List StringsReader) (offset : ℤ) :
    ℕ → List StringsReader → Option (Except String ℤ)
  | _, [] => some (.ok 0)
  | i, rdr :: rest =>
    match getOffsetToReader (readers.take i) rdr with
    | .error e => some (.error e)
    | .ok offsetTo =>
      if offsetTo > offset then (if i = 0 then none else some (.ok (offsetTo - offset)))
      -- `rdr == r.readers[len(r.readers)-1]`
      else if rest = [] then some (.ok (offsetTo + offset))
      else getReaderForOffsetLoop readers offset (i + 1) rest

/-- `getReaderForOffset(offset)`: the `rdrOffset` it returns with a `nil` reader -/
def getReaderForOffset (readers : List StringsReader) (offset : ℤ) : Option (Except String ℤ) :=
  getReaderForOffsetLoop readers offset 0 readers

/-- the loop of `Seek(offset, SEEK_SET)` from the current reader on; `pre` are the readers before it, which
`Seek(0, SEEK_END)` left at their end, and `tmpOffset` their total size. The readers as the loop leaves them, and the
new `pos` or the error -/
def seekSetLoop (offset : ℤ) (pre : List StringsReader) (tmpOffset : ℤ) :
    List StringsReader → List StringsReader × Except String (ℕ × ℤ)
  | [] => (pre, .error ("Error seeking for whence: 0, offset: " ++ toString offset))
  | rdr :: rest =>
    match rdr.seek 0 .seekEnd with
    | .error e => (pre ++ rdr :: rest, .error e)
    | .ok (rdr, s) =>
      if offset > tmpOffset + s then
        if rest = [] then
          -- past the end of the last reader
          let rdrOffset := s + (offset - tmpOffset)
          match rdr.seek rdrOffset .seekSet with
          | .error e => (pre ++ [rdr], .error e)
          | .ok (rdr, _) => (pre ++ [rdr], .ok (pre.length, rdrOffset))
        else seekSetLoop offset (pre ++ [rdr]) (tmpOffset + s) rest
      else
        let rdrOffset := offset - tmpOffset
        let rdr := rdr.seekTo rdrOffset
        -- the readers after it go back to 0
        let rest := rest.map (·.seekTo 0)
        -- at the end of a reader that is not the last, the position is the start of the next one
        let p := if rdrOffset = s ∧ rest ≠ [] then (pre.length + 1, 0) else (pre.length, rdrOffset)
        (pre ++ rdr :: rest, .ok p)

namespace MultiReadSeeker

/-- `Seek(offset, SEEK_SET)` -/
def seekSet (m : MultiReadSeeker) (offset : ℤ) : MultiReadSeeker × Except String ℤ :=
  match seekSetLoop offset [] 0 m.readers with
  | (readers, .ok p) => (⟨readers, some p⟩, .ok offset)
  | (readers, .error e) => ({ m with readers }, .error e)

/-- the loop of `Seek(offset, SEEK_END)`: every reader moved to its end, and their total size -/
def sizeLoop : List StringsReader → List StringsReader × Except String ℤ
  | [] => ([], .ok 0)
  | rdr :: rest =>
    match rdr.seek 0 .seekEnd with
    | .error e => (rdr :: rest, .error e)
    | .ok (rdr, s) =>
      let r := sizeLoop rest
      (rdr :: r.1, r.2.map (s + ·))

/-- `Seek(offset, whence)`; `none` where it panics -/
def seek (m : MultiReadSeeker) (offset : ℤ) : Whence → Option (MultiReadSeeker × Except String ℤ)
  | .seekSet => some (m.seekSet offset)
  | .seekEnd =>
    match sizeLoop m.readers with
    | (readers, .error e) => some ({ m with readers }, .error e)
    -- the result of the inner `Seek` is dropped
    | (readers, .ok tmpOffset) => some ((seekSet { m with readers } (tmpOffset + offset)).1, .ok (tmpOffset + offset))
  | .seekCur =>
    match m.pos with
    | none => some (m.seekSet offset)
    | some p =>
      if offset = 0 then (getCurOffset m.readers p).map fun r => (m, r)
      else
        match getCurOffset m.readers p with
        | none => none
        | some (.error e) => some (m, .error e)
        | some (.ok curOffset) =>
          match getReaderForOffset m.readers (curOffset + offset) with
          | none => none
          | some (.error e) => some (m, .error e)
          -- `posIdx[nil]` is 0; no reader moves
          | some (.ok rdrOffset) => some ({ m with pos := some (0, rdrOffset) }, .ok (curOffset + offset))

/-- the loop of `Read`: `io.CopyN(buf, rdr, bCap)` from the current reader on, until `bCap` bytes are copied or the
readers run out; the readers, the index among them of the last one visited (`rdr` after the loop), it, and the bytes -/
def copyLoop (bCap : ℕ) (rdr : StringsReader) :
    List StringsReader → List StringsReader × ℕ × StringsReader × List UInt8
  | [] =>
    let c := rdr.copyN bCap
    ([c.1], 0, c.1, c.2)
  | next :: rest =>
    let c := rdr.copyN bCap
    if bCap - c.2.length = 0 then (c.1 :: next :: rest, 0, c.1, c.2)
    else
      let r := copyLoop (bCap - c.2.length) next rest
      (c.1 :: r.1, r.2.1 + 1, r.2.2.1, c.2 ++ r.2.2.2)

/-- `Read(b)` for a `b` of length `len` and capacity `cap`: the data returned and whether the error is `io.EOF`;
`none` where it panics -/
def read (m : MultiReadSeeker) (len cap : ℕ) : Option (MultiReadSeeker × List UInt8 × Bool) :=
  let p := m.pos.getD (0, 0)
  match m.readers.drop p.1 with
  -- `readers[pos.idx:]` is empty, and `rdr` stays `nil`
  | [] => none
  | rdr :: rest =>
    let r := copyLoop cap rdr rest
    let m' : MultiReadSeeker := ⟨m.readers.take p.1 ++ r.1, some (p.1 + r.2.1, r.2.2.1.i)⟩
    -- `buf.Read(b)`
    if r.2.2.2 = [] ∧ 0 < len then some (m', [], true) else some (m', r.2.2.2.take len, false)

end MultiReadSeeker

/-! ## Calls -/

inductive SeekOp
  | read (len cap : ℕ)
  | seek (offset : ℤ) (whence : Whence)
  deriving DecidableEq, Repr

inductive SeekRet
  | read (data : List UInt8) (eof : Bool)
  | seek (result : Except String ℤ)
  deriving DecidableEq

/-- one call on a multi-reader; `none` where it panics -/
def step (m : MultiReadSeeker) : SeekOp → Option (MultiReadSeeker × SeekRet)
  | .read len cap => (m.read len cap).map fun r => (r.1, .read r.2.1 r.2.2)
  | .seek offset whence => (m.seek offset whence).map fun r => (r.1, .seek r.2)

/-! ## The concatenation -/

/-- the bytes of some readers one after the other -/
def content (readers : List StringsReader) : List UInt8 := (readers.map (·.s)).flatten

/-- the total size of some readers -/
def sizes (readers : List StringsReader) : ℕ := (readers.map (·.s.length)).sum

/-- the reader over the concatenation `c`, at position `offset`, for the calls it is specified on: a `Read` into a
non-empty buffer returns the next bytes, as many as fit or are left, and `io.EOF` at the end, and a `Seek` to a target
in `[0, |c|]` goes there -/
def concatStep (c : List UInt8) (offset : ℕ) : SeekOp → Option (ℕ × SeekRet)
  | .read len cap =>
    if 0 < len ∧ len ≤ cap then
      let data := (c.drop offset).take len
      some (offset + data.length, .read data data.isEmpty)
    else none
  | .seek off whence =>
    let target : ℤ :=
      match whence with
      | .seekSet => off
      | .seekCur => offset + off
      | .seekEnd => c.length + off
    if 0 ≤ target ∧ target ≤ c.length then some (target.toNat, .seek (.ok target)) else none

/-- the calls on which the multi-reader does what the concatenation does -/
def SeekOp.Plain : SeekOp → Prop
  | .read len cap => len = cap
  | .seek offset .seekCur => offset = 0
  | .seek _ _ => True

/-- a multi-reader at logical position `L`: the readers before the current one at their end, the current one at
`pos.offset`, the ones after it at 0 -/
def Positioned (m : MultiReadSeeker) (L : ℕ) : Prop :=
  ∃ pre cur post, m.readers = pre ++ cur :: post ∧ (∀ r ∈ pre, r.i = r.s.length) ∧ cur.i ≤ cur.s.length ∧
    (∀ r ∈ post, r.i = 0) ∧ m.pos.getD (0, 0) = (pre.length, (cur.i : ℤ)) ∧ L = sizes pre + cur.i

@[simp] theorem sizes_nil : sizes [] = 0 := rfl

@[simp] theorem sizes_cons (r : StringsReader) (rs : List StringsReader) : sizes (r :: rs) = r.s.length + sizes rs := by
  simp [sizes]

@[simp] theorem sizes_append (rs rs' : List StringsReader) : sizes (rs ++ rs') = sizes rs + sizes rs' := by
  simp [sizes]

theorem content_length (rs : List StringsReader) : (content rs).length = sizes rs := by
  simp [content, sizes, List.length_flatten, Function.comp_def]

/-- the concatenation from a position in the current reader on -/
theorem content_drop (pre post : List StringsReader) (cur : StringsReader) {i : ℕ} (hi : i ≤ cur.s.length) :
    (content (pre ++ cur :: post)).drop (sizes pre + i) = cur.s.drop i ++ content post := by
  have hpre : (content pre).length = sizes pre := content_length pre
  have hsplit : content (pre ++ cur :: post) = content pre ++ (cur.s ++ content post) := by simp [content]
  rw [hsplit, List.drop_append, hpre, Nat.sub_eq_of_eq_add' rfl, List.drop_eq_nil_of_le (by omega), List.nil_append,
    List.drop_append_of_le_length hi]

/-! ## `Seek` to a target in range -/

open MultiReadSeeker

/-- the loop of `Seek(SEEK_SET)` to a target within the readers from the current one on positions the multi-reader
there, wherever the readers were -/
theorem seekSetLoop_spec (offset : ℤ) (rest pre : List StringsReader) (hpre : ∀ r ∈ pre, r.i = r.s.length)
    (hrest : rest ≠ []) (h₀ : (sizes pre : ℤ) ≤ offset) (h₁ : offset ≤ sizes pre + sizes rest) :
    ∃ readers p, seekSetLoop offset pre (sizes pre) rest = (readers, .ok p) ∧
      readers.map (·.s) = (pre ++ rest).map (·.s) ∧ Positioned ⟨readers, some p⟩ offset.toNat := by
  induction rest generalizing pre with
  | nil => exact absurd rfl hrest
  | cons rdr rest ih =>
    rw [seekSetLoop, StringsReader.seek_end]
    dsimp only
    by_cases hgt : offset > sizes pre + rdr.s.length
    · -- the target lies after this reader, which stays at its end
      have hne : rest ≠ [] := by
        rintro rfl
        simp only [sizes_cons, sizes_nil] at h₁
        omega
      rw [if_pos hgt, if_neg hne]
      have hsize : ((sizes pre : ℤ) + rdr.s.length) = (sizes (pre ++ [{ rdr with i := rdr.s.length }]) : ℤ) := by
        simp
      have hpre' : ∀ r ∈ pre ++ [{ rdr with i := rdr.s.length }], r.i = r.s.length := by
        intro r hr
        rcases List.mem_append.mp hr with hr | hr
        · exact hpre r hr
        · rw [List.mem_singleton.mp hr]
      have hlo : (sizes (pre ++ [{ rdr with i := rdr.s.length }]) : ℤ) ≤ offset := by
        rw [← hsize]
        omega
      have hhi : offset ≤ sizes (pre ++ [{ rdr with i := rdr.s.length }]) + sizes rest := by
        rw [← hsize]
        simp only [sizes_cons] at h₁
        push_cast at h₁
        omega
      rw [hsize]
      obtain ⟨readers, p, heq, hs, hpos⟩ := ih (pre ++ [{ rdr with i := rdr.s.length }]) hpre' hne hlo hhi
      exact ⟨readers, p, heq, by simpa using hs, hpos⟩
    · -- the target is in this reader
      rw [if_neg hgt]
      obtain ⟨n, hn⟩ : ∃ n : ℕ, offset - sizes pre = n := ⟨(offset - sizes pre).toNat, by omega⟩
      have hnle : n ≤ rdr.s.length := by omega
      simp only [hn, StringsReader.seekTo_nat]
      by_cases hend : (n : ℤ) = rdr.s.length ∧ rest.map (·.seekTo 0) ≠ []
      · -- at the end of a reader that is not the last: the next one is current
        rw [if_pos hend]
        obtain ⟨r₀, rs, rfl⟩ := List.exists_cons_of_ne_nil (by simpa using hend.2)
        refine ⟨_, _, rfl, by simp, pre ++ [{ rdr with i := n }], { r₀ with i := 0 }, rs.map (·.seekTo 0), ?_, ?_, ?_,
          ?_, ?_, ?_⟩
        · simp
        · intro r hr
          rcases List.mem_append.mp hr with hr | hr
          · exact hpre r hr
          · rw [List.mem_singleton.mp hr]
            simp only
            omega
        · simp
        · simp
        · simp
        · simp only [sizes_append, sizes_cons, sizes_nil]
          omega
      · rw [if_neg hend]
        refine ⟨_, _, rfl, by simp, pre, { rdr with i := n }, rest.map (·.seekTo 0), ?_, hpre, hnle, ?_, ?_, ?_⟩
        · simp
        · simp
        · simp
        · show offset.toNat = sizes pre + n
          omega

/-- `Seek(SEEK_SET)` to a target in range positions the multi-reader there -/
theorem seekSet_spec (m : MultiReadSeeker) {offset : ℤ} (hne : m.readers ≠ []) (h₀ : 0 ≤ offset)
    (h₁ : offset ≤ sizes m.readers) :
    ∃ m', m.seekSet offset = (m', .ok offset) ∧ m'.readers.map (·.s) = m.readers.map (·.s) ∧
      Positioned m' offset.toNat := by
  obtain ⟨readers, p, heq, hs, hpos⟩ := seekSetLoop_spec offset m.readers [] (by simp) hne (by simpa) (by simpa)
  have heq' : seekSetLoop offset [] 0 m.readers = (readers, .ok p) := by simpa using heq
  exact ⟨⟨readers, some p⟩, by simp only [MultiReadSeeker.seekSet, heq'], by simpa using hs, hpos⟩

/-- the loop of `Seek(SEEK_END)` leaves every reader at its end and finds the total size -/
theorem sizeLoop_eq (readers : List StringsReader) :
    sizeLoop readers = (readers.map fun r => { r with i := r.s.length }, .ok (sizes readers : ℤ)) := by
  induction readers with
  | nil => rfl
  | cons r rs ih =>
    simp only [sizeLoop, StringsReader.seek_end, ih, List.map_cons, sizes_cons, Except.map]
    push_cast
    rfl

/-- `getCurOffset` at a position: the sizes before the current reader and the offset in it -/
theorem getCurOffsetLoop_eq (p : ℕ × ℤ) (cur : StringsReader) (ys : List StringsReader) :
    ∀ (xs : List StringsReader) (j : ℕ) (total : ℤ), j + xs.length = p.1 →
      getCurOffsetLoop p j total (xs ++ cur :: ys) = .ok (total + sizes xs + p.2)
  | [], j, total, h => by
    simp only [List.length_nil, Nat.add_zero] at h
    simp [getCurOffsetLoop, h]
  | x :: xs, j, total, h => by
    have hj : j ≠ p.1 := by
      simp only [List.length_cons] at h
      omega
    simp only [List.cons_append, getCurOffsetLoop, hj, if_false, getReadSeekerSize_eq]
    rw [getCurOffsetLoop_eq p cur ys xs (j + 1) _ (by simp only [List.length_cons] at h; omega)]
    simp only [sizes_cons]
    push_cast
    ring_nf

/-! ## `Read` at a position -/

/-- the loop of `Read` from the current reader on, the readers after it at 0: it copies the next `bCap` bytes of the
concatenation, or as many as are left, leaves the readers it has read to the end at their end and the last one it
visited after what it copied from it -/
theorem copyLoop_spec (bCap : ℕ) (cur : StringsReader) (post : List StringsReader) (hcur : cur.i ≤ cur.s.length)
    (hpost : ∀ r ∈ post, r.i = 0) :
    (copyLoop bCap cur post).2.2.2 = (cur.s.drop cur.i ++ content post).take bCap ∧
      ∃ done rest, (copyLoop bCap cur post).1 = done ++ (copyLoop bCap cur post).2.2.1 :: rest ∧
        (copyLoop bCap cur post).2.1 = done.length ∧ (∀ r ∈ done, r.i = r.s.length) ∧
        (copyLoop bCap cur post).2.2.1.i ≤ (copyLoop bCap cur post).2.2.1.s.length ∧ (∀ r ∈ rest, r.i = 0) ∧
        (copyLoop bCap cur post).1.map (·.s) = (cur :: post).map (·.s) ∧
        sizes done + (copyLoop bCap cur post).2.2.1.i = cur.i + (copyLoop bCap cur post).2.2.2.length := by
  induction post generalizing cur bCap with
  | nil =>
    have hlen := StringsReader.copyN_length cur bCap
    refine ⟨by simp [copyLoop, StringsReader.copyN, content], [], [], rfl, rfl, by simp, ?_, by simp, rfl, ?_⟩
    · simp only [copyLoop, StringsReader.copyN]
      omega
    · simp only [copyLoop, sizes_nil, Nat.zero_add] at hlen ⊢
      simp only [StringsReader.copyN] at hlen ⊢
      omega
  | cons next post ih =>
    have hlen := StringsReader.copyN_length cur bCap
    by_cases hfull : bCap - (cur.copyN bCap).2.length = 0
    · -- the buffer is full after this reader
      have hle : bCap ≤ (cur.s.drop cur.i).length := by
        simp only [List.length_drop]
        omega
      refine ⟨?_, [], next :: post, ?_⟩
      · simp only [copyLoop, hfull, if_true]
        simp only [StringsReader.copyN]
        rw [List.take_append_of_le_length hle]
      · simp only [copyLoop, hfull, if_true]
        refine ⟨rfl, rfl, by simp, ?_, hpost, by simp [StringsReader.copyN], ?_⟩
        · simp only [StringsReader.copyN]
          omega
        · simp only [sizes_nil, Nat.zero_add]
          simp only [StringsReader.copyN] at hlen ⊢
          omega
    · -- this reader is read to its end, and the loop goes on with the next one at 0
      have hnext : next.i = 0 := hpost next List.mem_cons_self
      have hcopied : (cur.copyN bCap).2.length = cur.s.length - cur.i := by omega
      have hs₁ : (cur.copyN bCap).1.s = cur.s := rfl
      have hend : (cur.copyN bCap).1.i = cur.s.length := by
        simp only [StringsReader.copyN]
        omega
      obtain ⟨hbytes, done, rest, heq, hj, hdone, hlast, hrest, hs, hsizes⟩ :=
        ih (bCap - (cur.copyN bCap).2.length) next (by omega) (fun r hr => hpost r (List.mem_cons_of_mem _ hr))
      refine ⟨?_, (cur.copyN bCap).1 :: done, rest, ?_⟩
      · have hbytes₁ : (cur.copyN bCap).2 = (cur.s.drop cur.i).take bCap := rfl
        have hdrop : (cur.s.drop cur.i).length = (cur.copyN bCap).2.length := by rw [List.length_drop, hcopied]
        have hcontent : content (next :: post) = next.s ++ content post := rfl
        simp only [copyLoop, hfull, if_false]
        rw [hbytes, hnext, List.drop_zero, hcontent]
        conv_rhs => rw [List.take_append, hdrop, ← hbytes₁]
      · simp only [copyLoop, hfull, if_false]
        refine ⟨by rw [heq]; rfl, by rw [hj]; rfl, ?_, hlast, hrest, ?_, ?_⟩
        · intro r hr
          rcases List.mem_cons.mp hr with rfl | hr
          · rw [hend, hs₁]
          · exact hdone r hr
        · simp only [List.map_cons, hs]
          rfl
        · simp only [sizes_cons, List.length_append, hs₁]
          rw [hnext] at hsizes
          omega

/-- `Read` with `len(b) = cap(b)` at a position returns the next bytes of the concatenation and moves past them -/
theorem read_spec {m : MultiReadSeeker} {L len : ℕ} (h : Positioned m L) (hlen : 0 < len) :
    ∃ m', m.read len len = some (m', ((content m.readers).drop L).take len,
        (((content m.readers).drop L).take len).isEmpty) ∧
      m'.readers.map (·.s) = m.readers.map (·.s) ∧
      Positioned m' (L + (((content m.readers).drop L).take len).length) := by
  obtain ⟨pre, cur, post, hr, hpre, hcur, hpost, hpos, hL⟩ := h
  obtain ⟨hbytes, done, rest, heq, hj, hdone, hlast, hrest, hs, hsizes⟩ := copyLoop_spec len cur post hcur hpost
  -- what the loop copies is what the concatenation has from `L` on
  have hdata : ((content m.readers).drop L).take len = (copyLoop len cur post).2.2.2 := by
    rw [hbytes, hr, hL, content_drop pre post cur hcur]
  have hdrop : m.readers.drop pre.length = cur :: post := by rw [hr, List.drop_left]
  have htake : m.readers.take pre.length = pre := by rw [hr, List.take_left]
  rw [hdata]
  refine ⟨⟨pre ++ (copyLoop len cur post).1,
    some (pre.length + (copyLoop len cur post).2.1, ((copyLoop len cur post).2.2.1.i : ℤ))⟩, ?_, ?_, ?_⟩
  · simp only [MultiReadSeeker.read, hpos, hdrop, htake]
    by_cases hempty : (copyLoop len cur post).2.2.2 = []
    · simp [hempty, hlen]
    · have hfit : (copyLoop len cur post).2.2.2.take len = (copyLoop len cur post).2.2.2 :=
        List.take_of_length_le (by rw [hbytes]; simp)
      simp [hempty, hfit]
  · rw [hr]
    simp [hs]
  · refine ⟨pre ++ done, (copyLoop len cur post).2.2.1, rest, by rw [heq]; simp, ?_, hlast, hrest, ?_, ?_⟩
    · intro r hr'
      rcases List.mem_append.mp hr' with hr' | hr'
      · exact hpre r hr'
      · exact hdone r hr'
    · simp [hj]
    · simp only [sizes_append]
      omega

/-- the readers of a positioned multi-reader are not empty -/
theorem Positioned.readers_ne_nil {m : MultiReadSeeker} {L : ℕ} (h : Positioned m L) : m.readers ≠ [] := by
  obtain ⟨pre, cur, post, hr, -⟩ := h
  simp [hr]

/-- before the first call a multi-reader is at position 0 -/
theorem Positioned.eq_zero {m : MultiReadSeeker} {L : ℕ} (h : Positioned m L) (hp : m.pos = none) : L = 0 := by
  obtain ⟨pre, cur, post, -, -, -, -, hpos, hL⟩ := h
  rw [hp, Option.getD_none, Prod.mk.injEq] at hpos
  obtain ⟨hpre, hcur⟩ := hpos
  rw [hL, List.eq_nil_of_length_eq_zero hpre.symm]
  simp only [sizes_nil, Nat.zero_add]
  omega

/-- `Seek(0, SEEK_CUR)` at a position returns it -/
theorem getCurOffset_spec {m : MultiReadSeeker} {L : ℕ} (h : Positioned m L) {p : ℕ × ℤ} (hp : m.pos = some p) :
    getCurOffset m.readers p = some (.ok L) := by
  obtain ⟨pre, cur, post, hr, -, -, -, hpos, hL⟩ := h
  rw [hp, Option.getD_some] at hpos
  have hlt : p.1 < m.readers.length := by simp [hr, hpos]
  have htake : m.readers.take (p.1 + 1) = pre ++ cur :: [] := by
    rw [hr, hpos, List.take_append, List.take_of_length_le (by omega), Nat.add_sub_cancel_left]
    rfl
  simp only [getCurOffset, hlt, if_true, htake]
  rw [getCurOffsetLoop_eq p cur [] pre 0 0 (by simp [hpos]), hpos, hL]
  simp

/-- one call on a positioned multi-reader gives what the concatenation gives, and keeps the multi-reader
positioned, if it is a `Read` with `len(b) = cap(b)` or not a `Seek(SEEK_CUR)` by a non-zero offset -/
theorem step_refines {m : MultiReadSeeker} {L L' : ℕ} {op : SeekOp} {r : SeekRet} (hm : Positioned m L)
    (hop : op.Plain) (hc : concatStep (content m.readers) L op = some (L', r)) :
    ∃ m', step m op = some (m', r) ∧ m'.readers.map (·.s) = m.readers.map (·.s) ∧ Positioned m' L' := by
  have hne := hm.readers_ne_nil
  have hsize : (content m.readers).length = sizes m.readers := content_length _
  cases op with
  | read len cap =>
    cases hop
    simp only [concatStep, le_refl, and_true] at hc
    split at hc
    · rename_i hlen
      obtain ⟨rfl, rfl⟩ := Prod.mk.inj (Option.some.inj hc).symm
      obtain ⟨m', hread, hs, hpos⟩ := read_spec hm hlen
      exact ⟨m', by simp [step, hread], hs, hpos⟩
    · cases hc
  | seek off whence =>
    cases whence with
    | seekSet =>
      simp only [concatStep, hsize] at hc
      split at hc
      · rename_i hrange
        obtain ⟨rfl, rfl⟩ := Prod.mk.inj (Option.some.inj hc).symm
        obtain ⟨m', hset, hs, hpos⟩ := seekSet_spec m hne hrange.1 hrange.2
        exact ⟨m', by simp [step, MultiReadSeeker.seek, hset], hs, hpos⟩
      · cases hc
    | seekEnd =>
      simp only [concatStep, hsize] at hc
      split at hc
      · rename_i hrange
        obtain ⟨rfl, rfl⟩ := Prod.mk.inj (Option.some.inj hc).symm
        -- every reader goes to its end for the sizes, then `Seek(SEEK_SET)` to the target
        set moved : MultiReadSeeker := { m with readers := m.readers.map fun r => { r with i := r.s.length } }
          with hmoved_def
        have hmoved : moved.readers.map (·.s) = m.readers.map (·.s) := by simp [moved]
        have hmsize : sizes moved.readers = sizes m.readers := by simp [moved, sizes, Function.comp_def]
        obtain ⟨m', hset, hs, hpos⟩ := seekSet_spec moved (by simpa [moved] using hne) hrange.1
          (by rw [hmsize]; exact hrange.2)
        refine ⟨m', ?_, by rw [hs, hmoved], hpos⟩
        simp only [step, MultiReadSeeker.seek, sizeLoop_eq, Option.map_some, ← hmoved_def, hset]
      · cases hc
    | seekCur =>
      simp only [SeekOp.Plain] at hop
      subst hop
      simp only [concatStep, hsize, add_zero] at hc
      split at hc
      · rename_i hrange
        obtain ⟨rfl, rfl⟩ := Prod.mk.inj (Option.some.inj hc).symm
        cases hp : m.pos with
        | none =>
          -- before the first call the position is 0, and `Seek(SEEK_CUR)` is `Seek(SEEK_SET)`
          obtain rfl := hm.eq_zero hp
          obtain ⟨m', hset, hs, hpos⟩ := seekSet_spec m hne hrange.1 hrange.2
          have hset₀ : m.seekSet 0 = (m', .ok 0) := by simpa using hset
          exact ⟨m', by simp [step, MultiReadSeeker.seek, hp, hset₀], hs, by simpa using hpos⟩
        | some p =>
          refine ⟨m, ?_, rfl, by simpa using hm⟩
          simp [step, MultiReadSeeker.seek, hp, getCurOffset_spec hm hp]
      · cases hc

/-- a new multi-reader over readers at 0 is at position 0 -/
theorem multiReadSeeker_positioned {readers : List StringsReader} (hne : readers ≠ [])
    (h₀ : ∀ r ∈ readers, r.i = 0) : Positioned (multiReadSeeker readers) 0 := by
  obtain ⟨cur, post, rfl⟩ := List.exists_cons_of_ne_nil hne
  refine ⟨[], cur, post, rfl, by simp, ?_, fun r hr => h₀ r (List.mem_cons_of_mem _ hr), ?_, ?_⟩
  · rw [h₀ cur List.mem_cons_self]
    exact Nat.zero_le _
  · simp [multiReadSeeker, h₀ cur List.mem_cons_self]
  · simp [h₀ cur List.mem_cons_self]

/-- over `Read`s with `len(b) = cap(b)` and `Seek`s other than `Seek(SEEK_CUR)` by a non-zero offset, a multi-reader
over readers at 0 gives, call for call, what the reader over their concatenation gives, and ends where it ends -/
theorem multiReadSeeker_refines (readers : List StringsReader) (hne : readers ≠ []) (h₀ : ∀ r ∈ readers, r.i = 0)
    (ops : List SeekOp) (hplain : ∀ op ∈ ops, op.Plain) {L : ℕ} {rets : List SeekRet}
    (h : Machine.runTrace (concatStep (content readers)) 0 ops = some (L, rets)) :
    ∃ m, Machine.runTrace step (multiReadSeeker readers) ops = some (m, rets) ∧ Positioned m L := by
  -- the relation: positioned at the concatenation's position, over readers with the same bytes
  have hsim := Machine.runTrace_simulate step (concatStep (content readers))
    (fun m L => Positioned m L ∧ m.readers.map (·.s) = readers.map (·.s)) SeekOp.Plain
    (by
      rintro m L₁ op L₂ r ⟨hm, hs⟩ hop hc
      have hcontent : content m.readers = content readers := by simp only [content, hs]
      rw [← hcontent] at hc
      obtain ⟨m', hstep, hs', hpos⟩ := step_refines hm hop hc
      exact ⟨m', hstep, hpos, hs'.trans hs⟩)
    ⟨multiReadSeeker_positioned hne h₀, rfl⟩ hplain h
  obtain ⟨m, hrun, hpos, -⟩ := hsim
  exact ⟨m, hrun, hpos⟩

/-- `Seek(1, SEEK_CUR)` after `Seek(1, SEEK_SET)` over `"ab"` and `"cd"` reports position 2 but moves no reader, and
the next `Read` gives `"bcd"` where the concatenation has `"cd"`. A `Read` into a buffer of length 1 and capacity 4
copies all four bytes and returns one, and the next `Read` finds nothing left where the concatenation has `"b"` -/
theorem multiReadSeeker_seekCur :
    (Machine.runTrace step (multiReadSeeker [⟨[97, 98], 0⟩, ⟨[99, 100], 0⟩])
        [.seek 1 .seekSet, .seek 1 .seekCur, .read 4 4]).map Prod.snd =
      some [.seek (.ok 1), .seek (.ok 2), .read [98, 99, 100] false] ∧
    (Machine.runTrace (concatStep [97, 98, 99, 100]) 0 [.seek 1 .seekSet, .seek 1 .seekCur, .read 4 4]).map Prod.snd =
      some [.seek (.ok 1), .seek (.ok 2), .read [99, 100] false] ∧
    (Machine.runTrace step (multiReadSeeker [⟨[97, 98], 0⟩, ⟨[99, 100], 0⟩]) [.read 1 4, .read 1 4]).map Prod.snd =
      some [.read [97] false, .read [] true] ∧
    (Machine.runTrace (concatStep [97, 98, 99, 100]) 0 [.read 1 4, .read 1 4]).map Prod.snd =
      some [.read [97] false, .read [98] false] := by
  refine ⟨?_, ?_, ?_, ?_⟩ <;> decide

end DockerEngine.Ioutils
