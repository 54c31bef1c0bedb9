/-
Lean model of `pkg/ioutils/bytespipe.go` and `pkg/ioutils/buffer.go`: an in-memory pipe over a list of
fixed-capacity buffers.

`FixedBuffer` is `fixedBuffer`: the bytes written so far (`buf[:pos]`), how many of them were read (`lastRead`), and
the capacity; a buffer cannot be built with `lastRead > pos` or `pos > cap`. `BytesPipe.write` is the loop of
`Write`: fill the last buffer, and while bytes remain append a buffer of twice the capacity (at most `maxCap`).
`BytesPipe.readLoop` is the loop of `Read`: drain buffers from the front, dropping each one that is emptied. Buffer
pools only recycle emptied buffers, so `getBuffer` is a fresh empty buffer here. `Write` waits when `blockThreshold`
bytes are buffered: such a write returns `none` in the model and ends the run.

One writer and one reader share the pipe (`Sys`). `Read` on an empty open pipe waits on the condition variable
until a `Write` or `CloseWithError` broadcasts, and may resume any time after that (`resume`). The invariant
`Inv`: `bufLen` is the sum of the buffers' `Len()`, and the bytes returned by reads followed by the buffered bytes
are the bytes accepted by writes. `bytesPipe_fifo` states the contract over every interleaving.
-/
import Mathlib.Tactic
import DockerEngine.Lib.Machine

namespace DockerEngine.Ioutils

/-! ## `fixedBuffer` -/

/-- the errors of the pipe -/
inductive Err where
  /-- `ErrClosed`: "write to closed BytesPipe" -/
  | closed
  /-- `errBufferFull`: "buffer is full" -/
  | bufferFull
  /-- `io.ErrShortWrite` -/
  | shortWrite
  /-- `io.EOF` -/
  | eof
  /-- an error passed to `CloseWithError` -/
  | other (msg : String)
deriving DecidableEq, Repr

/-- `fixedBuffer`: `data` is `buf[:pos]` -/
structure FixedBuffer where
  data : List UInt8
  lastRead : ℕ
  cap : ℕ
  lastRead_le : lastRead ≤ data.length
  pos_le : data.length ≤ cap
  /-- every buffer comes from `getBuffer` with a positive size -/
  cap_pos : 0 < cap

namespace FixedBuffer

/-- `Len()` -/
def len (b : FixedBuffer) : ℕ := b.data.length - b.lastRead

/-- the bytes written and not yet read, `buf[lastRead:pos]` -/
def content (b : FixedBuffer) : List UInt8 := b.data.drop b.lastRead

/-- `Write(p)`: copy what fits into `buf[pos:cap]` -/
def write (b : FixedBuffer) (p : List UInt8) : FixedBuffer × ℕ × Option Err :=
  let n := min p.length (b.cap - b.data.length)
  let b' : FixedBuffer :=
    ⟨b.data ++ p.take n, b.lastRead, b.cap, by simp; have := b.lastRead_le; omega,
      by simp; have := b.pos_le; omega, b.cap_pos⟩
  (b', n, if n < p.length then (if b'.data.length = b.cap then some .bufferFull else some .shortWrite) else none)

/-- `Read(p)` with `len(p) = k`: copy from `buf[lastRead:pos]` -/
def read (b : FixedBuffer) (k : ℕ) : FixedBuffer × List UInt8 :=
  let n := min k b.len
  (⟨b.data, b.lastRead + n, b.cap, by have := b.lastRead_le; simp only [len, n]; omega, b.pos_le, b.cap_pos⟩,
    (b.data.drop b.lastRead).take n)

@[simp] theorem content_length (b : FixedBuffer) : b.content.length = b.len := by
  simp [content, len]

theorem write_n (b : FixedBuffer) (p : List UInt8) : (b.write p).2.1 = min p.length (b.cap - b.data.length) := rfl

@[simp] theorem write_content (b : FixedBuffer) (p : List UInt8) :
    (b.write p).1.content = b.content ++ p.take (b.write p).2.1 := by
  simp [write, content, List.drop_append_of_le_length b.lastRead_le]

/-- a write that stops short filled the buffer, so its error is always `errBufferFull` -/
theorem write_err (b : FixedBuffer) (p : List UInt8) :
    (b.write p).2.2 = if (b.write p).2.1 < p.length then some .bufferFull else none := by
  have := b.pos_le
  simp only [write, List.length_append, List.length_take]
  split_ifs <;> first | rfl | omega

theorem write_err_full (b : FixedBuffer) (p : List UInt8) :
    ¬ ((b.write p).2.2.isSome ∧ (b.write p).2.2 ≠ some .bufferFull) := by
  rw [write_err]
  split_ifs <;> simp

theorem read_data (b : FixedBuffer) (k : ℕ) : (b.read k).2 = b.content.take k := by
  have : b.len = (b.data.drop b.lastRead).length := by simp [len]
  simp only [read, content, this]
  rw [← List.take_take, List.take_length]

@[simp] theorem read_content (b : FixedBuffer) (k : ℕ) : (b.read k).1.content = b.content.drop k := by
  have : b.len = (b.data.drop b.lastRead).length := by simp [len]
  simp only [read, content, List.drop_drop, this]
  rcases le_total k (b.data.drop b.lastRead).length with hk | hk
  · rw [min_eq_left hk]
  · simp only [List.length_drop] at hk
    rw [min_eq_right (by simpa using hk), List.drop_eq_nil_of_le (by simp; omega),
      List.drop_eq_nil_of_le (by omega)]

/-- a read that leaves `p` unfilled drained the buffer -/
theorem read_drained (b : FixedBuffer) (k : ℕ) (h : ¬ k = (b.read k).2.length) : (b.read k).1.len = 0 := by
  rw [read_data, List.length_take, content_length] at h
  rw [← content_length, read_content, List.length_drop, content_length]
  omega

end FixedBuffer

def minCap : ℕ := 64
def maxCap : ℕ := 1000000
def blockThreshold : ℕ := 1000000

/-- `getBuffer(size)`: an empty buffer of capacity `size` (from its pool, or new) -/
def getBuffer (size : ℕ) (h : 0 < size) : FixedBuffer := ⟨[], 0, size, le_rfl, Nat.zero_le _, h⟩

/-! ## `BytesPipe` -/

structure BytesPipe where
  buf : List FixedBuffer
  bufLen : ℕ
  /-- the error to return from the next `Read` on an empty pipe; `none` while the pipe is open -/
  closeErr : Option Err

/-- `NewBytesPipe()` -/
def newBytesPipe : BytesPipe := ⟨[getBuffer minCap (by decide)], 0, none⟩

/-- the capacity of the buffer `Write` appends after `b`: `b.Cap() * 2`, at most `maxCap` -/
def nextCap (b : FixedBuffer) : ℕ := min (b.cap * 2) maxCap

theorem nextCap_pos (b : FixedBuffer) : 0 < nextCap b := by
  have := b.cap_pos
  simp only [nextCap, maxCap]
  omega

/-- a buffer with no room left -/
def FixedBuffer.full (b : FixedBuffer) : Prop := b.data.length = b.cap

instance (b : FixedBuffer) : Decidable b.full := inferInstanceAs (Decidable (b.data.length = b.cap))

theorem getBuffer_not_full (size : ℕ) (h : 0 < size) : ¬ (getBuffer size h).full := by
  simp only [FixedBuffer.full, getBuffer, List.length_nil]
  omega

/-- `if len(bp.buf) == 0 { bp.buf = append(bp.buf, getBuffer(64)) }` -/
def ensureBuffer (buf : List FixedBuffer) : List FixedBuffer :=
  if buf = [] then [getBuffer 64 (by decide)] else buf

/-- `bp.buf[len(bp.buf)-1]` -/
def lastBuffer (buf : List FixedBuffer) : FixedBuffer := buf.getLastD (getBuffer 64 (by decide))

@[simp] theorem lastBuffer_ensureBuffer (buf : List FixedBuffer) : lastBuffer (ensureBuffer buf) = lastBuffer buf := by
  unfold ensureBuffer
  split <;> simp_all [lastBuffer]

@[simp] theorem lastBuffer_concat (buf : List FixedBuffer) (b : FixedBuffer) : lastBuffer (buf ++ [b]) = b :=
  List.getLastD_concat

/-- a write into `b` that leaves bytes over took at least one byte, or found `b` full -/
theorem write_measure_lt (b : FixedBuffer) (p : List UInt8) (h : ¬ p.length = (b.write p).2.1) :
    2 * (p.drop (b.write p).2.1).length < 2 * p.length + (if b.full then 1 else 0) := by
  have := b.pos_le
  by_cases hf : b.full
  · simp only [FixedBuffer.write, List.length_drop, hf, if_true] at h ⊢
    omega
  · simp only [FixedBuffer.write, List.length_drop, hf, if_false] at h ⊢
    simp only [FixedBuffer.full] at hf
    omega

/-- where the loop of `Write` returns -/
structure WriteEnd where
  buf : List FixedBuffer
  bufLen : ℕ
  written : ℕ
  err : Option Err

/-- the loop of `Write`; `none` when it reaches `blockThreshold` and waits -/
def writeLoop (closeErr : Option Err) (buf : List FixedBuffer) (bufLen written : ℕ) (p : List UInt8) :
    Option WriteEnd :=
  if closeErr.isSome then some ⟨buf, bufLen, written, some .closed⟩
  else
    let b := lastBuffer (ensureBuffer buf)
    let r := b.write p
    let buf₁ := (ensureBuffer buf).dropLast ++ [r.1]
    -- `errBufferFull` is the error of a write that filled `b`
    if r.2.2.isSome ∧ r.2.2 ≠ some .bufferFull then some ⟨buf₁, bufLen + r.2.1, written + r.2.1, r.2.2⟩
    else if p.length = r.2.1 then some ⟨buf₁, bufLen + r.2.1, written + r.2.1, none⟩
    else if blockThreshold ≤ bufLen + r.2.1 then none
    else writeLoop closeErr (buf₁ ++ [getBuffer (nextCap b) (nextCap_pos b)]) (bufLen + r.2.1) (written + r.2.1)
      (p.drop r.2.1)
termination_by 2 * p.length + (if (lastBuffer buf).full then 1 else 0)
decreasing_by
  simp only [lastBuffer_concat, getBuffer_not_full, if_false, add_zero, ← lastBuffer_ensureBuffer buf]
  exact write_measure_lt _ p (by assumption)

/-! ### The buffered bytes -/

/-- the bytes held by the buffers, in order -/
def contents (buf : List FixedBuffer) : List UInt8 := (buf.map FixedBuffer.content).flatten

@[simp] theorem contents_nil : contents [] = [] := rfl

@[simp] theorem contents_cons (b : FixedBuffer) (buf : List FixedBuffer) :
    contents (b :: buf) = b.content ++ contents buf := rfl

@[simp] theorem contents_append (buf buf' : List FixedBuffer) : contents (buf ++ buf') = contents buf ++ contents buf' := by
  simp [contents]

@[simp] theorem getBuffer_content (size : ℕ) (h : 0 < size) : (getBuffer size h).content = [] := rfl

/-- the sum of `Len()` over the buffers is the number of buffered bytes -/
theorem sum_len (buf : List FixedBuffer) : (buf.map FixedBuffer.len).sum = (contents buf).length := by
  induction buf with
  | nil => rfl
  | cons b buf ih => simp [ih]

@[simp] theorem contents_ensureBuffer (buf : List FixedBuffer) : contents (ensureBuffer buf) = contents buf := by
  unfold ensureBuffer
  split <;> simp_all

/-- writing into the last buffer appends what it took to the buffered bytes -/
theorem contents_write_last (buf : List FixedBuffer) (p : List UInt8) :
    contents ((ensureBuffer buf).dropLast ++ [((lastBuffer (ensureBuffer buf)).write p).1]) =
      contents buf ++ p.take ((lastBuffer (ensureBuffer buf)).write p).2.1 := by
  have hne : ensureBuffer buf ≠ [] := by unfold ensureBuffer; split <;> simp_all
  have hlast : lastBuffer (ensureBuffer buf) = (ensureBuffer buf).getLast hne := by
    simp [lastBuffer, List.getLastD_eq_getLast?, List.getLast?_eq_some_getLast hne]
  conv_rhs => rw [← contents_ensureBuffer, ← List.dropLast_append_getLast hne]
  simp [hlast]

/-! ### `Write` -/

/-- `Write` on an open pipe either waits at `blockThreshold` or takes all of `p`, and returns no error -/
theorem writeLoop_open {buf : List FixedBuffer} {bufLen written : ℕ} {p : List UInt8} {e : WriteEnd}
    (h : writeLoop none buf bufLen written p = some e) :
    e.err = none ∧ contents e.buf = contents buf ++ p ∧ e.bufLen = bufLen + p.length ∧
      e.written = written + p.length := by
  fun_induction writeLoop none buf bufLen written p with
  | case1 => contradiction
  | case2 buf bufLen written p _ b r buf₁ herr => exact absurd herr (b.write_err_full p)
  | case3 buf bufLen written p _ b r buf₁ _ hall =>
    -- everything fit in the last buffer
    cases h
    simp only [buf₁, r, b] at hall ⊢
    rw [contents_write_last, ← hall, List.take_length]
    simp
  | case4 => contradiction
  | case5 buf bufLen written p _ b r buf₁ _ hpart _ ih =>
    -- the rest of `p` goes to the new buffer
    obtain ⟨herr, hbuf, hlen, hwr⟩ := ih h
    have hn : r.2.1 ≤ p.length := by simp only [r, FixedBuffer.write_n]; omega
    refine ⟨herr, ?_, ?_, ?_⟩
    · rw [hbuf, contents_append]
      simp only [buf₁, r, b]
      rw [contents_write_last]
      simp
    · simp only [hlen, List.length_drop]; omega
    · simp only [hwr, List.length_drop]; omega

theorem writeLoop_closed (e : Err) (buf : List FixedBuffer) (bufLen written : ℕ) (p : List UInt8) :
    writeLoop (some e) buf bufLen written p = some ⟨buf, bufLen, written, some .closed⟩ := by
  rw [writeLoop]
  simp

/-- below `blockThreshold` the loop of `Write` on an open pipe never waits -/
theorem writeLoop_isSome {buf : List FixedBuffer} {bufLen written : ℕ} {p : List UInt8}
    (h : bufLen + p.length < blockThreshold) : (writeLoop none buf bufLen written p).isSome := by
  fun_induction writeLoop none buf bufLen written p with
  | case1 | case2 | case3 => rfl
  | case4 buf bufLen written p _ b r _ _ hblock =>
    have hn : r.2.1 ≤ p.length := by simp only [r, FixedBuffer.write_n]; omega
    omega
  | case5 buf bufLen written p _ b r _ _ _ _ ih =>
    have hn : r.2.1 ≤ p.length := by simp only [r, FixedBuffer.write_n]; omega
    exact ih (by simp only [List.length_drop]; omega)

/-! ### `Read` -/

/-- where the loop of `Read` returns -/
structure ReadEnd where
  buf : List FixedBuffer
  bufLen : ℕ
  data : List UInt8

/-- `contents` after reading `k` bytes from the front buffer and dropping it if drained -/
theorem contents_read_front (b : FixedBuffer) (bs : List FixedBuffer) (k : ℕ) :
    contents (if (b.read k).1.len = 0 then bs else (b.read k).1 :: bs) = b.content.drop k ++ contents bs := by
  split
  · rename_i h
    rw [← FixedBuffer.content_length, List.length_eq_zero_iff, FixedBuffer.read_content] at h
    simp [h]
  · simp

/-- the loop of `Read(p)` with `len(p) = k` -/
def readLoop (buf : List FixedBuffer) (bufLen k : ℕ) : ReadEnd :=
  if 0 < bufLen then
    match buf with
    -- `bp.buf[0]` is out of range: unreachable, `bufLen` counts the buffered bytes
    | [] => ⟨[], bufLen, []⟩
    | b :: bs =>
      let r := b.read k
      -- a drained buffer goes back to its pool
      let buf' := if r.1.len = 0 then bs else r.1 :: bs
      if k = r.2.length then ⟨buf', bufLen - r.2.length, r.2⟩
      else
        let e := readLoop buf' (bufLen - r.2.length) (k - r.2.length)
        ⟨e.buf, e.bufLen, r.2 ++ e.data⟩
  else ⟨buf, bufLen, []⟩
termination_by buf.length
decreasing_by
  rw [FixedBuffer.read_drained b k (by assumption)]
  simp

/-- the loop of `Read` takes the first `k` buffered bytes -/
theorem readLoop_spec {buf : List FixedBuffer} {bufLen : ℕ} (k : ℕ) (h : bufLen = (contents buf).length) :
    (readLoop buf bufLen k).data = (contents buf).take k ∧
      contents (readLoop buf bufLen k).buf = (contents buf).drop k ∧
      (readLoop buf bufLen k).bufLen = (contents (readLoop buf bufLen k).buf).length := by
  fun_induction readLoop buf bufLen k with
  | case1 => simp at h; omega
  | case2 bufLen k _ b bs r buf' hk =>
    -- `p` filled up within the front buffer
    have hfront : contents buf' = b.content.drop k ++ contents bs := by
      simpa only [buf', r, dite_eq_ite] using contents_read_front b bs k
    have hdata : r.2 = b.content.take k := b.read_data k
    have hk' : k ≤ b.content.length := by rw [hdata, List.length_take] at hk; omega
    refine ⟨?_, ?_, ?_⟩
    · simp only [contents_cons, hdata, List.take_append_of_le_length hk']
    · simp only [hfront, contents_cons, List.drop_append, Nat.sub_eq_zero_of_le hk', List.drop_zero]
    · simp only [hfront, h, contents_cons, List.length_append, List.length_drop, ← hk]
      omega
  | case3 bufLen k _ b bs r buf' hk e ih =>
    -- the front buffer was drained: the rest comes from the next buffers
    have hlt : b.content.length < k := by
      rw [b.read_data k, List.length_take] at hk; omega
    have hdata : r.2 = b.content := by rw [b.read_data k, List.take_of_length_le hlt.le]
    have hfront : contents buf' = contents bs := by
      simpa only [buf', r, dite_eq_ite, List.drop_eq_nil_of_le hlt.le, List.nil_append]
        using contents_read_front b bs k
    obtain ⟨ihd, ihc, ihl⟩ := ih (by simp only [hfront, h, hdata, contents_cons, List.length_append]; omega)
    refine ⟨?_, ?_, ihl⟩
    · simp only [e]
      rw [ihd, hfront, hdata, contents_cons, List.take_append, List.take_of_length_le hlt.le]
    · simp only [e]
      rw [ihc, hfront, hdata, contents_cons, List.drop_append, List.drop_of_length_le hlt.le, List.nil_append]
  | case4 buf bufLen k hz =>
    have hnil : contents buf = [] := by rw [← List.length_eq_zero_iff]; omega
    simp [hnil, h]

/-! ### The calls -/

namespace BytesPipe

/-- `Write(p)`: the pipe, `written` and the error; `none` when it waits at `blockThreshold` -/
def write (bp : BytesPipe) (p : List UInt8) : Option (BytesPipe × ℕ × Option Err) :=
  (writeLoop bp.closeErr bp.buf bp.bufLen 0 p).map fun e => (⟨e.buf, e.bufLen, bp.closeErr⟩, e.written, e.err)

/-- `CloseWithError(err)`; `Close()` is `closeWithError none` -/
def closeWithError (bp : BytesPipe) (err : Option Err) : BytesPipe := { bp with closeErr := some (err.getD .eof) }

/-- the loop of `Read`, run on the pipe -/
def readBuffered (bp : BytesPipe) (k : ℕ) : BytesPipe × List UInt8 :=
  let e := readLoop bp.buf bp.bufLen k
  (⟨e.buf, e.bufLen, bp.closeErr⟩, e.data)

/-- `Read(p)` with `len(p) = k`, up to `bp.wait.Wait()`: `none` when it waits -/
def read (bp : BytesPipe) (k : ℕ) : Option (BytesPipe × List UInt8 × Option Err) :=
  if bp.bufLen = 0 then
    match bp.closeErr with
    | some e => some (bp, [], some e)
    | none => none
  else some ((bp.readBuffered k).1, (bp.readBuffered k).2, none)

/-- the rest of `Read(p)` once `bp.wait.Wait()` returns -/
def readWoken (bp : BytesPipe) (k : ℕ) : BytesPipe × List UInt8 × Option Err :=
  if bp.bufLen = 0 ∧ bp.closeErr.isSome then (bp, [], bp.closeErr)
  else ((bp.readBuffered k).1, (bp.readBuffered k).2, none)

/-- the pipe's accounting: `bufLen` counts the buffered bytes -/
def Counted (bp : BytesPipe) : Prop := bp.bufLen = (contents bp.buf).length

theorem write_open {bp bp' : BytesPipe} {p : List UInt8} {n : ℕ} {err : Option Err}
    (hc : bp.closeErr = none) (h : bp.write p = some (bp', n, err)) :
    n = p.length ∧ err = none ∧ contents bp'.buf = contents bp.buf ++ p ∧ bp'.bufLen = bp.bufLen + p.length ∧
      bp'.closeErr = none := by
  simp only [write, hc, Option.map_eq_some_iff] at h
  obtain ⟨e, he, rfl, rfl, rfl⟩ := h
  obtain ⟨herr, hbuf, hlen, hwr⟩ := writeLoop_open he
  exact ⟨by simpa using hwr, herr, hbuf, hlen, rfl⟩

theorem write_closed (bp : BytesPipe) (p : List UInt8) {e : Err} (hc : bp.closeErr = some e) :
    bp.write p = some (bp, 0, some .closed) := by
  simp only [write, hc, writeLoop_closed, Option.map_some]
  rw [← hc]

theorem readBuffered_spec {bp : BytesPipe} (h : bp.Counted) (k : ℕ) :
    (bp.readBuffered k).2 = (contents bp.buf).take k ∧
      contents (bp.readBuffered k).1.buf = (contents bp.buf).drop k ∧ (bp.readBuffered k).1.Counted :=
  readLoop_spec k h

theorem write_closeErr {bp bp' : BytesPipe} {p : List UInt8} {n : ℕ} {err : Option Err}
    (h : bp.write p = some (bp', n, err)) : bp'.closeErr = bp.closeErr := by
  simp only [write, Option.map_eq_some_iff] at h
  obtain ⟨e, -, rfl, -, -⟩ := h
  rfl

/-- a `Write` appends what it accepted to the buffered bytes -/
theorem write_counted {bp bp' : BytesPipe} {p : List UInt8} {n : ℕ} {err : Option Err} (hb : bp.Counted)
    (h : bp.write p = some (bp', n, err)) :
    bp'.Counted ∧ contents bp'.buf = contents bp.buf ++ p.take n := by
  cases hc : bp.closeErr with
  | none =>
    obtain ⟨rfl, -, hbuf, hlen, -⟩ := write_open hc h
    refine ⟨?_, by rw [hbuf, List.take_length]⟩
    simp only [Counted] at hb ⊢
    simp only [hbuf, hlen, hb, List.length_append]
  | some e =>
    rw [write_closed bp p hc] at h
    cases h
    exact ⟨hb, by simp⟩

/-- a `Read` that returns took `data` from the front of the buffered bytes -/
theorem read_counted {bp bp' : BytesPipe} {k : ℕ} {data : List UInt8} {err : Option Err} (hb : bp.Counted)
    (h : bp.read k = some (bp', data, err)) :
    bp'.Counted ∧ data ++ contents bp'.buf = contents bp.buf := by
  unfold read at h
  split at h
  · split at h
    · cases h
      exact ⟨hb, rfl⟩
    · cases h
  · cases h
    obtain ⟨hd, hc, hl⟩ := readBuffered_spec hb k
    exact ⟨hl, by rw [hd, hc, List.take_append_drop]⟩

theorem read_closeErr {bp bp' : BytesPipe} {k : ℕ} {data : List UInt8} {err : Option Err}
    (h : bp.read k = some (bp', data, err)) : bp'.closeErr = bp.closeErr := by
  unfold read at h
  split at h
  · split at h
    · cases h
      rfl
    · cases h
  · cases h
    rfl

theorem readWoken_counted {bp : BytesPipe} (hb : bp.Counted) (k : ℕ) :
    (bp.readWoken k).1.Counted ∧ (bp.readWoken k).2.1 ++ contents (bp.readWoken k).1.buf = contents bp.buf := by
  unfold readWoken
  split
  · exact ⟨hb, rfl⟩
  · obtain ⟨hd, hc, hl⟩ := readBuffered_spec hb k
    exact ⟨hl, by rw [hd, hc, List.take_append_drop]⟩

theorem readWoken_closeErr (bp : BytesPipe) (k : ℕ) : (bp.readWoken k).1.closeErr = bp.closeErr := by
  unfold readWoken
  split <;> rfl

end BytesPipe

/-! ## One writer and one reader -/

/-- the reader: no `Read` in progress, or one waiting in `bp.wait.Wait()` with `len(p) = k`, woken by a broadcast
since or not -/
inductive ReaderState where
  | idle
  | waiting (k : ℕ) (woken : Bool)
deriving DecidableEq, Repr

/-- `bp.wait.Broadcast()` -/
def ReaderState.wake : ReaderState → ReaderState
  | .waiting k _ => .waiting k true
  | .idle => .idle

/-- the pipe, the reader, and the bytes accepted by writes and returned by reads so far -/
structure Sys where
  pipe : BytesPipe
  reader : ReaderState
  accepted : List UInt8
  returned : List UInt8

/-- a call, or the waiting `Read` going on after it was woken -/
inductive Op where
  | write (p : List UInt8)
  | read (k : ℕ)
  | resume
  | close (err : Option Err)

/-- what a call returns -/
inductive Ret where
  | wrote (n : ℕ) (err : Option Err)
  | read (data : List UInt8) (err : Option Err)
  | waits
  | closed
deriving DecidableEq, Repr

namespace Sys

def init : Sys := ⟨newBytesPipe, .idle, [], []⟩

/-- one call; `none` when the call cannot be made (a second `Read`, or `resume` of no woken `Read`) or the `Write`
waits at `blockThreshold` -/
def step (s : Sys) : Op → Option (Sys × Ret)
  | .write p =>
    match s.pipe.write p with
    | none => none
    | some (pipe, n, err) =>
      -- every return of `Write` broadcasts but the one with `ErrClosed`
      let reader := if err = some .closed then s.reader else s.reader.wake
      some (⟨pipe, reader, s.accepted ++ p.take n, s.returned⟩, .wrote n err)
  | .read k =>
    match s.reader with
    | .idle =>
      match s.pipe.read k with
      | none => some ({ s with reader := .waiting k false }, .waits)
      | some (pipe, data, err) => some ({ s with pipe := pipe, returned := s.returned ++ data }, .read data err)
    | .waiting _ _ => none
  | .resume =>
    match s.reader with
    | .waiting k true =>
      let r := s.pipe.readWoken k
      some (⟨r.1, .idle, s.accepted, s.returned ++ r.2.1⟩, .read r.2.1 r.2.2)
    | _ => none
  | .close err => some ({ s with pipe := s.pipe.closeWithError err, reader := s.reader.wake }, .closed)

/-- a sequence of calls; `none` if one of them cannot be made -/
def run (s : Sys) (ops : List Op) : Option Sys := Machine.runCalls step s ops

/-- the pipe keeps its accounting and loses, duplicates and reorders no byte -/
structure Inv (s : Sys) : Prop where
  counted : s.pipe.Counted
  fifo : s.returned ++ contents s.pipe.buf = s.accepted

theorem init_inv : init.Inv := ⟨rfl, rfl⟩

/-- every call keeps the invariant -/
theorem step_inv {s s' : Sys} {o : Op} {r : Ret} (hs : s.Inv) (h : s.step o = some (s', r)) : s'.Inv := by
  cases o with
  | write p =>
    simp only [step] at h
    split at h
    · cases h
    · rename_i pipe n err hw
      cases h
      obtain ⟨hc, hbuf⟩ := BytesPipe.write_counted hs.counted hw
      exact ⟨hc, by rw [hbuf, ← List.append_assoc, hs.fifo]⟩
  | read k =>
    simp only [step] at h
    split at h
    · split at h
      · cases h
        exact ⟨hs.counted, hs.fifo⟩
      · rename_i pipe data err hr
        cases h
        obtain ⟨hc, hd⟩ := BytesPipe.read_counted hs.counted hr
        exact ⟨hc, by rw [List.append_assoc, hd, hs.fifo]⟩
    · cases h
  | resume =>
    simp only [step] at h
    split at h
    · rename_i k _
      cases h
      obtain ⟨hc, hd⟩ := BytesPipe.readWoken_counted hs.counted k
      exact ⟨hc, by rw [List.append_assoc, hd, hs.fifo]⟩
    · cases h
  | close err =>
    cases h
    exact ⟨hs.counted, hs.fifo⟩

theorem run_inv {s : Sys} {ops : List Op} (h : init.run ops = some s) : s.Inv :=
  Machine.runCalls_inv step Inv (fun _ _ _ _ => step_inv) init_inv h

/-- the error the pipe was last closed with, `io.EOF` for `nil` -/
def Op.closeErr (c : Option Err) : Op → Option Err
  | .close err => some (err.getD .eof)
  | _ => c

theorem step_closeErr {s s' : Sys} {o : Op} {r : Ret} (h : s.step o = some (s', r)) :
    s'.pipe.closeErr = Op.closeErr s.pipe.closeErr o := by
  cases o with
  | write p =>
    simp only [step] at h
    split at h
    · cases h
    · rename_i pipe n err hw
      cases h
      exact BytesPipe.write_closeErr hw
  | read k =>
    simp only [step] at h
    split at h
    · split at h
      · cases h
        rfl
      · rename_i pipe data err hr
        cases h
        exact BytesPipe.read_closeErr hr
    · cases h
  | resume =>
    simp only [step] at h
    split at h
    · rename_i k _
      cases h
      exact BytesPipe.readWoken_closeErr s.pipe k
    · cases h
  | close err =>
    cases h
    rfl

theorem run_closeErr {s : Sys} {ops : List Op} (h : init.run ops = some s) :
    s.pipe.closeErr = ops.foldl Op.closeErr none :=
  Machine.runCalls_observe step (fun s => s.pipe.closeErr) Op.closeErr (fun _ _ _ _ => step_closeErr) h

/-! ### What each call returns -/

/-- the bytes accepted and not yet returned -/
theorem Inv.drop_returned {s : Sys} (hs : s.Inv) : s.accepted.drop s.returned.length = contents s.pipe.buf := by
  rw [← hs.fifo, List.drop_left]

theorem Inv.bufLen_eq {s : Sys} (hs : s.Inv) : s.pipe.bufLen = s.accepted.length - s.returned.length := by
  rw [← hs.fifo, List.length_append, hs.counted]
  omega

/-- a `Write` on an open pipe takes all of `p` -/
theorem step_write_open {s s' : Sys} {p : List UInt8} {r : Ret} (hc : s.pipe.closeErr = none)
    (h : s.step (.write p) = some (s', r)) : r = .wrote p.length none ∧ s'.accepted = s.accepted ++ p := by
  simp only [step] at h
  split at h
  · cases h
  · rename_i pipe n err hw
    obtain ⟨rfl, rfl, -⟩ := BytesPipe.write_open hc hw
    cases h
    exact ⟨rfl, by rw [List.take_length]⟩

/-- below `blockThreshold` a `Write` on an open pipe does not wait -/
theorem step_write_isSome (s : Sys) (p : List UInt8) (hc : s.pipe.closeErr = none)
    (hlt : s.pipe.bufLen + p.length < blockThreshold) : (s.step (.write p)).isSome := by
  have hw : (s.pipe.write p).isSome := by
    simpa only [BytesPipe.write, hc, Option.isSome_map] using writeLoop_isSome hlt
  simp only [step]
  split
  · rename_i hnone
    rw [hnone] at hw
    cases hw
  · rfl

/-- a `Write` on a closed pipe changes nothing and returns `ErrClosed` -/
theorem step_write_closed (s : Sys) (p : List UInt8) {e : Err} (hc : s.pipe.closeErr = some e) :
    s.step (.write p) = some (s, .wrote 0 (some .closed)) := by
  simp [step, BytesPipe.write_closed s.pipe p hc]

/-- a `Read` of `k` bytes on a pipe holding some returns the next `k` of them, or all -/
theorem step_read_front (s : Sys) (k : ℕ) (hs : s.Inv) (hm : 0 < s.pipe.bufLen) (hr : s.reader = .idle) :
    ∃ s', s.step (.read k) = some (s', .read ((s.accepted.drop s.returned.length).take k) none) := by
  have hne : s.pipe.bufLen ≠ 0 := by omega
  simp only [step, hr, BytesPipe.read, hne, if_false]
  rw [(BytesPipe.readBuffered_spec hs.counted k).1, hs.drop_returned]
  exact ⟨_, rfl⟩

/-- a woken `Read` of `k` bytes on a pipe holding some returns the next `k` of them, or all -/
theorem step_resume_front (s : Sys) (k : ℕ) (hs : s.Inv) (hm : 0 < s.pipe.bufLen)
    (hr : s.reader = .waiting k true) :
    ∃ s', s.step .resume = some (s', .read ((s.accepted.drop s.returned.length).take k) none) := by
  have hne : ¬ (s.pipe.bufLen = 0 ∧ s.pipe.closeErr.isSome) := fun h => by omega
  simp only [step, hr, BytesPipe.readWoken, hne, if_false]
  rw [(BytesPipe.readBuffered_spec hs.counted k).1, hs.drop_returned]
  exact ⟨_, rfl⟩

/-- a `Read` on an empty closed pipe returns the close error -/
theorem step_read_closed (s : Sys) (k : ℕ) {e : Err} (hm : s.pipe.bufLen = 0) (hc : s.pipe.closeErr = some e)
    (hr : s.reader = .idle) : s.step (.read k) = some (s, .read [] (some e)) := by
  simp [step, hr, BytesPipe.read, hm, hc]
  rw [← hr]

/-- a woken `Read` on an empty closed pipe returns the close error -/
theorem step_resume_closed (s : Sys) (k : ℕ) {e : Err} (hm : s.pipe.bufLen = 0) (hc : s.pipe.closeErr = some e)
    (hr : s.reader = .waiting k true) : s.step .resume = some ({ s with reader := .idle }, .read [] (some e)) := by
  simp [step, hr, BytesPipe.readWoken, hm, hc]

end Sys

open Sys in
/-- after any sequence of calls by one writer and one reader: the accounting holds, reads have returned a prefix of
what writes accepted, and each next call behaves as a FIFO that is open until closed -/
theorem bytesPipe_fifo (ops : List Op) (s : Sys) (h : init.run ops = some s) :
    s.pipe.bufLen = (s.pipe.buf.map FixedBuffer.len).sum ∧
    s.pipe.bufLen = s.accepted.length - s.returned.length ∧
    s.returned <+: s.accepted ∧
    -- a `Read` that goes on with `m > 0` bytes buffered returns the next `min k m` of them
    (0 < s.pipe.bufLen → ∀ k,
      (s.reader = .idle → ∃ s' data, s.step (.read k) = some (s', .read data none) ∧
        data = (s.accepted.drop s.returned.length).take k ∧ data.length = min k s.pipe.bufLen) ∧
      (s.reader = .waiting k true → ∃ s' data, s.step .resume = some (s', .read data none) ∧
        data = (s.accepted.drop s.returned.length).take k ∧ data.length = min k s.pipe.bufLen)) ∧
    -- before close
    (s.pipe.closeErr = none → ∀ p,
      (∀ s' r, s.step (.write p) = some (s', r) → r = .wrote p.length none ∧ s'.accepted = s.accepted ++ p) ∧
      (s.pipe.bufLen + p.length < blockThreshold → (s.step (.write p)).isSome)) ∧
    -- after close
    s.pipe.closeErr = ops.foldl Op.closeErr none ∧
    (∀ e, s.pipe.closeErr = some e →
      (∀ p, s.step (.write p) = some (s, .wrote 0 (some .closed))) ∧
      (s.pipe.bufLen = 0 → ∀ k,
        (s.reader = .idle → s.step (.read k) = some (s, .read [] (some e))) ∧
        (s.reader = .waiting k true → s.step .resume = some ({ s with reader := .idle }, .read [] (some e))))) := by
  have hs := run_inv h
  have hlen : ∀ k, ((s.accepted.drop s.returned.length).take k).length = min k s.pipe.bufLen := by
    intro k
    rw [hs.drop_returned, List.length_take, hs.counted]
  refine ⟨by rw [sum_len, hs.counted], hs.bufLen_eq, ⟨_, hs.fifo⟩, ?_, ?_, run_closeErr h, ?_⟩
  · intro hm k
    constructor
    · intro hr
      obtain ⟨s', hstep⟩ := step_read_front s k hs hm hr
      exact ⟨s', _, hstep, rfl, hlen k⟩
    · intro hr
      obtain ⟨s', hstep⟩ := step_resume_front s k hs hm hr
      exact ⟨s', _, hstep, rfl, hlen k⟩
  · intro hc p
    exact ⟨fun s' r hw => step_write_open hc hw, step_write_isSome s p hc⟩
  · intro e hc
    refine ⟨fun p => step_write_closed s p hc, fun hm k => ⟨?_, ?_⟩⟩
    · exact step_read_closed s k hm hc
    · exact step_resume_closed s k hm hc

open Sys in
/-- after `Write("hi!")`, a `Read` of two bytes and `Close()`, a `Read` of four bytes returns the last byte and a
`Write` is refused -/
theorem bytesPipe_fifo_hi :
    let s := (init.run [.write [104, 105, 33], .read 2, .close none]).get (by decide +kernel)
    (∃ s', s.step (.read 4) = some (s', .read [33] none)) ∧
      ∀ p, s.step (.write p) = some (s, .wrote 0 (some .closed)) := by
  intro s
  obtain ⟨-, -, -, hread, -, -, hclosed⟩ := bytesPipe_fifo _ s (Option.some_get _).symm
  obtain ⟨s', data, hstep, hdata, -⟩ := (hread (by decide +kernel) 4).1 (by decide +kernel)
  have hlast : data = [33] := by
    rw [hdata]
    decide +kernel
  subst hlast
  exact ⟨⟨s', hstep⟩, (hclosed .eof (by decide +kernel)).1⟩

end DockerEngine.Ioutils
