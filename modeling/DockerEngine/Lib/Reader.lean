/-
An `io.Reader` that delivers a fixed stream in chunks of arbitrary sizes.

`Chunked α ε` serves the elements of `chunks` in order. A `Read` into a slice of length `n` returns at most `n`
elements of the head chunk and keeps the rest of that chunk for the next call; once the chunks are exhausted every
`Read` returns `(0, fin)` (`io.EOF` for a stream that ends). With `finWithLast` the final error already comes with the
last chunk, as `io.Reader` allows. Every behaviour of a reader of one stream on one run is a `Chunked` reader: cut the
stream where the calls returned.

Results: `read_stream` (a read moves a prefix of the stream into the caller's hands), `read_data_length_le`
(never more than the slice holds), `read_err` (the error comes only at the end of the stream), `read_size_lt`
(a read into a non-empty slice makes progress) and `read_of_chunks_nil`.
-/
import Mathlib
import DockerEngine.Lib.Prelude

namespace DockerEngine.Reader

/-- a reader of a fixed stream, cut into chunks -/
structure Chunked (α ε : Type) where
  chunks : List (List α)
  /-- what `Read` returns once the stream is exhausted -/
  fin : ε
  /-- the last chunk comes together with `fin` -/
  finWithLast : Bool

/-- what one `Read` call returns: the elements copied into the slice, the error, and the reader after it -/
structure Reading (α ε : Type) where
  data : List α
  err : Option ε
  next : Chunked α ε

namespace Chunked

variable {α ε : Type}

/-- the elements still to be delivered -/
def stream (r : Chunked α ε) : List α := r.chunks.flatten

/-- elements plus chunks still to be delivered: every read into a non-empty slice lowers it -/
def size (r : Chunked α ε) : ℕ := r.stream.length + r.chunks.length

/-- `Read(p)` with `len(p) = n` -/
def read (r : Chunked α ε) (n : ℕ) : Reading α ε :=
  match r.chunks with
  | [] => ⟨[], some r.fin, r⟩
  | c :: cs =>
    if n < c.length then ⟨c.take n, none, { r with chunks := c.drop n :: cs }⟩
    else ⟨c, if cs.isEmpty && r.finWithLast then some r.fin else none, { r with chunks := cs }⟩

variable (r : Chunked α ε) (n : ℕ)

theorem read_of_chunks_nil (h : r.chunks = []) : r.read n = ⟨[], some r.fin, r⟩ := by
  simp [read, h]

/-- a read hands over a prefix of the stream and keeps the rest -/
theorem read_stream : (r.read n).data ++ (r.read n).next.stream = r.stream := by
  cases hc : r.chunks with
  | nil => simp [read, stream, hc]
  | cons c cs =>
    by_cases hl : n < c.length
    · simp [read, stream, hc, hl, ← List.append_assoc]
    · simp [read, stream, hc, hl]

theorem read_data_length_le : (r.read n).data.length ≤ n := by
  cases hc : r.chunks with
  | nil => simp [read, hc]
  | cons c cs =>
    by_cases hl : n < c.length
    · simp [read, hc, hl]
    · simp only [read, hc, hl, if_false]
      omega

@[simp] theorem read_next_fin : (r.read n).next.fin = r.fin := by
  cases hc : r.chunks with
  | nil => simp [read, hc]
  | cons c cs =>
    by_cases hl : n < c.length
    · simp [read, hc, hl]
    · simp [read, hc, hl]

/-- an error is the reader's final one, and comes only when nothing is left -/
theorem read_err {e : ε} (h : (r.read n).err = some e) : e = r.fin ∧ (r.read n).next.stream = [] := by
  cases hc : r.chunks with
  | nil => simp_all [read, stream]
  | cons c cs =>
    by_cases hl : n < c.length
    · simp [read, hc, hl] at h
    · simp only [read, hc, hl, if_false] at h ⊢
      by_cases hw : (cs.isEmpty && r.finWithLast) = true
      · simp only [Bool.and_eq_true, List.isEmpty_iff] at hw
        simp_all [stream]
      · simp [hw] at h

/-- a read into a non-empty slice takes at least one element or one chunk -/
theorem read_size_lt (hn : 0 < n) (h : r.chunks ≠ []) : (r.read n).next.size < r.size := by
  cases hc : r.chunks with
  | nil => exact absurd hc h
  | cons c cs =>
    by_cases hl : n < c.length
    · simp only [read, size, stream, hc, hl, if_true, List.flatten_cons, List.length_append, List.length_drop,
        List.length_cons]
      omega
    · simp only [read, size, stream, hc, hl, if_false, List.flatten_cons, List.length_append, List.length_cons]
      omega

theorem size_zero_of_chunks_nil (h : r.chunks = []) : r.size = 0 := by
  simp [size, stream, h]

/-- a read never adds to what is left -/
theorem read_size_le : (r.read n).next.size ≤ r.size := by
  cases hc : r.chunks with
  | nil => simp [read, hc]
  | cons c cs =>
    by_cases hl : n < c.length
    · simp only [read, size, stream, hc, hl, if_true, List.flatten_cons, List.length_append, List.length_drop,
        List.length_cons]
      omega
    · simp only [read, size, stream, hc, hl, if_false, List.flatten_cons, List.length_append, List.length_cons]
      omega

/-- a read without an error took a chunk, or part of one -/
theorem chunks_ne_nil_of_read_err (h : (r.read n).err = none) : r.chunks ≠ [] := by
  intro hc
  simp [read, hc] at h

/-- a chunk that fits in the slice is handed over whole -/
theorem read_of_length_le {c : List α} {cs : List (List α)} (hc : r.chunks = c :: cs) (hl : c.length ≤ n) :
    r.read n = ⟨c, if cs.isEmpty && r.finWithLast then some r.fin else none, { r with chunks := cs }⟩ := by
  simp [read, hc, show ¬n < c.length by omega]

end Chunked

end DockerEngine.Reader
