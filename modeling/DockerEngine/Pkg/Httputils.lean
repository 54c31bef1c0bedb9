/-
Lean model of `pkg/httputils/resumablerequestreader.go`: a reader of an HTTP body that asks again, with a `Range`
header, from where it stopped when the body fails.

`ResumableRequestReader` holds the fields of `resumableRequestReader`. The client and its server are the environment:
the server serves one fixed body, `200` with all of it for a request without a `Range` header, `206` with the rest
from byte `a` for `bytes=a-…` and `416` with nothing once `a` is at the end. Each `Do` either fails or responds, as `outs` says in
turn, and each response body hands over a prefix of its content in chunks of any sizes (`Lib.Reader`), then `io.EOF`
(only after all of it) or another error. Once `outs` is used up the client answers every request with its whole
content. The `Range` header is kept as the pair it prints; the sleeps and the log lines are not modelled.

`readAll` is a caller that reads until the first error. `readAll_resumes` says what it gets from
`ResumableRequestReaderWithInitialResponse` over every run: a prefix of the body and then an error, which is `io.EOF`,
after the whole body, when fewer than `maxfail` calls to `Do` fail.
-/
import DockerEngine.Lib.Reader

namespace DockerEngine.Httputils

open Reader

/-- the errors of a body's `Read`: `io.EOF`, or any other -/
inductive BodyErr
  | eof
  | failed
  deriving DecidableEq, Repr

/-- the errors `Read` returns -/
inductive ReadError
  /-- `io.EOF` -/
  | eof
  /-- "client and request can't be nil" -/
  | clientNil
  /-- the error of `client.Do` -/
  | doFailed
  /-- "the server doesn't support byte ranges" -/
  | noRanges
  /-- "failed to auto detect content length" -/
  | noLength
  deriving DecidableEq, Repr

/-- the request: its `Range` header, `bytes=%d-%d` of the pair -/
structure Request where
  range : Option (ℤ × ℤ)
  deriving DecidableEq, Repr

/-- a response: its status, its `ContentLength` and its body -/
structure Response where
  statusCode : ℕ
  contentLength : ℤ
  body : Chunked UInt8 BodyErr

/-- what one call to `Do` does: fail, or respond with a body cut at `cut` that ends with `fin` -/
inductive DoOutcome
  | fail
  | respond (cut : List ℕ) (fin : BodyErr) (finWithLast : Bool)
  deriving DecidableEq, Repr

/-- the pieces of `content` of the lengths `cut` -/
def pieces : List UInt8 → List ℕ → List (List UInt8)
  | _, [] => []
  | content, n :: cut => content.take n :: pieces (content.drop n) cut

/-- a body of `content` cut at `cut`: after `io.EOF` the rest of the content comes as a last chunk, after another
error nothing more -/
def cutBody (content : List UInt8) (cut : List ℕ) (fin : BodyErr) (finWithLast : Bool) : Chunked UInt8 BodyErr :=
  match fin with
  | .eof => ⟨pieces content cut ++ [content.drop cut.sum], .eof, finWithLast⟩
  | .failed => ⟨pieces content cut, .failed, finWithLast⟩

/-- the response of the server of `content` to the request, with the body cut as the call says -/
def serve (content : List UInt8) (req : Request) (cut : List ℕ) (fin : BodyErr) (finWithLast : Bool) : Response :=
  match req.range with
  | none => ⟨200, content.length, cutBody content cut fin finWithLast⟩
  | some (a, _) =>
    if a < content.length then ⟨206, content.length - a, cutBody (content.drop a.toNat) cut fin finWithLast⟩
    else ⟨416, 0, cutBody [] cut fin finWithLast⟩

/-- the client: the content its server holds and what its next calls to `Do` do -/
structure Client where
  content : List UInt8
  outs : List DoOutcome

/-- `client.Do(req)` -/
def Client.do (c : Client) (req : Request) : Client × Except ReadError Response :=
  match c.outs with
  | [] => (c, .ok (serve c.content req [] .eof true))
  | .fail :: outs => ({ c with outs := outs }, .error .doFailed)
  | .respond cut fin finWithLast :: outs => ({ c with outs := outs }, .ok (serve c.content req cut fin finWithLast))

/-- `resumableRequestReader` -/
structure ResumableRequestReader where
  client : Option Client
  request : Option Request
  lastRange : ℤ
  totalSize : ℤ
  currentResponse : Option Response
  failures : UInt32
  maxFailures : UInt32

/-- `ResumableRequestReaderWithInitialResponse(c, r, maxfail, totalsize, initialResponse)` -/
def resumableRequestReaderWithInitialResponse (c : Client) (r : Request) (maxfail : UInt32) (totalsize : ℤ)
    (initialResponse : Response) : ResumableRequestReader :=
  ⟨some c, some r, 0, totalsize, some initialResponse, 0, maxfail⟩

namespace ResumableRequestReader

/-- the end of `Read`: `Body.Read(p)`, which moves `lastRange` on; the response is dropped after an error, and an
error other than `io.EOF` is cleared -/
def readBody (r : ResumableRequestReader) (resp : Response) (n : ℕ) :
    ResumableRequestReader × List UInt8 × Option ReadError :=
  let reading := resp.body.read n
  let r := { r with lastRange := r.lastRange + reading.data.length }
  match reading.err with
  | none => ({ r with currentResponse := some { resp with body := reading.next } }, reading.data, none)
  | some .eof => ({ r with currentResponse := none }, reading.data, some .eof)
  | some .failed => ({ r with currentResponse := none }, reading.data, none)

/-- `Read` once a response is at hand: the checks of its status and of `totalSize`, then the body -/
def readResponse (r : ResumableRequestReader) (resp : Response) (isFreshRequest : Bool) (n : ℕ) :
    ResumableRequestReader × List UInt8 × Option ReadError :=
  if resp.statusCode = 416 ∧ r.lastRange = r.totalSize ∧ resp.contentLength = 0 then
    ({ r with currentResponse := none }, [], some .eof)
  else if resp.statusCode ≠ 206 ∧ r.lastRange ≠ 0 ∧ isFreshRequest then
    ({ r with currentResponse := none }, [], some .noRanges)
  else if r.totalSize = 0 then { r with totalSize := resp.contentLength }.readBody resp n
  else if r.totalSize ≤ 0 then ({ r with currentResponse := none }, [], some .noLength)
  else r.readBody resp n

/-- `r.Read(p)` with `len(p) = n` -/
def read (r : ResumableRequestReader) (n : ℕ) : ResumableRequestReader × List UInt8 × Option ReadError :=
  match r.client, r.request with
  | some client, some request =>
    let request :=
      if r.lastRange ≠ 0 ∧ r.currentResponse.isNone then { request with range := some (r.lastRange, r.totalSize) }
      else request
    let r := { r with request := some request }
    match r.currentResponse with
    | some resp => r.readResponse resp false n
    | none =>
      match client.do request with
      | (client, .ok resp) => { r with client := some client }.readResponse resp true n
      | (client, .error e) =>
        let r := { r with client := some client }
        if r.failures + 1 ≠ r.maxFailures then ({ r with failures := r.failures + 1 }, [], none)
        else (r, [], some e)
  | _, _ => (r, [], some .clientNil)

/-- `r.Close()` -/
def close (r : ResumableRequestReader) : ResumableRequestReader :=
  { r with client := none, request := none, currentResponse := none }

end ResumableRequestReader

/-- a caller that reads with slices of the lengths `lens`, one `Read` each, up to the first error: what it got, and
the error -/
def readAll : List ℕ → ResumableRequestReader → List UInt8 × Option ReadError
  | [], _ => ([], none)
  | n :: lens, r =>
    match r.read n with
    | (r, data, none) => let rest := readAll lens r; (data ++ rest.1, rest.2)
    | (_, data, some e) => (data, some e)

/-! ## Bodies -/

theorem flatten_pieces : ∀ (content : List UInt8) (cut : List ℕ), (pieces content cut).flatten = content.take cut.sum
  | _, [] => rfl
  | content, n :: cut => by
    rw [pieces, List.flatten_cons, flatten_pieces, List.sum_cons, List.take_add]

theorem length_pieces : ∀ (content : List UInt8) (cut : List ℕ), (pieces content cut).length = cut.length
  | _, [] => rfl
  | content, n :: cut => by rw [pieces, List.length_cons, length_pieces, List.length_cons]

@[simp] theorem cutBody_fin (content : List UInt8) (cut : List ℕ) (fin : BodyErr) (finWithLast : Bool) :
    (cutBody content cut fin finWithLast).fin = fin := by
  cases fin <;> rfl

/-- a body hands over a prefix of its content, and all of it when it ends with `io.EOF` -/
theorem stream_cutBody (content : List UInt8) (cut : List ℕ) (fin : BodyErr) (finWithLast : Bool) :
    (cutBody content cut fin finWithLast).stream <+: content ∧
      (fin = .eof → (cutBody content cut fin finWithLast).stream = content) := by
  cases fin with
  | eof =>
    have h : (cutBody content cut .eof finWithLast).stream = content := by
      simp [cutBody, Reader.Chunked.stream, flatten_pieces]
    rw [h]
    exact ⟨List.prefix_refl _, fun _ => rfl⟩
  | failed =>
    refine ⟨?_, fun h => by cases h⟩
    simp only [cutBody, Reader.Chunked.stream, flatten_pieces]
    exact List.take_prefix _ _

theorem size_cutBody_le (content : List UInt8) (cut : List ℕ) (fin : BodyErr) (finWithLast : Bool) :
    (cutBody content cut fin finWithLast).size ≤ content.length + cut.length + 1 := by
  have hs := (stream_cutBody content cut fin finWithLast).1.length_le
  cases fin with
  | eof =>
    simp only [Reader.Chunked.size, cutBody, List.length_append, length_pieces, List.length_singleton] at hs ⊢
    omega
  | failed =>
    simp only [Reader.Chunked.size, cutBody, length_pieces] at hs ⊢
    omega

/-! ## The invariant -/

/-- a response that serves the rest of `B` from byte `a`: not `416`, and its body hands over a prefix of the rest,
all of it before `io.EOF` -/
def Serves (B : List UInt8) (a : ℕ) (resp : Response) : Prop :=
  resp.statusCode ≠ 416 ∧ resp.body.stream <+: B.drop a ∧ (resp.body.fin = .eof → resp.body.stream = B.drop a)

/-- the reader of the body `B` over a client of its server -/
structure Inv (B : List UInt8) (r : ResumableRequestReader) : Prop where
  client : ∃ c, r.client = some c ∧ c.content = B
  request : ∃ req, r.request = some req ∧ (r.lastRange = 0 → req.range = none)
  totalSize : r.totalSize = B.length
  lastRange_nonneg : 0 ≤ r.lastRange
  lastRange_le : r.lastRange ≤ B.length
  response : ∀ resp, r.currentResponse = some resp → Serves B r.lastRange.toNat resp

/-- the reads a call to `Do` can still cost -/
def weight (B : List UInt8) : DoOutcome → ℕ
  | .fail => 1
  | .respond cut _ _ => B.length + cut.length + 2

/-- a bound on the reads left before an error: those of the body at hand, of the calls to come, and of the whole
content once more unless the body at hand ends with `io.EOF` -/
def pending (B : List UInt8) (r : ResumableRequestReader) : ℕ :=
  (match r.currentResponse with
    | some resp => resp.body.size + 1 + (if resp.body.fin = .eof then 0 else B.length + 2)
    | none => B.length + 2) +
  (match r.client with
    | some c => (c.outs.map (weight B)).sum
    | none => 0)

/-- the failures counted, and those to come -/
def failed (r : ResumableRequestReader) : ℕ :=
  r.failures.toNat + (match r.client with
    | some c => c.outs.countP (· = .fail)
    | none => 0)

/-! ## One read of a body -/

theorem serves_read {B : List UInt8} {a n : ℕ} {resp : Response} (hs : Serves B a resp) :
    (resp.body.read n).data <+: B.drop a ∧
      ((resp.body.read n).err = none →
        Serves B (a + (resp.body.read n).data.length) { resp with body := (resp.body.read n).next }) ∧
      ((resp.body.read n).err = some .eof → (resp.body.read n).data = B.drop a) := by
  obtain ⟨h416, hpre, heof⟩ := hs
  have hstream := resp.body.read_stream n
  have hdata : (resp.body.read n).data <+: B.drop a := (List.prefix_append _ _).trans (hstream ▸ hpre)
  -- the rest of `B` is the data read, then the rest after it
  have hsplit : B.drop a = (resp.body.read n).data ++ B.drop (a + (resp.body.read n).data.length) := by
    obtain ⟨t, ht⟩ := hdata
    rw [← List.drop_drop, ← ht, List.drop_left]
  refine ⟨hdata, fun _ => ⟨h416, ?_, fun hfin => ?_⟩, fun herr => ?_⟩
  · rw [hsplit, ← hstream] at hpre
    exact (List.prefix_append_right_inj _).mp hpre
  · rw [Reader.Chunked.read_next_fin] at hfin
    rw [hsplit, ← hstream] at heof
    exact List.append_cancel_left (heof hfin)
  · obtain ⟨he, hnil⟩ := resp.body.read_err n herr
    rw [← heof he.symm, ← hstream, hnil, List.append_nil]

/-- moving on by the data read keeps the invariant, with any response that serves the rest -/
theorem Inv.advance {B : List UInt8} {r : ResumableRequestReader} (hinv : Inv B { r with currentResponse := none })
    {data : List UInt8} (hdata : data <+: B.drop r.lastRange.toNat) {cur : Option Response}
    (hcur : ∀ resp, cur = some resp → Serves B (r.lastRange.toNat + data.length) resp) :
    Inv B { r with lastRange := r.lastRange + data.length, currentResponse := cur } := by
  have hlen := hdata.length_le
  have hnn : 0 ≤ r.lastRange := hinv.lastRange_nonneg
  have hle : r.lastRange ≤ B.length := hinv.lastRange_le
  simp only [List.length_drop] at hlen
  obtain ⟨req, hreq, hrange⟩ := hinv.request
  refine ⟨hinv.client, ⟨req, hreq, fun h0 => hrange ?_⟩, hinv.totalSize, ?_, ?_, fun resp hresp => ?_⟩
  · change r.lastRange + data.length = 0 at h0
    change r.lastRange = 0
    omega
  · change 0 ≤ r.lastRange + data.length
    omega
  · change r.lastRange + data.length ≤ B.length
    omega
  · have hto : (r.lastRange + data.length).toNat = r.lastRange.toNat + data.length := by omega
    change Serves B (r.lastRange + data.length).toNat resp
    rw [hto]
    exact hcur resp hresp

/-- what a read from a state of the invariant returns: a prefix of the rest of `B`, and then a state of the invariant
further on with fewer reads left, or `io.EOF` after all of the rest, or the error of `Do` once the failures reach
`maxFailures` -/
def Progress (B : List UInt8) (r : ResumableRequestReader)
    (out : ResumableRequestReader × List UInt8 × Option ReadError) : Prop :=
  out.2.1 <+: B.drop r.lastRange.toNat ∧
    match out.2.2 with
    | none => Inv B out.1 ∧ out.1.lastRange = r.lastRange + out.2.1.length ∧ pending B out.1 < pending B r ∧
        failed out.1 ≤ failed r ∧ out.1.maxFailures = r.maxFailures
    | some .eof => out.2.1 = B.drop r.lastRange.toNat
    | some .doFailed => r.maxFailures.toNat ≤ failed r
    | some _ => False

theorem progress_of_none {B : List UInt8} {r r' : ResumableRequestReader} {data : List UInt8}
    (hdata : data <+: B.drop r.lastRange.toNat) (hinv : Inv B r') (hlast : r'.lastRange = r.lastRange + data.length)
    (hpending : pending B r' < pending B r) (hfailed : failed r' ≤ failed r) (hmax : r'.maxFailures = r.maxFailures) :
    Progress B r (r', data, none) :=
  ⟨hdata, hinv, hlast, hpending, hfailed, hmax⟩

theorem progress_of_eof {B : List UInt8} {r r' : ResumableRequestReader} {data : List UInt8}
    (hdata : data = B.drop r.lastRange.toNat) : Progress B r (r', data, some .eof) :=
  ⟨hdata ▸ List.prefix_refl _, hdata⟩

theorem readBody_of_none {r : ResumableRequestReader} {resp : Response} {n : ℕ} (h : (resp.body.read n).err = none) :
    r.readBody resp n =
      ({ r with
          lastRange := r.lastRange + (resp.body.read n).data.length
          currentResponse := some { resp with body := (resp.body.read n).next } }, (resp.body.read n).data, none) := by
  simp only [ResumableRequestReader.readBody, h]

theorem readBody_of_eof {r : ResumableRequestReader} {resp : Response} {n : ℕ}
    (h : (resp.body.read n).err = some .eof) :
    r.readBody resp n =
      ({ r with lastRange := r.lastRange + (resp.body.read n).data.length, currentResponse := none },
        (resp.body.read n).data, some .eof) := by
  simp only [ResumableRequestReader.readBody, h]

theorem readBody_of_failed {r : ResumableRequestReader} {resp : Response} {n : ℕ}
    (h : (resp.body.read n).err = some .failed) :
    r.readBody resp n =
      ({ r with lastRange := r.lastRange + (resp.body.read n).data.length, currentResponse := none },
        (resp.body.read n).data, none) := by
  simp only [ResumableRequestReader.readBody, h]

/-- the read of a body that serves the rest of `B` -/
theorem readBody_progress {B : List UInt8} {r : ResumableRequestReader} {resp : Response} {n : ℕ} (hn : 0 < n)
    (hinv : Inv B { r with currentResponse := none }) (hs : Serves B r.lastRange.toNat resp) :
    Progress B { r with currentResponse := some resp } (r.readBody resp n) := by
  obtain ⟨hdata, hnext, heof⟩ := serves_read (n := n) hs
  cases herr : (resp.body.read n).err with
  | none =>
    have hlt := resp.body.read_size_lt n hn (resp.body.chunks_ne_nil_of_read_err n herr)
    rw [readBody_of_none herr]
    refine progress_of_none hdata (hinv.advance hdata fun resp' h => ?_) rfl ?_ (le_refl _) rfl
    · cases h
      exact hnext herr
    · simp only [pending, Reader.Chunked.read_next_fin]
      omega
  | some e =>
    cases e with
    | eof =>
      rw [readBody_of_eof herr]
      exact progress_of_eof (heof herr)
    | failed =>
      -- a failed body: the reader drops it and asks again from where it stopped
      have hfin := (resp.body.read_err n herr).1
      rw [readBody_of_failed herr]
      refine progress_of_none hdata (hinv.advance hdata fun _ h => by cases h) rfl ?_ (le_refl _) rfl
      simp only [pending, ← hfin, reduceCtorEq, if_false]
      omega

/-! ## One read -/

theorem readResponse_of_serves {r : ResumableRequestReader} {resp : Response} {isFreshRequest : Bool} {n : ℕ}
    (h416 : resp.statusCode ≠ 416) (hfresh : resp.statusCode = 206 ∨ r.lastRange = 0 ∨ isFreshRequest = false)
    (hsize : 0 < r.totalSize) : r.readResponse resp isFreshRequest n = r.readBody resp n := by
  have hne : r.totalSize ≠ 0 := by omega
  have hpos : ¬r.totalSize ≤ 0 := by omega
  have hranges : ¬(resp.statusCode ≠ 206 ∧ r.lastRange ≠ 0 ∧ isFreshRequest = true) := fun ⟨h206, h0, hf⟩ => by
    rcases hfresh with h | h | h
    · exact h206 h
    · exact h0 h
    · rw [h] at hf
      cases hf
  rw [ResumableRequestReader.readResponse, if_neg (fun h => h416 h.1), if_neg hranges, if_neg hne, if_neg hpos]

theorem readResponse_of_416 {r : ResumableRequestReader} {resp : Response} {isFreshRequest : Bool} {n : ℕ}
    (h416 : resp.statusCode = 416) (hend : r.lastRange = r.totalSize) (hlen : resp.contentLength = 0) :
    r.readResponse resp isFreshRequest n = ({ r with currentResponse := none }, [], some .eof) := by
  rw [ResumableRequestReader.readResponse, if_pos ⟨h416, hend, hlen⟩]

theorem read_of_some {r : ResumableRequestReader} {c : Client} {req : Request} {resp : Response} {n : ℕ}
    (hc : r.client = some c) (hreq : r.request = some req) (hcur : r.currentResponse = some resp) :
    r.read n = r.readResponse resp false n := by
  obtain ⟨client, request, lastRange, totalSize, cur, failures, maxFailures⟩ := r
  simp only at hc hreq hcur
  subst hc hreq hcur
  simp [ResumableRequestReader.read]

theorem read_of_do_ok {r : ResumableRequestReader} {c c' : Client} {req : Request} {resp : Response} {n : ℕ}
    (hc : r.client = some c) (hreq : r.request = some req) (hcur : r.currentResponse = none)
    (hdo : c.do (if r.lastRange ≠ 0 then { req with range := some (r.lastRange, r.totalSize) } else req) =
      (c', .ok resp)) :
    r.read n = { r with
      request := some (if r.lastRange ≠ 0 then { req with range := some (r.lastRange, r.totalSize) } else req)
      client := some c' }.readResponse resp true n := by
  simp only [ResumableRequestReader.read, hc, hreq, hcur, Option.isNone_none, and_true]
  rw [hdo]

theorem read_of_do_error {r : ResumableRequestReader} {c c' : Client} {req : Request} {e : ReadError} {n : ℕ}
    (hc : r.client = some c) (hreq : r.request = some req) (hcur : r.currentResponse = none)
    (hdo : c.do (if r.lastRange ≠ 0 then { req with range := some (r.lastRange, r.totalSize) } else req) =
      (c', .error e)) :
    r.read n =
      if r.failures + 1 ≠ r.maxFailures then
        ({ r with
            request := some (if r.lastRange ≠ 0 then { req with range := some (r.lastRange, r.totalSize) } else req)
            client := some c'
            failures := r.failures + 1 }, [], none)
      else
        ({ r with
            request := some (if r.lastRange ≠ 0 then { req with range := some (r.lastRange, r.totalSize) } else req)
            client := some c' }, [], some e) := by
  simp only [ResumableRequestReader.read, hc, hreq, hcur, Option.isNone_none, and_true]
  rw [hdo]

theorem Inv.drop {B : List UInt8} {r : ResumableRequestReader} (hinv : Inv B r) :
    Inv B { r with currentResponse := none } :=
  ⟨hinv.client, hinv.request, hinv.totalSize, hinv.lastRange_nonneg, hinv.lastRange_le, fun _ h => by cases h⟩

/-- a read that ends as one from another state at the same place, with no more reads left and no more failures -/
theorem Progress.mono {B : List UInt8} {r r₁ : ResumableRequestReader}
    {out : ResumableRequestReader × List UInt8 × Option ReadError} (h : Progress B r₁ out)
    (hlast : r₁.lastRange = r.lastRange) (hpending : pending B r₁ ≤ pending B r) (hfailed : failed r₁ ≤ failed r)
    (hmax : r₁.maxFailures = r.maxFailures) : Progress B r out := by
  obtain ⟨hdata, hrest⟩ := h
  rw [hlast] at hdata
  refine ⟨hdata, ?_⟩
  obtain ⟨r', data, err⟩ := out
  match err, hrest with
  | none, ⟨hinv, hlast', hpend, hfail, hmax'⟩ => exact ⟨hinv, hlast' ▸ hlast ▸ rfl, by omega, by omega, hmax' ▸ hmax⟩
  | some .eof, heq => exact hlast ▸ heq
  | some .doFailed, hle => exact hmax ▸ hle.trans hfailed
  | some .clientNil, hf => exact hf
  | some .noRanges, hf => exact hf
  | some .noLength, hf => exact hf

theorem do_of_nil {c : Client} (h : c.outs = []) (req : Request) :
    c.do req = (c, .ok (serve c.content req [] .eof true)) := by
  simp [Client.do, h]

theorem do_of_fail {c : Client} {outs : List DoOutcome} (h : c.outs = .fail :: outs) (req : Request) :
    c.do req = ({ c with outs := outs }, .error .doFailed) := by
  simp [Client.do, h]

theorem do_of_respond {c : Client} {cut : List ℕ} {fin : BodyErr} {finWithLast : Bool} {outs : List DoOutcome}
    (h : c.outs = .respond cut fin finWithLast :: outs) (req : Request) :
    c.do req = ({ c with outs := outs }, .ok (serve c.content req cut fin finWithLast)) := by
  simp [Client.do, h]

/-- a response with the rest of `B` from byte `a` as its content serves it -/
theorem serves_cutBody (B : List UInt8) (a : ℕ) {statusCode : ℕ} (h416 : statusCode ≠ 416) (contentLength : ℤ)
    (cut : List ℕ) (fin : BodyErr) (finWithLast : Bool) :
    Serves B a ⟨statusCode, contentLength, cutBody (B.drop a) cut fin finWithLast⟩ := by
  obtain ⟨hpre, heof⟩ := stream_cutBody (B.drop a) cut fin finWithLast
  exact ⟨h416, hpre, fun h => heof (by simpa using h)⟩

/-- the server's answer to the request a read sends: the rest of `B` from `lastRange`, or `416` at the end -/
theorem serve_request {B : List UInt8} {r : ResumableRequestReader} {req : Request} (hB : 0 < B.length)
    (hinv : Inv B r) (hreq : r.request = some req) (cut : List ℕ) (fin : BodyErr) (finWithLast : Bool) :
    (r.lastRange < B.length ∧
        Serves B r.lastRange.toNat (serve B (if r.lastRange ≠ 0 then
          { req with range := some (r.lastRange, r.totalSize) } else req) cut fin finWithLast) ∧
        ((serve B (if r.lastRange ≠ 0 then { req with range := some (r.lastRange, r.totalSize) } else req)
          cut fin finWithLast).statusCode = 206 ∨ r.lastRange = 0)) ∨
      (r.lastRange = B.length ∧
        (serve B (if r.lastRange ≠ 0 then { req with range := some (r.lastRange, r.totalSize) } else req)
          cut fin finWithLast).statusCode = 416 ∧
        (serve B (if r.lastRange ≠ 0 then { req with range := some (r.lastRange, r.totalSize) } else req)
          cut fin finWithLast).contentLength = 0) := by
  obtain ⟨req', hreq', hrange⟩ := hinv.request
  rw [hreq] at hreq'
  cases hreq'
  have hnn := hinv.lastRange_nonneg
  have hle := hinv.lastRange_le
  by_cases h0 : r.lastRange = 0
  · -- nothing read yet: the request has no `Range` header and gets all of `B`
    rw [if_neg (not_not_intro h0), serve, hrange h0]
    have hs := serves_cutBody B 0 (show (200 : ℕ) ≠ 416 by decide) B.length cut fin finWithLast
    rw [List.drop_zero] at hs
    refine .inl ⟨by omega, ?_, .inr h0⟩
    rw [h0, Int.toNat_zero]
    exact hs
  · rw [if_pos h0, serve]
    dsimp only
    by_cases hlt : r.lastRange < B.length
    · rw [if_pos hlt]
      exact .inl ⟨hlt, serves_cutBody B _ (by decide) _ cut fin finWithLast, .inl rfl⟩
    · rw [if_neg hlt]
      exact .inr ⟨by omega, rfl, rfl⟩

theorem serve_body (content : List UInt8) (req : Request) (cut : List ℕ) (fin : BodyErr) (finWithLast : Bool) :
    (serve content req cut fin finWithLast).body.fin = fin ∧
      (serve content req cut fin finWithLast).body.size ≤ content.length + cut.length + 1 := by
  unfold serve
  split
  · exact ⟨cutBody_fin .., size_cutBody_le ..⟩
  · split
    · refine ⟨cutBody_fin .., (size_cutBody_le ..).trans ?_⟩
      simp only [List.length_drop]
      omega
    · refine ⟨cutBody_fin .., (size_cutBody_le ..).trans ?_⟩
      simp

/-- the state after a call to `Do` from a state without a response: the request it sent, the client after it, and
any count of failures -/
theorem Inv.redo {B : List UInt8} {r : ResumableRequestReader} {req : Request} {c' : Client} (hinv : Inv B r)
    (hcur : r.currentResponse = none) (hreq : r.request = some req) (hcontent : c'.content = B) (f : UInt32) :
    Inv B { r with
      request := some (if r.lastRange ≠ 0 then { req with range := some (r.lastRange, r.totalSize) } else req)
      client := some c'
      failures := f } := by
  obtain ⟨req₀, hreq₀, hrange⟩ := hinv.request
  rw [hreq] at hreq₀
  cases hreq₀
  refine ⟨⟨c', rfl, hcontent⟩, ⟨_, rfl, fun h0 => ?_⟩, hinv.totalSize, hinv.lastRange_nonneg, hinv.lastRange_le,
    fun _ h => ?_⟩
  · change r.lastRange = 0 at h0
    rw [if_neg (not_not_intro h0)]
    exact hrange h0
  · change r.currentResponse = _ at h
    rw [hcur] at h
    cases h

/-- a read that asks again and gets a response: the rest of `B`, read as the body at hand, or `io.EOF` at the end -/
theorem read_progress_of_respond {B : List UInt8} {r : ResumableRequestReader} {n : ℕ} {c c' : Client}
    {req : Request} {cut : List ℕ} {fin : BodyErr} {finWithLast : Bool} (hB : 0 < B.length) (hn : 0 < n)
    (hinv : Inv B r) (hc : r.client = some c) (hreq : r.request = some req) (hcur : r.currentResponse = none)
    (hdo : c.do (if r.lastRange ≠ 0 then { req with range := some (r.lastRange, r.totalSize) } else req) =
      (c', .ok (serve B (if r.lastRange ≠ 0 then { req with range := some (r.lastRange, r.totalSize) } else req)
        cut fin finWithLast)))
    (hcontent : c'.content = B)
    (hpending : B.length + cut.length + 2 + (if fin = .eof then 0 else B.length + 2) + (c'.outs.map (weight B)).sum ≤
      pending B r)
    (hfailed : c'.outs.countP (· = .fail) ≤ c.outs.countP (· = .fail)) :
    Progress B r (r.read n) := by
  have hsize : 0 < r.totalSize := by
    rw [hinv.totalSize]
    exact_mod_cast hB
  rw [read_of_do_ok hc hreq hcur hdo]
  rcases serve_request hB hinv hreq cut fin finWithLast with ⟨-, hs, hfresh⟩ | ⟨hend, h416, hlen⟩ <;>
    set req' := if r.lastRange ≠ 0 then { req with range := some (r.lastRange, r.totalSize) } else req with hreq'
  · rw [readResponse_of_serves (r := { r with request := some req', client := some c' }) hs.1
      (hfresh.imp_right Or.inl) hsize]
    obtain ⟨hfin, hbody⟩ := serve_body B req' cut fin finWithLast
    -- the state the body is read from: the new request, the client after the call, and no response yet
    have hinv' : Inv B { r with request := some req', client := some c', currentResponse := none } :=
      (hinv.redo hcur hreq hcontent r.failures).drop
    refine (readBody_progress (r := { r with request := some req', client := some c' }) hn hinv' hs).mono rfl ?_ ?_
      rfl
    · have hp : pending B { r with
            request := some req'
            client := some c'
            currentResponse := some (serve B req' cut fin finWithLast) } =
          (serve B req' cut fin finWithLast).body.size + 1 + (if fin = .eof then 0 else B.length + 2) +
            (c'.outs.map (weight B)).sum := by
        simp only [pending, hfin]
      show pending B { r with
        request := some req'
        client := some c'
        currentResponse := some (serve B req' cut fin finWithLast) } ≤ pending B r
      omega
    · have hf : failed r = r.failures.toNat + c.outs.countP (· = .fail) := by simp only [failed, hc]
      show failed { r with
        request := some req'
        client := some c'
        currentResponse := some (serve B req' cut fin finWithLast) } ≤ failed r
      rw [hf]
      simp only [failed]
      omega
  · rw [readResponse_of_416 (r := { r with request := some req', client := some c' }) h416
      (by rw [hend, hinv.totalSize]) hlen]
    refine progress_of_eof ?_
    rw [hend]
    simp

/-- one read from a state of the invariant: a prefix of the rest of `B`, and then progress, `io.EOF` after all of the
rest, or the error of `Do` once the failures reach `maxFailures` -/
theorem read_progress {B : List UInt8} {r : ResumableRequestReader} {n : ℕ} (hB : 0 < B.length) (hn : 0 < n)
    (hinv : Inv B r) : Progress B r (r.read n) := by
  obtain ⟨c, hc, hcontent⟩ := hinv.client
  obtain ⟨req, hreq, -⟩ := hinv.request
  have hsize : 0 < r.totalSize := by
    rw [hinv.totalSize]
    exact_mod_cast hB
  cases hcur : r.currentResponse with
  | some resp =>
    -- a response at hand: its body goes on
    have hs := hinv.response resp hcur
    rw [read_of_some hc hreq hcur, readResponse_of_serves hs.1 (.inr (.inr rfl)) hsize]
    have hr : ({ r with currentResponse := some resp } : ResumableRequestReader) = r := by rw [← hcur]
    exact hr ▸ readBody_progress hn hinv.drop hs
  | none =>
    have hpending : pending B r = B.length + 2 + (c.outs.map (weight B)).sum := by simp only [pending, hcur, hc]
    have hfailed : failed r = r.failures.toNat + c.outs.countP (· = .fail) := by simp only [failed, hc]
    cases houts : c.outs with
    | nil =>
      -- the calls to come are used up: the whole rest, then `io.EOF`
      refine read_progress_of_respond hB hn hinv hc hreq hcur (by rw [do_of_nil houts, hcontent]) hcontent ?_ ?_
      · simp [hpending, houts]
      · simp
    | cons o outs =>
      cases o with
      | respond cut fin finWithLast =>
        refine read_progress_of_respond hB hn hinv hc hreq hcur (by rw [do_of_respond houts, hcontent])
          (show ({ c with outs := outs } : Client).content = B from hcontent) ?_ ?_
        · simp only [hpending, houts, List.map_cons, List.sum_cons, weight]
          split_ifs <;> omega
        · simp [houts]
      | fail =>
        rw [read_of_do_error hc hreq hcur (do_of_fail houts _)]
        have hsucc : (r.failures + 1).toNat ≤ r.failures.toNat + 1 := by
          rw [UInt32.toNat_add, UInt32.toNat_one]
          exact Nat.mod_le _ _
        by_cases hmax : r.failures + 1 ≠ r.maxFailures
        · -- a failure below `maxFailures`: nothing read, one more failure counted
          rw [if_pos hmax]
          refine progress_of_none List.nil_prefix
            (hinv.redo hcur hreq (show ({ c with outs := outs } : Client).content = B from hcontent) _) (by simp) ?_ ?_
            rfl
          · rw [hpending, houts]
            simp only [pending, hcur, List.map_cons, List.sum_cons, weight]
            omega
          · rw [hfailed, houts, List.countP_cons]
            simp only [failed, decide_true, if_true]
            omega
        · -- the failure that reaches `maxFailures` is returned
          rw [if_neg hmax]
          refine ⟨List.nil_prefix, ?_⟩
          show r.maxFailures.toNat ≤ failed r
          rw [hfailed, houts, ← not_not.mp hmax]
          simp
          omega

/-! ## Whole runs -/

/-- a prefix of a list and the rest after it make the list -/
theorem eq_append_drop_of_prefix {l data : List UInt8} (h : data <+: l) : l = data ++ l.drop data.length := by
  obtain ⟨t, rfl⟩ := h
  rw [List.drop_left]

/-- a run of reads from a state of the invariant, with more reads than `pending` bounds: a prefix of the rest of `B`,
then `io.EOF` after all of it, or the error of `Do` once the failures reach `maxFailures` -/
theorem readAll_run {B : List UInt8} (hB : 0 < B.length) :
    ∀ (lens : List ℕ) (r : ResumableRequestReader), Inv B r → (∀ n ∈ lens, 0 < n) → pending B r < lens.length →
      (readAll lens r).1 <+: B.drop r.lastRange.toNat ∧
        ((readAll lens r).2 = some .eof ∧ (readAll lens r).1 = B.drop r.lastRange.toNat ∨
          (readAll lens r).2 = some .doFailed ∧ r.maxFailures.toNat ≤ failed r)
  | [], _, _, _, hlen => absurd hlen (Nat.not_lt_zero _)
  | n :: lens, r, hinv, hlens, hlen => by
    have hstep := read_progress hB (hlens n List.mem_cons_self) hinv
    rw [readAll]
    rcases hrd : r.read n with ⟨r', data, err⟩
    rw [hrd] at hstep
    cases err with
    | none =>
      -- the read made progress: the rest of the run goes on from the new state
      obtain ⟨hdata, hinv', hlast, hpending, hfailed, hmax⟩ := hstep
      dsimp only at hdata hinv' hlast hpending hfailed hmax ⊢
      obtain ⟨hpre, hend⟩ := readAll_run hB lens r' hinv' (fun m hm => hlens m (List.mem_cons_of_mem _ hm))
        (by simp only [List.length_cons] at hlen; omega)
      have hto : r'.lastRange.toNat = r.lastRange.toNat + data.length := by
        have := hinv.lastRange_nonneg
        omega
      -- the rest of the body from the old place is what this read got, then the rest from the new place
      have hsplit := eq_append_drop_of_prefix hdata
      rw [List.drop_drop, ← hto] at hsplit
      rw [hsplit]
      refine ⟨(List.prefix_append_right_inj data).mpr hpre, ?_⟩
      rcases hend with ⟨heof, hall⟩ | ⟨hdo, hle⟩
      · exact .inl ⟨heof, by rw [hall]⟩
      · exact .inr ⟨hdo, by rw [← hmax]; omega⟩
    | some e =>
      cases e with
      | eof => exact ⟨hstep.1, .inl ⟨rfl, hstep.2⟩⟩
      | doFailed => exact ⟨hstep.1, .inr ⟨rfl, hstep.2⟩⟩
      | clientNil => exact hstep.2.elim
      | noRanges => exact hstep.2.elim
      | noLength => exact hstep.2.elim

section Initial

variable {B : List UInt8} (outs : List DoOutcome) (maxfail : UInt32) {resp : Response}

/-- the reader over an initial response that serves all of `B`, and a request without a `Range` header -/
theorem inv_withInitialResponse (hs : Serves B 0 resp) :
    Inv B (resumableRequestReaderWithInitialResponse ⟨B, outs⟩ ⟨none⟩ maxfail B.length resp) where
  client := ⟨⟨B, outs⟩, rfl, rfl⟩
  request := ⟨⟨none⟩, rfl, fun _ => rfl⟩
  totalSize := rfl
  lastRange_nonneg := le_refl 0
  lastRange_le := Int.natCast_nonneg _
  response := fun _ h => Option.some.inj h ▸ hs

theorem pending_withInitialResponse (B : List UInt8) (cut : List ℕ) (fin : BodyErr) (finWithLast : Bool) :
    pending B (resumableRequestReaderWithInitialResponse ⟨B, outs⟩ ⟨none⟩ maxfail B.length
        ⟨200, B.length, cutBody B cut fin finWithLast⟩) ≤
      2 * B.length + cut.length + 4 + (outs.map (weight B)).sum := by
  have hsize := size_cutBody_le B cut fin finWithLast
  simp only [pending, resumableRequestReaderWithInitialResponse, cutBody_fin]
  split_ifs <;> omega

theorem failed_withInitialResponse :
    failed (resumableRequestReaderWithInitialResponse ⟨B, outs⟩ ⟨none⟩ maxfail B.length resp) =
      outs.countP (· = .fail) := by
  simp [failed, resumableRequestReaderWithInitialResponse]

end Initial

/-- the reader over a `200` response of all of `B`, read with enough slices: the bytes it returns are a prefix of
`B`, and its first error is `io.EOF` after all of `B`, or the error of `Do` once `maxfail` calls to it failed; so
with fewer failures it returns `B` and `io.EOF` -/
theorem readAll_resumes (B : List UInt8) (hB : 0 < B.length) (outs : List DoOutcome) (maxfail : UInt32)
    (cut : List ℕ) (fin : BodyErr) (finWithLast : Bool) (lens : List ℕ) (hlens : ∀ n ∈ lens, 0 < n)
    (hlong : 2 * B.length + cut.length + 4 + (outs.map (weight B)).sum < lens.length) :
    let out := readAll lens (resumableRequestReaderWithInitialResponse ⟨B, outs⟩ ⟨none⟩ maxfail B.length
      ⟨200, B.length, cutBody B cut fin finWithLast⟩)
    out.1 <+: B ∧
      (out.2 = some .eof ∧ out.1 = B ∨ out.2 = some .doFailed ∧ maxfail.toNat ≤ outs.countP (· = .fail)) ∧
      (outs.countP (· = .fail) < maxfail.toNat → out = (B, some .eof)) := by
  intro out
  have hs : Serves B 0 ⟨200, B.length, cutBody B cut fin finWithLast⟩ := by
    simpa using serves_cutBody B 0 (show (200 : ℕ) ≠ 416 by decide) B.length cut fin finWithLast
  have hpending := pending_withInitialResponse outs maxfail B cut fin finWithLast
  obtain ⟨hpre, hend⟩ := readAll_run hB lens _ (inv_withInitialResponse outs maxfail hs) hlens
    (by omega)
  rw [failed_withInitialResponse outs maxfail] at hend
  simp only [resumableRequestReaderWithInitialResponse, Int.toNat_zero, List.drop_zero] at hpre hend
  refine ⟨hpre, hend, fun hlt => ?_⟩
  rcases hend with ⟨heof, hall⟩ | ⟨_, hle⟩
  · exact Prod.ext hall heof
  · omega

/-- one call to `Do` fails and one body fails after its first byte: the reader still returns all of the body -/
theorem readAll_resumes_flaky :
    (0 < [(7 : UInt8), 8].length ∧ (∀ n ∈ List.replicate 20 1, 0 < n) ∧
      2 * [(7 : UInt8), 8].length + [1].length + 4 + ([.fail, .respond [1] .failed false].map (weight [7, 8])).sum <
        (List.replicate 20 1).length) ∧
      readAll (List.replicate 20 1) (resumableRequestReaderWithInitialResponse
        ⟨[7, 8], [.fail, .respond [1] .failed false]⟩ ⟨none⟩ 3 2 ⟨200, 2, cutBody [7, 8] [1] .failed false⟩) =
        ([7, 8], some .eof) := by
  have hB : 0 < [(7 : UInt8), 8].length := by decide
  have hlens : ∀ n ∈ List.replicate 20 1, 0 < n := by decide
  have hlong : 2 * [(7 : UInt8), 8].length + [1].length + 4 +
      ([.fail, .respond [1] .failed false].map (weight [7, 8])).sum < (List.replicate 20 1).length := by decide
  exact ⟨⟨hB, hlens, hlong⟩, (readAll_resumes [7, 8] hB [.fail, .respond [1] .failed false] 3 [1] .failed false
    (List.replicate 20 1) hlens hlong).2.2 (by decide)⟩

end DockerEngine.Httputils
