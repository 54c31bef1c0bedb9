/-
Lean model of `pkg/stdcopy/stdcopy.go`: the multiplexer `stdWriter.Write` and the demultiplexer `StdCopy`.

`stdWriter.Write(p)` hands its writer one frame: an 8-byte header (the stream type at index 0, `uint32(len(p))`
big-endian at index 4) followed by `p`. `StdCopy(dstout, dsterr, src)` reads frames back from `src` into a buffer
and writes each payload to the destination its type names.

`StdCopy` is a loop with two inner read loops; it is modelled as a machine over `St` whose program counter `Pc`
stands at the inner loops (`header`, `frame`), at the code between them (`route`: pick the destination, read the
size, grow the buffer) and at the write that ends a pass (`emit`: write the payload, slide the unread tail to the
front). `stdCopy fuel` runs the machine `fuel` steps from the starting state. The source is a `Reader.Chunked`
reader, the destinations answer each `Write` with `(n, err)`, and the state records what each destination was
handed.

Results here: `step_wf` (the machine's shape invariant), `step_measure_lt` (every step makes progress) and
`stdCopy_returns`: for every source, every pair of destinations and every fuel of at least `budget src`, `StdCopy`
has returned. What it returns on a multiplexed stream is in `StdCopyDemux`.
-/
import DockerEngine.Lib.Bytes
import DockerEngine.Lib.Reader
import DockerEngine.Lib.Machine

namespace DockerEngine.StdCopy

open DockerEngine.Bytes DockerEngine.Reader

/-! ## Model -/

/-- `StdType`: the stream a frame belongs to -/
def stdin : UInt8 := 0
def stdout : UInt8 := 1
def stderr : UInt8 := 2

def stdWriterPrefixLen : ℕ := 8
def stdWriterFdIndex : ℕ := 0
def stdWriterSizeIndex : ℕ := 4
def startingBufLen : ℕ := 32 * 1024 + stdWriterPrefixLen + 1

/-- the errors `StdCopy` and `stdWriter.Write` return or pass on -/
inductive Err where
  /-- `io.EOF` -/
  | eof
  /-- `io.ErrShortWrite` -/
  | shortWrite
  /-- `errors.New("Writer not instantiated")` -/
  | writerNotInstantiated
  /-- `fmt.Errorf("Unrecognized input header: %d", b)` -/
  | unrecognizedInputHeader (b : UInt8)
  /-- any other error of the source or of a destination -/
  | other (msg : String)
deriving DecidableEq, Repr

def Err.message : Err → String
  | .eof => "EOF"
  | .shortWrite => "short write"
  | .writerNotInstantiated => "Writer not instantiated"
  | .unrecognizedInputHeader b => "Unrecognized input header: " ++ toString b.toNat
  | .other msg => msg

/-- an `io.Writer`: its answer `(n, err)` to `Write(p)` -/
structure Writer where
  write : List UInt8 → ℕ × Option Err

/-- a destination that takes every write in full -/
def acceptAll : Writer := ⟨fun p => (p.length, none)⟩

/-- the source of `StdCopy` -/
abbrev Src := Chunked UInt8 Err

/-- the header `stdWriter.Write` puts in front of a payload of length `n` -/
def header (t : UInt8) (n : ℕ) : List UInt8 := [t, 0, 0, 0] ++ beEncode 4 n

/-- the bytes `stdWriter.Write` hands its writer for a payload `p` of stream `t` -/
def frameBytes (t : UInt8) (p : List UInt8) : List UInt8 := header t p.length ++ p

/-- `stdWriter`: the embedded writer (`none` for a nil one) and the stream type it stamps -/
structure StdWriter where
  writer : Option Writer
  prefixByte : UInt8

/-- what a `Write` hands the underlying writer, and what it returns -/
structure Written where
  handed : Option (List UInt8)
  n : ℕ
  err : Option Err

/-- `(*stdWriter).Write`; the receiver and `p` are `none` when nil. Go's `n -= 8; if n < 0 { n = 0 }` is truncated
subtraction. -/
def StdWriter.write (w : Option StdWriter) (p : Option (List UInt8)) : Written :=
  match w with
  | none => ⟨none, 0, some .writerNotInstantiated⟩
  | some w =>
    match w.writer, p with
    | none, _ => ⟨none, 0, some .writerNotInstantiated⟩
    | some _, none => ⟨none, 0, none⟩
    | some wr, some p =>
      let frame := frameBytes w.prefixByte p
      let r := wr.write frame
      ⟨some frame, r.1 - stdWriterPrefixLen, r.2⟩

/-- the two destinations of `StdCopy` -/
inductive Dst where
  | dstout
  | dsterr
deriving DecidableEq, Repr

/-- the `switch StdType(buf[stdWriterFdIndex])` of `StdCopy` (`Stdin` falls through to `Stdout`) -/
def outFor (t : UInt8) : Option Dst :=
  if t = stdin ∨ t = stdout then some .dstout else if t = stderr then some .dsterr else none

/-- where the loop of `StdCopy` stands -/
inductive Pc where
  /-- `for nr < stdWriterPrefixLen` -/
  | header
  /-- the code after the header loop -/
  | route
  /-- `for nr < frameSize+stdWriterPrefixLen` -/
  | frame (out : Dst) (frameSize : ℕ)
  /-- the write and the slide that end a pass -/
  | emit (out : Dst) (frameSize : ℕ)
  /-- `return written, err` -/
  | done (written : ℕ) (err : Option Err)
deriving DecidableEq, Repr

def Pc.isDone : Pc → Bool
  | .done _ _ => true
  | _ => false

/-- the variables of `StdCopy` (`bufLen` is always `len(buf)`), the source, and what each destination was handed -/
structure St where
  pc : Pc
  buf : List UInt8
  nr : ℕ
  written : ℕ
  src : Src
  outLog : List UInt8
  errLog : List UInt8

def init (src : Src) : St := ⟨.header, List.replicate startingBufLen 0, 0, 0, src, [], []⟩

/-- `nr2, er = src.Read(buf[nr:]); nr += nr2`: the state after the read, and `er` -/
def St.readInto (s : St) : St × Option Err :=
  let r := s.src.read (s.buf.length - s.nr)
  ({ s with buf := writeAt s.buf s.nr r.data, nr := s.nr + r.data.length, src := r.next }, r.err)

/-- one pass of a read loop `for nr < need`; `next` is where `break` goes -/
def fill (need : ℕ) (next : Pc) (s : St) : St :=
  if s.nr < need then
    let r := s.readInto
    match r.2 with
    | none => r.1
    | some e =>
      if e = .eof then
        if r.1.nr < need then { r.1 with pc := .done s.written none } else { r.1 with pc := next }
      else { r.1 with pc := .done 0 (some e) }
  else { s with pc := next }

/-- pick the destination, read `frameSize`, and grow the buffer to hold the frame -/
def routeFrame (s : St) : St :=
  match outFor (s.buf.getD stdWriterFdIndex 0) with
  | none => { s with pc := .done 0 (some (.unrecognizedInputHeader (s.buf.getD stdWriterFdIndex 0))) }
  | some out =>
    let frameSize := beDecode ((s.buf.drop stdWriterSizeIndex).take 4)
    let buf := if frameSize + stdWriterPrefixLen > s.buf.length then
        s.buf ++ List.replicate (frameSize + stdWriterPrefixLen - s.buf.length + 1) 0
      else s.buf
    { s with pc := .frame out frameSize, buf := buf }

/-- a `Write` handed to destination `d` -/
def St.hand (s : St) (d : Dst) (p : List UInt8) : St :=
  match d with
  | .dstout => { s with outLog := s.outLog ++ p }
  | .dsterr => { s with errLog := s.errLog ++ p }

/-- `out`, as the `switch` of `StdCopy` set it -/
def writerFor (dstout dsterr : Writer) : Dst → Writer
  | .dstout => dstout
  | .dsterr => dsterr

/-- write the payload, count it, and move the rest of the buffer to the beginning -/
def emitFrame (dstout dsterr : Writer) (out : Dst) (frameSize : ℕ) (s : St) : St :=
  let p := (s.buf.drop stdWriterPrefixLen).take frameSize
  let r := (writerFor dstout dsterr out).write p
  let s := s.hand out p
  match r.2 with
  | some e => { s with pc := .done 0 (some e) }
  | none =>
    if r.1 ≠ frameSize then { s with pc := .done 0 (some .shortWrite) }
    else
      { s with written := s.written + r.1, buf := copy s.buf (s.buf.drop (frameSize + stdWriterPrefixLen)),
               nr := s.nr - (frameSize + stdWriterPrefixLen), pc := .header }

def step (dstout dsterr : Writer) (s : St) : St :=
  match s.pc with
  | .header => fill stdWriterPrefixLen .route s
  | .route => routeFrame s
  | .frame out frameSize => fill (frameSize + stdWriterPrefixLen) (.emit out frameSize) s
  | .emit out frameSize => emitFrame dstout dsterr out frameSize s
  | .done _ _ => s

/-- what `StdCopy` returns, with what each destination was handed -/
structure Outcome where
  written : ℕ
  err : Option Err
  toOut : List UInt8
  toErr : List UInt8
deriving DecidableEq, Repr

/-- `StdCopy(dstout, dsterr, src)` after `fuel` steps: `none` while it has not returned -/
def stdCopy (fuel : ℕ) (dstout dsterr : Writer) (src : Src) : Option Outcome :=
  let s := Machine.run (step dstout dsterr) fuel (init src)
  match s.pc with
  | .done written err => some ⟨written, err, s.outLog, s.errLog⟩
  | _ => none

/-! ## One read -/

section hand

variable (s : St) (d : Dst) (p : List UInt8)

@[simp] theorem hand_pc : (s.hand d p).pc = s.pc := by cases d <;> rfl
@[simp] theorem hand_buf : (s.hand d p).buf = s.buf := by cases d <;> rfl
@[simp] theorem hand_nr : (s.hand d p).nr = s.nr := by cases d <;> rfl
@[simp] theorem hand_written : (s.hand d p).written = s.written := by cases d <;> rfl
@[simp] theorem hand_src : (s.hand d p).src = s.src := by cases d <;> rfl

theorem hand_outLog : (s.hand d p).outLog = s.outLog ++ if d = .dstout then p else [] := by
  cases d <;> simp [St.hand]

theorem hand_errLog : (s.hand d p).errLog = s.errLog ++ if d = .dsterr then p else [] := by
  cases d <;> simp [St.hand]

end hand

@[simp] theorem writerFor_same (w : Writer) (d : Dst) : writerFor w w d = w := by
  cases d <;> rfl

section readInto

variable (s : St)

@[simp] theorem readInto_pc : s.readInto.1.pc = s.pc := rfl
@[simp] theorem readInto_written : s.readInto.1.written = s.written := rfl
@[simp] theorem readInto_outLog : s.readInto.1.outLog = s.outLog := rfl
@[simp] theorem readInto_errLog : s.readInto.1.errLog = s.errLog := rfl
@[simp] theorem readInto_fin : s.readInto.1.src.fin = s.src.fin := Chunked.read_next_fin _ _

theorem readInto_buf_length (h : s.nr ≤ s.buf.length) : s.readInto.1.buf.length = s.buf.length :=
  writeAt_length _ h

theorem readInto_nr_le (h : s.nr ≤ s.buf.length) : s.readInto.1.nr ≤ s.buf.length := by
  have := s.src.read_data_length_le (s.buf.length - s.nr)
  simp only [St.readInto]
  omega

/-- a read moves bytes from the source into the buffer and loses none -/
theorem readInto_unread : s.readInto.1.nr + s.readInto.1.src.stream.length = s.nr + s.src.stream.length := by
  have h := congrArg List.length (s.src.read_stream (s.buf.length - s.nr))
  simp only [List.length_append] at h
  simp only [St.readInto]
  omega

theorem readInto_size_le (h : s.nr < s.buf.length) : s.readInto.1.src.size ≤ s.src.size := by
  by_cases hc : s.src.chunks = []
  · simp [St.readInto, Chunked.read_of_chunks_nil _ _ hc]
  · exact (s.src.read_size_lt _ (by omega) hc).le

/-- a read that reports no error took something from the source -/
theorem readInto_size_lt (h : s.nr < s.buf.length) (he : s.readInto.2 = none) :
    s.readInto.1.src.size < s.src.size := by
  by_cases hc : s.src.chunks = []
  · simp [St.readInto, Chunked.read_of_chunks_nil _ _ hc] at he
  · exact s.src.read_size_lt _ (by omega) hc

@[simp] theorem routeFrame_src (s : St) : (routeFrame s).src = s.src := by
  unfold routeFrame
  split <;> rfl

@[simp] theorem emitFrame_src (dstout dsterr : Writer) (out : Dst) (F : ℕ) (s : St) :
    (emitFrame dstout dsterr out F s).src = s.src := by
  unfold emitFrame
  dsimp only
  split
  · simp
  · split_ifs <;> simp

/-- an error from the source is its final one, and comes with the end of the stream -/
theorem readInto_err {e : Err} (h : s.readInto.2 = some e) : e = s.src.fin ∧ s.readInto.1.src.stream = [] :=
  s.src.read_err _ h

end readInto

/-- everything one pass of a read loop can do -/
theorem fill_cases (need : ℕ) (next : Pc) (s : St) :
    (need ≤ s.nr ∧ fill need next s = { s with pc := next }) ∨
    (s.nr < need ∧ s.readInto.2 = none ∧ fill need next s = s.readInto.1) ∨
    (s.nr < need ∧ s.readInto.2 = some .eof ∧ s.readInto.1.nr < need ∧
      fill need next s = { s.readInto.1 with pc := .done s.written none }) ∨
    (s.nr < need ∧ s.readInto.2 = some .eof ∧ need ≤ s.readInto.1.nr ∧
      fill need next s = { s.readInto.1 with pc := next }) ∨
    (∃ e, s.nr < need ∧ s.readInto.2 = some e ∧ e ≠ .eof ∧
      fill need next s = { s.readInto.1 with pc := .done 0 (some e) }) := by
  by_cases hn : s.nr < need
  · cases he : s.readInto.2 with
    | none => exact .inr (.inl ⟨hn, rfl, by simp [fill, hn, he]⟩)
    | some e =>
      by_cases hee : e = .eof
      · subst hee
        by_cases hr : s.readInto.1.nr < need
        · exact .inr (.inr (.inl ⟨hn, rfl, hr, by simp [fill, hn, he, hr]⟩))
        · exact .inr (.inr (.inr (.inl ⟨hn, rfl, by omega, by simp [fill, hn, he, hr]⟩)))
      · exact .inr (.inr (.inr (.inr ⟨e, hn, rfl, hee, by simp [fill, hn, he, hee]⟩)))
  · exact .inl ⟨by omega, by simp [fill, hn]⟩

/-! ## Shape of the machine -/

/-- what every reachable state satisfies, whatever the source and the destinations do -/
structure WF (s : St) : Prop where
  buf_len : startingBufLen ≤ s.buf.length
  nr_le : s.nr ≤ s.buf.length
  frame_fits : ∀ out F, s.pc = .frame out F → F + stdWriterPrefixLen ≤ s.buf.length
  emit_ready : ∀ out F, s.pc = .emit out F → F + stdWriterPrefixLen ≤ s.nr

theorem init_wf (src : Src) : WF (init src) := by
  constructor <;> simp [init]

theorem WF.setDone {s : St} (hw : WF s) (w : ℕ) (e : Option Err) : WF { s with pc := .done w e } :=
  ⟨hw.buf_len, hw.nr_le, (fun _ _ h => by cases h), (fun _ _ h => by cases h)⟩

theorem readInto_wf {s : St} (hw : WF s) : WF s.readInto.1 := by
  have hlen := readInto_buf_length s hw.nr_le
  have hnr := readInto_nr_le s hw.nr_le
  have hmono : s.nr ≤ s.readInto.1.nr := by simp [St.readInto]
  exact ⟨hlen ▸ hw.buf_len, hlen ▸ hnr, fun out F h => hlen ▸ hw.frame_fits out F h,
    fun out F h => le_trans (hw.emit_ready out F h) hmono⟩

/-- a read loop pass keeps the shape, when `break` leads to a state whose shape the bound gives -/
theorem fill_wf {need : ℕ} {next : Pc} {s : St} (hw : WF s)
    (hnext : ∀ out F, next = .emit out F → F + stdWriterPrefixLen ≤ need) (hnf : ∀ out F, next ≠ .frame out F) :
    WF (fill need next s) := by
  have hr := readInto_wf hw
  rcases fill_cases need next s with ⟨hn, h⟩ | ⟨-, -, h⟩ | ⟨-, -, -, h⟩ | ⟨-, -, hnr, h⟩ | ⟨e, -, -, -, h⟩ <;> rw [h]
  · exact ⟨hw.buf_len, hw.nr_le, fun out F h => absurd h (hnf out F),
      fun out F h => le_trans (hnext out F h) hn⟩
  · exact hr
  · exact hr.setDone _ _
  · exact ⟨hr.buf_len, hr.nr_le, fun out F h => absurd h (hnf out F),
      fun out F h => le_trans (hnext out F h) hnr⟩
  · exact hr.setDone _ _

theorem routeFrame_wf {s : St} (hw : WF s) : WF (routeFrame s) := by
  unfold routeFrame
  split
  · exact hw.setDone _ _
  · dsimp only
    split_ifs with hg
    · refine ⟨?_, ?_, ?_, (fun _ _ h => by cases h)⟩
      · simp only [List.length_append, List.length_replicate]; have := hw.buf_len; omega
      · simp only [List.length_append, List.length_replicate]; have := hw.nr_le; omega
      · rintro _ _ ⟨⟩
        simp only [List.length_append, List.length_replicate]
        omega
    · refine ⟨hw.buf_len, hw.nr_le, ?_, (fun _ _ h => by cases h)⟩
      rintro _ _ ⟨⟩
      dsimp only
      omega

theorem hand_wf {s : St} (hw : WF s) (d : Dst) (p : List UInt8) : WF (s.hand d p) := by
  cases d <;> exact ⟨hw.buf_len, hw.nr_le, hw.frame_fits, hw.emit_ready⟩

theorem emitFrame_wf {dstout dsterr : Writer} {out : Dst} {F : ℕ} {s : St} (hw : WF s)
    (hpc : s.pc = .emit out F) : WF (emitFrame dstout dsterr out F s) := by
  have hready := hw.emit_ready out F hpc
  have hh := hand_wf hw out ((s.buf.drop stdWriterPrefixLen).take F)
  unfold emitFrame
  dsimp only
  split
  · exact hh.setDone _ _
  · split_ifs
    · exact hh.setDone _ _
    · refine ⟨?_, ?_, (fun _ _ h => by cases h), (fun _ _ h => by cases h)⟩
      · simpa using hw.buf_len
      · simp only [copy_length, hand_buf, hand_nr]
        have := hw.nr_le
        omega

theorem step_wf (dstout dsterr : Writer) {s : St} (hw : WF s) : WF (step dstout dsterr s) := by
  unfold step
  split
  · exact fill_wf hw (fun _ _ h => by cases h) (fun _ _ h => by cases h)
  · exact routeFrame_wf hw
  · exact fill_wf hw (fun _ _ h => by cases h; exact le_rfl) (fun _ _ h => by cases h)
  · exact emitFrame_wf hw ‹_›
  · exact hw

/-! ## Progress -/

def Pc.rank : Pc → ℕ
  | .header => 4
  | .route => 3
  | .frame _ _ => 2
  | .emit _ _ => 1
  | .done _ _ => 0

theorem Pc.rank_pos {pc : Pc} (h : pc.isDone = false) : 0 < pc.rank := by
  cases pc <;> simp_all [Pc.rank, Pc.isDone]

/-- what is left to do: every byte not yet written out weighs 8, every byte or chunk still in the source 4 -/
def measure (s : St) : ℕ :=
  if s.pc.isDone then 0 else 8 * (s.src.stream.length + s.nr) + 4 * s.src.size + s.pc.rank

/-- enough fuel for `StdCopy` to return on `src` -/
def budget (src : Src) : ℕ := measure (init src)

theorem measure_of_not_done {s : St} (h : s.pc.isDone = false) :
    measure s = 8 * (s.src.stream.length + s.nr) + 4 * s.src.size + s.pc.rank := by
  simp [measure, h]

theorem measure_done {s : St} {w : ℕ} {e : Option Err} : measure { s with pc := .done w e } = 0 := by
  simp [measure, Pc.isDone]

theorem fill_measure_lt {need : ℕ} {next : Pc} {s : St} (hnd : s.pc.isDone = false)
    (hneed : need ≤ s.buf.length) (hnext : next.isDone = false) (hrank : next.rank + 1 = s.pc.rank) :
    measure (fill need next s) < measure s := by
  have hm := measure_of_not_done hnd
  have hunread := readInto_unread s
  rcases fill_cases need next s with ⟨-, h⟩ | ⟨hn, he, h⟩ | ⟨-, -, -, h⟩ | ⟨hn, -, -, h⟩ | ⟨e, -, -, -, h⟩ <;>
    rw [h]
  · rw [measure_of_not_done hnext]
    dsimp only
    omega
  · have := readInto_size_lt s (by omega) he
    rw [measure_of_not_done (by simpa using hnd), readInto_pc]
    omega
  · rw [measure_done]; exact hm ▸ (by have := Pc.rank_pos hnd; omega)
  · have := readInto_size_le s (by omega)
    rw [measure_of_not_done hnext]
    simp only at hunread ⊢
    omega
  · rw [measure_done]; exact hm ▸ (by have := Pc.rank_pos hnd; omega)

theorem routeFrame_measure_lt {s : St} (hpc : s.pc = .route) : measure (routeFrame s) < measure s := by
  have hm := measure_of_not_done (s := s) (by simp [hpc, Pc.isDone])
  rw [hpc] at hm
  unfold routeFrame
  split
  · rw [measure_done, hm, Pc.rank]; omega
  · dsimp only
    rw [measure_of_not_done rfl, hm]
    simp [Pc.rank]

theorem emitFrame_measure_lt {dstout dsterr : Writer} {out : Dst} {F : ℕ} {s : St} (hw : WF s)
    (hpc : s.pc = .emit out F) : measure (emitFrame dstout dsterr out F s) < measure s := by
  have hready := hw.emit_ready out F hpc
  have hm := measure_of_not_done (s := s) (by simp [hpc, Pc.isDone])
  rw [hpc, Pc.rank] at hm
  unfold emitFrame
  dsimp only
  split
  · rw [measure_done]; omega
  · split_ifs
    · rw [measure_done]; omega
    · rw [measure_of_not_done rfl, hand_src, hand_nr, Pc.rank, hm]
      simp only [stdWriterPrefixLen] at hready ⊢
      omega

theorem step_measure_lt (dstout dsterr : Writer) {s : St} (hw : WF s) (hnd : s.pc.isDone = false) :
    measure (step dstout dsterr s) < measure s := by
  unfold step
  split
  · rename_i h
    exact fill_measure_lt hnd (by have := hw.buf_len; simp only [startingBufLen] at this ⊢; omega) rfl
      (by simp [h, Pc.rank])
  · exact routeFrame_measure_lt ‹_›
  · rename_i out F h
    exact fill_measure_lt hnd (hw.frame_fits out F h) rfl (by simp [h, Pc.rank])
  · exact emitFrame_measure_lt hw ‹_›
  · simp_all [Pc.isDone]

/-- a run of at least `budget src` steps has returned -/
theorem run_isDone (dstout dsterr : Writer) (src : Src) {fuel : ℕ} (hfuel : budget src ≤ fuel) :
    (Machine.run (step dstout dsterr) fuel (init src)).pc.isDone = true :=
  Machine.run_final (step dstout dsterr) WF (fun s => s.pc.isDone = true) measure
    (fun _ hw => step_wf dstout dsterr hw)
    (fun s h => by unfold step; split <;> simp_all [Pc.isDone])
    (fun _ hw hnd => step_measure_lt dstout dsterr hw (by simpa using hnd)) (init_wf src) hfuel

/-- **`StdCopy` returns.** For every source, every pair of destinations and every fuel of at least
`budget src`, the loop has returned. -/
theorem stdCopy_returns (dstout dsterr : Writer) (src : Src) (fuel : ℕ) (hfuel : budget src ≤ fuel) :
    (stdCopy fuel dstout dsterr src).isSome := by
  have hfinal := run_isDone dstout dsterr src hfuel
  unfold stdCopy
  generalize Machine.run (step dstout dsterr) fuel (init src) = s at hfinal ⊢
  cases hpc : s.pc <;> simp_all [Pc.isDone]

end DockerEngine.StdCopy
