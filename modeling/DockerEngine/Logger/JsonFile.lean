/-
Lean model of the json-file log driver in `daemon/logger/jsonfilelog` while a reader follows the log: `Log` writing
through the `RotateFileWriter` of `daemon/logger/loggerutils/rotatefilewriter.go`, and `followLogs` of `read.go`
reading the log as it grows, as two goroutines whose steps interleave.

One entry is the JSON line of one `Log` call; it is written at once, and the reader decodes whole entries. Files are
kept by inode, in the order they were made. When the file reaches `max-size`, `checkCapacityAndRotate` renames the
log path to `path.1` (and `path.i-1` to `path.i`, up to `max-file`), makes a new file at the log path and publishes the
rotation on a channel with room for one signal: a second rotation waits until the reader took the first. The reader
starts at the beginning of the empty log, subscribed and watching the file. After `io.EOF` it selects between an
event of the file watcher, after which it decodes again from where it stopped, and the rotation signal, after which
it opens the file now at the log path and decodes from its start; Go picks either when both are ready. Every change
to the file the reader watches gives it an event; the consumer always receives.

Without rotation (`max-size` -1) the reader delivers the entries in order, each once, and all of them once it waits
with nothing pending (`follow_prefix`, `follow_complete`). With rotation neither holds (`follow_loses_and_repeats`):
when the rotation signal is taken before the event of the last write to the old file, that entry is never read; and
when a second rotation is published after the reader already opened the file it made, the reader opens that same file
again and decodes its entries a second time.

With `max-file` 1 the writer truncates the file the reader has open, so that the reader's offset lies inside what is
written next; whole entries cannot express that, and the theorems here need no such case.
-/
import DockerEngine.Lib.Machine
import DockerEngine.Lib.Prelude

namespace DockerEngine.Logger

/-! ## The writer -/

/-- a `RotateFileWriter`, with the entries of each file ever made, by inode, and the entries written so far -/
structure RotateFileWriter (α : Type) where
  files : List (List α)
  /-- the inode at the log path, the file the writer has open -/
  name : ℕ
  /-- the inodes at `path.1`, `path.2`, ... -/
  rotated : List ℕ
  currentSize : ℕ
  logged : List α

namespace RotateFileWriter

variable {α : Type}

/-- `NewRotateFileWriter` on an empty log path -/
def new : RotateFileWriter α := ⟨[[]], 0, [], 0, []⟩

/-- whether `checkCapacityAndRotate` rotates -/
def needsRotate (capacity : ℤ) (w : RotateFileWriter α) : Bool := capacity ≠ -1 ∧ capacity ≤ w.currentSize

/-- the rotation of `checkCapacityAndRotate`: `rotate(name, maxFiles)`, then the log path opened with `O_TRUNC` -/
def rotate (maxFiles : ℕ) (w : RotateFileWriter α) : RotateFileWriter α :=
  -- `rotate` renames nothing, so the same file is truncated
  if maxFiles < 2 then { w with files := w.files.set w.name [], currentSize := 0 }
  else
    { w with
      files := w.files ++ [[]]
      name := w.files.length
      rotated := (w.name :: w.rotated).take (maxFiles - 1)
      currentSize := 0 }

/-- `w.f.Write(message)` for one entry of `size` bytes -/
def write (size : ℕ) (m : α) (w : RotateFileWriter α) : RotateFileWriter α :=
  { w with
    files := w.files.modify w.name (· ++ [m])
    currentSize := w.currentSize + size
    logged := w.logged ++ [m] }

@[simp] theorem write_name (size : ℕ) (m : α) (w : RotateFileWriter α) : (w.write size m).name = w.name := rfl

@[simp] theorem write_logged (size : ℕ) (m : α) (w : RotateFileWriter α) :
    (w.write size m).logged = w.logged ++ [m] := rfl

end RotateFileWriter

/-! ## The reader and the interleaving -/

/-- where the writer goroutine is in `Log` -/
inductive WriterPc (α : Type)
  | idle
  /-- it rotated and waits to publish the rotation, before it writes `m` -/
  | publish (m : α)
  deriving DecidableEq

/-- where the reader goroutine is in `followLogs` -/
inductive ReaderPc (α : Type)
  /-- at `decodeLogLine` -/
  | decode
  /-- in the `select` after `io.EOF` -/
  | blocked
  /-- in the `select` that sends `m` on `logWatcher.Msg` -/
  | send (m : α)
  deriving DecidableEq

/-- the entry the reader decoded and has not sent yet -/
def ReaderPc.pending {α : Type} : ReaderPc α → List α
  | .send m => [m]
  | _ => []

/-- the writer, the reader and what lies between them -/
structure State (α : Type) where
  w : RotateFileWriter α
  writer : WriterPc α
  /-- the inode the reader has open, and the entries it decoded from it -/
  rf : ℕ
  pos : ℕ
  /-- the inode the file watcher watches, and whether an event of it is pending -/
  watch : ℕ
  event : Bool
  /-- whether the rotation channel holds a signal -/
  rotateSignal : Bool
  reader : ReaderPc α
  delivered : List α

/-- the events of a run -/
inductive Event (α : Type)
  /-- a call of `Log` for an entry -/
  | log (m : α)
  /-- the writer publishes the rotation and writes its entry -/
  | publish
  /-- the reader decodes -/
  | decode
  /-- the consumer receives what the reader sends -/
  | deliver
  /-- the reader takes a file event -/
  | wakeEvent
  /-- the reader takes the rotation signal -/
  | wakeRotate

variable {α : Type}

/-- the reader subscribed and watching the empty log -/
def State.init : State α := ⟨.new, .idle, 0, 0, 0, false, false, .decode, []⟩

section Step

variable (capacity : ℤ) (maxFiles : ℕ) (size : α → ℕ)

/-- the entry written, and the event it gives the reader if it watches that file -/
def State.write (s : State α) (m : α) : State α :=
  { s with w := s.w.write (size m) m, writer := .idle, event := s.event || s.watch == s.w.name }

/-- one event; `none` for an event that cannot happen -/
def step (s : State α) : Event α → Option (State α × Unit)
  | .log m =>
    match s.writer with
    | .idle =>
      if s.w.needsRotate capacity then
        -- renaming or truncating the watched file is a change to it
        some ({ s with
          w := s.w.rotate maxFiles
          writer := .publish m
          event := s.event || decide (s.watch ∈ s.w.name :: s.w.rotated) }, ())
      else some (s.write size m, ())
    -- `Log` holds the logger's mutex
    | .publish _ => none
  | .publish =>
    match s.writer with
    -- `Publish` waits for room in the channel
    | .publish m => if s.rotateSignal then none else some ({ s.write size m with rotateSignal := true }, ())
    | .idle => none
  | .decode =>
    match s.reader with
    | .decode =>
      match (s.w.files.getD s.rf [])[s.pos]? with
      | some m => some ({ s with pos := s.pos + 1, reader := .send m }, ())
      | none => some ({ s with reader := .blocked }, ())
    | _ => none
  | .deliver =>
    match s.reader with
    | .send m => some ({ s with delivered := s.delivered ++ [m], reader := .decode }, ())
    | _ => none
  | .wakeEvent =>
    match s.reader with
    -- `dec = json.NewDecoder(f)`: on from where the last decoder stopped
    | .blocked => if s.event then some ({ s with event := false, reader := .decode }, ()) else none
    | _ => none
  | .wakeRotate =>
    match s.reader with
    -- the file at the log path, from its start
    | .blocked =>
      if s.rotateSignal then
        some ({ s with rotateSignal := false, rf := s.w.name, pos := 0, watch := s.w.name, reader := .decode }, ())
      else none
    | _ => none

end Step

/-! ## What each event does -/

section Inversion

variable {capacity : ℤ} {maxFiles : ℕ} {size : α → ℕ} {s s' : State α}

theorem step_log {m : α} (h : step capacity maxFiles size s (.log m) = some (s', ())) :
    s.writer = .idle ∧
      (s.w.needsRotate capacity = true ∧
          s' = { s with
            w := s.w.rotate maxFiles
            writer := .publish m
            event := s.event || decide (s.watch ∈ s.w.name :: s.w.rotated) } ∨
        s.w.needsRotate capacity = false ∧ s' = s.write size m) := by
  simp only [step] at h
  split at h
  · rename_i hw
    refine ⟨hw, ?_⟩
    split_ifs at h with hr
    · cases h
      exact .inl ⟨hr, rfl⟩
    · cases h
      exact .inr ⟨by simpa using hr, rfl⟩
  · cases h

theorem step_publish (h : step capacity maxFiles size s .publish = some (s', ())) :
    ∃ m, s.writer = .publish m ∧ s.rotateSignal = false ∧ s' = { s.write size m with rotateSignal := true } := by
  simp only [step] at h
  split at h
  · rename_i m hw
    split_ifs at h with hsig
    cases h
    exact ⟨m, hw, by simpa using hsig, rfl⟩
  · cases h

theorem step_decode (h : step capacity maxFiles size s .decode = some (s', ())) :
    s.reader = .decode ∧
      ((∃ m, (s.w.files.getD s.rf [])[s.pos]? = some m ∧ s' = { s with pos := s.pos + 1, reader := .send m }) ∨
        (s.w.files.getD s.rf [])[s.pos]? = none ∧ s' = { s with reader := .blocked }) := by
  simp only [step] at h
  split at h
  · rename_i hpc
    refine ⟨hpc, ?_⟩
    split at h
    · rename_i m hm
      cases h
      exact .inl ⟨m, hm, rfl⟩
    · rename_i hm
      cases h
      exact .inr ⟨hm, rfl⟩
  · cases h

theorem step_deliver (h : step capacity maxFiles size s .deliver = some (s', ())) :
    ∃ m, s.reader = .send m ∧ s' = { s with delivered := s.delivered ++ [m], reader := .decode } := by
  simp only [step] at h
  split at h
  · rename_i m hpc
    cases h
    exact ⟨m, hpc, rfl⟩
  · cases h

theorem step_wakeEvent (h : step capacity maxFiles size s .wakeEvent = some (s', ())) :
    s.reader = .blocked ∧ s.event = true ∧ s' = { s with event := false, reader := .decode } := by
  simp only [step] at h
  split at h
  · rename_i hpc
    split_ifs at h with hev
    cases h
    exact ⟨hpc, hev, rfl⟩
  · cases h

theorem step_wakeRotate (h : step capacity maxFiles size s .wakeRotate = some (s', ())) :
    s.reader = .blocked ∧ s.rotateSignal = true ∧
      s' = { s with rotateSignal := false, rf := s.w.name, pos := 0, watch := s.w.name, reader := .decode } := by
  simp only [step] at h
  split at h
  · rename_i hpc
    split_ifs at h with hsig
    cases h
    exact ⟨hpc, hsig, rfl⟩
  · cases h

end Inversion

/-- the reader waits in the `select` with nothing ready, and the writer is not in `Log` -/
def State.Waiting (s : State α) : Prop :=
  s.reader = .blocked ∧ s.event = false ∧ s.rotateSignal = false ∧ s.writer = .idle

instance [DecidableEq α] (s : State α) : Decidable s.Waiting := by unfold State.Waiting; infer_instance

/-! ## What the reader delivers -/

namespace RotateFileWriter

variable {maxFiles : ℕ} {w : RotateFileWriter α}

@[simp] theorem rotate_logged : (w.rotate maxFiles).logged = w.logged := by
  unfold rotate
  split_ifs <;> rfl

/-- a rotation empties a file or adds an empty one -/
theorem mem_rotate_files {f : List α} (h : f ∈ (w.rotate maxFiles).files) : f = [] ∨ f ∈ w.files := by
  unfold rotate at h
  split_ifs at h
  · exact (List.mem_or_eq_of_mem_set h).symm
  · rcases List.mem_append.mp h with h | h
    · exact Or.inr h
    · exact Or.inl (List.mem_singleton.mp h)

end RotateFileWriter

section Delivered

variable {capacity : ℤ} {maxFiles : ℕ} {size : α → ℕ}

/-- every entry in a file, or on its way to the consumer, was logged -/
structure State.Logged (s : State α) : Prop where
  files : ∀ f ∈ s.w.files, ∀ m ∈ f, m ∈ s.w.logged
  delivered : ∀ m ∈ s.delivered ++ s.reader.pending, m ∈ s.w.logged

theorem State.Logged.write {s : State α} (h : s.Logged) (m : α) : (s.write size m).Logged := by
  constructor
  · intro f hf x hx
    simp only [State.write, RotateFileWriter.write_logged, List.mem_append, List.mem_singleton]
    -- the file written to gained `m`; the others are unchanged
    rcases mem_modify hf with hf | ⟨f', hf', rfl⟩
    · exact Or.inl (h.files f hf x hx)
    · rcases List.mem_append.mp hx with hx | hx
      · exact Or.inl (h.files f' hf' x hx)
      · exact Or.inr (List.mem_singleton.mp hx)
  · intro x hx
    exact List.mem_append_left _ (h.delivered x hx)

/-- an entry of a file was logged -/
theorem State.Logged.mem_getD {s : State α} (h : s.Logged) {i : ℕ} {m : α} (hm : m ∈ s.w.files.getD i []) :
    m ∈ s.w.logged := by
  rw [List.getD_eq_getElem?_getD] at hm
  cases hf : s.w.files[i]? with
  | none => simp [hf] at hm
  | some f =>
    rw [hf, Option.getD_some] at hm
    exact h.files f (List.mem_of_getElem? hf) m hm

/-- a move of the reader that changes no file and neither sends nor takes an entry -/
theorem State.Logged.of_reader {s s' : State α} (h : s.Logged) (hw : s'.w = s.w)
    (hsent : s'.delivered ++ s'.reader.pending = s.delivered ++ s.reader.pending) : s'.Logged := by
  refine ⟨?_, ?_⟩
  · rw [hw]
    exact h.files
  · rw [hw, hsent]
    exact h.delivered

theorem State.Logged.of_step {s s' : State α} {e : Event α} (h : s.Logged)
    (hs : step capacity maxFiles size s e = some (s', ())) : s'.Logged := by
  cases e with
  | log m =>
    obtain ⟨-, ⟨-, rfl⟩ | ⟨-, rfl⟩⟩ := step_log hs
    · -- a rotation empties a file or adds an empty one
      refine ⟨fun f hf x hx => ?_, by simpa using h.delivered⟩
      rcases RotateFileWriter.mem_rotate_files hf with rfl | hf
      · exact absurd hx List.not_mem_nil
      · simpa using h.files f hf x hx
    · exact h.write m
  | publish =>
    obtain ⟨m, -, -, rfl⟩ := step_publish hs
    exact ⟨(h.write m).files, (h.write m).delivered⟩
  | decode =>
    obtain ⟨hpc, ⟨m, hm, rfl⟩ | ⟨-, rfl⟩⟩ := step_decode hs
    · -- the entry decoded is in the file the reader has open
      have hlogged : m ∈ s.w.logged := h.mem_getD (List.mem_of_getElem? hm)
      refine ⟨h.files, fun x hx => ?_⟩
      simp only [ReaderPc.pending, List.mem_append, List.mem_singleton] at hx
      rcases hx with hx | rfl
      · exact h.delivered x (by simp [hpc, ReaderPc.pending, hx])
      · exact hlogged
    · exact h.of_reader rfl (by simp [hpc, ReaderPc.pending])
  | deliver =>
    obtain ⟨m, hpc, rfl⟩ := step_deliver hs
    exact h.of_reader rfl (by simp [hpc, ReaderPc.pending])
  | wakeEvent =>
    obtain ⟨hpc, -, rfl⟩ := step_wakeEvent hs
    exact h.of_reader rfl (by simp [hpc, ReaderPc.pending])
  | wakeRotate =>
    obtain ⟨hpc, -, rfl⟩ := step_wakeRotate hs
    exact h.of_reader rfl (by simp [hpc, ReaderPc.pending])

end Delivered

/-! ## Without rotation -/

section NoRotation

variable {maxFiles : ℕ} {size : α → ℕ}

theorem RotateFileWriter.needsRotate_neg_one (w : RotateFileWriter α) : w.needsRotate (-1) = false := by
  simp [RotateFileWriter.needsRotate]

/-- the one file holds what was logged; the reader has decoded a prefix of it and sent all of that but the entry it
holds, and it waits in the `select` only with all of it decoded or an event pending -/
structure State.NoRotation (s : State α) : Prop where
  files : s.w.files = [s.w.logged]
  name : s.w.name = 0
  rf : s.rf = 0
  watch : s.watch = 0
  writer : s.writer = .idle
  signal : s.rotateSignal = false
  pos_le : s.pos ≤ s.w.logged.length
  read : s.delivered ++ s.reader.pending = s.w.logged.take s.pos
  woken : s.reader = .blocked → s.event = false → s.pos = s.w.logged.length

theorem noRotation_init : (State.init : State α).NoRotation :=
  ⟨rfl, rfl, rfl, rfl, rfl, rfl, le_rfl, rfl, fun _ _ => rfl⟩

/-- a write leaves the decoded prefix as it is and gives the reader an event -/
theorem State.NoRotation.write {s : State α} (h : s.NoRotation) (m : α) : (s.write size m).NoRotation := by
  have hlen : s.pos ≤ s.w.logged.length := h.pos_le
  refine ⟨?_, h.name, h.rf, h.watch, rfl, h.signal, ?_, ?_, ?_⟩
  · simp [State.write, RotateFileWriter.write, h.files, h.name]
  · simp only [State.write, RotateFileWriter.write_logged, List.length_append]
    omega
  · simp only [State.write, RotateFileWriter.write_logged, List.take_append_of_le_length hlen]
    exact h.read
  · intro _ hev
    simp [State.write, h.watch, h.name] at hev

theorem State.NoRotation.of_step {s s' : State α} {e : Event α} (h : s.NoRotation)
    (hs : step (-1) maxFiles size s e = some (s', ())) : s'.NoRotation := by
  cases e with
  | log m =>
    obtain ⟨-, ⟨hr, -⟩ | ⟨-, rfl⟩⟩ := step_log hs
    · simp [RotateFileWriter.needsRotate_neg_one] at hr
    · exact h.write m
  | publish =>
    obtain ⟨m, hw, -, -⟩ := step_publish hs
    simp [h.writer] at hw
  | decode =>
    have hfile : s.w.files.getD s.rf [] = s.w.logged := by simp [h.files, h.rf]
    obtain ⟨hpc, ⟨m, hm, rfl⟩ | ⟨hm, rfl⟩⟩ := step_decode hs <;> rw [hfile] at hm
    · -- the next entry of the file
      have hlt : s.pos < s.w.logged.length := (List.getElem?_eq_some_iff.mp hm).1
      refine ⟨h.files, h.name, h.rf, h.watch, h.writer, h.signal, hlt, ?_, nofun⟩
      have hread := h.read
      simp only [hpc, ReaderPc.pending, List.append_nil] at hread ⊢
      rw [hread, List.take_add_one, hm, Option.toList_some]
    · -- `io.EOF`: all of it is decoded
      have hge : s.w.logged.length ≤ s.pos := List.getElem?_eq_none_iff.mp hm
      refine ⟨h.files, h.name, h.rf, h.watch, h.writer, h.signal, h.pos_le, ?_,
        fun _ _ => le_antisymm h.pos_le hge⟩
      simpa [hpc, ReaderPc.pending] using h.read
  | deliver =>
    obtain ⟨m, hpc, rfl⟩ := step_deliver hs
    refine ⟨h.files, h.name, h.rf, h.watch, h.writer, h.signal, h.pos_le, ?_, nofun⟩
    simpa [hpc, ReaderPc.pending] using h.read
  | wakeEvent =>
    obtain ⟨hpc, -, rfl⟩ := step_wakeEvent hs
    refine ⟨h.files, h.name, h.rf, h.watch, h.writer, h.signal, h.pos_le, ?_, nofun⟩
    simpa [hpc, ReaderPc.pending] using h.read
  | wakeRotate =>
    obtain ⟨-, hsig, -⟩ := step_wakeRotate hs
    simp [h.signal] at hsig

theorem run_noRotation {es : List (Event α)} {s : State α}
    (h : Machine.runCalls (step (-1) maxFiles size) State.init es = some s) : s.NoRotation :=
  Machine.runCalls_inv _ State.NoRotation (fun _ _ _ r hs he => by cases r; exact hs.of_step he) noRotation_init h

/-- without rotation, at every point of every interleaving the reader has delivered the first entries logged, in
order, each once -/
theorem follow_prefix {es : List (Event α)} {s : State α}
    (h : Machine.runCalls (step (-1) maxFiles size) State.init es = some s) : s.delivered <+: s.w.logged := by
  have hread := (run_noRotation h).read
  calc s.delivered <+: s.delivered ++ s.reader.pending := List.prefix_append _ _
    _ = s.w.logged.take s.pos := hread
    _ <+: s.w.logged := List.take_prefix _ _

/-- without rotation, once the reader waits with nothing ready it has delivered everything logged -/
theorem follow_complete {es : List (Event α)} {s : State α}
    (h : Machine.runCalls (step (-1) maxFiles size) State.init es = some s) (hw : s.Waiting) :
    s.delivered = s.w.logged := by
  obtain ⟨hblocked, hev, -, -⟩ := hw
  have hinv := run_noRotation h
  have hpos : s.pos = s.w.logged.length := hinv.woken hblocked hev
  simpa [hblocked, ReaderPc.pending, hpos] using hinv.read

end NoRotation

/-! ## With rotation -/

/-- the log of entries `1` and `2`, ten bytes each, with a `max-size` of ten bytes and two files: the reader takes the
rotation signal before the event of entry `1` and never reads it -/
def losingRun : List (Event ℕ) :=
  [.decode, .log 1, .log 2, .publish, .wakeRotate, .decode, .deliver, .decode, .wakeEvent, .decode]

/-- entries `1`, `2` and `3`: the reader opens the third file before the second rotation is published, reads entry
`3`, takes the signal and opens the same file again -/
def repeatingRun : List (Event ℕ) :=
  [.decode, .log 1, .log 2, .publish, .log 3, .wakeEvent, .decode, .deliver, .decode, .wakeRotate, .decode, .publish,
    .wakeEvent, .decode, .deliver, .decode, .wakeRotate, .decode, .deliver]

theorem follow_loses_and_repeats :
    (∃ s, Machine.runCalls (step 10 2 fun _ => 10) State.init losingRun = some s ∧
      s.w.logged = [1, 2] ∧ s.delivered = [2] ∧ s.Waiting) ∧
    ∃ s, Machine.runCalls (step 10 2 fun _ => 10) State.init repeatingRun = some s ∧
      s.w.logged = [1, 2, 3] ∧ s.delivered = [1, 3, 3] := by
  refine ⟨⟨_, rfl, ?_⟩, ⟨_, rfl, ?_⟩⟩ <;> decide

end DockerEngine.Logger
