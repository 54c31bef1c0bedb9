/-
Lean model of the batching of the `awslogs` logging driver (`daemon/logger/awslogs/cloudwatchlogs.go`).
`collectBatch` cuts each message into pieces of at most `maximumBytesPerEvent` bytes. It adds them to a batch, and
hands a batch to `publishBatch` when a timer ticks, when the next piece would break the limits of a `PutLogEvents`
call, and when the stream closes. `publishBatch` sorts the batch with `sort.Sort(byTimestamp(events))` and passes it
to `PutLogEvents`.

`sort.Sort` is a parameter here. Every result but the last holds for any sort that only permutes, which Go's does
(`Go.Sort.sortSort_perm`):
- Every batch handed on keeps the limits on events, bytes and the size of each event (`run_batchOK`).
- Nothing is lost or repeated: the batches hold exactly the pieces of the messages (`run_lossless`).
- With a sort that keeps its documented contract, each batch is in timestamp order (`run_sorted`).
- `sort.Sort` is not stable, though. Go's reorders a batch of eight lines logged in two milliseconds, already in
  timestamp order, inside each millisecond (`collectBatch_reorders`).

The sequence tokens and the error handling of `putLogEvents` are left out: each batch is counted once, as handed to
`PutLogEvents`.
-/
import DockerEngine.Go.Sort

namespace DockerEngine.Awslogs

open scoped List

/-- a Go byte slice -/
abbrev Bytes := List UInt8

/-- `perEventBytes` -/
def perEventBytes : ℕ := 26

/-- `maximumBytesPerPut` -/
def maximumBytesPerPut : ℕ := 1048576

/-- `maximumLogEventsPerPut` -/
def maximumLogEventsPerPut : ℕ := 10000

/-- `maximumBytesPerEvent` -/
def maximumBytesPerEvent : ℕ := 262144 - perEventBytes

/-- a `logger.Message`: its line, and its timestamp in nanoseconds since the epoch -/
structure Message where
  line : Bytes
  timestamp : ℤ

/-- a `cloudwatchlogs.InputLogEvent` -/
structure InputLogEvent where
  message : Bytes
  timestamp : ℤ
  deriving DecidableEq, Repr

/-- `byTimestamp.Less` -/
def byTimestampLess (x y : InputLogEvent) : Bool := decide (x.timestamp < y.timestamp)

/-- what `sort.Sort` does to a batch under a `Less` -/
abbrev Sorter := (InputLogEvent → InputLogEvent → Bool) → List InputLogEvent → List InputLogEvent

/-- the state of `collectBatch`: the batch being filled, its `bytes`, the batches passed to `PutLogEvents` so far,
and whether the goroutine has returned -/
structure BatchState where
  events : List InputLogEvent
  bytes : ℕ
  published : List (List InputLogEvent)
  done : Bool

/-- the state `collectBatch` starts in -/
def BatchState.init : BatchState := ⟨[], 0, [], false⟩

/-- what one turn of the `select` of `collectBatch` receives -/
inductive Input
  /-- `<-timer.C` -/
  | tick
  /-- a message from `l.messages` -/
  | msg (m : Message)
  /-- `l.messages` closed -/
  | close

/-- the pieces the loop cuts a line into: `line := unprocessedLine[:lineBytes]`, with `lineBytes` at most
`maximumBytesPerEvent`; `fuel`, at least the length of the line, bounds the turns -/
def pieces : ℕ → Bytes → List Bytes
  | 0, _ => []
  | _ + 1, [] => []
  | fuel + 1, b :: l => (b :: l).take maximumBytesPerEvent :: pieces fuel ((b :: l).drop maximumBytesPerEvent)

/-- the `Timestamp` of an event: `msg.Timestamp.UnixNano() / int64(time.Millisecond)` -/
def eventTimestamp (m : Message) : ℤ := m.timestamp.tdiv 1000000

section Batching

variable (sort : Sorter)

/-- `publishBatch(events)`: nothing for an empty batch, else the batch sorted by timestamp -/
def publishBatch (published : List (List InputLogEvent)) (events : List InputLogEvent) : List (List InputLogEvent) :=
  if events = [] then published else published ++ [sort byTimestampLess events]

/-- `l.publishBatch(events); events = events[:0]; bytes = 0` -/
def flush (s : BatchState) : BatchState :=
  { s with events := [], bytes := 0, published := publishBatch sort s.published s.events }

/-- one turn of the loop over the pieces of a message -/
def addPiece (timestamp : ℤ) (s : BatchState) (line : Bytes) : BatchState :=
  let lineBytes := line.length
  -- a batch at the maximum number of events, or one this event would push over the maximum of bytes, goes first
  let s :=
    if maximumLogEventsPerPut ≤ s.events.length ∨ maximumBytesPerPut < s.bytes + lineBytes + perEventBytes then
      flush sort s
    else s
  { s with events := s.events ++ [⟨line, timestamp⟩], bytes := s.bytes + (lineBytes + perEventBytes) }

/-- one turn of the `select`; once the stream is closed `collectBatch` has returned -/
def step (s : BatchState) (i : Input) : BatchState :=
  if s.done then s
  else
    match i with
    | .tick => flush sort s
    | .msg m => (pieces m.line.length m.line).foldl (addPiece sort (eventTimestamp m)) s
    | .close => { flush sort s with done := true }

/-- `collectBatch` over a sequence of inputs -/
def run (inputs : List Input) : BatchState := inputs.foldl (step sort) .init

end Batching

/-! ## The pieces of a line -/

theorem pieces_flatten : ∀ (fuel : ℕ) (l : Bytes), l.length ≤ fuel → (pieces fuel l).flatten = l
  | 0, [], _ => rfl
  | _ + 1, [], _ => rfl
  | fuel + 1, b :: l, h => by
    have hrest : ((b :: l).drop maximumBytesPerEvent).length ≤ fuel := by
      simp only [List.length_drop, List.length_cons, maximumBytesPerEvent, perEventBytes] at h ⊢
      omega
    rw [pieces, List.flatten_cons, pieces_flatten fuel _ hrest, List.take_append_drop]

theorem pieces_length_le : ∀ (fuel : ℕ) (l : Bytes), ∀ p ∈ pieces fuel l, p.length ≤ maximumBytesPerEvent
  | 0, _, _, hp => by simp [pieces] at hp
  | _ + 1, [], _, hp => by simp [pieces] at hp
  | fuel + 1, b :: l, p, hp => by
    rcases List.mem_cons.mp hp with rfl | hp
    · exact List.length_take_le _ _
    · exact pieces_length_le fuel _ p hp

theorem pieces_ne_nil : ∀ (fuel : ℕ) (l : Bytes), ∀ p ∈ pieces fuel l, p ≠ []
  | 0, _, _, hp => by simp [pieces] at hp
  | _ + 1, [], _, hp => by simp [pieces] at hp
  | fuel + 1, b :: l, p, hp => by
    rcases List.mem_cons.mp hp with rfl | hp
    · simp [maximumBytesPerEvent, perEventBytes]
    · exact pieces_ne_nil fuel _ p hp

/-! ## The limits of a batch -/

/-- the bytes a batch counts: each message with `perEventBytes` more -/
def batchBytes (b : List InputLogEvent) : ℕ := (b.map fun e => e.message.length + perEventBytes).sum

/-- what `PutLogEvents` allows of one batch: its number of events, its bytes and the size of each event -/
def BatchOK (b : List InputLogEvent) : Prop :=
  b.length ≤ maximumLogEventsPerPut ∧ batchBytes b ≤ maximumBytesPerPut ∧ ∀ e ∈ b, e.message.length ≤ maximumBytesPerEvent

theorem BatchOK.perm {b b' : List InputLogEvent} (h : BatchOK b) (hp : b' ~ b) : BatchOK b' := by
  obtain ⟨hlen, hbytes, hsize⟩ := h
  refine ⟨hp.length_eq ▸ hlen, ?_, fun e he => hsize e (hp.subset he)⟩
  rw [batchBytes, (hp.map _).sum_eq]
  exact hbytes

/-- what `collectBatch` keeps: the batch being filled and every batch handed on keep the limits, and `bytes` counts the
batch being filled -/
structure Inv (s : BatchState) : Prop where
  events_ok : BatchOK s.events
  bytes_eq : s.bytes = batchBytes s.events
  published_ok : ∀ b ∈ s.published, BatchOK b

section Invariant

variable (sort : Sorter) (hperm : ∀ less l, sort less l ~ l)
include hperm

theorem publishBatch_ok {published : List (List InputLogEvent)} {events : List InputLogEvent}
    (hp : ∀ b ∈ published, BatchOK b) (he : BatchOK events) : ∀ b ∈ publishBatch sort published events, BatchOK b := by
  unfold publishBatch
  split_ifs
  · exact hp
  · intro b hb
    rcases List.mem_append.mp hb with hb | hb
    · exact hp b hb
    · rw [List.mem_singleton.mp hb]
      exact he.perm (hperm _ _)

theorem Inv.flush {s : BatchState} (h : Inv s) : Inv (flush sort s) :=
  ⟨⟨Nat.zero_le _, Nat.zero_le _, fun _ he => absurd he List.not_mem_nil⟩, rfl,
    publishBatch_ok sort hperm h.published_ok h.events_ok⟩

theorem Inv.addPiece {s : BatchState} (h : Inv s) (ts : ℤ) {line : Bytes} (hline : line.length ≤ maximumBytesPerEvent) :
    Inv (addPiece sort ts s line) := by
  unfold Awslogs.addPiece
  -- after the flush, if there is one, the event fits in the batch
  obtain ⟨s', hs', hlen, hbytes, heq⟩ : ∃ s', Inv s' ∧ s'.events.length < maximumLogEventsPerPut ∧
      s'.bytes + line.length + perEventBytes ≤ maximumBytesPerPut ∧
      (if maximumLogEventsPerPut ≤ s.events.length ∨ maximumBytesPerPut < s.bytes + line.length + perEventBytes then
        Awslogs.flush sort s else s) = s' := by
    split_ifs with hfull
    · refine ⟨_, h.flush sort hperm, ?_, ?_, rfl⟩
      · simp [Awslogs.flush, maximumLogEventsPerPut]
      · simp only [Awslogs.flush, maximumBytesPerPut, maximumBytesPerEvent, perEventBytes] at hline ⊢
        omega
    · rw [not_or, not_le, not_lt] at hfull
      exact ⟨s, h, hfull.1, hfull.2, rfl⟩
  simp only [heq]
  obtain ⟨⟨hlen', hbytes', hsize⟩, hcount, hpub⟩ := hs'
  refine ⟨⟨?_, ?_, ?_⟩, ?_, hpub⟩
  · simp only [List.length_append, List.length_singleton]
    omega
  · simp only [batchBytes, List.map_append, List.sum_append, List.map_singleton, List.sum_singleton] at hcount ⊢
    omega
  · intro e he
    rcases List.mem_append.mp he with he | he
    · exact hsize e he
    · rw [List.mem_singleton.mp he]
      exact hline
  · simp only [batchBytes, List.map_append, List.sum_append, List.map_singleton, List.sum_singleton] at hcount ⊢
    omega

theorem Inv.foldl_addPiece (ts : ℤ) (ps : List Bytes) {s : BatchState} (h : Inv s)
    (hps : ∀ p ∈ ps, p.length ≤ maximumBytesPerEvent) : Inv (ps.foldl (Awslogs.addPiece sort ts) s) :=
  List.foldlRecOn (motive := Inv) ps _ h fun _ hs p hp => hs.addPiece sort hperm ts (hps p hp)

theorem Inv.step {s : BatchState} (h : Inv s) (i : Input) : Inv (step sort s i) := by
  unfold Awslogs.step
  split_ifs
  · exact h
  · cases i with
    | tick => exact h.flush sort hperm
    | msg m => exact h.foldl_addPiece sort hperm _ _ (pieces_length_le _ _)
    | close =>
      have hf := h.flush sort hperm
      exact ⟨hf.events_ok, hf.bytes_eq, hf.published_ok⟩

/-- every batch `collectBatch` hands to `PutLogEvents` keeps the limits of the API -/
theorem run_batchOK (inputs : List Input) : ∀ b ∈ (run sort inputs).published, BatchOK b := by
  have hinit : Inv .init := ⟨⟨Nat.zero_le _, Nat.zero_le _, fun _ he => absurd he List.not_mem_nil⟩, rfl,
    fun _ hb => absurd hb List.not_mem_nil⟩
  -- the invariant holds from the start and at every turn of the `select`
  have hrun : Inv (run sort inputs) :=
    List.foldlRecOn (motive := Inv) inputs (step sort) hinit fun s h i _ => h.step sort hperm i
  exact hrun.published_ok

end Invariant

/-! ## Nothing lost, nothing repeated -/

/-- the events the messages among the inputs give, up to the close -/
def inputEvents : List Input → List InputLogEvent
  | [] => []
  | .tick :: is => inputEvents is
  | .msg m :: is => (pieces m.line.length m.line).map (fun p => ⟨p, eventTimestamp m⟩) ++ inputEvents is
  | .close :: _ => []

/-- the events handed on, and those of the batch being filled -/
def BatchState.seen (s : BatchState) : List InputLogEvent := s.published.flatten ++ s.events

section Lossless

variable (sort : Sorter) (hperm : ∀ less l, sort less l ~ l)
include hperm

theorem seen_flush (s : BatchState) : (flush sort s).seen ~ s.seen := by
  unfold flush publishBatch BatchState.seen
  split_ifs with hnil
  · simp [hnil]
  · simpa using (hperm byTimestampLess s.events).append_left s.published.flatten

theorem seen_addPiece (ts : ℤ) (s : BatchState) (line : Bytes) :
    (addPiece sort ts s line).seen ~ s.seen ++ [⟨line, ts⟩] := by
  unfold addPiece
  dsimp only
  split_ifs
  · have h := seen_flush sort hperm s
    simp only [BatchState.seen, flush] at h ⊢
    simpa using h.append_right [⟨line, ts⟩]
  · simp [BatchState.seen]

theorem seen_foldl_addPiece (ts : ℤ) :
    ∀ (ps : List Bytes) (s : BatchState), (ps.foldl (addPiece sort ts) s).seen ~ s.seen ++ ps.map (⟨·, ts⟩)
  | [], s => by simp
  | p :: ps, s => by
    rw [List.foldl_cons, List.map_cons, ← List.singleton_append, ← List.append_assoc]
    exact (seen_foldl_addPiece ts ps _).trans ((seen_addPiece sort hperm ts s p).append_right _)

omit hperm in
theorem done_foldl_addPiece (ts : ℤ) : ∀ (ps : List Bytes) (s : BatchState), (ps.foldl (addPiece sort ts) s).done = s.done
  | [], _ => rfl
  | p :: ps, s => by
    rw [List.foldl_cons, done_foldl_addPiece ts ps]
    unfold addPiece
    dsimp only
    split_ifs <;> rfl

omit hperm in
/-- once `collectBatch` has returned, nothing changes -/
theorem foldl_step_done : ∀ (is : List Input) {s : BatchState}, s.done = true → is.foldl (step sort) s = s
  | [], _, _ => rfl
  | i :: is, s, h => by
    rw [List.foldl_cons, show step sort s i = s by simp [Awslogs.step, h], foldl_step_done is h]

theorem seen_foldl_step : ∀ (is : List Input) (s : BatchState), s.done = false →
    (is.foldl (step sort) s).seen ~ s.seen ++ inputEvents is
  | [], s, _ => by simp [inputEvents]
  | .tick :: is, s, h => by
    rw [List.foldl_cons]
    have hstep : step sort s .tick = flush sort s := by simp [Awslogs.step, h]
    rw [hstep, inputEvents]
    exact (seen_foldl_step is (flush sort s) h).trans ((seen_flush sort hperm s).append_right _)
  | .msg m :: is, s, h => by
    rw [List.foldl_cons]
    have hstep : step sort s (.msg m) = (pieces m.line.length m.line).foldl (addPiece sort (eventTimestamp m)) s := by
      simp [Awslogs.step, h]
    rw [hstep, inputEvents, ← List.append_assoc]
    exact (seen_foldl_step is _ ((done_foldl_addPiece sort _ _ s).trans h)).trans
      ((seen_foldl_addPiece sort hperm _ _ s).append_right _)
  | .close :: is, s, h => by
    -- the last batch goes, and the goroutine returns
    rw [List.foldl_cons, foldl_step_done sort is (by simp [Awslogs.step, h]), inputEvents, List.append_nil]
    have hstep : step sort s .close = { flush sort s with done := true } := by simp [Awslogs.step, h]
    rw [hstep]
    exact seen_flush sort hperm s

/-- the batches handed on and the one being filled hold exactly the pieces of the messages so far -/
theorem run_lossless (inputs : List Input) : (run sort inputs).seen ~ inputEvents inputs := by
  have h := seen_foldl_step sort hperm inputs .init rfl
  rwa [show BatchState.init.seen = [] from rfl, List.nil_append] at h

end Lossless

/-! ## Each batch in timestamp order -/

section Published

variable (sort : Sorter) (Q : List InputLogEvent → Prop) (hQ : ∀ l, Q (sort byTimestampLess l))
include hQ

theorem publishBatch_of_sort {published : List (List InputLogEvent)} (events : List InputLogEvent)
    (hp : ∀ b ∈ published, Q b) : ∀ b ∈ publishBatch sort published events, Q b := by
  unfold publishBatch
  split_ifs
  · exact hp
  · intro b hb
    rcases List.mem_append.mp hb with hb | hb
    · exact hp b hb
    · rw [List.mem_singleton.mp hb]
      exact hQ events

theorem addPiece_published_of_sort (ts : ℤ) {s : BatchState} (hs : ∀ b ∈ s.published, Q b) (line : Bytes) :
    ∀ b ∈ (addPiece sort ts s line).published, Q b := by
  unfold addPiece
  dsimp only
  split_ifs
  · exact publishBatch_of_sort sort Q hQ s.events hs
  · exact hs

theorem step_published_of_sort {s : BatchState} (hs : ∀ b ∈ s.published, Q b) (i : Input) :
    ∀ b ∈ (step sort s i).published, Q b := by
  unfold step
  split_ifs
  · exact hs
  · cases i with
    | tick => exact publishBatch_of_sort sort Q hQ s.events hs
    | msg m =>
      exact List.foldlRecOn (motive := fun s : BatchState => ∀ b ∈ s.published, Q b) _ _ hs
        fun _ hs _ _ => addPiece_published_of_sort sort Q hQ _ hs _
    | close => exact publishBatch_of_sort sort Q hQ s.events hs

/-- every batch handed on is one `sort.Sort` returned, so it has what every result of the sort has -/
theorem run_published_of_sort (inputs : List Input) : ∀ b ∈ (run sort inputs).published, Q b :=
  List.foldlRecOn (motive := fun s : BatchState => ∀ b ∈ s.published, Q b) inputs (step sort)
    (fun _ hb => absurd hb List.not_mem_nil) fun _ hs i _ => step_published_of_sort sort Q hQ hs i

end Published

/-- with a sort that keeps the contract of `sort.Sort`, each batch handed on is in timestamp order -/
theorem run_sorted (sort : Sorter) (hsort : Go.Sort.Contract byTimestampLess (sort byTimestampLess))
    (inputs : List Input) : ∀ b ∈ (run sort inputs).published, b.Pairwise fun x y => x.timestamp ≤ y.timestamp := by
  refine run_published_of_sort sort _ (fun l => ?_) inputs
  refine (hsort l).2.imp fun h => ?_
  simpa [byTimestampLess] using h

/-! ## Order inside a millisecond -/

/-- eight one-byte lines: `a`, `b` and `c` logged in millisecond 0, then `d` to `h` in millisecond 1, and the close -/
def burst : List Input :=
  ([97, 98, 99] : List UInt8).map (fun b => .msg ⟨[b], 0⟩) ++
    ([100, 101, 102, 103, 104] : List UInt8).map (fun b => .msg ⟨[b], 1000000⟩) ++ [.close]

theorem collectBatch_reorders :
    (run Go.Sort.sortSort burst).published =
      [[⟨[99], 0⟩, ⟨[98], 0⟩, ⟨[97], 0⟩, ⟨[103], 1⟩, ⟨[104], 1⟩, ⟨[101], 1⟩, ⟨[100], 1⟩, ⟨[102], 1⟩]] := by
  decide

end DockerEngine.Awslogs
