/-
What `StdCopy` does on a multiplexed stream.

A multiplexed stream is the concatenation of the frames `stdWriter.Write` emits (`muxed fs`). The source delivers
`muxed fs ++ tail` in arbitrary chunks and then `io.EOF`, where `tail` is a proper prefix of one more frame `g`
(empty for a complete stream); both destinations take every write in full.

The invariant `Demux` says, at every pass, that the unread bytes (buffered, then still in the source) are the
frames from some index `k` on followed by `tail`, that frames `0 .. k-1` have been written out and counted, and
where the loop stands inside the current frame (`current k`: frame `k`, or `g` behind the last one). A returned
state has written every frame of `fs`, counted them and reported no error.

Results: `step_demux` (one step keeps the invariant), `stdCopy_muxed` (the general run result) and
`stdCopy_demuxes`: on a complete stream `StdCopy` writes every payload to its destination and returns their total
length with no error, and on any proper prefix of it exactly the frames wholly inside the prefix.
-/
import DockerEngine.Pkg.StdCopy

namespace DockerEngine.StdCopy

open DockerEngine.Bytes DockerEngine.Reader

/-! ## Frames -/

/-- one `Write` of a `stdWriter`: the stream type it stamps and the payload -/
structure Frame where
  t : UInt8
  p : List UInt8
deriving DecidableEq, Repr

/-- a known stream type, and a payload whose length fits the header's `uint32` -/
def Frame.Valid (f : Frame) : Prop := (f.t = stdin ∨ f.t = stdout ∨ f.t = stderr) ∧ f.p.length < 2 ^ 32

def Frame.bytes (f : Frame) : List UInt8 := frameBytes f.t f.p

/-- where `StdCopy` writes the payload of a frame of a known type -/
def Frame.dst (f : Frame) : Dst := if f.t = stderr then .dsterr else .dstout

/-- the multiplexed stream of a list of frames -/
def muxed (fs : List Frame) : List UInt8 := (fs.map Frame.bytes).flatten

/-- the payloads of the frames bound for `d`, in order -/
def payloads (d : Dst) (fs : List Frame) : List UInt8 := ((fs.filter (·.dst = d)).map Frame.p).flatten

def total (fs : List Frame) : ℕ := (fs.map (·.p.length)).sum

/-- what `StdCopy` returns having demultiplexed exactly the frames `fs` -/
def demuxed (fs : List Frame) : Outcome := ⟨total fs, none, payloads .dstout fs, payloads .dsterr fs⟩

/-- the number of leading frames wholly inside `pre` -/
def framesWithin : List Frame → List UInt8 → ℕ
  | [], _ => 0
  | f :: fs, pre => if f.bytes <+: pre then framesWithin fs (pre.drop f.bytes.length) + 1 else 0

theorem StdWriter.write_frame (wr : Writer) (t : UInt8) (p : List UInt8) :
    (StdWriter.write (some ⟨some wr, t⟩) (some p)).handed = some (Frame.bytes ⟨t, p⟩) := rfl

theorem Frame.bytes_length (f : Frame) : f.bytes.length = f.p.length + stdWriterPrefixLen := by
  simp [Frame.bytes, frameBytes, header, stdWriterPrefixLen]
  omega

theorem Frame.take_header (f : Frame) : f.bytes.take stdWriterPrefixLen = header f.t f.p.length := by
  simp [Frame.bytes, frameBytes, header, stdWriterPrefixLen]

theorem Frame.drop_header (f : Frame) : f.bytes.drop stdWriterPrefixLen = f.p := by
  simp [Frame.bytes, frameBytes, header, stdWriterPrefixLen]

theorem Frame.outFor_t {f : Frame} (h : f.Valid) : outFor f.t = some f.dst := by
  obtain ⟨ht | ht | ht, -⟩ := h <;> simp [outFor, Frame.dst, ht, stdin, stdout, stderr]

/-- the size field of a header, whatever follows it -/
theorem header_size_field (t : UInt8) (n : ℕ) (rest : List UInt8) :
    ((header t n ++ rest).drop stdWriterSizeIndex).take 4 = beEncode 4 n := by
  simp [header, stdWriterSizeIndex]

/-- the size field of a valid frame's header reads back as the payload length -/
theorem Frame.size_field {f : Frame} (h : f.Valid) (rest : List UInt8) :
    beDecode (((header f.t f.p.length ++ rest).drop stdWriterSizeIndex).take 4) = f.p.length := by
  rw [header_size_field, beDecode_beEncode, Nat.mod_eq_of_lt (by have := h.2; norm_num at this ⊢; omega)]

@[simp] theorem muxed_nil : muxed [] = [] := rfl

@[simp] theorem muxed_cons (f : Frame) (fs : List Frame) : muxed (f :: fs) = f.bytes ++ muxed fs := rfl

theorem muxed_append (fs gs : List Frame) : muxed (fs ++ gs) = muxed fs ++ muxed gs := by
  simp [muxed]

theorem total_append (fs gs : List Frame) : total (fs ++ gs) = total fs + total gs := by
  simp [total]

theorem total_singleton (f : Frame) : total [f] = f.p.length := by
  simp [total]

theorem payloads_append (d : Dst) (fs gs : List Frame) : payloads d (fs ++ gs) = payloads d fs ++ payloads d gs := by
  simp [payloads]

theorem payloads_singleton (d : Dst) (f : Frame) : payloads d [f] = if f.dst = d then f.p else [] := by
  by_cases h : f.dst = d <;> simp [payloads, h]

/-! ## The invariant -/

/-- the bytes not yet handled: those in the buffer, then those still in the source -/
def unread (s : St) : List UInt8 := s.buf.take s.nr ++ s.src.stream

/-- the frame the loop is in: the next complete one, or `g` once they are all handled -/
def current (g : Frame) (rest : List Frame) : Frame := rest.headD g

theorem take_unread {s : St} {n : ℕ} (hn : n ≤ s.nr) (hw : s.nr ≤ s.buf.length) :
    (unread s).take n = s.buf.take n := by
  rw [unread, List.take_append_of_le_length (by simp; omega), List.take_take, Nat.min_eq_left hn]

theorem unread_readInto {s : St} (hw : s.nr ≤ s.buf.length) : unread s.readInto.1 = unread s := by
  have hle := s.src.read_data_length_le (s.buf.length - s.nr)
  have hs := s.src.read_stream (s.buf.length - s.nr)
  simp only [unread, St.readInto]
  rw [take_writeAt (by omega), List.append_assoc, hs]

section Demux

variable (fs : List Frame) (g : Frame) (tail : List UInt8)

/-- a run on `muxed fs ++ tail` that has not returned: frames `done` are handled, frames `rest` and `tail` unread -/
structure Pending (done rest : List Frame) (s : St) : Prop where
  split : fs = done ++ rest
  unread_eq : unread s = muxed rest ++ tail
  written_eq : s.written = total done
  out_eq : s.outLog = payloads .dstout done
  err_eq : s.errLog = payloads .dsterr done
  at_route : s.pc = .route → stdWriterPrefixLen ≤ s.nr
  at_frame : ∀ out F, s.pc = .frame out F →
    stdWriterPrefixLen ≤ s.nr ∧ F = (current g rest).p.length ∧ out = (current g rest).dst
  at_emit : ∀ out F, s.pc = .emit out F → F = (current g rest).p.length ∧ out = (current g rest).dst

/-- a returned run has demultiplexed `fs`; one that has not is `Pending` -/
def Progress (s : St) : Prop :=
  match s.pc with
  | .done w e => Outcome.mk w e s.outLog s.errLog = demuxed fs
  | _ => ∃ done rest, Pending fs g tail done rest s

/-- the invariant of a run of `StdCopy` on `muxed fs ++ tail` -/
def Demux (s : St) : Prop := WF s ∧ s.src.fin = .eof ∧ Progress fs g tail s

variable {fs g tail}
variable (hfs : ∀ f ∈ fs, f.Valid) (hg : g.Valid) (htail : tail <+: g.bytes) (hne : tail ≠ g.bytes)

include htail in
/-- the unread stream starts like the current frame -/
theorem take_stream {rest : List Frame} {n : ℕ} (hn : n ≤ (current g rest).bytes.length)
    (hlen : n ≤ (muxed rest ++ tail).length) : (muxed rest ++ tail).take n = (current g rest).bytes.take n := by
  cases rest with
  | nil =>
    simp only [muxed_nil, List.nil_append, current, List.headD_nil] at hlen ⊢
    obtain ⟨u, hu⟩ := htail
    rw [← hu, List.take_append_of_le_length hlen]
  | cons c rest =>
    simp only [muxed_cons, current, List.headD_cons, List.append_assoc] at hn ⊢
    rw [List.take_append_of_le_length hn]

include htail hne in
/-- once the unread stream holds the whole current frame, that frame is a complete one -/
theorem rest_ne_nil_of_long {rest : List Frame} (hlen : (current g rest).bytes.length ≤ (muxed rest ++ tail).length) :
    rest ≠ [] := by
  rintro rfl
  simp only [muxed_nil, List.nil_append, current, List.headD_nil] at hlen
  exact hne (htail.eq_of_length (le_antisymm htail.length_le hlen))

/-- a complete frame ahead is wholly in the unread stream -/
theorem current_length_le {rest : List Frame} (h : rest ≠ []) :
    (current g rest).bytes.length ≤ (muxed rest ++ tail).length := by
  obtain ⟨c, rest, rfl⟩ := List.exists_cons_of_ne_nil h
  simp [current]

theorem Pending.readInto {done rest : List Frame} {s : St} (hp : Pending fs g tail done rest s)
    (hw : s.nr ≤ s.buf.length) : Pending fs g tail done rest s.readInto.1 := by
  have hmono : s.nr ≤ s.readInto.1.nr := by simp [St.readInto]
  exact ⟨hp.split, (unread_readInto hw).trans hp.unread_eq, hp.written_eq, hp.out_eq, hp.err_eq,
    fun h => le_trans (hp.at_route h) hmono,
    fun out F h => by obtain ⟨h1, h2⟩ := hp.at_frame out F h; exact ⟨le_trans h1 hmono, h2⟩, hp.at_emit⟩

theorem Pending.setPc {done rest : List Frame} {s : St} (hp : Pending fs g tail done rest s) (pc : Pc)
    (hroute : pc = .route → stdWriterPrefixLen ≤ s.nr)
    (hemit : ∀ out F, pc = .emit out F → F = (current g rest).p.length ∧ out = (current g rest).dst)
    (hframe : ∀ out F, pc ≠ .frame out F) : Pending fs g tail done rest { s with pc := pc } :=
  ⟨hp.split, hp.unread_eq, hp.written_eq, hp.out_eq, hp.err_eq, hroute, fun out F h => absurd h (hframe out F),
    hemit⟩

/-- a read loop that meets the end of the source short of the current frame has handled every frame -/
theorem Pending.finished {done rest : List Frame} {s : St} (hp : Pending fs g tail done rest s)
    (hw : s.nr ≤ s.buf.length) (hend : s.src.stream = []) (hshort : s.nr < (current g rest).bytes.length) :
    Outcome.mk s.written none s.outLog s.errLog = demuxed fs := by
  have hlen : (muxed rest ++ tail).length = s.nr := by
    rw [← hp.unread_eq, unread, hend]
    simp
    omega
  have hrest : rest = [] := by
    by_contra h
    have : (current g rest).bytes.length ≤ (muxed rest ++ tail).length := current_length_le h
    omega
  subst hrest
  have hdone : done = fs := by simpa using hp.split.symm
  simp [demuxed, hp.written_eq, hp.out_eq, hp.err_eq, hdone]

theorem progress_of_pending {done rest : List Frame} {s : St} (hp : Pending fs g tail done rest s)
    (h : s.pc.isDone = false) : Progress fs g tail s := by
  unfold Progress
  split
  · simp_all [Pc.isDone]
  · exact ⟨done, rest, hp⟩

theorem progress_done {s : St} {w : ℕ} {e : Option Err} (h : Outcome.mk w e s.outLog s.errLog = demuxed fs) :
    Progress fs g tail { s with pc := .done w e } := h

theorem pending_of_progress {s : St} (h : Progress fs g tail s) (hnd : s.pc.isDone = false) :
    ∃ done rest, Pending fs g tail done rest s := by
  unfold Progress at h
  split at h
  · simp_all [Pc.isDone]
  · exact h

include hfs hg in
theorem current_valid {done rest : List Frame} (h : fs = done ++ rest) : (current g rest).Valid := by
  cases rest with
  | nil => exact hg
  | cons c rest => exact hfs c (by simp [h])

theorem unread_length_ge {s : St} (hw : s.nr ≤ s.buf.length) : s.nr ≤ (unread s).length := by
  simp [unread]
  omega

include htail in
/-- with a whole header buffered, it is the current frame's -/
theorem Pending.buf_header {done rest : List Frame} {s : St} (hp : Pending fs g tail done rest s)
    (hw : s.nr ≤ s.buf.length) (hn : stdWriterPrefixLen ≤ s.nr) :
    s.buf.take stdWriterPrefixLen = header (current g rest).t (current g rest).p.length := by
  have hlen := unread_length_ge hw
  rw [← take_unread hn hw, hp.unread_eq, take_stream htail (by simp [Frame.bytes_length])
    (by rw [← hp.unread_eq]; omega), Frame.take_header]

include htail in
/-- with a whole frame buffered, it is the current frame's -/
theorem Pending.buf_frame {done rest : List Frame} {s : St} (hp : Pending fs g tail done rest s)
    (hw : s.nr ≤ s.buf.length) (hn : (current g rest).bytes.length ≤ s.nr) :
    s.buf.take (current g rest).bytes.length = (current g rest).bytes := by
  have hlen := unread_length_ge hw
  rw [← take_unread hn hw, hp.unread_eq, take_stream htail le_rfl (by rw [← hp.unread_eq]; omega),
    List.take_length]

/-- sliding the buffer by `m` drops `m` unread bytes -/
theorem unread_shift {s : St} {m : ℕ} (hm : m ≤ s.nr) (hw : s.nr ≤ s.buf.length) :
    (copy s.buf (s.buf.drop m)).take (s.nr - m) ++ s.src.stream = (unread s).drop m := by
  rw [take_copy (by simp; omega) (by omega), unread, List.drop_append_of_le_length (by simp; omega),
    List.drop_take]

theorem Pending.regrow {done rest : List Frame} {s : St} (hp : Pending fs g tail done rest s) (buf : List UInt8)
    (hbuf : buf.take s.nr = s.buf.take s.nr) (out : Dst) (F : ℕ) (hn : stdWriterPrefixLen ≤ s.nr)
    (hF : F = (current g rest).p.length) (hout : out = (current g rest).dst) :
    Pending fs g tail done rest { s with pc := .frame out F, buf := buf } :=
  ⟨hp.split, by rw [← hp.unread_eq]; simp [unread, hbuf], hp.written_eq, hp.out_eq, hp.err_eq,
    (fun h => by cases h), (fun _ _ h => by cases h; exact ⟨hn, hF, hout⟩), (fun _ _ h => by cases h)⟩

/-- the pass after a frame is written: that frame joins the handled ones -/
theorem Pending.next {done : List Frame} {c : Frame} {rest : List Frame} {s t : St}
    (hp : Pending fs g tail done (c :: rest) s) (hpc : t.pc = .header) (hunread : unread t = (unread s).drop c.bytes.length)
    (hwritten : t.written = s.written + c.p.length)
    (hout : t.outLog = s.outLog ++ if c.dst = .dstout then c.p else [])
    (herr : t.errLog = s.errLog ++ if c.dst = .dsterr then c.p else []) :
    Pending fs g tail (done ++ [c]) rest t := by
  refine ⟨by simp [hp.split], ?_, ?_, ?_, ?_, (fun h => by simp [hpc] at h), (fun _ _ h => by simp [hpc] at h),
    (fun _ _ h => by simp [hpc] at h)⟩
  · rw [hunread, hp.unread_eq, muxed_cons, List.append_assoc, List.drop_left]
  · rw [hwritten, hp.written_eq, total_append, total_singleton]
  · rw [hout, hp.out_eq, payloads_append, payloads_singleton]
  · rw [herr, hp.err_eq, payloads_append, payloads_singleton]

/-! ## One step keeps the invariant -/

/-- a pass of a read loop, given what `break` must establish -/
theorem fill_demux {need : ℕ} {next : Pc} {s : St} (hd : Demux fs g tail s) (hnd : s.pc.isDone = false)
    (hnext : next.isDone = false) (hwf : WF (fill need next s))
    (hpend : ∀ done rest, Pending fs g tail done rest s →
      need ≤ (current g rest).bytes.length ∧
      ∀ t : St, Pending fs g tail done rest t → t.pc = s.pc → need ≤ t.nr →
        Pending fs g tail done rest { t with pc := next }) :
    Demux fs g tail (fill need next s) := by
  obtain ⟨hw, hfin, hprog⟩ := hd
  obtain ⟨done, rest, hp⟩ := pending_of_progress hprog hnd
  obtain ⟨hneed, hset⟩ := hpend done rest hp
  have hr := hp.readInto hw.nr_le
  rcases fill_cases need next s with ⟨hn, h⟩ | ⟨-, -, h⟩ | ⟨-, he, hshort, h⟩ | ⟨-, -, hlong, h⟩ | ⟨e, -, he, hee, h⟩ <;>
    rw [h] at hwf ⊢ <;> refine ⟨hwf, by simpa using hfin, ?_⟩
  · exact progress_of_pending (hset s hp rfl hn) hnext
  · exact progress_of_pending hr (by simpa using hnd)
  · apply progress_done
    have hend := (readInto_err s he).2
    simpa using hr.finished (readInto_nr_le s hw.nr_le |>.trans_eq (readInto_buf_length s hw.nr_le).symm) hend
      (by omega)
  · exact progress_of_pending (hset _ hr rfl hlong) hnext
  · exact absurd ((readInto_err s he).1.trans hfin) hee

include hfs hg htail in
theorem route_demux {s : St} (hd : Demux fs g tail s) (hpc : s.pc = .route) : Demux fs g tail (routeFrame s) := by
  obtain ⟨hw, hfin, hprog⟩ := hd
  obtain ⟨done, rest, hp⟩ := pending_of_progress hprog (by simp [hpc, Pc.isDone])
  have hn := hp.at_route hpc
  have hc := current_valid hfs hg hp.split
  have hb : s.buf = header (current g rest).t (current g rest).p.length ++ s.buf.drop stdWriterPrefixLen := by
    rw [← hp.buf_header htail hw.nr_le hn, List.take_append_drop]
  have hfd : s.buf.getD stdWriterFdIndex 0 = (current g rest).t := by
    rw [hb]; simp [header, stdWriterFdIndex]
  have hsz : beDecode ((s.buf.drop stdWriterSizeIndex).take 4) = (current g rest).p.length := by
    rw [hb]; exact Frame.size_field hc _
  refine ⟨routeFrame_wf hw, by simpa using hfin, ?_⟩
  unfold routeFrame
  rw [hfd, Frame.outFor_t hc]
  dsimp only
  rw [hsz]
  refine progress_of_pending (hp.regrow _ ?_ _ _ hn rfl rfl) rfl
  split_ifs
  · rw [List.take_append_of_le_length hw.nr_le]
  · rfl

include htail hne in
theorem emit_demux {out : Dst} {F : ℕ} {s : St} (hd : Demux fs g tail s) (hpc : s.pc = .emit out F) :
    Demux fs g tail (emitFrame acceptAll acceptAll out F s) := by
  obtain ⟨hw, hfin, hprog⟩ := hd
  obtain ⟨done, rest, hp⟩ := pending_of_progress hprog (by simp [hpc, Pc.isDone])
  obtain ⟨rfl, rfl⟩ := hp.at_emit out F hpc
  have hready := hw.emit_ready _ _ hpc
  have hlen : (current g rest).bytes.length ≤ s.nr := by rw [Frame.bytes_length]; exact hready
  have hrest := rest_ne_nil_of_long htail hne
    (by rw [← hp.unread_eq]; exact hlen.trans (unread_length_ge hw.nr_le))
  obtain ⟨c, rest, rfl⟩ := List.exists_cons_of_ne_nil hrest
  simp only [current, List.headD_cons] at hlen hready hp ⊢
  have hframe := hp.buf_frame htail hw.nr_le hlen
  have hpay : (s.buf.drop stdWriterPrefixLen).take c.p.length = c.p := by
    have := congrArg (List.drop stdWriterPrefixLen) hframe
    rwa [Frame.drop_header, Frame.bytes_length, List.drop_take, Nat.add_sub_cancel] at this
  refine ⟨emitFrame_wf hw hpc, by simpa using hfin, ?_⟩
  unfold emitFrame
  simp only [hpay, writerFor_same, acceptAll, ne_eq, not_true_eq_false, if_false]
  refine progress_of_pending (hp.next rfl ?_ (by simp) (hand_outLog _ _ _) (hand_errLog _ _ _)) rfl
  rw [Frame.bytes_length, ← unread_shift hready hw.nr_le]
  simp [unread]

include hfs hg htail hne in
theorem step_demux {s : St} (hd : Demux fs g tail s) : Demux fs g tail (step acceptAll acceptAll s) := by
  have hwf := step_wf acceptAll acceptAll hd.1
  unfold step at hwf ⊢
  split
  · rename_i hpc
    refine fill_demux hd (by simp [hpc, Pc.isDone]) rfl (by rwa [hpc] at hwf) fun done rest hp => ⟨?_, ?_⟩
    · simp [Frame.bytes_length]
    · intro t hp' _ hn
      exact hp'.setPc .route (fun _ => hn) (fun _ _ h => by cases h) (fun _ _ h => by cases h)
  · exact route_demux hfs hg htail hd ‹_›
  · rename_i out F hpc
    refine fill_demux hd (by simp [hpc, Pc.isDone]) rfl (by rwa [hpc] at hwf) fun done rest hp => ?_
    obtain ⟨-, hF, hout⟩ := hp.at_frame out F hpc
    refine ⟨by rw [Frame.bytes_length, hF], fun t hp' htpc hn => ?_⟩
    obtain ⟨-, hF', hout'⟩ := hp'.at_frame out F (htpc.trans hpc)
    exact hp'.setPc _ (fun h => by cases h) (fun _ _ h => by cases h; exact ⟨hF', hout'⟩) (fun _ _ h => by cases h)
  · exact emit_demux htail hne hd ‹_›
  · exact hd

theorem init_demux {src : Src} (hs : src.stream = muxed fs ++ tail) (hfin : src.fin = .eof) :
    Demux fs g tail (init src) := by
  have hp : Pending fs g tail [] fs (init src) := ⟨by simp, by simp [unread, init, hs], rfl, rfl, rfl,
    (fun h => by cases h), (fun _ _ h => by cases h), (fun _ _ h => by cases h)⟩
  exact ⟨init_wf src, hfin, progress_of_pending hp rfl⟩

include hfs hg htail hne in
/-- **Demultiplexing, general form.** On a source delivering `muxed fs ++ tail` in any chunks and then `io.EOF`,
with `tail` a proper prefix of a frame `g`, `StdCopy` into two accepting destinations returns having written
exactly the frames of `fs`. -/
theorem stdCopy_muxed {src : Src} (hs : src.stream = muxed fs ++ tail) (hfin : src.fin = .eof) {fuel : ℕ}
    (hfuel : budget src ≤ fuel) : stdCopy fuel acceptAll acceptAll src = some (demuxed fs) := by
  have hd := Machine.run_inv (step acceptAll acceptAll) (Demux fs g tail)
    (fun _ h => step_demux hfs hg htail hne h) (init_demux hs hfin) fuel
  have hdone := run_isDone acceptAll acceptAll src hfuel
  unfold stdCopy
  generalize Machine.run (step acceptAll acceptAll) fuel (init src) = s at hd hdone ⊢
  obtain ⟨-, -, hprog⟩ := hd
  unfold Progress at hprog
  cases hpc : s.pc <;> simp_all [Pc.isDone]

end Demux

/-! ## Prefixes of a multiplexed stream -/

/-- a proper prefix of a multiplexed stream is its first `framesWithin` frames and a proper prefix of the next -/
theorem framesWithin_spec (fs : List Frame) (pre : List UInt8) (hpre : pre <+: muxed fs) (hne : pre ≠ muxed fs) :
    ∃ g ∈ fs, ∃ tail, pre = muxed (fs.take (framesWithin fs pre)) ++ tail ∧ tail <+: g.bytes ∧ tail ≠ g.bytes := by
  induction fs generalizing pre with
  | nil => exact absurd (List.prefix_nil.1 hpre) hne
  | cons f fs ih =>
    by_cases hf : f.bytes <+: pre
    · obtain ⟨u, rfl⟩ := hf
      have hu : u <+: muxed fs := by simpa using hpre
      obtain ⟨g, hg, tail, hsplit, ht, htne⟩ := ih u hu (by simpa using hne)
      refine ⟨g, List.mem_cons_of_mem f hg, tail, ?_, ht, htne⟩
      have hk : framesWithin (f :: fs) (f.bytes ++ u) = framesWithin fs u + 1 := by simp [framesWithin]
      rw [hk, List.take_succ_cons, muxed_cons, List.append_assoc, ← hsplit]
    · have hle : pre.length ≤ f.bytes.length := by
        by_contra hlt
        exact hf (List.prefix_of_prefix_length_le (List.prefix_append _ _) hpre (by omega))
      have hp : pre <+: f.bytes := List.prefix_of_prefix_length_le hpre (List.prefix_append _ _) hle
      refine ⟨f, List.mem_cons_self, pre, by simp [framesWithin, hf], hp, ?_⟩
      rintro rfl
      exact hf (List.prefix_refl _)

/-- **Demultiplexing undoes multiplexing.** Let a source deliver, in chunks of any sizes and with `io.EOF` at
the end (alone or with the last chunk), the frames `stdWriter.Write` emits for valid `fs`, and let both
destinations accept every write in full. Then `StdCopy` writes to `dstout` the payloads of the `Stdin`/`Stdout`
frames in order, to `dsterr` those of the `Stderr` frames, and returns their total length with a nil error. If the
source ends after a proper prefix of that stream, it does the same for the frames wholly inside the prefix. -/
theorem stdCopy_demuxes (fs : List Frame) (hfs : ∀ f ∈ fs, f.Valid) (chunks : List (List UInt8))
    (finWithLast : Bool) (fuel : ℕ) (hfuel : budget ⟨chunks, .eof, finWithLast⟩ ≤ fuel) :
    (chunks.flatten = muxed fs →
      stdCopy fuel acceptAll acceptAll ⟨chunks, .eof, finWithLast⟩ = some (demuxed fs)) ∧
    (∀ pre, pre <+: muxed fs → pre ≠ muxed fs → chunks.flatten = pre →
      stdCopy fuel acceptAll acceptAll ⟨chunks, .eof, finWithLast⟩ = some (demuxed (fs.take (framesWithin fs pre)))) := by
  constructor
  · intro hs
    have hg : Frame.Valid ⟨stdout, []⟩ := ⟨by simp, by norm_num⟩
    have hnil : ([] : List UInt8) <+: Frame.bytes ⟨stdout, []⟩ := List.nil_prefix
    refine stdCopy_muxed hfs hg hnil ?_ (by simpa [Chunked.stream] using hs) rfl hfuel
    intro h
    have := congrArg List.length h
    simp [Frame.bytes_length, stdWriterPrefixLen] at this
  · intro pre hpre hne hs
    obtain ⟨g, hgm, tail, hsplit, ht, htne⟩ := framesWithin_spec fs pre hpre hne
    exact stdCopy_muxed (fun f hf => hfs f (List.mem_of_mem_take hf)) (hfs g hgm) ht htne
      (by simpa [Chunked.stream, hs] using hsplit) rfl hfuel

/-- "hi" on stdout and "!" on stderr, cut into chunks across the frame boundary, the last one with `io.EOF` -/
theorem stdCopy_demuxes_hi :
    stdCopy 1000 acceptAll acceptAll ⟨[[1, 0, 0], [0, 0, 0, 0, 2, 104, 105, 2, 0], [0, 0, 0, 0, 0, 1, 33]], .eof, true⟩ =
      some ⟨3, none, [104, 105], [33]⟩ := by
  rw [(stdCopy_demuxes [⟨stdout, [104, 105]⟩, ⟨stderr, [33]⟩]
    (by simp [Frame.Valid, stdout, stderr]) _ true 1000 (by decide)).1 (by decide)]
  decide

end DockerEngine.StdCopy
