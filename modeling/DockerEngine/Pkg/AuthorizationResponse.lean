/-
Lean model of the `responseModifier` of `pkg/authorization/response.go` and of the writer it wraps.

The wrapped `http.ResponseWriter` is net/http's `response` as a handler sees it: `Header()` returns a map that the
handler may change at any time, the first `WriteHeader` fixes the status and the header the client gets (a later
call is ignored), and `Write` first writes the header with `http.StatusOK` if nothing did. When the handler returns,
`finishRequest` does the same. Header keys are taken in canonical form, so `Header().Add` needs no
`CanonicalMIMEHeaderKey`; the status codes that forbid a body are not modelled.

A handler writes through the `ResponseModifier` it is given: it changes the map `Header()` returns, calls
`WriteHeader` and calls `Write`, with no `Flush` and no `Hijack`, so the modifier is never hijacked. `serveHTTP` is
`WrapHandler` around such a handler, and `FlushAll` is what `AuthZResponse` calls once every plugin allowed.

`FlushAll` writes the status first, then copies the header into `rw.Header()`, then writes the body. The header copy
comes after the header was fixed whenever the handler set a positive status. So a client gets the status the handler
last set and every byte it wrote, but none of the headers it set (`serveHTTP_drops_headers`). Without a positive
status the headers arrive as well (`serveHTTP_forwards_headers`). When a plugin denies, nothing of the handler's
reaches the writer (`serveHTTP_of_error`).
-/
import DockerEngine.Pkg.Authorization

namespace DockerEngine.Authorization

open Go

/-- `header.Add(key, value)` for a key in canonical form: the value after those already under the key -/
def headerAdd (header : Header) (key value : Text) : Header :=
  header.insert key ((header.lookup key).getD [] ++ [value])

/-- net/http's `response`: the map `Header()` returns, whether the header was written, the status and the header
fixed then (`cw.header`), and the bytes written -/
structure ResponseWriter where
  handlerHeader : Header
  wroteHeader : Bool
  status : ℤ
  header : Header
  body : List UInt8

namespace ResponseWriter

/-- a writer nothing was written to yet, with the header set before the handler ran -/
def new (handlerHeader : Header) : ResponseWriter := ⟨handlerHeader, false, 0, ∅, []⟩

/-- `w.WriteHeader(code)`: only the first call counts; it fixes the status and the header as it is then -/
def writeHeader (w : ResponseWriter) (code : ℤ) : ResponseWriter :=
  if w.wroteHeader then w else { w with wroteHeader := true, status := code, header := w.handlerHeader }

/-- `w.Header().Add(key, value)` -/
def addHeader (w : ResponseWriter) (key value : Text) : ResponseWriter :=
  { w with handlerHeader := headerAdd w.handlerHeader key value }

/-- `w.Write(data)`: the header is written first, with `http.StatusOK`, if it was not -/
def write (w : ResponseWriter) (data : List UInt8) : ResponseWriter :=
  let w := if !w.wroteHeader then w.writeHeader 200 else w
  { w with body := w.body ++ data }

/-- `w.finishRequest()`, once the handler returned: the header is written with `http.StatusOK` if it was not; the
status, header and body are then what the client gets -/
def finishRequest (w : ResponseWriter) : ResponseWriter :=
  if !w.wroteHeader then w.writeHeader 200 else w

end ResponseWriter

/-- `NewResponseModifier(rw)`: no status, an empty header and no body held yet -/
def newResponseModifier : ResponseModifier := ⟨0, ∅, []⟩

namespace ResponseModifier

/-- `rm.WriteHeader(s)`, not hijacked: the status is held, and a later call replaces it -/
def writeHeader (rm : ResponseModifier) (s : ℤ) : ResponseModifier := { rm with statusCode := s }

/-- `rm.Write(b)`, not hijacked: the bytes are held after those before -/
def write (rm : ResponseModifier) (b : List UInt8) : ResponseModifier := { rm with body := rm.body ++ b }

/-- the loop of `FlushAll` that copies the header: `rw.Header().Add(k, v)` for each value of each key -/
def copyHeader (header : Header) (rw : ResponseWriter) : ResponseWriter :=
  header.entries.foldl (fun rw kv => kv.2.foldl (fun rw v => rw.addHeader kv.1 v) rw) rw

/-- `rm.FlushAll()`: the status if one is held, then the header, then the body if there is one, to the writer `rm`
wraps; what `rm` held is cleared -/
def flushAll (rm : ResponseModifier) (rw : ResponseWriter) : ResponseWriter × ResponseModifier :=
  let rw := if rm.statusCode > 0 then rw.writeHeader rm.statusCode else rw
  let rw := copyHeader rm.header rw
  let rw := if rm.body.length > 0 then rw.write rm.body else rw
  (rw, newResponseModifier)

end ResponseModifier

/-- what a handler does with the `ResponseModifier` it is given: a change to the map `Header()` returns, a call to
`WriteHeader` or a call to `Write` -/
inductive Action
  | header (change : Header → Header)
  | writeHeader (s : ℤ)
  | write (b : List UInt8)

/-- one action of the handler on the `ResponseModifier` -/
def ResponseModifier.perform (rm : ResponseModifier) : Action → ResponseModifier
  | .header change => { rm with header := change rm.header }
  | .writeHeader s => rm.writeHeader s
  | .write b => rm.write b

/-- the handler's actions, one after another, on a new `ResponseModifier` -/
def runHandler (acts : List Action) : ResponseModifier := acts.foldl ResponseModifier.perform newResponseModifier

/-- `m.WrapHandler(handler)` serving `r` on the writer `w`, for a handler that returns its actions or an error: the
error returned, and the writer after it -/
def serveHTTP (plugins : List Plugin) (handler : Request → Except Text (List Action)) (r : Request)
    (w : ResponseWriter) : Except Text Unit × ResponseWriter :=
  match wrapHandler plugins (fun r => (handler r).map runHandler) r with
  | .ok rm => (.ok (), (rm.flushAll w).1)
  | .error err => (.error err, w)

/-! ## Headers -/

/-- the values of a key added one after another come after those already under it -/
theorem lookup_foldl_headerAdd (k : Text) (vs : List Text) (header : Header) (k' : Text) :
    ((vs.foldl (fun h v => headerAdd h k v) header).lookup k').getD [] =
      (header.lookup k').getD [] ++ if k' = k then vs else [] := by
  induction vs generalizing header with
  | nil => simp
  | cons v vs ih =>
    rw [List.foldl_cons, ih, headerAdd]
    by_cases hk : k' = k
    · subst hk
      simp [AList.lookup_insert]
    · simp [AList.lookup_insert_ne hk, hk]

theorem lookup_foldl_copy (l : List (Sigma fun _ : Text => List Text)) (hl : l.NodupKeys) (h : Header) (k : Text) :
    ((l.foldl (fun h kv => kv.2.foldl (fun h v => headerAdd h kv.1 v) h) h).lookup k).getD [] =
      (h.lookup k).getD [] ++ (l.dlookup k).getD [] := by
  induction l generalizing h with
  | nil => simp
  | cons kv l ih =>
    obtain ⟨k', vs⟩ := kv
    rw [List.foldl_cons, ih (List.nodupKeys_cons.mp hl).2, lookup_foldl_headerAdd]
    by_cases hk : k = k'
    · -- the key of this entry is under no later one
      have hnone : l.dlookup k = none := List.dlookup_eq_none.mpr (hk ▸ (List.nodupKeys_cons.mp hl).1)
      subst hk
      simp [hnone, List.dlookup_cons_eq]
    · simp [hk, List.dlookup_cons_ne l ⟨k', vs⟩ hk]

/-- `h` after `h.Add(k, v)` for each value `v` of each key `k` of `header`, in the order of its entries -/
def headerAddAll (header h : Header) : Header :=
  header.entries.foldl (fun h kv => kv.2.foldl (fun h v => headerAdd h kv.1 v) h) h

/-- the copy of a header puts its values after those already under each key, since its keys are distinct -/
theorem lookup_headerAddAll (header h : Header) (k : Text) :
    ((headerAddAll header h).lookup k).getD [] = (h.lookup k).getD [] ++ (header.lookup k).getD [] :=
  lookup_foldl_copy header.entries header.nodupKeys h k

/-! ## The wrapped writer -/

namespace ResponseWriter

theorem writeHeader_of_wroteHeader {w : ResponseWriter} (h : w.wroteHeader = true) (code : ℤ) :
    w.writeHeader code = w := by
  rw [writeHeader, if_pos h]

theorem writeHeader_of_not_wroteHeader {w : ResponseWriter} (h : w.wroteHeader = false) (code : ℤ) :
    w.writeHeader code = { w with wroteHeader := true, status := code, header := w.handlerHeader } := by
  rw [writeHeader, if_neg (by simp [h])]

theorem write_of_wroteHeader {w : ResponseWriter} (h : w.wroteHeader = true) (data : List UInt8) :
    w.write data = { w with body := w.body ++ data } := by
  simp [write, h]

theorem finishRequest_of_wroteHeader {w : ResponseWriter} (h : w.wroteHeader = true) : w.finishRequest = w := by
  simp [finishRequest, h]

theorem foldl_addHeader (k : Text) (vs : List Text) (w : ResponseWriter) :
    vs.foldl (fun w v => w.addHeader k v) w =
      { w with handlerHeader := vs.foldl (fun h v => headerAdd h k v) w.handlerHeader } := by
  induction vs generalizing w with
  | nil => rfl
  | cons v vs ih => rw [List.foldl_cons, ih, List.foldl_cons]; rfl

end ResponseWriter

namespace ResponseModifier

open ResponseWriter

/-- the header copy changes the map `Header()` returns, and nothing the client gets -/
theorem copyHeader_eq (header : Header) (rw : ResponseWriter) :
    copyHeader header rw = { rw with handlerHeader := headerAddAll header rw.handlerHeader } := by
  unfold copyHeader headerAddAll
  induction header.entries generalizing rw with
  | nil => rfl
  | cons kv l ih => rw [List.foldl_cons, ih, foldl_addHeader, List.foldl_cons]

theorem lookup_copyHeader (header : Header) (rw : ResponseWriter) (k : Text) :
    (((copyHeader header rw).handlerHeader).lookup k).getD [] =
      (rw.handlerHeader.lookup k).getD [] ++ (header.lookup k).getD [] := by
  rw [copyHeader_eq]
  exact lookup_headerAddAll header rw.handlerHeader k

/-! ## `FlushAll` -/

/-- a held status is written before the header is copied: the client gets the status, the header the writer had,
and the body -/
theorem finishRequest_flushAll_of_pos (rm : ResponseModifier) {w : ResponseWriter} (hw : w.wroteHeader = false)
    (hpos : 0 < rm.statusCode) :
    (rm.flushAll w).1.finishRequest.status = rm.statusCode ∧
      (rm.flushAll w).1.finishRequest.header = w.handlerHeader ∧
      (rm.flushAll w).1.finishRequest.body = w.body ++ rm.body := by
  -- after the status the header is written, so neither the copy, nor the write, nor the end changes it
  have hcopy := copyHeader_eq rm.header (w.writeHeader rm.statusCode)
  rw [writeHeader_of_not_wroteHeader hw] at hcopy
  have hflush : (rm.flushAll w).1 = if rm.body.length > 0 then (copyHeader rm.header
      { w with wroteHeader := true, status := rm.statusCode, header := w.handlerHeader }).write rm.body
      else copyHeader rm.header { w with wroteHeader := true, status := rm.statusCode, header := w.handlerHeader } := by
    simp only [flushAll, gt_iff_lt, if_pos hpos, writeHeader_of_not_wroteHeader hw]
  rw [hflush, hcopy]
  split_ifs with hbody
  · rw [write_of_wroteHeader rfl, finishRequest_of_wroteHeader rfl]
    exact ⟨rfl, rfl, rfl⟩
  · rw [finishRequest_of_wroteHeader rfl]
    have hnil : rm.body = [] := List.eq_nil_of_length_eq_zero (by omega)
    simp [hnil]

/-- without a held status, the header is copied before anything is written: the client gets `http.StatusOK`, the
writer's header with the values held after its own, and the body -/
theorem finishRequest_flushAll_of_nonpos (rm : ResponseModifier) {w : ResponseWriter} (hw : w.wroteHeader = false)
    (hnp : rm.statusCode ≤ 0) :
    (rm.flushAll w).1.finishRequest.status = 200 ∧
      (∀ k, (((rm.flushAll w).1.finishRequest.header).lookup k).getD [] =
        (w.handlerHeader.lookup k).getD [] ++ (rm.header.lookup k).getD []) ∧
      (rm.flushAll w).1.finishRequest.body = w.body ++ rm.body := by
  have hcopied := lookup_copyHeader rm.header w
  have hw' : (copyHeader rm.header w).wroteHeader = false := by rw [copyHeader_eq]; exact hw
  have hflush : (rm.flushAll w).1 =
      if rm.body.length > 0 then (copyHeader rm.header w).write rm.body else copyHeader rm.header w := by
    simp only [flushAll, gt_iff_lt, if_neg (not_lt.mpr hnp)]
  rw [hflush]
  split_ifs with hbody
  · -- the write fixes the header, with the copy in it
    rw [ResponseWriter.write, if_pos (by simp [hw']), writeHeader_of_not_wroteHeader hw',
      finishRequest_of_wroteHeader rfl]
    refine ⟨rfl, hcopied, ?_⟩
    rw [copyHeader_eq]
  · rw [finishRequest, if_pos (by simp [hw']), writeHeader_of_not_wroteHeader hw']
    have hnil : rm.body = [] := List.eq_nil_of_length_eq_zero (by omega)
    refine ⟨rfl, hcopied, ?_⟩
    simp [hnil, copyHeader_eq]

end ResponseModifier

/-! ## What the handler set -/

namespace Action

/-- the status an action sets, if it is a `WriteHeader` -/
def status? : Action → Option ℤ
  | .writeHeader s => some s
  | _ => none

/-- the bytes an action writes -/
def bytes : Action → List UInt8
  | .write b => b
  | _ => []

/-- what an action does to the header -/
def change : Action → Header → Header
  | .header change => change
  | _ => id

end Action

/-- the status the handler set last, if it set one -/
def lastStatus : List Action → Option ℤ
  | [] => none
  | a :: acts => (lastStatus acts).or a.status?

/-- the concatenation of the handler's writes -/
def written (acts : List Action) : List UInt8 := acts.flatMap Action.bytes

/-- the header after the handler's changes to it -/
def headerAfter (acts : List Action) (header : Header) : Header := acts.foldl (fun h a => a.change h) header

theorem foldl_perform (acts : List Action) (rm : ResponseModifier) :
    acts.foldl ResponseModifier.perform rm =
      ⟨(lastStatus acts).getD rm.statusCode, headerAfter acts rm.header, rm.body ++ written acts⟩ := by
  induction acts generalizing rm with
  | nil => simp [lastStatus, headerAfter, written]
  | cons a acts ih =>
    rw [List.foldl_cons, ih]
    cases a <;>
      simp [ResponseModifier.perform, ResponseModifier.writeHeader, ResponseModifier.write, lastStatus,
        Action.status?, Action.change, Action.bytes, headerAfter, written]

/-- the `ResponseModifier` holds the status the handler set last (0 if none), its header and its writes -/
theorem runHandler_eq (acts : List Action) :
    runHandler acts = ⟨(lastStatus acts).getD 0, headerAfter acts ∅, written acts⟩ := by
  rw [runHandler, foldl_perform]
  simp [newResponseModifier]

/-! ## Serving a request -/

/-- a plugin that answers every request and every response, and allows it -/
def Plugin.AllowsAll (p : Plugin) : Prop :=
  (∀ q, ∃ res, p.authZRequest q = .ok res ∧ res.allow = true) ∧
    ∀ q, ∃ res, p.authZResponse q = .ok res ∧ res.allow = true

/-- an error of `WrapHandler` leaves the writer as it was: nothing of the handler's reaches it -/
theorem serveHTTP_of_error (plugins : List Plugin) (handler : Request → Except Text (List Action)) (r : Request)
    (w : ResponseWriter) (h : (serveHTTP plugins handler r w).1 ≠ .ok ()) : (serveHTTP plugins handler r w).2 = w := by
  unfold serveHTTP at h ⊢
  split
  · rename_i heq
    rw [heq] at h
    exact absurd rfl h
  · rfl

/-- with plugins that allow everything, a handler's actions are held, then flushed to the writer -/
theorem serveHTTP_of_allowsAll {plugins : List Plugin} (hallow : ∀ p ∈ plugins, p.AllowsAll)
    {handler : Request → Except Text (List Action)} {r : Request} {acts : List Action} (hh : handler r = .ok acts)
    (w : ResponseWriter) :
    serveHTTP plugins handler r w = (.ok (), ((runHandler acts).flushAll w).1) := by
  have hall : ∀ (call : Plugin → AuthZReq → Except Text Response), (∀ p ∈ plugins, ∀ q, ∃ res,
      call p q = .ok res ∧ res.allow = true) → ∀ q, callPlugins call q plugins = .ok () :=
    fun call h q => (callPlugins_eq_ok call q plugins).mpr fun p hp => h p hp q
  have hok := (wrapHandler_eq_ok plugins (fun r => (handler r).map runHandler) r (runHandler acts)).mpr
    ⟨hall _ (fun p hp => (hallow p hp).1) _, by rw [hh]; rfl,
      by rw [Ctx.authZResponse, authCtxOf_plugins]; exact hall _ (fun p hp => (hallow p hp).2) _⟩
  rw [serveHTTP, hok]

/-- every plugin allows, and the handler set a positive status: the client gets that status and the handler's
writes, but only the header the writer had before the handler ran, whatever headers the handler set -/
theorem serveHTTP_drops_headers (plugins : List Plugin) (hallow : ∀ p ∈ plugins, p.AllowsAll)
    (handler : Request → Except Text (List Action)) (r : Request) (acts : List Action) (hh : handler r = .ok acts)
    (h0 : Header) {s : ℤ} (hs : lastStatus acts = some s) (hpos : 0 < s) :
    (serveHTTP plugins handler r (.new h0)).1 = .ok () ∧
      (serveHTTP plugins handler r (.new h0)).2.finishRequest.status = s ∧
      (serveHTTP plugins handler r (.new h0)).2.finishRequest.header = h0 ∧
      (serveHTTP plugins handler r (.new h0)).2.finishRequest.body = written acts := by
  have hstatus : (runHandler acts).statusCode = s := by rw [runHandler_eq, hs]; rfl
  obtain ⟨hst, hhd, hbd⟩ := (runHandler acts).finishRequest_flushAll_of_pos (w := .new h0) rfl (hstatus ▸ hpos)
  rw [serveHTTP_of_allowsAll hallow hh]
  refine ⟨rfl, hst.trans hstatus, hhd, ?_⟩
  rw [hbd, runHandler_eq]
  rfl

/-- every plugin allows, and the handler set no positive status: the client gets `http.StatusOK`, the writer's
header with the handler's values after its own, and the handler's writes -/
theorem serveHTTP_forwards_headers (plugins : List Plugin) (hallow : ∀ p ∈ plugins, p.AllowsAll)
    (handler : Request → Except Text (List Action)) (r : Request) (acts : List Action) (hh : handler r = .ok acts)
    (h0 : Header) (hnp : ∀ s, lastStatus acts = some s → s ≤ 0) :
    (serveHTTP plugins handler r (.new h0)).1 = .ok () ∧
      (serveHTTP plugins handler r (.new h0)).2.finishRequest.status = 200 ∧
      (∀ k, (((serveHTTP plugins handler r (.new h0)).2.finishRequest.header).lookup k).getD [] =
        (h0.lookup k).getD [] ++ ((headerAfter acts ∅).lookup k).getD []) ∧
      (serveHTTP plugins handler r (.new h0)).2.finishRequest.body = written acts := by
  have hstatus : (runHandler acts).statusCode ≤ 0 := by
    rw [runHandler_eq]
    cases hs : lastStatus acts with
    | none => exact le_refl 0
    | some s => exact hnp s hs
  obtain ⟨hst, hhd, hbd⟩ := (runHandler acts).finishRequest_flushAll_of_nonpos (w := .new h0) rfl hstatus
  rw [serveHTTP_of_allowsAll hallow hh]
  refine ⟨rfl, hst, fun k => ?_, ?_⟩
  · rw [hhd k, runHandler_eq]
    rfl
  · rw [hbd, runHandler_eq]
    rfl

/-- a plugin that allows every request and every response -/
def allowAll : Plugin := ⟨"allow".toList, fun _ => .ok ⟨true, [], []⟩, fun _ => .ok ⟨true, [], []⟩⟩

/-- a handler that sets `Content-Type: application/json`, writes the status 201 and writes `{}` -/
def jsonCreated : List Action :=
  [.header fun h => h.insert "Content-Type".toList ["application/json".toList], .writeHeader 201, .write [0x7B, 0x7D]]

/-- the client gets 201 and `{}` from that handler, and no `Content-Type`, although the handler set one -/
theorem serveHTTP_drops_headers_jsonCreated :
    (∀ p ∈ [allowAll], p.AllowsAll) ∧ lastStatus jsonCreated = some 201 ∧
      (headerAfter jsonCreated ∅).lookup "Content-Type".toList = some ["application/json".toList] ∧
      (serveHTTP [allowAll] (fun _ => .ok jsonCreated) chunkedCreate (.new ∅)).2.finishRequest.status = 201 ∧
      (serveHTTP [allowAll] (fun _ => .ok jsonCreated) chunkedCreate (.new ∅)).2.finishRequest.header = ∅ ∧
      (serveHTTP [allowAll] (fun _ => .ok jsonCreated) chunkedCreate (.new ∅)).2.finishRequest.body = [0x7B, 0x7D] := by
  have hallow : ∀ p ∈ [allowAll], p.AllowsAll := by
    intro p hp
    rw [List.mem_singleton] at hp
    subst hp
    exact ⟨fun _ => ⟨_, rfl, rfl⟩, fun _ => ⟨_, rfl, rfl⟩⟩
  have hs : lastStatus jsonCreated = some 201 := rfl
  obtain ⟨-, hst, hhd, hbd⟩ :=
    serveHTTP_drops_headers [allowAll] hallow (fun _ => .ok jsonCreated) chunkedCreate jsonCreated rfl ∅ hs (by decide)
  exact ⟨hallow, hs, AList.lookup_insert _, hst, hhd, hbd⟩

end DockerEngine.Authorization
