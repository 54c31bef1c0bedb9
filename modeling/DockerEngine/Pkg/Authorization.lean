/-
Lean model of the authorization middleware of `pkg/authorization` (`authz.go`, `middleware.go`), with `CheckForJSON`
of `api/server/httputils`.

A request is its method, URI, header, framing, body and TLS peer. net/http derives `ContentLength` from the framing:
the `Content-Length` of a body sent with one, and -1 for a chunked body. The body is the byte stream `r.Body` reads to
its end; reading it never fails here. `mime.ParseMediaType` is not part of the repository, so `checkForJSON` takes
the media type it gives a header value as an argument. A plugin is any pair of functions of the request it is sent.
Hijacked responses are left out: the handler leaves its status, header and body in the `ResponseModifier`.

`AuthZRequest` hands the handler the request it was given (`authZRequest_fst`) and sends the plugins the body exactly
when `sendBody` holds and `ContentLength` is positive and below `maxBodySize` (`requestBody_authZRequest`). Both
loops over the plugins are `callPlugins`, which succeeds exactly when every plugin allows (`callPlugins_eq_ok`); the
handler runs only then (`wrapHandler_eq_ok`). A chunked body is therefore never sent, although the request passes
`CheckForJSON` (`checkForJSON_of_sendBody`, `authZRequest_chunked_json`).
-/
import Mathlib.Data.List.AList
import DockerEngine.Go.Strings

namespace DockerEngine.Authorization

open Go

/-- `maxBodySize` -/
def maxBodySize : ℕ := 1048576

/-- an `http.Header`: the values under each canonical name -/
abbrev Header := AList fun _ : Text => List Text

/-- `header.Get(key)`: the first value under the name, `""` if there is none -/
def headerGet (header : Header) (key : Text) : Text := ((header.lookup key).getD []).headD []

/-- how the request body is framed on the wire -/
inductive Framing
  /-- sent with a `Content-Length` -/
  | contentLength
  /-- `Transfer-Encoding: chunked` -/
  | chunked
  deriving DecidableEq, Repr

/-- an `http.Request` as the daemon reads it -/
structure Request where
  method : Text
  requestURI : Text
  header : Header
  framing : Framing
  /-- the bytes `r.Body` reads, to its end -/
  body : List UInt8
  /-- the `CommonName` of the first of `r.TLS.PeerCertificates`, if the request has one -/
  peerCommonName : Option Text

/-- `r.ContentLength` as net/http sets it -/
def Request.contentLength (r : Request) : ℤ :=
  match r.framing with
  | .contentLength => r.body.length
  | .chunked => -1

/-- the `Request` sent to a plugin -/
structure AuthZReq where
  user : Text
  userAuthNMethod : Text
  requestMethod : Text
  requestURI : Text
  requestBody : List UInt8
  requestHeaders : AList fun _ : Text => Text
  responseStatusCode : ℤ
  responseBody : List UInt8
  responseHeaders : AList fun _ : Text => Text

/-- the `Response` of a plugin -/
structure Response where
  allow : Bool
  msg : Text
  err : Text

/-- a `Plugin`: its name and its two calls, each returning a response or an error -/
structure Plugin where
  name : Text
  authZRequest : AuthZReq → Except Text Response
  authZResponse : AuthZReq → Except Text Response

/-- `Ctx` -/
structure Ctx where
  user : Text
  userAuthNMethod : Text
  requestMethod : Text
  requestURI : Text
  plugins : List Plugin

/-- `NewCtx(authZPlugins, user, userAuthNMethod, requestMethod, requestURI)` -/
def newCtx (authZPlugins : List Plugin) (user userAuthNMethod requestMethod requestURI : Text) : Ctx :=
  ⟨user, userAuthNMethod, requestMethod, requestURI, authZPlugins⟩

/-- the `ResponseModifier` the handler writes to: the status of `WriteHeader` (0 if it is never called), the header
and the bytes written -/
structure ResponseModifier where
  statusCode : ℤ
  header : Header
  body : List UInt8

/-- `drainBody(body)`: what `Peek(maxBodySize)` returns when it stops at the end of the body (`nil` when the body
has `maxBodySize` bytes or more), and what the new body reads: the buffered bytes, then the rest of the old one -/
def drainBody (body : List UInt8) : List UInt8 × List UInt8 :=
  let buffered := body.take maxBodySize
  let newBody := buffered ++ body.drop maxBodySize
  if buffered.length < maxBodySize then (buffered, newBody) else ([], newBody)

/-- `sendBody(url, header)` -/
def sendBody (url : Text) (header : Header) : Bool :=
  if hasSuffix url "/auth".toList then false
  else headerGet header "Content-Type".toList == "application/json".toList

/-- whether `headers` skips a header name -/
def isCredential (k : Text) : Bool :=
  equalFold k "Authorization".toList || equalFold k "X-Registry-Config".toList ||
    equalFold k "X-Registry-Auth".toList

/-- `headers(header)`: the last value under each name, without the credentials -/
def headers (header : Header) : AList fun _ : Text => Text :=
  header.entries.foldl (fun v e => if isCredential e.1 then v else e.2.foldl (fun v val => v.insert e.1 val) v) ∅

/-- the loop over the plugins of `AuthZRequest` and of `AuthZResponse`, with the call each makes -/
def callPlugins (call : Plugin → AuthZReq → Except Text Response) (authReq : AuthZReq) :
    List Plugin → Except Text Unit
  | [] => .ok ()
  | plugin :: plugins =>
    match call plugin authReq with
    | .error err => .error ("plugin ".toList ++ plugin.name ++ " failed with error: ".toList ++ err)
    | .ok authRes =>
      if !authRes.allow then .error ("authorization denied by plugin ".toList ++ plugin.name ++ ": ".toList ++ authRes.msg)
      else callPlugins call authReq plugins

/-- `ctx.AuthZRequest(w, r)`: the request as it is left (with its new body), the request sent to the plugins, and the
error returned -/
def Ctx.authZRequest (ctx : Ctx) (r : Request) : Request × AuthZReq × Except Text Unit :=
  let drained :=
    if sendBody ctx.requestURI r.header = true ∧ 0 < r.contentLength ∧ r.contentLength < maxBodySize then
      drainBody r.body
    else ([], r.body)
  let authReq : AuthZReq :=
    ⟨ctx.user, ctx.userAuthNMethod, ctx.requestMethod, ctx.requestURI, drained.1, headers r.header, 0, [], ∅⟩
  ({ r with body := drained.2 }, authReq, callPlugins Plugin.authZRequest authReq ctx.plugins)

/-- `ctx.AuthZResponse(rm, r)`: the request sent to the plugins and the error returned; on success `rm.FlushAll()`
writes what `rm` holds -/
def Ctx.authZResponse (ctx : Ctx) (authReq : AuthZReq) (rm : ResponseModifier) : AuthZReq × Except Text Unit :=
  let authReq := { authReq with
    responseStatusCode := rm.statusCode
    responseHeaders := headers rm.header
    responseBody := if sendBody ctx.requestURI rm.header then rm.body else authReq.responseBody }
  (authReq, callPlugins Plugin.authZResponse authReq ctx.plugins)

/-- the context `WrapHandler` makes for a request: the user of its TLS certificate, if it has one -/
def authCtxOf (plugins : List Plugin) (r : Request) : Ctx :=
  match r.peerCommonName with
  | some commonName => newCtx plugins commonName "TLS".toList r.method r.requestURI
  | none => newCtx plugins [] [] r.method r.requestURI

/-- `m.WrapHandler(handler)` applied to a request: the error returned, or the response flushed -/
def wrapHandler (plugins : List Plugin) (handler : Request → Except Text ResponseModifier) (r : Request) :
    Except Text ResponseModifier :=
  let authCtx := authCtxOf plugins r
  let (r, authReq, res) := authCtx.authZRequest r
  match res with
  | .error err => .error err
  | .ok () =>
    match handler r with
    | .error err => .error err
    | .ok rm =>
      match (authCtx.authZResponse authReq rm).2 with
      | .error err => .error err
      | .ok () => .ok rm

/-- `api.MatchesContentType(contentType, expectedType)`, over the media type `mime.ParseMediaType` gives a header
value (`none` for a parse error) -/
def matchesContentType (parseMediaType : Text → Option Text) (contentType expectedType : Text) : Bool :=
  parseMediaType contentType == some expectedType

/-- `CheckForJSON(r)`; a server request always has a body, so only its length is tested -/
def checkForJSON (parseMediaType : Text → Option Text) (r : Request) : Except Text Unit :=
  let ct := headerGet r.header "Content-Type".toList
  if ct = [] ∧ r.contentLength = 0 then .ok ()
  else if matchesContentType parseMediaType ct "application/json".toList then .ok ()
  else .error ("Content-Type specified (".toList ++ ct ++ ") must be \x27application/json\x27".toList)

/-! ## The request body -/

/-- the new body reads what the old one did -/
theorem drainBody_snd (body : List UInt8) : (drainBody body).2 = body := by
  unfold drainBody
  dsimp only
  split_ifs <;> exact List.take_append_drop maxBodySize body

/-- a body shorter than `maxBodySize` is read whole by `Peek` -/
theorem drainBody_fst_of_lt {body : List UInt8} (h : body.length < maxBodySize) : (drainBody body).1 = body := by
  have htake : body.take maxBodySize = body := List.take_of_length_le h.le
  unfold drainBody
  rw [htake, if_pos h]

/-- the handler is given the request `AuthZRequest` was given -/
theorem authZRequest_fst (ctx : Ctx) (r : Request) : (ctx.authZRequest r).1 = r := by
  unfold Ctx.authZRequest
  split_ifs <;> simp [drainBody_snd]

/-- the plugins decide on the request they are sent -/
theorem authZRequest_snd_snd (ctx : Ctx) (r : Request) :
    (ctx.authZRequest r).2.2 = callPlugins Plugin.authZRequest (ctx.authZRequest r).2.1 ctx.plugins := rfl

/-- the plugins are sent the body exactly when `sendBody` holds and the body is sent with a `Content-Length` that is
positive and below `maxBodySize` -/
theorem requestBody_authZRequest (ctx : Ctx) (r : Request) :
    (ctx.authZRequest r).2.1.requestBody =
      if sendBody ctx.requestURI r.header = true ∧ r.framing = .contentLength ∧ 0 < r.body.length ∧
          r.body.length < maxBodySize then r.body else [] := by
  obtain ⟨method, uri, header, framing, body, peer⟩ := r
  unfold Ctx.authZRequest Request.contentLength
  cases framing with
  | chunked => simp
  | contentLength =>
    -- `ContentLength` is the length of the body, so the two tests on it are tests on the length
    simp only [Int.natCast_pos, Int.ofNat_lt, true_and]
    split_ifs with h
    · exact drainBody_fst_of_lt h.2.2
    · rfl

theorem authCtxOf_requestURI (plugins : List Plugin) (r : Request) :
    (authCtxOf plugins r).requestURI = r.requestURI := by
  unfold authCtxOf
  split <;> rfl

theorem authCtxOf_plugins (plugins : List Plugin) (r : Request) : (authCtxOf plugins r).plugins = plugins := by
  unfold authCtxOf
  split <;> rfl

/-- `sendBody` accepts only the header value `application/json` itself -/
theorem headerGet_of_sendBody {url : Text} {header : Header} (h : sendBody url header = true) :
    headerGet header "Content-Type".toList = "application/json".toList := by
  unfold sendBody at h
  split_ifs at h
  exact beq_iff_eq.mp h

/-- a request whose `Content-Type` `sendBody` accepts passes `CheckForJSON`, whatever its framing, as long as
`mime.ParseMediaType` reads `application/json` as itself -/
theorem checkForJSON_of_sendBody {parseMediaType : Text → Option Text}
    (hparse : parseMediaType "application/json".toList = some "application/json".toList) {url : Text} {r : Request}
    (h : sendBody url r.header = true) : checkForJSON parseMediaType r = .ok () := by
  have hct := headerGet_of_sendBody h
  unfold checkForJSON
  have hmatch : matchesContentType parseMediaType "application/json".toList "application/json".toList = true := by
    rw [matchesContentType, hparse, beq_self_eq_true]
  rw [hct, if_neg (by simp), if_pos hmatch]

/-- the header of a request with `Content-Type: application/json` -/
def jsonHeader : Header := AList.insert "Content-Type".toList ["application/json".toList] ∅

/-- a chunked `POST /containers/create` with the JSON body `{}` -/
def chunkedCreate : Request :=
  ⟨"POST".toList, "/containers/create".toList, jsonHeader, .chunked, [0x7B, 0x7D], none⟩

/-- the chunked JSON request: `sendBody` accepts its URI and header, and its body is short, yet the request every
plugin is sent has an empty body, while the handler reads `{}`; sent with a `Content-Length`, the same request has
its body sent -/
theorem authZRequest_chunked_json (plugins : List Plugin) :
    sendBody chunkedCreate.requestURI chunkedCreate.header = true ∧ chunkedCreate.body ≠ [] ∧
      ((authCtxOf plugins chunkedCreate).authZRequest chunkedCreate).1 = chunkedCreate ∧
      ((authCtxOf plugins chunkedCreate).authZRequest chunkedCreate).2.1.requestBody = [] ∧
      ((authCtxOf plugins { chunkedCreate with framing := .contentLength }).authZRequest
        { chunkedCreate with framing := .contentLength }).2.1.requestBody = chunkedCreate.body := by
  refine ⟨by decide, by decide, authZRequest_fst _ _, ?_, ?_⟩
  · rw [requestBody_authZRequest, authCtxOf_requestURI]
    decide
  · rw [requestBody_authZRequest, authCtxOf_requestURI]
    decide

/-! ## The plugins -/

/-- the loop succeeds exactly when every plugin answers and allows -/
theorem callPlugins_eq_ok (call : Plugin → AuthZReq → Except Text Response) (authReq : AuthZReq)
    (plugins : List Plugin) :
    callPlugins call authReq plugins = .ok () ↔ ∀ p ∈ plugins, ∃ res, call p authReq = .ok res ∧ res.allow = true := by
  induction plugins with
  | nil => simp [callPlugins]
  | cons plugin plugins ih =>
    unfold callPlugins
    cases hcall : call plugin authReq with
    | error err => simp [hcall]
    | ok authRes =>
      cases hallow : authRes.allow
      · simp [hcall, hallow]
      · simp [hcall, hallow, ih]

/-- `WrapHandler` returns a response only if every plugin allowed the request, the handler returned the response
on the very request it was given, and every plugin allowed the response -/
theorem wrapHandler_eq_ok (plugins : List Plugin) (handler : Request → Except Text ResponseModifier) (r : Request)
    (rm : ResponseModifier) :
    wrapHandler plugins handler r = .ok rm ↔
      callPlugins Plugin.authZRequest ((authCtxOf plugins r).authZRequest r).2.1 plugins = .ok () ∧
        handler r = .ok rm ∧
        ((authCtxOf plugins r).authZResponse ((authCtxOf plugins r).authZRequest r).2.1 rm).2 = .ok () := by
  -- what `AuthZRequest` returns, as `WrapHandler` destructures it
  have htriple : (authCtxOf plugins r).authZRequest r =
      (r, ((authCtxOf plugins r).authZRequest r).2.1,
        callPlugins Plugin.authZRequest ((authCtxOf plugins r).authZRequest r).2.1 plugins) := by
    refine Prod.ext (authZRequest_fst _ r) (Prod.ext rfl ?_)
    dsimp only
    rw [authZRequest_snd_snd, authCtxOf_plugins]
  unfold wrapHandler
  dsimp only
  rw [htriple]
  dsimp only
  cases hreq : callPlugins Plugin.authZRequest ((authCtxOf plugins r).authZRequest r).2.1 plugins with
  | error err => simp
  | ok u =>
    cases u
    cases hh : handler r with
    | error err => simp
    | ok rm' =>
      dsimp only
      cases hres : ((authCtxOf plugins r).authZResponse ((authCtxOf plugins r).authZRequest r).2.1 rm').2 with
      | error err =>
        simp only [reduceCtorEq, true_and, Except.ok.injEq, false_iff, not_and]
        rintro rfl
        rw [hres]
        exact fun h => nomatch h
      | ok u' =>
        cases u'
        simp only [Except.ok.injEq, true_and]
        constructor
        · rintro rfl
          exact ⟨rfl, hres⟩
        · rintro ⟨rfl, -⟩
          rfl

end DockerEngine.Authorization
