/-
Lean model of `ParseHost` in `opts/hosts.go` on Unix: the address the daemon listens on for a `-H` value, with the
defaults of `hosts.go`, `hosts_unix.go` and `opts_unix.go`.

`parseDockerDaemonHost` splits the value at every `://` and reads the protocol and the first address after it. A
`unix` or `npipe` address is kept or defaulted, an `fd` value is kept whole, and a `tcp` address goes through
`url.Parse`, which decodes its path, and is rebuilt from the host, the port and that decoded path.

A `tcp://` value with no other `://` is the `tcp` address after it (`parseDockerDaemonHost_tcp`), and
`parseTCPAddr_default` says what becomes of it. Every such value that ends in `%`, and has no `#` or `?`, is refused
(`parseHost_tcp_append_percent`), since `url.Parse` finds the `%` without digits at the end of the path or the host.
So `ParseHost` is not idempotent: `tcp://h:1/%25` gives `tcp://h:1/%`, which is refused
(`parseHost_not_idempotent`).
-/
import DockerEngine.Go.Url
import DockerEngine.Go.Strconv

namespace DockerEngine.Opts

open Go Go.Url Go.Net Go.Strconv

/-- `DefaultHTTPHost` -/
def defaultHTTPHost : Text := "localhost".toList

/-- `DefaultHTTPPort` -/
def defaultHTTPPort : ℕ := 2375

/-- `DefaultTLSHTTPPort` -/
def defaultTLSHTTPPort : ℕ := 2376

/-- `DefaultUnixSocket` -/
def defaultUnixSocket : Text := "/var/run/docker.sock".toList

/-- `DefaultTCPHost`, `fmt.Sprintf("tcp://%s:%d", DefaultHTTPHost, DefaultHTTPPort)` -/
def defaultTCPHost : Text := "tcp://".toList ++ defaultHTTPHost ++ [':'] ++ (Nat.repr defaultHTTPPort).toList

/-- `DefaultTLSHost` -/
def defaultTLSHost : Text := "tcp://".toList ++ defaultHTTPHost ++ [':'] ++ (Nat.repr defaultTLSHTTPPort).toList

/-- `DefaultNamedPipe` -/
def defaultNamedPipe : Text := "//./pipe/docker_engine".toList

/-- `DefaultHost` on Unix, `fmt.Sprintf("unix://%s", DefaultUnixSocket)` -/
def defaultHost : Text := "unix://".toList ++ defaultUnixSocket

/-- the errors of `ParseHost` -/
inductive HostError
  /-- `fmt.Errorf("Invalid bind address format: %s", addr)` -/
  | invalidBindAddress (addr : Text)
  /-- `fmt.Errorf("Invalid proto, expected %s: %s", proto, addr)` -/
  | invalidProto (proto addr : Text)
  /-- the error of `url.Parse` -/
  | url (e : Url.Error)
  /-- the error of `net.SplitHostPort` on the default address -/
  | addr (e : AddrError)
  deriving DecidableEq, Repr

/-- the separator `://` -/
def protoSep : Text := "://".toList

/-- `parseSimpleProtoAddr(proto, addr, defaultAddr)` -/
def parseSimpleProtoAddr (proto addr defaultAddr : Text) : Except HostError Text :=
  let addr := trimPrefix addr (proto ++ protoSep)
  if contains addr protoSep then .error (.invalidProto proto addr)
  else
    let addr := if addr = [] then defaultAddr else addr
    .ok (proto ++ protoSep ++ addr)

/-- `parseTCPAddr(tryAddr, defaultAddr)` -/
def parseTCPAddr (tryAddr defaultAddr : Text) : Except HostError Text := do
  if tryAddr = [] ∨ tryAddr = "tcp://".toList then return defaultAddr
  let addr := trimPrefix tryAddr "tcp://".toList
  if contains addr protoSep ∨ addr = [] then throw (.invalidProto "tcp".toList tryAddr)
  let defaultAddr := trimPrefix defaultAddr "tcp://".toList
  let (defaultHost, defaultPort) ← (splitHostPort defaultAddr).mapError HostError.addr
  -- `url.Parse` refuses a colon right after the brackets of an IPv6 host
  let addr := if hasSuffix addr "]:".toList then addr ++ defaultPort else addr
  let u ← (Url.Parse ("tcp://".toList ++ addr)).mapError HostError.url
  let (host, port) ← (splitHostPort u.host).mapError fun _ => HostError.invalidBindAddress tryAddr
  let host := if host = [] then defaultHost else host
  let port := if port = [] then defaultPort else port
  -- `p, err := strconv.Atoi(port)` gives `p == 0` with an error only for `ErrSyntax`; `ErrRange` comes with a bound
  if atoi port = .error .errSyntax then throw (.invalidBindAddress tryAddr)
  return "tcp://".toList ++ joinHostPort host port ++ u.path

/-- `parseDockerDaemonHost(addr)` -/
def parseDockerDaemonHost (addr : Text) : Except HostError Text :=
  let addrParts := splitStr addr protoSep
  let addrParts := if addrParts.length = 1 ∧ addrParts.getD 0 [] ≠ [] then ["tcp".toList, addrParts.getD 0 []]
    else addrParts
  let proto := addrParts.getD 0 []
  -- `addrParts[1]`: a value that splits into one part is non-empty and becomes two parts above
  let rest := addrParts.getD 1 []
  if proto = "tcp".toList then parseTCPAddr rest defaultTCPHost
  else if proto = "unix".toList then parseSimpleProtoAddr "unix".toList rest defaultUnixSocket
  else if proto = "npipe".toList then parseSimpleProtoAddr "npipe".toList rest defaultNamedPipe
  else if proto = "fd".toList then .ok addr
  else .error (.invalidBindAddress addr)

/-- `ParseHost(defaultToTLS, val)`: the host, or the error (Go returns `val` beside it) -/
def parseHost (defaultToTLS : Bool) (val : Text) : Except HostError Text :=
  let host := trimSpace val
  if host = [] then .ok (if defaultToTLS then defaultTLSHost else defaultHost)
  else parseDockerDaemonHost host

/-! ## The `tcp` addresses -/

/-- a value `tcp://y` with no other `://` splits into the protocol and `y` -/
theorem splitStr_tcp {y : Text} (hy : ¬List.IsInfix protoSep y) :
    splitStr ("tcp://".toList ++ y) protoSep = ["tcp".toList, y] := by
  have hlen : ("tcp://".toList ++ y).length + 1 = (y.length + 1) + 6 := by simp
  rw [splitStr, hlen]
  -- the loop walks past `tcp` and cuts at the `://`
  have hstep : splitStrLoop protoSep (y.length + 1 + 6) [] ("tcp://".toList ++ y) =
      "tcp".toList :: splitStrLoop protoSep (y.length + 1 + 2) [] y := by
    simp [splitStrLoop, protoSep]
  rw [hstep, splitStrLoop_of_not_infix _ _ _ hy]
  rfl

/-- a value `tcp://y` with no other `://` is the `tcp` address `y` -/
theorem parseDockerDaemonHost_tcp {y : Text} (hy : ¬List.IsInfix protoSep y) :
    parseDockerDaemonHost ("tcp://".toList ++ y) = parseTCPAddr y defaultTCPHost := by
  rw [parseDockerDaemonHost, splitStr_tcp hy]
  rfl

/-- `parseTCPAddr` with the default `DefaultTCPHost`, on an address without `://`: `url.Parse` of the address, with
the default port after a trailing `]:`, then the host and the port of the URL's host, with their defaults -/
theorem parseTCPAddr_default {tryAddr : Text} (hne : tryAddr ≠ []) (hsep : ¬List.IsInfix protoSep tryAddr) :
    parseTCPAddr tryAddr defaultTCPHost = (do
      let addr := if hasSuffix tryAddr "]:".toList then tryAddr ++ "2375".toList else tryAddr
      let u ← (Url.Parse ("tcp://".toList ++ addr)).mapError HostError.url
      let (host, port) ← (splitHostPort u.host).mapError fun _ => HostError.invalidBindAddress tryAddr
      let host := if host = [] then defaultHTTPHost else host
      let port := if port = [] then "2375".toList else port
      if atoi port = .error .errSyntax then throw (.invalidBindAddress tryAddr)
      return "tcp://".toList ++ joinHostPort host port ++ u.path) := by
  have htcp : tryAddr ≠ "tcp://".toList := fun h => hsep (h ▸ by decide)
  have htrim : trimPrefix tryAddr "tcp://".toList = tryAddr :=
    trimPrefix_of_not_infix fun h => hsep (List.IsInfix.trans (by decide) h)
  have hcontains : contains tryAddr protoSep = false := by simp [contains, hsep]
  have hdefault : splitHostPort (trimPrefix defaultTCPHost "tcp://".toList) =
      .ok (defaultHTTPHost, "2375".toList) := by
    decide
  simp only [parseTCPAddr, hne, htcp, or_self, if_false, htrim, hcontains, Bool.false_eq_true, hdefault]
  rfl

/-- every value `tcp://x%` with no other `://`, `#` or `?` is refused: `url.Parse` refuses the `%` at its end -/
theorem parseHost_tcp_append_percent (defaultToTLS : Bool) {x : Text} (hfrag : '#' ∉ x) (hquery : '?' ∉ x)
    (hsep : ¬List.IsInfix protoSep (x ++ ['%'])) :
    ∃ e, parseHost defaultToTLS ("tcp://".toList ++ (x ++ ['%'])) = .error e := by
  have hlast : ("tcp://".toList ++ (x ++ ['%'])).getLast? = some '%' := by
    rw [← List.append_assoc, List.getLast?_concat]
  have htrim : trimSpace ("tcp://".toList ++ (x ++ ['%'])) = "tcp://".toList ++ (x ++ ['%']) :=
    trimSpace_eq_self (by simp [isSpace]) (by rw [hlast]; simp [isSpace])
  have hne : "tcp://".toList ++ (x ++ ['%']) ≠ [] := by simp
  have hsuffix : hasSuffix (x ++ ['%']) "]:".toList = false := by
    rw [hasSuffix, List.isSuffixOf, List.reverse_append]
    rfl
  obtain ⟨e, he⟩ := Url.Parse_tcp_append_percent hfrag hquery
  refine ⟨.url e, ?_⟩
  simp only [parseHost, htrim, if_neg hne, parseDockerDaemonHost_tcp hsep]
  rw [parseTCPAddr_default (by simp) hsep]
  simp only [hsuffix, Bool.false_eq_true, if_false, he]
  rfl

/-! ## A host that does not parse again -/

theorem parseHost_not_idempotent :
    parseHost false "tcp://h:1/%25".toList = .ok "tcp://h:1/%".toList ∧
      parseHost false "tcp://h:1/%".toList = .error (.url (.escape ['%'])) := by
  refine ⟨by decide, by decide⟩

end DockerEngine.Opts
