/-
Lean model of `url.Parse` of Go 1.5's `net/url`, and of `net.SplitHostPort` and `net.JoinHostPort`.

`Parse` cuts the fragment at the first `#`, takes the scheme, cuts the query at the first `?`, reads the authority
after `//` up to the next `/` (the user information up to the last `@`, then the host) and decodes every `%` escape
of the path. A decoded escape is the character of the byte's value: an escape of a byte past ASCII, which Go reads as
part of UTF-8, is not modelled. `URL.RawPath`, a hint for `EscapedPath` that nothing here reads, is left out.

`unescape` fails at its first `%` without two hexadecimal digits, so a text that ends in `%` never decodes
(`unescape_append_percent`), and no URL `tcp://x%` parses, whether the `%` ends its path or its host
(`Parse_tcp_append_percent`).
-/
import DockerEngine.Go.Strings
import Mathlib.Tactic

namespace DockerEngine.Go.Url

/-- the errors `url.Parse` returns, without the `*url.Error` around them -/
inductive Error
  /-- `EscapeError`: a `%` and at most two characters after it -/
  | escape (s : Text)
  /-- `errors.New("missing protocol scheme")` -/
  | missingScheme
  /-- `errors.New("missing ']' in host")` -/
  | missingBracket
  /-- `fmt.Errorf("invalid port %q after host", colonPort)` -/
  | invalidPort (colonPort : Text)
  /-- `errors.New("percent-encoded characters in host")` -/
  | percentInHost
  deriving DecidableEq, Repr

/-- `url.Userinfo`: the user name, and the password if one is set -/
structure Userinfo where
  username : Text
  password : Option Text
  deriving DecidableEq, Repr

/-- `url.URL` without `RawPath`; `Opaque` is `opaquePart` -/
structure URL where
  scheme : Text
  opaquePart : Text
  user : Option Userinfo
  host : Text
  path : Text
  rawQuery : Text
  fragment : Text
  deriving DecidableEq, Repr

/-- `ishex(c)` -/
def ishex (c : Char) : Bool := ('0' ≤ c ∧ c ≤ '9') ∨ ('a' ≤ c ∧ c ≤ 'f') ∨ ('A' ≤ c ∧ c ≤ 'F')

/-- `unhex(c)` -/
def unhex (c : Char) : ℕ :=
  if '0' ≤ c ∧ c ≤ '9' then c.toNat - '0'.toNat
  else if 'a' ≤ c ∧ c ≤ 'f' then c.toNat - 'a'.toNat + 10
  else if 'A' ≤ c ∧ c ≤ 'F' then c.toNat - 'A'.toNat + 10
  else 0

/-- `unescape(s, mode)` for every mode but `encodeQueryComponent`, the only one that reads `+`: each `%` and two
hexadecimal digits is the byte they spell, and the first `%` without them is the error -/
def unescape : Text → Except Error Text
  | [] => .ok []
  | '%' :: a :: b :: s =>
    if ishex a ∧ ishex b then (unescape s).map (Char.ofNat (unhex a * 16 + unhex b) :: ·)
    else .error (.escape ['%', a, b])
  | '%' :: s => .error (.escape ('%' :: s))
  | c :: s => (unescape s).map (c :: ·)

/-- a character other than `%` is copied -/
theorem unescape_cons {c : Char} (hc : c ≠ '%') (s : Text) : unescape (c :: s) = (unescape s).map (c :: ·) :=
  unescape.eq_4 c s (fun _ _ _ h _ => hc h) hc

/-- a text without `%` is its own decoding -/
theorem unescape_of_not_mem : ∀ {s : Text}, '%' ∉ s → unescape s = .ok s
  | [], _ => rfl
  | c :: s, h => by
    rw [List.mem_cons, not_or] at h
    rw [unescape_cons (Ne.symm h.1), unescape_of_not_mem h.2]
    rfl

/-- a text that ends in a `%` never decodes: its last `%` has no two digits after it -/
theorem unescape_append_percent : ∀ s : Text, ∃ e, unescape (s ++ ['%']) = .error e
  | [] => ⟨_, rfl⟩
  | c :: s => by
    by_cases hc : c = '%'
    · subst hc
      -- the `%` at the head reads the two characters after it
      rcases s with _ | ⟨a, _ | ⟨b, s⟩⟩
      · exact ⟨_, rfl⟩
      · exact ⟨.escape ['%', a, '%'], by simp [unescape, ishex]⟩
      · obtain ⟨e, he⟩ := unescape_append_percent s
        by_cases hab : ishex a ∧ ishex b
        · exact ⟨e, by simp [unescape, hab, he, Except.map]⟩
        · exact ⟨.escape ['%', a, b], by simp only [List.cons_append, unescape, if_neg hab]⟩
    · obtain ⟨e, he⟩ := unescape_append_percent s
      exact ⟨e, by rw [List.cons_append, unescape_cons hc, he]; rfl⟩

/-- the loop of `getscheme(rawurl)` at index `i`, over the characters left -/
def getschemeLoop (rawurl : Text) : ℕ → Text → Except Error (Text × Text)
  | _, [] => .ok ([], rawurl)
  | i, c :: cs =>
    if ('a' ≤ c ∧ c ≤ 'z') ∨ ('A' ≤ c ∧ c ≤ 'Z') then getschemeLoop rawurl (i + 1) cs
    else if ('0' ≤ c ∧ c ≤ '9') ∨ c = '+' ∨ c = '-' ∨ c = '.' then
      if i = 0 then .ok ([], rawurl) else getschemeLoop rawurl (i + 1) cs
    else if c = ':' then
      if i = 0 then .error .missingScheme else .ok (rawurl.take i, rawurl.drop (i + 1))
    else .ok ([], rawurl)

/-- `getscheme(rawurl)`: the scheme and the rest -/
def getscheme (rawurl : Text) : Except Error (Text × Text) := getschemeLoop rawurl 0 rawurl

/-- `split(s, c, cutc)` for a one-character `c`: the text before the first `c` and the rest, which keeps the `c`
unless `cutc` -/
def split (s : Text) (c : Char) (cutc : Bool) : Text × Text :=
  match cutRune c s with
  | none => (s, [])
  | some (a, b) => if cutc then (a, b) else (a, c :: b)

/-- `validOptionalPort(port)` -/
def validOptionalPort : Text → Bool
  | [] => true
  | c :: port => c = ':' && port.all fun b => '0' ≤ b ∧ b ≤ '9'

/-- `parseHost(host)`: a host may hold `%` escapes only in the zone of an IPv6 literal, as `%25`, and is decoded -/
def parseHost (host : Text) : Except Error Text := do
  let litOrName ← (if host.head? = some '[' then
      match cutLastRune ']' host with
      | none => .error .missingBracket
      | some (lit, colonPort) =>
        if !validOptionalPort colonPort then .error (.invalidPort colonPort)
        -- `host[1:i]`, or `host[1:j]` for the first `%25` at `j`
        else .ok (((splitStr lit "%25".toList).headD lit).drop 1)
    else .ok host : Except Error Text)
  if '%' ∈ litOrName then .error .percentInHost else unescape host

/-- `parseAuthority(authority)`: the user information before the last `@`, and the host -/
def parseAuthority (authority : Text) : Except Error (Option Userinfo × Text) :=
  match cutLastRune '@' authority with
  | none => do
    let host ← parseHost authority
    pure (none, host)
  | some (userinfo, rest) => do
    let host ← parseHost rest
    match cutRune ':' userinfo with
    | none => do
      let username ← unescape userinfo
      pure (some ⟨username, none⟩, host)
    | some (username, password) => do
      let username ← unescape username
      let password ← unescape password
      pure (some ⟨username, some password⟩, host)

/-- `parse(rawurl, false)`, the URL without its fragment -/
def parse (rawurl : Text) : Except Error URL := do
  if rawurl = ['*'] then return ⟨[], [], none, [], ['*'], [], []⟩
  let (scheme, rest) ← getscheme rawurl
  let scheme := scheme.map Char.toLower
  let (rest, rawQuery) := split rest '?' true
  if rest.head? ≠ some '/' ∧ scheme ≠ [] then return ⟨scheme, rest, none, [], [], rawQuery, []⟩
  let (user, host, rest) ← (if (scheme ≠ [] ∨ ¬"///".toList.isPrefixOf rest) ∧ "//".toList.isPrefixOf rest then do
      let (authority, rest) := split (rest.drop 2) '/' false
      let (user, host) ← parseAuthority authority
      pure (user, host, rest)
    else pure (none, [], rest) : Except Error (Option Userinfo × Text × Text))
  let path ← unescape rest
  return ⟨scheme, [], user, host, path, rawQuery, []⟩

/-- `url.Parse(rawurl)` -/
def Parse (rawurl : Text) : Except Error URL := do
  let (u, frag) := split rawurl '#' true
  let url ← parse u
  if frag = [] then return url
  let fragment ← unescape frag
  return { url with fragment }

/-! ## A URL that ends in `%` -/

/-- what follows a character other than `%` in a text that ends in `%` ends in `%` too -/
theorem exists_eq_append_percent {x y rest : Text} {c : Char} (hc : c ≠ '%') (h : x ++ ['%'] = y ++ c :: rest) :
    ∃ r, rest = r ++ ['%'] := by
  rcases List.eq_nil_or_concat rest with rfl | ⟨r, d, rfl⟩
  · have hlast := congrArg List.getLast? h
    simp at hlast
    exact absurd hlast.symm hc
  · rw [List.concat_eq_append, ← List.cons_append, ← List.append_assoc] at h
    obtain ⟨-, hd⟩ := List.append_inj' h rfl
    exact ⟨r, by rw [hd, List.concat_eq_append]⟩

theorem validOptionalPort_append_percent (port : Text) : validOptionalPort (port ++ ['%']) = false := by
  cases port with
  | nil => rfl
  | cons c port => simp [validOptionalPort]

/-- a host that ends in `%` is refused: the `%` is after the brackets of an IPv6 literal, or in a name -/
theorem parseHost_append_percent (host : Text) : ∃ e, parseHost (host ++ ['%']) = .error e := by
  unfold parseHost
  by_cases hb : (host ++ ['%']).head? = some '['
  · rw [if_pos hb]
    cases hc : cutLastRune ']' (host ++ ['%']) with
    | none => exact ⟨_, rfl⟩
    | some p =>
      obtain ⟨lit, colonPort⟩ := p
      obtain ⟨-, heq⟩ := cutLastRune_eq_some hc
      -- the text after the last `]` ends in the `%`
      obtain ⟨port, rfl⟩ := exists_eq_append_percent (by decide) heq
      exact ⟨.invalidPort (port ++ ['%']), by simp [validOptionalPort_append_percent, bind, Except.bind]⟩
  · rw [if_neg hb]
    exact ⟨.percentInHost, by simp [bind, Except.bind]⟩

/-- an authority that ends in `%` is refused: its host does -/
theorem parseAuthority_append_percent (authority : Text) : ∃ e, parseAuthority (authority ++ ['%']) = .error e := by
  unfold parseAuthority
  cases hc : cutLastRune '@' (authority ++ ['%']) with
  | none =>
    obtain ⟨e, he⟩ := parseHost_append_percent authority
    exact ⟨e, by simp [he, bind, Except.bind]⟩
  | some p =>
    obtain ⟨userinfo, rest⟩ := p
    obtain ⟨-, heq⟩ := cutLastRune_eq_some hc
    obtain ⟨host, rfl⟩ := exists_eq_append_percent (by decide) heq
    obtain ⟨e, he⟩ := parseHost_append_percent host
    exact ⟨e, by simp [he, bind, Except.bind]⟩

/-- `split` at a character the text does not hold leaves it whole -/
theorem split_of_not_mem {s : Text} {c : Char} (h : c ∉ s) (cutc : Bool) : split s c cutc = (s, []) := by
  simp [split, cutRune_eq_none h]

theorem getscheme_tcp (y : Text) : getscheme ("tcp://".toList ++ y) = .ok ("tcp".toList, "//".toList ++ y) := rfl

theorem except_ok_bind {ε α β : Type} (a : α) (f : α → Except ε β) : (Except.ok a >>= f) = f a := rfl

/-- a `tcp` URL without fragment and query is its authority up to the first `/`, and the decoded path after it -/
theorem Parse_tcp {y : Text} (hfrag : '#' ∉ y) (hquery : '?' ∉ y) :
    Parse ("tcp://".toList ++ y) = (do
      let (user, host) ← parseAuthority (split y '/' false).1
      let path ← unescape (split y '/' false).2
      pure ⟨"tcp".toList, [], user, host, path, [], []⟩) := by
  have hnofrag : '#' ∉ "tcp://".toList ++ y := by simp [hfrag]
  have hnoquery : '?' ∉ "//".toList ++ y := by simp [hquery]
  have hstar : "tcp://".toList ++ y ≠ ['*'] := by simp
  simp only [Parse, split_of_not_mem hnofrag, parse, if_neg hstar, getscheme_tcp, except_ok_bind,
    split_of_not_mem hnoquery, if_true]
  have hhead : ("//".toList ++ y).head? = some '/' := rfl
  have hlower : List.map Char.toLower "tcp".toList = "tcp".toList := rfl
  have hslash : "//".toList.isPrefixOf ("//".toList ++ y) = true := rfl
  have hdrop : List.drop 2 ("//".toList ++ y) = y := rfl
  have htcp : "tcp".toList ≠ [] := by decide
  simp only [hhead, hlower, hslash, hdrop, ne_eq, not_true_eq_false, if_false, bind_pure, htcp,
    not_false_eq_true, true_or, and_true, if_true, bind_assoc, pure_bind]

/-- no URL `tcp://x%` parses, for `x` without `#` and `?`: the `%` ends the path or the authority -/
theorem Parse_tcp_append_percent {x : Text} (hfrag : '#' ∉ x) (hquery : '?' ∉ x) :
    ∃ e, Parse ("tcp://".toList ++ (x ++ ['%'])) = .error e := by
  rw [Parse_tcp (by simp [hfrag]) (by simp [hquery])]
  unfold split
  cases hc : cutRune '/' (x ++ ['%']) with
  | none =>
    -- the whole text is the authority
    obtain ⟨e, he⟩ := parseAuthority_append_percent x
    exact ⟨e, by simp [he, bind, Except.bind]⟩
  | some p =>
    obtain ⟨authority, rest⟩ := p
    obtain ⟨-, heq⟩ := cutRune_eq_some hc
    obtain ⟨path, rfl⟩ := exists_eq_append_percent (by decide) heq
    -- the authority parses or not; the path after it does not
    cases ha : parseAuthority authority with
    | error e => exact ⟨e, by simp [ha, bind, Except.bind]⟩
    | ok uh =>
      obtain ⟨e, he⟩ := unescape_append_percent ('/' :: path)
      rw [List.cons_append] at he
      exact ⟨e, by simp only [Bool.false_eq_true, if_false, ha, except_ok_bind, he]; rfl⟩

end DockerEngine.Go.Url

namespace DockerEngine.Go.Net

/-- the texts of the `*net.AddrError` that `SplitHostPort` returns -/
inductive AddrError
  /-- `"missing ']' in address"` -/
  | missingBracket
  /-- `"missing port in address"` -/
  | missingPort
  /-- `"too many colons in address"` -/
  | tooManyColons
  /-- `"missing brackets in address"` -/
  | missingBrackets
  /-- `"unexpected '[' in address"` -/
  | unexpectedOpenBracket
  /-- `"unexpected ']' in address"` -/
  | unexpectedCloseBracket
  deriving DecidableEq, Repr

/-- `net.SplitHostPort(hostport)`: the host, in brackets or not, and the port after the last colon -/
def splitHostPort (hostport : Text) : Except AddrError (Text × Text) :=
  match cutLastRune ':' hostport with
  | none => .error .missingPort
  | some (beforeColon, port) =>
    -- the host and the positions `j`, `k` from which no `[` and no `]` may follow
    let bracketed : Except AddrError (Text × ℕ × ℕ) :=
      if hostport.head? = some '[' then
        match hostport.idxOf? ']' with
        | none => .error .missingBracket
        | some e =>
          if e + 1 = hostport.length then .error .missingPort
          else if e + 1 = beforeColon.length then .ok ((hostport.take e).drop 1, 1, e + 1)
          else if hostport.getD (e + 1) ' ' = ':' then .error .tooManyColons
          else .error .missingPort
      else if ':' ∈ beforeColon then .error .tooManyColons
      else if '%' ∈ beforeColon then .error .missingBrackets
      else .ok (beforeColon, 0, 0)
    match bracketed with
    | .error e => .error e
    | .ok (host, j, k) =>
      if '[' ∈ hostport.drop j then .error .unexpectedOpenBracket
      else if ']' ∈ hostport.drop k then .error .unexpectedCloseBracket
      else .ok (host, port)

/-- `net.JoinHostPort(host, port)`: a host with a colon or a percent sign goes in brackets -/
def joinHostPort (host port : Text) : Text :=
  if ':' ∈ host ∨ '%' ∈ host then '[' :: host ++ "]:".toList ++ port else host ++ ':' :: port

end DockerEngine.Go.Net
