/-
Lean model of the parsing of image references in `reference/reference.go`, with the parts of the vendored
`distribution/reference` and `distribution/digest` packages it calls.

`ParseNamed` reads `name[:tag][@digest]` by the grammar of `distribution/reference`, then normalizes the name with
`normalize`: the default hostname `docker.io`, or the legacy `index.docker.io`, is dropped, and with it one
`library/` prefix. `splitHostname` adds them back for `FullName`.

Each regular expression of the grammar is a recognizer over the text here. A name is split at its `/`, a hostname
at its `:` and its `.`, and the captures of `ReferenceRegexp` are found at the first `@` and at a `:` after the last
`/`. That is exact: no part of a name holds `@`, a `:` in a name is in the port of its hostname and a `/` follows it,
and a tag holds neither `:`, `/` nor `@`, so every match of the whole expression has these captures.

Every reference `ParseNamed` returns is one the reference store takes (`parseNamed_valid`). Its string parses back
to it exactly when its name is a fixed point of `normalize` (`parseNamed_string_iff`), and `normalize` is not
idempotent: `library/library/foo` becomes `library/foo`, which becomes `foo`, and `docker.io/foo.com/bar` becomes
`foo.com/bar`, whose hostname is `foo.com` (`parseNamed_not_stable`).

`strings.ToLower` is taken on ASCII letters: the names `ParseNamed` normalizes are ASCII by the grammar.
-/
import DockerEngine.Lib.Prelude
import DockerEngine.Reference.Store

namespace DockerEngine.Reference

open DockerEngine.Go

/-! ## The grammar of `distribution/reference` -/

namespace Distribution

/-- `[a-z0-9]`, the characters of `alphaNumericRegexp` -/
def isAlphaNumeric (c : Char) : Bool := c.isLower || c.isDigit

/-- a character of a name component: an alphanumeric or a separator -/
def isComponentChar (c : Char) : Bool := isAlphaNumeric c || c == '.' || c == '_' || c == '-'

/-- where a match of `nameComponentRegexp`, `[a-z0-9]+(?:(?:[._]|__|[-]*)[a-z0-9]+)*`, stands: where an alphanumeric
must come, after an alphanumeric, after a single `_`, or after a run of `-` -/
inductive ComponentState
  | start
  | alnum
  | underscore
  | dash
  deriving DecidableEq

/-- the state after one more character, or `none` where the match fails -/
def ComponentState.next : ComponentState → Char → Option ComponentState
  | .start, c => if isAlphaNumeric c then some .alnum else none
  | .alnum, c =>
    if isAlphaNumeric c then some .alnum
    else if c = '.' then some .start
    else if c = '_' then some .underscore
    else if c = '-' then some .dash
    else none
  | .underscore, c => if isAlphaNumeric c then some .alnum else if c = '_' then some .start else none
  | .dash, c => if isAlphaNumeric c then some .alnum else if c = '-' then some .dash else none

/-- whether the rest of the text completes a match from the given state -/
def componentRun : ComponentState → Text → Bool
  | q, [] => q = .alnum
  | q, c :: s =>
    match q.next c with
    | some q' => componentRun q' s
    | none => false

/-- `nameComponentRegexp`, anchored -/
def nameComponentMatch (s : Text) : Bool := componentRun .start s

/-- `hostnameComponentRegexp`, `(?:[a-zA-Z0-9]|[a-zA-Z0-9][a-zA-Z0-9-]*[a-zA-Z0-9])`, anchored -/
def hostnameComponentMatch (s : Text) : Bool :=
  !s.isEmpty && s.all (fun c => c.isAlphanum || c == '-') && s.head? != some '-' && s.getLast? != some '-'

/-- `hostnameRegexp`, components joined by `.` and an optional port `:[0-9]+`, anchored -/
def hostnameMatch (s : Text) : Bool :=
  match cutRune ':' s with
  | none => (split s '.').all hostnameComponentMatch
  | some (host, port) => (split host '.').all hostnameComponentMatch && !port.isEmpty && port.all Char.isDigit

/-- `anchoredNameRegexp`: an optional hostname and `/`, then name components joined by `/` -/
def nameMatch (s : Text) : Bool :=
  match split s '/' with
  | [] => false
  | first :: rest =>
    (first :: rest).all nameComponentMatch || (!rest.isEmpty && hostnameMatch first && rest.all nameComponentMatch)

/-- `[\w]` -/
def isWordChar (c : Char) : Bool := c.isAlphanum || c == '_'

/-- `[\w.-]` -/
def isTagChar (c : Char) : Bool := isWordChar c || c == '.' || c == '-'

/-- `anchoredTagRegexp`, `[\w][\w.-]{0,127}` -/
def tagMatch : Text → Bool
  | [] => false
  | c :: s => isWordChar c && s.all isTagChar && decide (s.length ≤ 127)

/-- `[[:xdigit:]]` -/
def isHexDigit (c : Char) : Bool :=
  c.isDigit || (decide ('a' ≤ c) && decide (c ≤ 'f')) || (decide ('A' ≤ c) && decide (c ≤ 'F'))

/-- whether the rest of the text completes a match of the algorithm of `DigestRegexp`,
`[A-Za-z][A-Za-z0-9]*(?:[-_+.][A-Za-z][A-Za-z0-9]*)*`, from inside a word or from where a letter must come -/
def algorithmRun : Bool → Text → Bool
  | inWord, [] => inWord
  | inWord, c :: s =>
    if c.isAlpha then algorithmRun true s
    else if c.isDigit then inWord && algorithmRun true s
    else if ['-', '_', '+', '.'].contains c then inWord && algorithmRun false s
    else false

/-- `anchoredDigestRegexp`: an algorithm, `:` and at least 32 hexadecimal digits -/
def digestMatch (s : Text) : Bool :=
  match cutRune ':' s with
  | none => false
  | some (algorithm, hex) => algorithmRun false algorithm && decide (32 ≤ hex.length) && hex.all isHexDigit

/-- the name and the tag of `name[:tag]`: a tag follows a `:` after the last `/` -/
def splitTag (s : Text) : Text × Option Text :=
  match cutLastRune ':' s with
  | some (name, tag) => if '/' ∈ tag then (s, none) else (name, some tag)
  | none => (s, none)

/-- the captures of `ReferenceRegexp.FindStringSubmatch(s)`: the name, the tag and the digest, the last two empty where
absent; `none` where the expression does not match -/
def referenceMatch (s : Text) : Option (Text × Text × Text) :=
  let (nameTag, dgst) : Text × Option Text :=
    match cutRune '@' s with
    | some (nameTag, dgst) => (nameTag, some dgst)
    | none => (s, none)
  let (name, tag) := splitTag nameTag
  if nameMatch name && tag.all tagMatch && dgst.all digestMatch then some (name, tag.getD [], dgst.getD [])
  else none

/-! ### The `digest` package -/

namespace Digest

/-- `ErrDigestInvalidFormat` -/
def errDigestInvalidFormat : Text := "invalid checksum digest format".toList

/-- `ErrDigestInvalidLength` -/
def errDigestInvalidLength : Text := "invalid checksum digest length".toList

/-- `ErrDigestUnsupported` -/
def errDigestUnsupported : Text := "unsupported digest algorithm".toList

/-- `DigestRegexpAnchored`, `^[a-zA-Z0-9-_+.]+:[a-fA-F0-9]+$` -/
def digestRegexpAnchoredMatch (s : Text) : Bool :=
  match cutRune ':' s with
  | none => false
  | some (algorithm, hex) =>
    !algorithm.isEmpty && algorithm.all (fun c => c.isAlphanum || ['-', '_', '+', '.'].contains c) &&
      !hex.isEmpty && hex.all isHexDigit

/-- `Algorithm.Size()` of the algorithms `SHA256`, `SHA384` and `SHA512`, in bytes; `none` for any other -/
def algorithmSize (algorithm : Text) : Option ℕ :=
  if algorithm = "sha256".toList then some 32
  else if algorithm = "sha384".toList then some 48
  else if algorithm = "sha512".toList then some 64
  else none

/-- `Digest.Validate()` -/
def validate (s : Text) : Except Text Unit :=
  if !digestRegexpAnchoredMatch s then .error errDigestInvalidFormat
  else
    match cutRune ':' s with
    | none => .error errDigestInvalidFormat
    | some (algorithm, hex) =>
      -- `sha256:` with no hexadecimal digits
      if hex = [] then .error errDigestInvalidFormat
      else
        match algorithmSize algorithm with
        | some size => if size * 2 ≠ hex.length then .error errDigestInvalidLength else .ok ()
        | none => .error errDigestUnsupported

/-- `ParseDigest(s)` -/
def parseDigest (s : Text) : Except Text Text := (validate s).map fun _ => s

end Digest

/-! ### Parsing -/

/-- the implementations of `Named` in `distribution/reference` -/
inductive Named
  | reference (name tag digest : Text)
  | repository (name : Text)
  | taggedReference (name tag : Text)
  | canonicalReference (name digest : Text)
  deriving DecidableEq, Repr

namespace Named

/-- `Name()` -/
def name : Named → Text
  | reference name .. | repository name | taggedReference name _ | canonicalReference name _ => name

/-- `Tag()` of a `NamedTagged` -/
def tag? : Named → Option Text
  | reference _ tag _ | taggedReference _ tag => some tag
  | _ => none

/-- `Digest()` of a `Canonical` -/
def digest? : Named → Option Text
  | reference _ _ digest | canonicalReference _ digest => some digest
  | _ => none

end Named

/-- a `Reference`, as `Parse` returns it: a `Named`, or a `digestReference`, which has no name -/
inductive Parsed
  | named (r : Named)
  | digestReference (digest : Text)
  deriving DecidableEq, Repr

/-- `NameTotalLengthMax` -/
def nameTotalLengthMax : ℕ := 255

/-- `ErrReferenceInvalidFormat` -/
def errReferenceInvalidFormat : Text := "invalid reference format".toList

/-- `ErrTagInvalidFormat` -/
def errTagInvalidFormat : Text := "invalid tag format".toList

/-- `ErrDigestInvalidFormat` -/
def errDigestInvalidFormat : Text := "invalid digest format".toList

/-- `ErrNameEmpty` -/
def errNameEmpty : Text := "repository name must have at least one component".toList

/-- `ErrNameTooLong` -/
def errNameTooLong : Text := "repository name must not be more than 255 characters".toList

/-- `getBestReferenceType(reference{name, tag, digest})` -/
def getBestReferenceType (name tag digest : Text) : Option Parsed :=
  if name = [] then
    -- a reference with a digest only
    if digest ≠ [] then some (.digestReference digest) else none
  else if tag = [] then
    if digest ≠ [] then some (.named (.canonicalReference name digest)) else some (.named (.repository name))
  else if digest = [] then some (.named (.taggedReference name tag))
  else some (.named (.reference name tag digest))

/-- `Parse(s)` -/
def parse (s : Text) : Except Text Parsed :=
  match referenceMatch s with
  | none => .error (if s = [] then errNameEmpty else errReferenceInvalidFormat)
  | some (name, tag, dgst) =>
    if nameTotalLengthMax < name.length then .error errNameTooLong
    else do
      let digest ← (if dgst ≠ [] then Digest.parseDigest dgst else pure [])
      match getBestReferenceType name tag digest with
      | some r => pure r
      | none => .error errNameEmpty

/-- `ParseNamed(s)` -/
def parseNamed (s : Text) : Except Text Named := do
  match ← parse s with
  | .named named => pure named
  | .digestReference digest => .error ("reference ".toList ++ digest ++ " has no name".toList)

/-- `WithName(name)`, by the name of the `repository` it returns -/
def withName (name : Text) : Except Text Text :=
  if nameTotalLengthMax < name.length then .error errNameTooLong
  else if !nameMatch name then .error errReferenceInvalidFormat
  else .ok name

end Distribution

/-! ## `reference/reference.go` -/

/-- `DefaultHostname` -/
def defaultHostname : Text := "docker.io".toList

/-- `LegacyDefaultHostname` -/
def legacyDefaultHostname : Text := "index.docker.io".toList

/-- `DefaultRepoPrefix` -/
def defaultRepoPrefix : Text := "library/".toList

/-- `splitHostname(name)`: the hostname and the remote name -/
def splitHostname (name : Text) : Text × Text :=
  let (hostname, remoteName) :=
    match cutRune '/' name with
    | some (first, rest) =>
      if !first.any (fun c => c == '.' || c == ':') && first ≠ "localhost".toList then (defaultHostname, name)
      else (first, rest)
    | none => (defaultHostname, name)
  let hostname := if hostname = legacyDefaultHostname then defaultHostname else hostname
  let remoteName :=
    if hostname = defaultHostname ∧ '/' ∉ remoteName then defaultRepoPrefix ++ remoteName else remoteName
  (hostname, remoteName)

/-- the error of `normalize` for a remote name with an upper-case letter -/
def errRepositoryNameLowercase : Text := "invalid reference format: repository name must be lowercase".toList

/-- `normalize(name)` -/
def normalize (name : Text) : Except Text Text :=
  let (host, remoteName) := splitHostname name
  if remoteName.map Char.toLower ≠ remoteName then .error errRepositoryNameLowercase
  else if host = defaultHostname then
    if defaultRepoPrefix.isPrefixOf remoteName then .ok (remoteName.drop defaultRepoPrefix.length)
    else .ok remoteName
  else .ok name

/-- whether `v1.ValidateID(id)` accepts `id`, by `^([a-f0-9]{64})$` -/
def validateID (id : Text) : Bool :=
  id.length == 64 && id.all fun c => c.isDigit || (decide ('a' ≤ c) && decide (c ≤ 'f'))

/-- `validateName(name)` -/
def validateName (name : Text) : Except Text Unit :=
  if validateID name then
    .error ("Invalid repository name (".toList ++ name ++ "), cannot specify 64-byte hexadecimal strings".toList)
  else .ok ()

/-- `WithName(name)` -/
def withName (name : Text) : Except Text Named := do
  let name ← normalize name
  validateName name
  let r ← Distribution.withName name
  pure (.namedRef r)

/-- `WithTag(name, tag)`, through `distreference.WithTag` -/
def withTag (name : Named) (tag : Text) : Except Text Named :=
  if !Distribution.tagMatch tag then .error Distribution.errTagInvalidFormat else .ok (.taggedRef name.name tag)

/-- `WithDigest(name, digest)`, through `distreference.WithDigest` -/
def withDigest (name : Named) (digest : Text) : Except Text Named :=
  if !Distribution.digestMatch digest then .error Distribution.errDigestInvalidFormat
  else .ok (.canonicalRef name.name digest)

/-- the error of `ParseNamed` for a string the grammar does not accept -/
def errParsingReference (s : Text) : Text :=
  "Error parsing reference: ".toList ++ quote s ++ " is not a valid repository/tag".toList

/-- `ParseNamed(s)`: a digest is kept over a tag -/
def parseNamed (s : Text) : Except Text Named :=
  match Distribution.parseNamed s with
  | .error _ => .error (errParsingReference s)
  | .ok named => do
    let r ← withName named.name
    match named.digest?, named.tag? with
    | some digest, _ => withDigest r digest
    | none, some tag => withTag r tag
    | none, none => pure r

namespace Named

/-- `FullName()` -/
def fullName (r : Named) : Text :=
  let (hostname, remoteName) := splitHostname r.name
  hostname ++ '/' :: remoteName

/-- `Hostname()` -/
def hostname (r : Named) : Text := (splitHostname r.name).1

/-- `RemoteName()` -/
def remoteName (r : Named) : Text := (splitHostname r.name).2

end Named

/-! ## What the grammar lets each part of a reference hold -/

namespace Distribution

/-- a character of a hostname: an ASCII letter or digit, `-`, `.` or `:` -/
def isHostnameChar (c : Char) : Bool := c.isAlphanum || c == '-' || c == '.' || c == ':'

theorem ComponentState.isComponentChar_of_next {q q' : ComponentState} {c : Char} (h : q.next c = some q') :
    isComponentChar c = true := by
  unfold isComponentChar
  cases q <;> simp only [ComponentState.next] at h <;> split_ifs at h <;> simp_all

theorem componentRun_chars {q : ComponentState} {s : Text} (h : componentRun q s = true) :
    ∀ c ∈ s, isComponentChar c = true := by
  induction s generalizing q with
  | nil => simp
  | cons c s ih =>
    cases hq : q.next c with
    | none => simp [componentRun, hq] at h
    | some q' =>
      simp only [componentRun, hq] at h
      intro x hx
      rcases List.mem_cons.mp hx with rfl | hx
      · exact ComponentState.isComponentChar_of_next hq
      · exact ih h x hx

theorem hostnameComponents_chars {s : Text} (h : (split s '.').all hostnameComponentMatch = true) :
    ∀ c ∈ s, isHostnameChar c = true := by
  have hs : join (split s '.') '.' = s := List.intercalate_splitOn '.'
  intro c hc
  rw [← hs] at hc
  refine @forall_mem_join (fun c => isHostnameChar c = true) '.' rfl _ (fun e he x hx => ?_) c hc
  have hall := (List.all_eq_true.mp h e he)
  simp only [hostnameComponentMatch, Bool.and_eq_true, List.all_eq_true] at hall
  have hx' := hall.1.1.2 x hx
  simp only [Bool.or_eq_true, beq_iff_eq] at hx'
  rcases hx' with hx' | rfl
  · simp [isHostnameChar, hx']
  · rfl

theorem hostnameMatch_chars {s : Text} (h : hostnameMatch s = true) : ∀ c ∈ s, isHostnameChar c = true := by
  unfold hostnameMatch at h
  cases hcut : cutRune ':' s with
  | none =>
    simp only [hcut] at h
    exact hostnameComponents_chars h
  | some parts =>
    obtain ⟨host, port⟩ := parts
    simp only [hcut, Bool.and_eq_true] at h
    obtain ⟨⟨hhost, -⟩, hport⟩ := h
    obtain ⟨-, rfl⟩ := cutRune_eq_some hcut
    intro c hc
    rcases List.mem_append.mp hc with hc | hc
    · exact hostnameComponents_chars hhost c hc
    · rcases List.mem_cons.mp hc with rfl | hc
      · rfl
      · have hdigit := List.all_eq_true.mp hport c hc
        simp [isHostnameChar, Char.isAlphanum, hdigit]

/-- a name is name components joined by `/`, or a hostname, a `/` and such components -/
theorem nameMatch_cases {s : Text} (h : nameMatch s = true) :
    (∀ c ∈ s, c = '/' ∨ isComponentChar c = true) ∨
      ∃ host rest, hostnameMatch host = true ∧ s = host ++ '/' :: rest ∧
        ∀ c ∈ rest, c = '/' ∨ isComponentChar c = true := by
  have hs : join (split s '/') '/' = s := List.intercalate_splitOn '/'
  have hcomponents : ∀ {es : List Text}, es.all nameComponentMatch = true →
      ∀ c ∈ join es '/', c = '/' ∨ isComponentChar c = true := fun hall =>
    forall_mem_join (Or.inl rfl) fun e he c hc => Or.inr (componentRun_chars (List.all_eq_true.mp hall e he) c hc)
  unfold nameMatch at h
  cases hsplit : split s '/' with
  | nil => simp [hsplit] at h
  | cons first rest =>
    rw [hsplit] at hs
    simp only [hsplit, Bool.or_eq_true, Bool.and_eq_true] at h
    rcases h with hall | ⟨⟨hne, hhost⟩, hrest⟩
    · left
      rw [← hs]
      exact hcomponents hall
    · right
      have hne : rest ≠ [] := by simpa using hne
      refine ⟨first, join rest '/', hhost, ?_, hcomponents hrest⟩
      rw [← hs, join, List.intercalate_cons_of_ne_nil hne]
      simp [join]

theorem nameMatch_ne_nil {s : Text} (h : nameMatch s = true) : s ≠ [] := by
  rintro rfl
  exact absurd h (by decide)

theorem notMem_at_of_nameMatch {s : Text} (h : nameMatch s = true) : '@' ∉ s := by
  intro hat
  rcases nameMatch_cases h with hall | ⟨host, rest, hhost, rfl, hrest⟩
  · exact absurd (hall '@' hat) (by decide)
  · rcases List.mem_append.mp hat with hat | hat
    · exact absurd (hostnameMatch_chars hhost '@' hat) (by decide)
    · rcases List.mem_cons.mp hat with hat | hat
      · exact absurd hat (by decide)
      · exact absurd (hrest '@' hat) (by decide)

/-- a `:` in a name is in the port of its hostname, so a `/` follows it -/
theorem slash_of_colon {s a b : Text} (h : nameMatch s = true) (hs : s = a ++ ':' :: b) : '/' ∈ b := by
  rcases nameMatch_cases h with hall | ⟨host, rest, -, rfl, hrest⟩
  · exact absurd (hall ':' (by simp [hs])) (by decide)
  · rcases List.append_eq_append_iff.mp hs with ⟨a', -, hrest'⟩ | ⟨c', -, hb⟩
    · -- the `:` after the `/` that ends the hostname
      have hcolon : ':' ∈ '/' :: rest := hrest' ▸ List.mem_append_right a' (List.mem_cons_self ..)
      rcases List.mem_cons.mp hcolon with hc | hc
      · exact absurd hc (by decide)
      · exact absurd (hrest ':' hc) (by decide)
    · cases c' with
      | nil => exact absurd (List.cons.inj hb).1 (by decide)
      | cons x c' =>
        obtain ⟨-, rfl⟩ := List.cons.inj hb
        simp

theorem tagMatch_chars {t : Text} (h : tagMatch t = true) : ∀ c ∈ t, isTagChar c = true := by
  cases t with
  | nil => cases h
  | cons c s =>
    simp only [tagMatch, Bool.and_eq_true] at h
    obtain ⟨⟨hc, hs⟩, -⟩ := h
    intro x hx
    rcases List.mem_cons.mp hx with rfl | hx
    · simp [isTagChar, hc]
    · exact List.all_eq_true.mp hs x hx

theorem notMem_of_tagMatch {t : Text} (h : tagMatch t = true) : ':' ∉ t ∧ '/' ∉ t ∧ '@' ∉ t :=
  ⟨fun hc => absurd (tagMatch_chars h _ hc) (by decide), fun hc => absurd (tagMatch_chars h _ hc) (by decide),
    fun hc => absurd (tagMatch_chars h _ hc) (by decide)⟩

theorem algorithmRun_cons {inWord : Bool} {c : Char} {s : Text} (h : algorithmRun inWord (c :: s) = true) :
    (c.isAlphanum || ['-', '_', '+', '.'].contains c) = true ∧ ∃ b, algorithmRun b s = true := by
  simp only [algorithmRun] at h
  split_ifs at h with halpha hdigit hsep
  · exact ⟨by simp [Char.isAlphanum, halpha], true, h⟩
  · exact ⟨by simp [Char.isAlphanum, hdigit], true, (Bool.and_eq_true_iff.mp h).2⟩
  · exact ⟨by rw [hsep, Bool.or_true], false, (Bool.and_eq_true_iff.mp h).2⟩

theorem algorithmRun_chars {inWord : Bool} {s : Text} (h : algorithmRun inWord s = true) :
    ∀ c ∈ s, (c.isAlphanum || ['-', '_', '+', '.'].contains c) = true := by
  induction s generalizing inWord with
  | nil => simp
  | cons c s ih =>
    obtain ⟨hc, b, hs⟩ := algorithmRun_cons h
    intro x hx
    rcases List.mem_cons.mp hx with rfl | hx
    · exact hc
    · exact ih hs x hx

theorem notMem_at_of_digestMatch {d : Text} (h : digestMatch d = true) : '@' ∉ d := by
  unfold digestMatch at h
  cases hcut : cutRune ':' d with
  | none => simp [hcut] at h
  | some parts =>
    obtain ⟨algorithm, hex⟩ := parts
    simp only [hcut, Bool.and_eq_true] at h
    obtain ⟨⟨halgorithm, -⟩, hhex⟩ := h
    obtain ⟨-, rfl⟩ := cutRune_eq_some hcut
    intro hat
    rcases List.mem_append.mp hat with hat | hat
    · exact absurd (algorithmRun_chars halgorithm '@' hat) (by decide)
    · rcases List.mem_cons.mp hat with hat | hat
      · exact absurd hat (by decide)
      · exact absurd (List.all_eq_true.mp hhex '@' hat) (by decide)

/-! ## The captures of a reference's own string -/

theorem splitTag_of_nameMatch {name : Text} (h : nameMatch name = true) : splitTag name = (name, none) := by
  unfold splitTag
  cases hcut : cutLastRune ':' name with
  | none => rfl
  | some parts =>
    obtain ⟨a, b⟩ := parts
    have hslash := slash_of_colon h (cutLastRune_eq_some hcut).2
    simp [hslash]

theorem referenceMatch_name {name : Text} (h : nameMatch name = true) :
    referenceMatch name = some (name, [], []) := by
  simp [referenceMatch, cutRune_eq_none (notMem_at_of_nameMatch h), splitTag_of_nameMatch h, h]

theorem referenceMatch_tagged {name tag : Text} (hname : nameMatch name = true) (htag : tagMatch tag = true) :
    referenceMatch (name ++ ':' :: tag) = some (name, tag, []) := by
  obtain ⟨hcolon, hslash, hat⟩ := notMem_of_tagMatch htag
  have hnoat : '@' ∉ name ++ ':' :: tag := by simp [notMem_at_of_nameMatch hname, hat]
  have hsplit : splitTag (name ++ ':' :: tag) = (name, some tag) := by
    simp [splitTag, cutLastRune_append hcolon, hslash]
  simp [referenceMatch, cutRune_eq_none hnoat, hsplit, hname, htag]

theorem referenceMatch_canonical {name digest : Text} (hname : nameMatch name = true)
    (hdigest : digestMatch digest = true) : referenceMatch (name ++ '@' :: digest) = some (name, [], digest) := by
  simp [referenceMatch, cutRune_append (notMem_at_of_nameMatch hname), splitTag_of_nameMatch hname, hname, hdigest]

/-! ## `Parse` on the string of a reference -/

theorem parseDigest_eq_ok {s d : Text} : Digest.parseDigest s = .ok d ↔ Digest.validate s = .ok () ∧ d = s := by
  unfold Digest.parseDigest
  cases Digest.validate s <;> simp [Except.map, eq_comm]

/-- the digest of a `Named` that `getBestReferenceType` picks is the digest it was given, and not empty -/
theorem getBestReferenceType_digest {name tag digest d : Text} {named : Named}
    (h : getBestReferenceType name tag digest = some (.named named)) (hd : named.digest? = some d) :
    d = digest ∧ digest ≠ [] := by
  unfold getBestReferenceType at h
  split_ifs at h <;> cases h <;> simp_all [Named.digest?]

/-- a digest of a reference that `ParseNamed` returns passed `Validate` -/
theorem validate_of_parseNamed {s : Text} {named : Named} (h : parseNamed s = .ok named) {d : Text}
    (hd : named.digest? = some d) : Digest.validate d = .ok () := by
  obtain ⟨r, hparse, hnamed⟩ := except_bind_eq_ok h
  cases r with
  | digestReference _ => cases hnamed
  | named named' =>
    cases hnamed
    unfold parse at hparse
    cases hm : referenceMatch s with
    | none => simp [hm] at hparse
    | some caps =>
      obtain ⟨name, tag, dgst⟩ := caps
      simp only [hm] at hparse
      by_cases hlen : nameTotalLengthMax < name.length
      · rw [if_pos hlen] at hparse
        cases hparse
      rw [if_neg hlen] at hparse
      obtain ⟨digest, hdigest, hbest⟩ := except_bind_eq_ok hparse
      cases hg : getBestReferenceType name tag digest with
      | none => simp [hg] at hbest
      | some r =>
        simp only [hg] at hbest
        cases hbest
        obtain ⟨rfl, hne⟩ := getBestReferenceType_digest hg hd
        split_ifs at hdigest with hdgst
        · obtain ⟨hvalid, rfl⟩ := parseDigest_eq_ok.mp hdigest
          exact hvalid
        · cases hdigest
          exact absurd rfl hne

theorem parseNamed_repository {name : Text} (hname : nameMatch name = true)
    (hlen : name.length ≤ nameTotalLengthMax) : parseNamed name = .ok (.repository name) := by
  have hparse : parse name = .ok (.named (.repository name)) := by
    simp [parse, referenceMatch_name hname, Nat.not_lt.mpr hlen, getBestReferenceType, nameMatch_ne_nil hname]
    rfl
  simp only [parseNamed, hparse]
  rfl

theorem parseNamed_tagged {name tag : Text} (hname : nameMatch name = true)
    (hlen : name.length ≤ nameTotalLengthMax) (htag : tagMatch tag = true) :
    parseNamed (name ++ ':' :: tag) = .ok (.taggedReference name tag) := by
  have htag_ne : tag ≠ [] := by
    rintro rfl
    cases htag
  have hparse : parse (name ++ ':' :: tag) = .ok (.named (.taggedReference name tag)) := by
    simp [parse, referenceMatch_tagged hname htag, Nat.not_lt.mpr hlen, getBestReferenceType,
      nameMatch_ne_nil hname, htag_ne]
    rfl
  simp only [parseNamed, hparse]
  rfl

theorem parseNamed_canonical {name digest : Text} (hname : nameMatch name = true)
    (hlen : name.length ≤ nameTotalLengthMax) (hdigest : digestMatch digest = true)
    (hvalid : Digest.validate digest = .ok ()) :
    parseNamed (name ++ '@' :: digest) = .ok (.canonicalReference name digest) := by
  have hdigest_ne : digest ≠ [] := by
    rintro rfl
    cases hdigest
  have hparse : parse (name ++ '@' :: digest) = .ok (.named (.canonicalReference name digest)) := by
    simp [parse, referenceMatch_canonical hname hdigest, Nat.not_lt.mpr hlen, getBestReferenceType,
      nameMatch_ne_nil hname, hdigest_ne, Digest.parseDigest, hvalid, Except.map, bind, Except.bind]
    rfl
  simp only [parseNamed, hparse]
  rfl

theorem withName_eq_ok {name r : Text} :
    withName name = .ok r ↔ name.length ≤ nameTotalLengthMax ∧ nameMatch name = true ∧ r = name := by
  unfold withName
  split_ifs with hlen hmatch
  · exact iff_of_false (by simp) fun h => absurd h.1 (Nat.not_le.mpr hlen)
  · exact iff_of_false (by simp) fun h => by simp [h.2.1] at hmatch
  · rw [Except.ok.injEq]
    constructor
    · rintro rfl
      exact ⟨Nat.not_lt.mp hlen, by simpa using hmatch, rfl⟩
    · rintro ⟨-, -, rfl⟩
      rfl

end Distribution

/-! ## `ParseNamed` -/

namespace Named

/-- the reference with the tag or the digest of `r` on the name `name` -/
def rename (r : Named) (name : Text) : Named :=
  match r with
  | namedRef _ => namedRef name
  | taggedRef _ tag => taggedRef name tag
  | canonicalRef _ dgst => canonicalRef name dgst

@[simp] theorem name_rename (r : Named) (name : Text) : (r.rename name).name = name := by
  cases r <;> rfl

@[simp] theorem rename_name (r : Named) : r.rename r.name = r := by
  cases r <;> rfl

/-- the tag of the reference is one `WithTag` takes, and its digest one `WithDigest` takes and `Validate` accepts -/
def PartsOK : Named → Prop
  | namedRef _ => True
  | taggedRef _ tag => Distribution.tagMatch tag = true
  | canonicalRef _ dgst => Distribution.digestMatch dgst = true ∧ Distribution.Digest.validate dgst = .ok ()

end Named

theorem withName_eq_ok {name : Text} {r : Named} :
    withName name = .ok r ↔
      ∃ m, normalize name = .ok m ∧ validateName m = .ok () ∧ Distribution.withName m = .ok m ∧ r = .namedRef m := by
  unfold withName
  cases hm : normalize name with
  | error e => simp [bind, Except.bind]
  | ok m =>
    cases hv : validateName m with
    | error e => simp [hv, bind, Except.bind]
    | ok u =>
      cases hw : Distribution.withName m with
      | error e => simp [hv, hw, bind, Except.bind]
      | ok m' =>
        obtain ⟨-, -, rfl⟩ := Distribution.withName_eq_ok.mp hw
        simp [hv, hw, bind, Except.bind, pure, Except.pure, eq_comm]

theorem withTag_eq_ok {name r : Named} {tag : Text} :
    withTag name tag = .ok r ↔ Distribution.tagMatch tag = true ∧ r = .taggedRef name.name tag := by
  unfold withTag
  split_ifs with htag
  · exact iff_of_false (by simp) fun h => by simp [h.1] at htag
  · have htag : Distribution.tagMatch tag = true := by simpa using htag
    simp [htag, eq_comm]

theorem withDigest_eq_ok {name r : Named} {digest : Text} :
    withDigest name digest = .ok r ↔ Distribution.digestMatch digest = true ∧ r = .canonicalRef name.name digest := by
  unfold withDigest
  split_ifs with hdigest
  · exact iff_of_false (by simp) fun h => by simp [h.1] at hdigest
  · have hdigest : Distribution.digestMatch digest = true := by simpa using hdigest
    simp [hdigest, eq_comm]

/-- what `ParseNamed` returns: the name `WithName` gives, and a tag or a digest that passed the checks of the
grammar again -/
theorem parseNamed_parts {s : Text} {r : Named} (h : parseNamed s = .ok r) :
    (∃ n, withName n = .ok (.namedRef r.name)) ∧ r.PartsOK := by
  unfold parseNamed at h
  cases hd : Distribution.parseNamed s with
  | error e => simp [hd] at h
  | ok named =>
    simp only [hd] at h
    obtain ⟨r₀, hw, h⟩ := except_bind_eq_ok h
    obtain ⟨m, -, -, -, rfl⟩ := withName_eq_ok.mp hw
    cases hdigest : named.digest? with
    | some digest =>
      simp only [hdigest] at h
      obtain ⟨hmatch, rfl⟩ := withDigest_eq_ok.mp h
      exact ⟨⟨named.name, hw⟩, hmatch, Distribution.validate_of_parseNamed hd hdigest⟩
    | none =>
      cases htag : named.tag? with
      | some tag =>
        simp only [hdigest, htag] at h
        obtain ⟨hmatch, rfl⟩ := withTag_eq_ok.mp h
        exact ⟨⟨named.name, hw⟩, hmatch⟩
      | none =>
        simp only [hdigest, htag] at h
        cases h
        exact ⟨⟨named.name, hw⟩, trivial⟩

/-- `WithName` followed by a step that keeps the name -/
theorem withName_bind {name : Text} {f : Named → Except Text Named} {g : Text → Named}
    (hf : ∀ m, f (.namedRef m) = .ok (g m)) : (withName name >>= f) = (withName name).map fun r₀ => g r₀.name := by
  cases hw : withName name with
  | error e => rfl
  | ok r₀ =>
    obtain ⟨m, -, -, -, rfl⟩ := withName_eq_ok.mp hw
    exact hf m

/-- the string of a reference `ParseNamed` returned is read back to the same tag or digest, on the name that
`WithName` gives for its name -/
theorem parseNamed_string {s : Text} {r : Named} (h : parseNamed s = .ok r) :
    parseNamed r.string = (withName r.name).map fun r₀ => r.rename r₀.name := by
  obtain ⟨⟨n, hw⟩, hparts⟩ := parseNamed_parts h
  obtain ⟨m, -, -, hdist, hm⟩ := withName_eq_ok.mp hw
  cases hm
  obtain ⟨hlen, hmatch, -⟩ := Distribution.withName_eq_ok.mp hdist
  cases r with
  | namedRef name =>
    dsimp only [Named.name] at hlen hmatch
    simp only [Named.string, parseNamed, Distribution.parseNamed_repository hmatch hlen]
    refine withName_bind fun _ => rfl
  | taggedRef name tag =>
    dsimp only [Named.name] at hlen hmatch
    simp only [Named.string, parseNamed, Distribution.parseNamed_tagged hmatch hlen hparts]
    refine withName_bind fun _ => ?_
    exact withTag_eq_ok.mpr ⟨hparts, rfl⟩
  | canonicalRef name dgst =>
    dsimp only [Named.name] at hlen hmatch
    simp only [Named.string, parseNamed, Distribution.parseNamed_canonical hmatch hlen hparts.1 hparts.2]
    refine withName_bind fun _ => ?_
    exact withDigest_eq_ok.mpr ⟨hparts.1, rfl⟩

/-- the string of a reference `ParseNamed` returned parses back to it exactly when its name is a fixed point of
`normalize` -/
theorem parseNamed_string_iff {s : Text} {r : Named} (h : parseNamed s = .ok r) :
    parseNamed r.string = .ok r ↔ normalize r.name = .ok r.name := by
  rw [parseNamed_string h]
  obtain ⟨⟨n, hw⟩, -⟩ := parseNamed_parts h
  obtain ⟨m, -, hvalid, hdist, hm⟩ := withName_eq_ok.mp hw
  cases hm
  constructor
  · intro hmap
    obtain ⟨r₀, hr₀, hre⟩ := except_map_eq_ok hmap
    obtain ⟨m', hnorm, -, -, rfl⟩ := withName_eq_ok.mp hr₀
    dsimp only [Named.name] at hre
    have hm' : m' = r.name := by rw [← hre, Named.name_rename]
    rwa [hm'] at hnorm
  · intro hnorm
    rw [withName_eq_ok.mpr ⟨r.name, hnorm, hvalid, hdist, rfl⟩]
    exact congrArg Except.ok (Named.rename_name r)

/-- every reference `ParseNamed` returns is one the reference store takes -/
theorem parseNamed_valid {s : Text} {r : Named} (h : parseNamed s = .ok r) : r.Valid := by
  obtain ⟨⟨n, hw⟩, hparts⟩ := parseNamed_parts h
  obtain ⟨m, -, -, hdist, hm⟩ := withName_eq_ok.mp hw
  cases hm
  obtain ⟨-, hmatch, -⟩ := Distribution.withName_eq_ok.mp hdist
  have hat := Distribution.notMem_at_of_nameMatch hmatch
  cases r with
  | namedRef name => exact hat
  | taggedRef name tag =>
    obtain ⟨hcolon, -, hat'⟩ := Distribution.notMem_of_tagMatch hparts
    exact ⟨hat, hcolon, hat'⟩
  | canonicalRef name dgst => exact ⟨hat, Distribution.notMem_at_of_digestMatch hparts.1⟩

/-- `library/library/foo` is read as `library/foo`, whose string is read as `foo`: the same full name, but another
string and name. And `docker.io/foo.com/bar` is read as `foo.com/bar`, whose hostname is `foo.com`, not `docker.io` -/
theorem parseNamed_not_stable :
    parseNamed "library/library/foo".toList = .ok (.namedRef "library/foo".toList) ∧
      parseNamed (Named.namedRef "library/foo".toList).string = .ok (.namedRef "foo".toList) ∧
      (Named.namedRef "library/foo".toList).fullName = (Named.namedRef "foo".toList).fullName ∧
      normalize "library/library/foo".toList = .ok "library/foo".toList ∧
      splitHostname "library/library/foo".toList ≠ splitHostname "library/foo".toList ∧
      parseNamed "docker.io/foo.com/bar".toList = .ok (.namedRef "foo.com/bar".toList) ∧
      splitHostname "docker.io/foo.com/bar".toList = (defaultHostname, "foo.com/bar".toList) ∧
      splitHostname "foo.com/bar".toList = ("foo.com".toList, "bar".toList) := by
  refine ⟨?_, ?_, ?_, ?_, ?_, ?_, ?_, ?_⟩ <;> decide

end DockerEngine.Reference
