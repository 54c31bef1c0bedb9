/-
Lean model of the credentials of `cliconfig/config.go`: `encodeAuth` and `decodeAuth`, and what `SaveToWriter` and
`LoadFromReader` do to the `AuthConfigs` of a `ConfigFile` on either side of the JSON document.

`SaveToWriter` marshals a copy of the map in which each entry has its user name and password encoded into `Auth` and
blanked, with its server address; `LoadFromReader` decodes `Auth` of each entry it reads back into the user name and
the password, blanks it and sets the server address to the key. The map is a list of entries in the order Go's range
takes it. The JSON document between the two is not modelled: `loadAuthConfigs_saveAuthConfigs` feeds the loop of
`LoadFromReader` the map `SaveToWriter` marshals.

`decodeAuth` decodes into a buffer of `DecodedLen` bytes, so the padding of the last quantum comes back as NUL bytes
after the password, and it trims NUL bytes from both ends of the password to drop them. So a user name without `:`
comes back, and the password comes back without its own NUL bytes at either end (`decodeAuth_encodeAuth`,
`loadAuthConfigs_saveAuthConfigs`): the password of `decodeAuth_strips_nul_password`, one NUL byte, comes back empty.
-/
import DockerEngine.Go.Base64
import Mathlib.Data.List.DropRight

namespace DockerEngine.Cliconfig

open Go

/-- `types.AuthConfig` -/
structure AuthConfig where
  username : List UInt8
  password : List UInt8
  auth : List UInt8
  email : List UInt8
  serverAddress : List UInt8
  identityToken : List UInt8
  registryToken : List UInt8
  deriving DecidableEq, Repr

/-- the errors of `decodeAuth` -/
inductive AuthError
  /-- the `base64.CorruptInputError` at an offset, `"illegal base64 data at input byte %d"` -/
  | corrupt (offset : ℕ)
  /-- `fmt.Errorf("Something went wrong decoding auth config")` -/
  | wentWrong
  /-- `fmt.Errorf("Invalid auth configuration file")` -/
  | invalid
  deriving DecidableEq, Repr

/-- the byte `:` -/
def colon : UInt8 := 0x3A

/-- `strings.SplitN(s, ":", 2)` -/
def splitN2 (s : List UInt8) : List (List UInt8) :=
  match s.idxOf? colon with
  | some i => [s.take i, s.drop (i + 1)]
  | none => [s]

/-- `strings.Trim(s, "\x00")`: the NUL bytes at the start, then those at the end, dropped -/
def trimNul (s : List UInt8) : List UInt8 := (s.dropWhile (· = 0)).rdropWhile (· = 0)

/-- `encodeAuth(authConfig)`: the user name and the password joined by `:`, in base64; nothing when both are empty.
`Encode` fills the `EncodedLen` bytes of its buffer (`Base64.length_encode`). -/
def encodeAuth (authConfig : AuthConfig) : List UInt8 :=
  if authConfig.username = [] ∧ authConfig.password = [] then []
  else Base64.encode (authConfig.username ++ colon :: authConfig.password)

/-- `decodeAuth(authStr)`: the user name and the password -/
def decodeAuth (authStr : List UInt8) : Except AuthError (List UInt8 × List UInt8) :=
  if authStr = [] then .ok ([], [])
  else
    let decLen := Base64.decodedLen authStr.length
    match Base64.decode authStr with
    | .error offset => .error (.corrupt offset)
    | .ok out =>
      if decLen < out.length then .error .wentWrong
      else
        -- `string(decoded)`: the buffer of `decLen` bytes, of which `Decode` wrote the first
        match splitN2 (out ++ List.replicate (decLen - out.length) 0) with
        | [user, password] => .ok (user, trimNul password)
        | _ => .error .invalid

/-- an entry of the `AuthConfigs` that `SaveToWriter` marshals: the credentials encoded, with the fields they came
from blank -/
def saveAuthConfig : List UInt8 × AuthConfig → List UInt8 × AuthConfig
  | (k, authConfig) =>
    (k, { authConfig with auth := encodeAuth authConfig, username := [], password := [], serverAddress := [] })

/-- the `AuthConfigs` that `SaveToWriter` marshals in place of the file's -/
def saveAuthConfigs (authConfigs : List (List UInt8 × AuthConfig)) : List (List UInt8 × AuthConfig) :=
  authConfigs.map saveAuthConfig

/-- one turn of the loop of `LoadFromReader` over the `AuthConfigs` decoded -/
def loadAuthConfig : List UInt8 × AuthConfig → Except AuthError (List UInt8 × AuthConfig)
  | (addr, ac) => do
    let (username, password) ← decodeAuth ac.auth
    pure (addr, { ac with username, password, auth := [], serverAddress := addr })

/-- the loop of `LoadFromReader`; the first error ends it -/
def loadAuthConfigs (authConfigs : List (List UInt8 × AuthConfig)) :
    Except AuthError (List (List UInt8 × AuthConfig)) :=
  authConfigs.mapM loadAuthConfig

/-! ## The round trip -/

/-- NUL bytes after the password are trimmed with its own -/
theorem trimNul_append_replicate (s : List UInt8) (k : ℕ) : trimNul (s ++ List.replicate k 0) = trimNul s := by
  have hz : ∀ x ∈ List.replicate k (0 : UInt8), decide (x = 0) = true := by simp +contextual
  unfold trimNul
  rw [List.dropWhile_append]
  split
  · next hnil =>
    rw [List.isEmpty_iff.mp hnil, List.dropWhile_eq_nil_iff.mpr hz]
  · simp only [List.rdropWhile, List.reverse_append]
    rw [List.dropWhile_append_of_pos (by simp)]

/-- `SplitN` cuts at the first `:`, the one after a user name without any -/
theorem splitN2_append {user : List UInt8} (huser : colon ∉ user) (rest : List UInt8) :
    splitN2 (user ++ colon :: rest) = [user, rest] := by
  have hidx : (user ++ colon :: rest).idxOf? colon = some user.length := by
    induction user with
    | nil => simp [List.idxOf?_cons]
    | cons c user ih =>
      rw [List.mem_cons, not_or] at huser
      simp [List.idxOf?_cons, Ne.symm huser.1, ih huser.2]
  simp [splitN2, hidx]

/-- a user name without `:` comes back, and the password without the NUL bytes at its ends -/
theorem decodeAuth_encodeAuth (authConfig : AuthConfig) (huser : colon ∉ authConfig.username) :
    decodeAuth (encodeAuth authConfig) = .ok (authConfig.username, trimNul authConfig.password) := by
  unfold encodeAuth
  split
  · next hempty => simp [decodeAuth, hempty.1, hempty.2, trimNul]
  · set msg := authConfig.username ++ colon :: authConfig.password with hmsg
    have hlen : (Base64.encode msg).length = (msg.length + 2) / 3 * 4 := Base64.length_encode msg
    have hne : Base64.encode msg ≠ [] := by
      intro h
      rw [h, hmsg] at hlen
      simp at hlen
      omega
    -- the buffer holds the message and the NUL bytes of the padding
    have hbuf : ¬Base64.decodedLen (Base64.encode msg).length < msg.length := by
      rw [hlen, Base64.decodedLen]
      omega
    simp only [decodeAuth, hne, if_false, Base64.decode_encode, hbuf]
    rw [hmsg, List.append_assoc, List.cons_append, splitN2_append huser]
    simp only [trimNul_append_replicate]

/-- the entry `LoadFromReader` reads back from one `SaveToWriter` marshalled -/
theorem loadAuthConfig_saveAuthConfig (k : List UInt8) (a : AuthConfig) (huser : colon ∉ a.username) :
    loadAuthConfig (saveAuthConfig (k, a)) =
      .ok (k, { a with password := trimNul a.password, auth := [], serverAddress := k }) := by
  simp only [saveAuthConfig, loadAuthConfig, decodeAuth_encodeAuth a huser]
  rfl

/-- the loop of `LoadFromReader` over what `SaveToWriter` marshals: every entry comes back with its key as server
address and `Auth` blank, and with its password less the NUL bytes at its ends -/
theorem loadAuthConfigs_saveAuthConfigs (authConfigs : List (List UInt8 × AuthConfig))
    (huser : ∀ e ∈ authConfigs, colon ∉ e.2.username) :
    loadAuthConfigs (saveAuthConfigs authConfigs) =
      .ok (authConfigs.map fun (k, a) =>
        (k, { a with password := trimNul a.password, auth := [], serverAddress := k })) := by
  induction authConfigs with
  | nil => rfl
  | cons e rest ih =>
    obtain ⟨k, a⟩ := e
    have hrest := ih fun e he => huser e (List.mem_cons_of_mem _ he)
    simp only [loadAuthConfigs, saveAuthConfigs, List.map_cons, List.mapM_cons] at hrest ⊢
    rw [loadAuthConfig_saveAuthConfig k a (huser (k, a) List.mem_cons_self), hrest]
    rfl

/-! ## A password that does not come back -/

/-- the credentials of user `a` with the password of one NUL byte -/
def nulPassword : AuthConfig := ⟨[0x61], [0x00], [], [], [], [], []⟩

theorem decodeAuth_strips_nul_password :
    encodeAuth nulPassword = "YToA".toList.map Char.toUInt8 ∧
      decodeAuth (encodeAuth nulPassword) = .ok ([0x61], []) ∧
      loadAuthConfigs (saveAuthConfigs [([0x72], nulPassword)]) =
        .ok [([0x72], { nulPassword with password := [], serverAddress := [0x72] })] := by
  refine ⟨by decide, by decide, by decide⟩

end DockerEngine.Cliconfig
