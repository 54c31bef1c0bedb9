/-
Lean model of `pullSchema2` in `distribution/pull_v2.go` on Linux: the manifest digest (`schema2ManifestDigest`), the
config blob (`pullSchema2ImageConfig`), the layer downloads of `LayerDownloadManager.Download` in
`distribution/xfer/download.go`, each by `v2LayerDescriptor.Download` with the retries of `makeDownloadFunc`, and the
comparison of the layers' diff IDs with the config's.

The registry is given as what it does: the config blob it serves, and, for each layer download and each attempt, how
`blobs.Open`, the seeks and the copy of the body end and what bytes the body holds. A config blob is its bytes with what
`json.Unmarshal` makes of them. The hash of each algorithm is a parameter (`Hasher`): nothing here depends on which
function it is, only that it sums to hex digits of the algorithm's size. The file operations on the temp file succeed,
and the pull is not cancelled.

The temp file of a download always holds what its verifier has read (`LayerDescriptor.Consistent`), through every
truncation and resumed copy, so a download that returns after any number of retries returns bytes whose digest is the
layer's (`retryLoop_verified`), and each diff ID of the rootFS comes from such bytes or is already local
(`downloadRootFS_backed`). A pull that succeeds has a verified manifest and a verified config whose layers are those
downloaded (`pullSchema2_ok`); with a `sha256` config digest, the image ID is that digest (`pullSchema2_ok_imageID`).
Two configs go wrong (`pullSchema2_panics_or_misnames`): one without `rootfs` makes the pull dereference a nil
`RootFS`, and one named by a `sha512` digest is stored under the `sha256` ID that `Create` computes, not under the
digest the manifest names.
-/
import DockerEngine.Reference.Parse
import DockerEngine.Layer.Store

namespace DockerEngine.Distribution

open DockerEngine.Go

/-- a Go byte slice -/
abbrev Bytes := List UInt8

/-- a layer's `DiffID` -/
abbrev DiffID := Text

/-- the algorithms `Digest.Validate` accepts -/
inductive Algorithm
  | sha256
  | sha384
  | sha512
  deriving DecidableEq, Repr

namespace Algorithm

/-- its name in a digest -/
def name : Algorithm → Text
  | sha256 => "sha256".toList
  | sha384 => "sha384".toList
  | sha512 => "sha512".toList

/-- `Size()`, in bytes -/
def size : Algorithm → ℕ
  | sha256 => 32
  | sha384 => 48
  | sha512 => 64

/-- `Algorithm(s)` for a name the package knows -/
def ofName (s : Text) : Option Algorithm :=
  if s = sha256.name then some sha256
  else if s = sha384.name then some sha384
  else if s = sha512.name then some sha512
  else none

/-- a hash sum of the algorithm as `hex.EncodeToString` writes it: two lower-case hexadecimal digits for each byte -/
structure Sum (a : Algorithm) where
  hex : Text
  length_eq : hex.length = 2 * a.size
  isHex : ∀ c ∈ hex, c.isDigit ∨ ('a' ≤ c ∧ c ≤ 'f')

end Algorithm

/-- `Algorithm.Hash()` of each algorithm, summing bytes -/
abbrev Hasher := (a : Algorithm) → Bytes → a.Sum

/-- the blob of a config as the registry serves it: its bytes, and what `json.Unmarshal` makes of them into an
`image.Image` -/
structure ConfigBlob where
  bytes : Bytes
  decoded : Option (Option (List DiffID × ℕ))

/-- how the copy of a layer's body to the temp file ends -/
inductive Ending
  /-- `io.EOF` -/
  | eof
  /-- `transport.ErrWrongCodeForByteRange`: the registry ignored the `Range` of a resumed download -/
  | wrongCodeForByteRange
  /-- another error, which `retryOnError` makes a `DoNotRetry` or not -/
  | failed (doNotRetry : Bool)
  deriving DecidableEq, Repr

/-- what the registry does in one call of `Download` -/
structure Attempt where
  /-- `blobs.Open` fails, with `distribution.ErrBlobUnknown` (true) or another error (false) -/
  openErr : Option Bool
  /-- `layerDownload.Seek(offset, os.SEEK_SET)` of a resumed download fails -/
  resumeSeekErr : Bool
  /-- `layerDownload.Seek(0, os.SEEK_END)`: the size of the blob, none where it fails -/
  size : Option ℕ
  /-- the seek back to the offset fails -/
  reseekErr : Bool
  /-- the bytes the body gives before the copy ends -/
  body : Bytes
  ending : Ending

/-- what the registry does during a pull: the config blob, none where `blobs.Get` fails; the attempts of each download,
by the number of the download and of the call; and whether the config goroutine has failed when a failed download is
seen -/
structure Registry where
  config : Option ConfigBlob
  attempts : ℕ → ℕ → Attempt
  configFirst : Bool

/-- the daemon's stores as the pull reads them: the image IDs the image store holds, the chains of the layer store by
their diff IDs, and the diff ID the v2 metadata records for each blob digest -/
structure Local where
  images : List Text
  chains : List (List DiffID)
  diffIDs : List (Text × DiffID)

/-- a manifest as `pullSchema2` reads it: `Payload()`'s canonical bytes, `Target().Digest`, and the digests of
`References()`, bottom-most first -/
structure Manifest where
  canonical : Bytes
  config : Text
  layers : List Text

/-- the errors of `pullSchema2`, by where they arise -/
inductive PullError
  /-- `schema2ManifestDigest`: "manifest verification failed for digest", or a digest `NewDigestVerifier` refuses -/
  | manifestVerification
  /-- `ImageConfigPullError` -/
  | config
  /-- `DownloadManager.Download` -/
  | download
  /-- `json.Unmarshal` of the config in `receiveConfig` -/
  | decode
  /-- `errRootFSMismatch`: "downloaded rootFS does not match config rootFS" -/
  | rootFSMismatch
  /-- `ImageStore.Create` -/
  | create
  deriving DecidableEq, Repr

/-- what `pullSchema2` does: return an image ID and a manifest digest, return an error, or panic -/
inductive PullResult
  | ok (imageID manifestDigest : Text)
  | error (e : PullError)
  | panic
  deriving DecidableEq, Repr

section Model

variable (sum : Hasher)

/-- `digest.NewDigest(a, h)` for the hash `h` of `data` -/
def digestOf (a : Algorithm) (data : Bytes) : Text := a.name ++ ':' :: (sum a data).hex

/-- `digest.FromBytes(data)` -/
def fromBytes (data : Bytes) : Text := digestOf sum .sha256 data

/-- whether `NewDigestVerifier(d)` makes a verifier: `d.Validate()` -/
def validDigest (d : Text) : Bool :=
  match Reference.Distribution.Digest.validate d with
  | .ok () => true
  | .error _ => false

/-- `Verified()` of the verifier of `d` after `data` is written to it -/
def verified (d : Text) (data : Bytes) : Bool :=
  match cutRune ':' d with
  | some (alg, _) =>
    match Algorithm.ofName alg with
    | some a => d == digestOf sum a data
    | none => false
  | none => false

/-- `schema2ManifestDigest(ref, mfst)`, with the digest of `ref` where it is a `reference.Canonical` -/
def schema2ManifestDigest (ref : Option Text) (mfst : Manifest) : Except PullError Text :=
  match ref with
  | some d => if validDigest d && verified sum d mfst.canonical then .ok d else .error .manifestVerification
  | none => .ok (fromBytes sum mfst.canonical)

/-- `pullSchema2ImageConfig(ctx, dgst)` -/
def pullSchema2ImageConfig (config : Option ConfigBlob) (dgst : Text) : Except PullError ConfigBlob :=
  match config with
  | none => .error .config
  | some blob => if validDigest dgst && verified sum dgst blob.bytes then .ok blob else .error .config

/-- a layer download: the blob's digest, the temp file (`ld.tmpFile`, none where it is not made or was handed off), and
what was written to the verifier (`ld.verifier`, none where it is nil) -/
structure LayerDescriptor where
  digest : Text
  tmpFile : Option Bytes
  verifier : Option Bytes

/-- `ld.truncateDownloadFile()`: a new hash context and an empty temp file -/
def LayerDescriptor.truncate (ld : LayerDescriptor) : LayerDescriptor := { ld with verifier := none, tmpFile := some [] }

/-- the first part of `ld.Download(ctx, progressOutput)` with the registry doing `a`, up to the copy: the temp file
made, or resumed at its end, the blob opened and sought, and the verifier made; the descriptor, and the offset the copy
starts at, or an error and whether it is a `DoNotRetry` -/
def prepareDownload (ld : LayerDescriptor) (a : Attempt) : LayerDescriptor × Except Bool ℕ :=
  let ld := { ld with tmpFile := some (ld.tmpFile.getD []) }
  let offset := (ld.tmpFile.getD []).length
  match a.openErr with
  | some unknown => (ld, .error unknown)
  | none =>
    if offset ≠ 0 ∧ a.resumeSeekErr then (ld.truncate, .error false)
    else
      -- a partial download longer than the blob starts over
      let restart := a.size.any fun size => size != 0 && decide (size < offset)
      let ld := if restart then ld.truncate else ld
      let offset := if restart then 0 else offset
      if a.size.isSome ∧ a.reseekErr then (ld, .error false)
      else if ld.verifier.isNone ∧ !validDigest ld.digest then (ld, .error true)
      else (ld, .ok offset)

/-- the rest of `ld.Download`: the body copied to the temp file through the verifier, and the verification -/
def copyAndVerify (ld : LayerDescriptor) (offset : ℕ) (a : Attempt) : LayerDescriptor × Except Bool Bytes :=
  let ld := { ld with
    verifier := some (ld.verifier.getD [] ++ a.body), tmpFile := some (ld.tmpFile.getD [] ++ a.body) }
  match a.ending with
  | .wrongCodeForByteRange => (ld.truncate, .error false)
  | .failed doNotRetry => (ld, .error doNotRetry)
  | .eof =>
    if verified sum ld.digest (ld.verifier.getD []) then ({ ld with tmpFile := none }, .ok (ld.tmpFile.getD []))
    -- a failed verification after a resumed download is retried from the start
    else if offset ≠ 0 then (ld.truncate, .error false)
    else (ld, .error true)

/-- `ld.Download(ctx, progressOutput)`: the descriptor after, and the temp file handed to the download manager, or an
error and whether it is a `DoNotRetry` -/
def download (ld : LayerDescriptor) (a : Attempt) : LayerDescriptor × Except Bool Bytes :=
  match prepareDownload ld a with
  | (ld, .error doNotRetry) => (ld, .error doNotRetry)
  | (ld, .ok offset) => copyAndVerify sum ld offset a

/-- `maxDownloadAttempts` -/
def maxDownloadAttempts : ℕ := 5

/-- the loop of `makeDownloadFunc` around `Download`: again after each error but a `DoNotRetry`, up to
`maxDownloadAttempts` calls; `left` counts the calls still allowed, and the registry does `attempts n` in call `n` -/
def retryLoop (attempts : ℕ → Attempt) (ld : LayerDescriptor) : ℕ → Except Unit Bytes
  | 0 => .error ()
  | left + 1 =>
    match download sum ld (attempts (maxDownloadAttempts - (left + 1))) with
    | (_, .ok file) => .ok file
    | (ld, .error doNotRetry) => if doNotRetry || left == 0 then .error () else retryLoop attempts ld left

/-- the layers `LayerDownloadManager.Download` finds registered, from the bottom: while the metadata gives a diff ID
whose chain the layer store holds -/
def existingPrefix (loc : Local) : List DiffID → List Text → List DiffID × List Text
  | rootFS, [] => (rootFS, [])
  | rootFS, d :: ds =>
    match loc.diffIDs.lookup d with
    | some diffID =>
      if rootFS ++ [diffID] ∈ loc.chains then existingPrefix loc (rootFS ++ [diffID]) ds else (rootFS, d :: ds)
    | none => (rootFS, d :: ds)

/-- the downloads of the layers after those: a digest not met before is downloaded (download number `n`), decompressed
and registered on the layers below, which `diffIDOf` stands for; a digest met before is registered again from the data
of its first download, with the same diff ID -/
def downloadLayers (diffIDOf : Bytes → Option DiffID) (attempts : ℕ → ℕ → Attempt) :
    ℕ → List (Text × DiffID) → List DiffID → List Text → Except PullError (List DiffID)
  | _, _, rootFS, [] => .ok rootFS
  | n, seen, rootFS, d :: ds =>
    -- `ErrMaxDepthExceeded` of `Register` on a parent of that depth
    if Layer.maxLayerDepth ≤ rootFS.length then .error .download
    else
      match seen.lookup d with
      | some diffID => downloadLayers diffIDOf attempts n seen (rootFS ++ [diffID]) ds
      | none =>
        match retryLoop sum (attempts n) ⟨d, none, none⟩ maxDownloadAttempts with
        | .error () => .error .download
        | .ok file =>
          match diffIDOf file with
          | none => .error .download
          | some diffID => downloadLayers diffIDOf attempts (n + 1) ((d, diffID) :: seen) (rootFS ++ [diffID]) ds

/-- `DownloadManager.Download(ctx, *image.NewRootFS(), descriptors, ...)`: the diff IDs of the layers, bottom-most
first -/
def downloadRootFS (diffIDOf : Bytes → Option DiffID) (loc : Local) (attempts : ℕ → ℕ → Attempt) (layers : List Text) :
    Except PullError (List DiffID) :=
  let (rootFS, rest) := existingPrefix loc [] layers
  downloadLayers sum diffIDOf attempts 0 [] rootFS rest

/-- `pullSchema2(ctx, ref, mfst)` -/
def pullSchema2 (diffIDOf : Bytes → Option DiffID) (loc : Local) (reg : Registry) (ref : Option Text)
    (mfst : Manifest) : PullResult :=
  match schema2ManifestDigest sum ref mfst with
  | .error e => .error e
  | .ok manifestDigest =>
    -- the image is there already
    if mfst.config ∈ loc.images then .ok mfst.config manifestDigest
    else
      -- the layers are downloaded while the config goroutine runs; a failed download returns the config's error if
      -- that one has come
      match downloadRootFS sum diffIDOf loc reg.attempts mfst.layers,
        pullSchema2ImageConfig sum reg.config mfst.config with
      | .error e, .error e' => .error (if reg.configFirst then e' else e)
      | .error e, .ok _ => .error e
      | .ok _, .error e => .error e
      | .ok rootFS, .ok blob =>
        match blob.decoded with
        | none => .error .decode
        -- `len(unmarshalledConfig.RootFS.DiffIDs)` with `RootFS` nil
        | some none => .panic
        | some (some (diffIDs, nonEmptyHistory)) =>
          if rootFS ≠ diffIDs then .error .rootFSMismatch
          -- `Create`: "Invalid empty data" of `fs.Set`, and "too many non-empty layers in History section"
          else if blob.bytes = [] ∨ diffIDs.length < nonEmptyHistory then .error .create
          else .ok (fromBytes sum blob.bytes) manifestDigest

/-! ## Digests -/

theorem Algorithm.Sum.hex_ne_nil {a : Algorithm} (s : a.Sum) : s.hex ≠ [] := by
  intro h
  have hlen := s.length_eq
  rw [h] at hlen
  cases a <;> simp [Algorithm.size] at hlen

theorem Algorithm.Sum.colon_not_mem {a : Algorithm} (s : a.Sum) : ':' ∉ s.hex := by
  intro h
  rcases s.isHex ':' h with h | ⟨h, -⟩ <;> revert h <;> decide

theorem Algorithm.Sum.all_isHexDigit {a : Algorithm} (s : a.Sum) : s.hex.all Reference.Distribution.isHexDigit = true := by
  rw [List.all_eq_true]
  intro c hc
  rcases s.isHex c hc with h | ⟨h₁, h₂⟩
  · simp [Reference.Distribution.isHexDigit, h]
  · simp [Reference.Distribution.isHexDigit, h₁, h₂]

theorem cutRune_digestOf (a : Algorithm) (data : Bytes) :
    cutRune ':' (digestOf sum a data) = some (a.name, (sum a data).hex) :=
  cutRune_append (by cases a <;> decide) _

theorem ofName_name (a : Algorithm) : Algorithm.ofName a.name = some a := by
  cases a <;> rfl

/-- a digest made of a hash sum is one `Validate` accepts -/
theorem validDigest_digestOf (a : Algorithm) (data : Bytes) : validDigest (digestOf sum a data) = true := by
  have hcut := cutRune_digestOf sum a data
  have hhex := (sum a data).all_isHexDigit
  have hne := (sum a data).hex_ne_nil
  have hlen := (sum a data).length_eq
  unfold validDigest Reference.Distribution.Digest.validate Reference.Distribution.Digest.digestRegexpAnchoredMatch
  rw [hcut]
  cases a <;> simp [Algorithm.name, Algorithm.size, Reference.Distribution.Digest.algorithmSize, hhex, hne, hlen]

theorem verified_digestOf (a : Algorithm) (data : Bytes) : verified sum (digestOf sum a data) data = true := by
  simp [verified, cutRune_digestOf, ofName_name]

/-- a verifier accepts only the digest of what it was written, under some algorithm -/
theorem eq_digestOf_of_verified {d : Text} {data : Bytes} (h : verified sum d data = true) :
    ∃ a, d = digestOf sum a data := by
  unfold verified at h
  split at h
  · split at h
    · next a _ => exact ⟨a, beq_iff_eq.mp h⟩
    · cases h
  · cases h

/-- digests under two algorithms differ, whatever they sum -/
theorem digestOf_ne {a b : Algorithm} (hab : a ≠ b) (x y : Bytes) : digestOf sum a x ≠ digestOf sum b y := by
  intro h
  have hcut := cutRune_digestOf sum a x
  rw [h, cutRune_digestOf] at hcut
  have hname : b.name = a.name := (Prod.mk.inj (Option.some.inj hcut)).1
  exact hab (by cases a <;> cases b <;> first | rfl | exact absurd hname (by decide))

/-! ## The layer downloads -/

/-- the temp file holds what was written to the verifier -/
def LayerDescriptor.Consistent (ld : LayerDescriptor) : Prop := ld.verifier.getD [] = ld.tmpFile.getD []

@[simp] theorem LayerDescriptor.truncate_digest (ld : LayerDescriptor) : ld.truncate.digest = ld.digest := rfl

theorem LayerDescriptor.consistent_truncate (ld : LayerDescriptor) : ld.truncate.Consistent := rfl

theorem prepareDownload_spec {ld : LayerDescriptor} (h : ld.Consistent) (a : Attempt) :
    (prepareDownload ld a).1.Consistent ∧ (prepareDownload ld a).1.digest = ld.digest := by
  have h₀ : LayerDescriptor.Consistent { ld with tmpFile := some (ld.tmpFile.getD []) } := h
  unfold prepareDownload
  dsimp only
  split
  · exact ⟨h₀, rfl⟩
  split_ifs
  all_goals first
    | exact ⟨h₀, rfl⟩
    | exact ⟨LayerDescriptor.consistent_truncate _, rfl⟩

/-- the copy keeps the digest and, when it fails, a temp file that holds what the verifier was written; when it
succeeds, the file it hands over is one whose digest is the blob's -/
theorem copyAndVerify_spec {ld : LayerDescriptor} (h : ld.Consistent) (offset : ℕ) (a : Attempt) :
    (copyAndVerify sum ld offset a).1.digest = ld.digest ∧
      (∀ e, (copyAndVerify sum ld offset a).2 = .error e → (copyAndVerify sum ld offset a).1.Consistent) ∧
      ∀ file, (copyAndVerify sum ld offset a).2 = .ok file → verified sum ld.digest file = true := by
  have h₁ : LayerDescriptor.Consistent { ld with
      verifier := some (ld.verifier.getD [] ++ a.body), tmpFile := some (ld.tmpFile.getD [] ++ a.body) } := by
    show ld.verifier.getD [] ++ a.body = ld.tmpFile.getD [] ++ a.body
    rw [h]
  unfold copyAndVerify
  dsimp only
  split
  · exact ⟨rfl, fun _ _ => LayerDescriptor.consistent_truncate _, fun _ hf => by cases hf⟩
  · exact ⟨rfl, fun _ _ => h₁, fun _ hf => by cases hf⟩
  split_ifs with hv
  · refine ⟨rfl, fun _ hf => hf.elim, fun file hf => ?_⟩
    cases hf
    rw [Option.getD_some, ← h]
    exact hv
  · exact ⟨rfl, fun _ _ => LayerDescriptor.consistent_truncate _, fun _ hf => by cases hf⟩
  · exact ⟨rfl, fun _ _ => h₁, fun _ hf => by cases hf⟩

/-- a call of `Download` keeps the digest and, when it fails, a temp file that holds what its verifier was written;
when it succeeds, the file it hands over is one whose digest is the blob's -/
theorem download_spec {ld : LayerDescriptor} (h : ld.Consistent) (a : Attempt) :
    (download sum ld a).1.digest = ld.digest ∧
      (∀ e, (download sum ld a).2 = .error e → (download sum ld a).1.Consistent) ∧
      ∀ file, (download sum ld a).2 = .ok file → verified sum ld.digest file = true := by
  obtain ⟨hcons, hdig⟩ := prepareDownload_spec h a
  unfold download
  split
  · next ld' e hp =>
    rw [hp] at hcons hdig
    exact ⟨hdig, fun _ _ => hcons, fun _ hf => by cases hf⟩
  · next ld' offset hp =>
    rw [hp] at hcons hdig
    obtain ⟨hdig', herr, hok⟩ := copyAndVerify_spec sum hcons offset a
    exact ⟨hdig'.trans hdig, herr, fun file hf => hdig ▸ hok file hf⟩

/-- across its retries, the loop hands over only a file whose digest is the blob's: each call resumes the file of the
call before, which holds what the verifier was written, or starts both over -/
theorem retryLoop_verified (attempts : ℕ → Attempt) :
    ∀ (left : ℕ) (ld : LayerDescriptor), ld.Consistent → ∀ file, retryLoop sum attempts ld left = .ok file →
      verified sum ld.digest file = true
  | 0, _, _, _, h => by cases h
  | left + 1, ld, hld, file, h => by
    obtain ⟨hdig, herr, hok⟩ := download_spec sum hld (attempts (maxDownloadAttempts - (left + 1)))
    simp only [retryLoop] at h
    split at h
    · next file' hd =>
      rw [hd] at hok
      cases h
      exact hok _ rfl
    · next ld' doNotRetry hd =>
      split_ifs at h
      rw [hd] at hdig herr
      rw [← hdig]
      exact retryLoop_verified attempts left ld' (herr doNotRetry rfl) file h

/-- a diff ID that data with the digest of the blob has -/
def Backed (diffIDOf : Bytes → Option DiffID) (d : Text) (diffID : DiffID) : Prop :=
  ∃ file, verified sum d file = true ∧ diffIDOf file = some diffID

section Layers

variable (diffIDOf : Bytes → Option DiffID)

/-- the downloads add to the diff IDs below one for each digest, which data of that digest has -/
theorem downloadLayers_backed (attempts : ℕ → ℕ → Attempt) :
    ∀ (ds : List Text) (n : ℕ) (seen : List (Text × DiffID)) (rootFS r : List DiffID),
      (∀ p ∈ seen, Backed sum diffIDOf p.1 p.2) → downloadLayers sum diffIDOf attempts n seen rootFS ds = .ok r →
        ∃ ids, r = rootFS ++ ids ∧ List.Forall₂ (Backed sum diffIDOf) ds ids
  | [], _, _, rootFS, r, _, h => by
    cases h
    exact ⟨[], (List.append_nil _).symm, List.Forall₂.nil⟩
  | d :: ds, n, seen, rootFS, r, hseen, h => by
    simp only [downloadLayers] at h
    split_ifs at h
    split at h
    · next diffID hd =>
      -- registered again from the data of the first download of the digest
      obtain ⟨ids, rfl, hids⟩ := downloadLayers_backed attempts ds n seen _ r hseen h
      exact ⟨diffID :: ids, by simp, .cons (hseen _ (mem_of_lookup_eq_some hd)) hids⟩
    · split at h
      · cases h
      · next file hfile =>
        split at h
        · cases h
        · next diffID hid =>
          have hback : Backed sum diffIDOf d diffID :=
            ⟨file, retryLoop_verified sum (attempts n) maxDownloadAttempts ⟨d, none, none⟩ rfl file hfile, hid⟩
          have hseen' : ∀ p ∈ (d, diffID) :: seen, Backed sum diffIDOf p.1 p.2 := by
            rintro p (_ | ⟨_, hp⟩)
            · exact hback
            · exact hseen p hp
          obtain ⟨ids, rfl, hids⟩ := downloadLayers_backed attempts ds (n + 1) _ _ r hseen' h
          exact ⟨diffID :: ids, by simp, .cons hback hids⟩

/-- the layers found registered are those whose diff IDs the metadata records for their digests -/
theorem existingPrefix_spec (loc : Local) :
    ∀ (ds : List Text) (rootFS : List DiffID), ∃ pre ids,
      ds = pre ++ (existingPrefix loc rootFS ds).2 ∧ (existingPrefix loc rootFS ds).1 = rootFS ++ ids ∧
        List.Forall₂ (fun d diffID => (d, diffID) ∈ loc.diffIDs) pre ids
  | [], rootFS => ⟨[], [], rfl, (List.append_nil _).symm, .nil⟩
  | d :: ds, rootFS => by
    simp only [existingPrefix]
    split
    · next diffID hd =>
      split_ifs
      · obtain ⟨pre, ids, hds, hr, hpre⟩ := existingPrefix_spec loc ds (rootFS ++ [diffID])
        exact ⟨d :: pre, diffID :: ids, by rw [List.cons_append, ← hds], by rw [hr]; simp,
          .cons (mem_of_lookup_eq_some hd) hpre⟩
      · exact ⟨[], [], rfl, (List.append_nil _).symm, .nil⟩
    · exact ⟨[], [], rfl, (List.append_nil _).symm, .nil⟩

/-- with metadata that records for each digest a diff ID its data has, every diff ID of the stack the download manager
returns is one that data of the layer's digest has -/
theorem downloadRootFS_backed {loc : Local} (hloc : ∀ p ∈ loc.diffIDs, Backed sum diffIDOf p.1 p.2)
    (attempts : ℕ → ℕ → Attempt) {layers : List Text} {rootFS : List DiffID}
    (h : downloadRootFS sum diffIDOf loc attempts layers = .ok rootFS) :
    List.Forall₂ (Backed sum diffIDOf) layers rootFS := by
  obtain ⟨pre, ids, hds, hpre, hpreIDs⟩ := existingPrefix_spec loc layers []
  unfold downloadRootFS at h
  generalize existingPrefix loc [] layers = r at h hds hpre
  obtain ⟨rf, rest⟩ := r
  dsimp only at h hds hpre
  rw [hpre] at h
  obtain ⟨ids', rfl, hrest⟩ := downloadLayers_backed sum diffIDOf attempts _ 0 [] _ rootFS
    (fun _ hp => absurd hp List.not_mem_nil) h
  rw [hds, List.nil_append]
  exact List.rel_append (hpreIDs.imp fun {_ _} hp => hloc _ hp) hrest

end Layers

theorem schema2ManifestDigest_ok {ref : Option Text} {mfst : Manifest} {md : Text}
    (h : schema2ManifestDigest sum ref mfst = .ok md) :
    (∀ d, ref = some d → md = d ∧ verified sum d mfst.canonical = true) ∧
      (ref = none → md = fromBytes sum mfst.canonical) := by
  cases ref with
  | none =>
    cases h
    exact ⟨fun _ hd => (nomatch hd), fun _ => rfl⟩
  | some d =>
    simp only [schema2ManifestDigest] at h
    split_ifs at h with hv
    cases h
    refine ⟨fun d' hd => ?_, fun hd => nomatch hd⟩
    cases hd
    exact ⟨rfl, ((Bool.and_eq_true _ _).mp hv).2⟩

theorem pullSchema2ImageConfig_ok {config : Option ConfigBlob} {dgst : Text} {blob : ConfigBlob}
    (h : pullSchema2ImageConfig sum config dgst = .ok blob) : config = some blob ∧ verified sum dgst blob.bytes = true := by
  unfold pullSchema2ImageConfig at h
  split at h
  · cases h
  · split_ifs at h with hv
    cases h
    exact ⟨rfl, ((Bool.and_eq_true _ _).mp hv).2⟩

/-- what a pull that returns an image has checked: the manifest against a digest reference; and, unless the image was
there already, the config against the manifest's config digest, with the config's `FromBytes` as image ID, and the diff
ID of each layer against the data of its blob, in the order of the config's `rootfs` -/
theorem pullSchema2_ok (diffIDOf : Bytes → Option DiffID) {loc : Local}
    (hloc : ∀ p ∈ loc.diffIDs, Backed sum diffIDOf p.1 p.2) (reg : Registry) (ref : Option Text) (mfst : Manifest)
    {id md : Text} (h : pullSchema2 sum diffIDOf loc reg ref mfst = .ok id md) :
    (∀ d, ref = some d → md = d ∧ verified sum d mfst.canonical = true) ∧
      (ref = none → md = fromBytes sum mfst.canonical) ∧
      (id = mfst.config ∧ id ∈ loc.images ∨
        ∃ blob diffIDs k, reg.config = some blob ∧ verified sum mfst.config blob.bytes = true ∧
          id = fromBytes sum blob.bytes ∧ blob.decoded = some (some (diffIDs, k)) ∧
          List.Forall₂ (Backed sum diffIDOf) mfst.layers diffIDs) := by
  unfold pullSchema2 at h
  split at h
  · cases h
  next md' hmd =>
  obtain ⟨href, hnone⟩ := schema2ManifestDigest_ok sum hmd
  by_cases hlocal : mfst.config ∈ loc.images
  · rw [if_pos hlocal] at h
    cases h
    exact ⟨href, hnone, Or.inl ⟨rfl, hlocal⟩⟩
  rw [if_neg hlocal] at h
  rcases hroot : downloadRootFS sum diffIDOf loc reg.attempts mfst.layers with e | rootFS <;>
    rcases hblob : pullSchema2ImageConfig sum reg.config mfst.config with e' | blob <;>
    rw [hroot, hblob] at h
  · cases h
  · cases h
  · cases h
  obtain ⟨hconfig, hverified⟩ := pullSchema2ImageConfig_ok sum hblob
  simp only at h
  split at h
  · cases h
  · cases h
  next diffIDs k hdec =>
  split_ifs at h with hne hcreate
  cases h
  have hdiff : rootFS = diffIDs := not_not.mp hne
  exact ⟨href, hnone, Or.inr ⟨blob, diffIDs, k, hconfig, hverified, rfl, hdec,
    hdiff ▸ downloadRootFS_backed sum diffIDOf hloc reg.attempts hroot⟩⟩

/-- with a config digest under `sha256`, the image a pull returns is the one the manifest names -/
theorem pullSchema2_ok_imageID (diffIDOf : Bytes → Option DiffID) {loc : Local}
    (hloc : ∀ p ∈ loc.diffIDs, Backed sum diffIDOf p.1 p.2) (reg : Registry) (ref : Option Text) {mfst : Manifest}
    (hsha : ∃ hex, mfst.config = Algorithm.sha256.name ++ ':' :: hex) {id md : Text}
    (h : pullSchema2 sum diffIDOf loc reg ref mfst = .ok id md) : id = mfst.config := by
  obtain ⟨-, -, ⟨rfl, -⟩ | ⟨blob, -, -, -, hverified, rfl, -⟩⟩ := pullSchema2_ok sum diffIDOf hloc reg ref mfst h
  · rfl
  obtain ⟨a, ha⟩ := eq_digestOf_of_verified sum hverified
  obtain ⟨hex, hhex⟩ := hsha
  -- the digest's algorithm is the one named before the colon
  have hcut := cutRune_digestOf sum a blob.bytes
  rw [← ha, hhex, cutRune_append (by decide) hex] at hcut
  have hname : Algorithm.sha256.name = a.name := (Prod.mk.inj (Option.some.inj hcut)).1
  have hsha256 : a = .sha256 := by
    cases a <;> first | rfl | exact absurd hname (by decide)
  rw [ha, hsha256]
  rfl

theorem pullSchema2ImageConfig_digestOf (a : Algorithm) (blob : ConfigBlob) :
    pullSchema2ImageConfig sum (some blob) (digestOf sum a blob.bytes) = .ok blob := by
  simp [pullSchema2ImageConfig, validDigest_digestOf, verified_digestOf]

/-- a manifest without layers whose config digest is that of `blob` under `a` -/
def configOnly (a : Algorithm) (blob : ConfigBlob) : Manifest := ⟨[], digestOf sum a blob.bytes, []⟩

end Model

/-- a registry that serves `blob` as the config -/
def serving (blob : ConfigBlob) : Registry := ⟨some blob, fun _ _ => ⟨none, false, none, false, [], .eof⟩, false⟩

/-- the config `\x7b\x7d`: valid JSON without `rootfs`, which leaves `RootFS` nil -/
def emptyObject : ConfigBlob := ⟨"\x7b\x7d".toList.map Char.toUInt8, some none⟩

/-- the config `\x7b"rootfs":\x7b\x7d\x7d`: a `rootfs` of no layers -/
def emptyRootFS : ConfigBlob := ⟨"\x7b\"rootfs\":\x7b\x7d\x7d".toList.map Char.toUInt8, some (some ([], 0))⟩

/-- with nothing local and no layers, a pull of a served config comes down to what the config decodes to -/
theorem pullSchema2_configOnly (sum : Hasher) (diffIDOf : Bytes → Option DiffID) (a : Algorithm) (blob : ConfigBlob) :
    pullSchema2 sum diffIDOf ⟨[], [], []⟩ (serving blob) none (configOnly sum a blob) =
      match blob.decoded with
      | none => .error .decode
      | some none => .panic
      | some (some (diffIDs, nonEmptyHistory)) =>
        if [] ≠ diffIDs then .error .rootFSMismatch
        else if blob.bytes = [] ∨ diffIDs.length < nonEmptyHistory then .error .create
        else .ok (fromBytes sum blob.bytes) (fromBytes sum []) := by
  simp only [pullSchema2, configOnly, serving, schema2ManifestDigest, downloadRootFS, existingPrefix, downloadLayers,
    pullSchema2ImageConfig_digestOf, List.not_mem_nil, if_false]

theorem pullSchema2_panics_or_misnames (sum : Hasher) (diffIDOf : Bytes → Option DiffID) :
    pullSchema2 sum diffIDOf ⟨[], [], []⟩ (serving emptyObject) none (configOnly sum .sha256 emptyObject) = .panic ∧
      pullSchema2 sum diffIDOf ⟨[], [], []⟩ (serving emptyRootFS) none (configOnly sum .sha512 emptyRootFS) =
        .ok (fromBytes sum emptyRootFS.bytes) (fromBytes sum []) ∧
      fromBytes sum emptyRootFS.bytes ≠ (configOnly sum .sha512 emptyRootFS).config := by
  have hbytes : emptyRootFS.bytes ≠ [] := List.map_eq_nil_iff.not.mpr (by simp)
  refine ⟨?_, ?_, digestOf_ne sum (by decide) _ _⟩
  · rw [pullSchema2_configOnly]
    rfl
  · rw [pullSchema2_configOnly]
    show (if [] ≠ ([] : List DiffID) then _ else if emptyRootFS.bytes = [] ∨ 0 < 0 then _ else _) = _
    rw [if_neg (by simp), if_neg (by simp [hbytes])]

end DockerEngine.Distribution
