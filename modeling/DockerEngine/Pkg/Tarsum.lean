/-
Lean model of `pkg/tarsum`: the headers each TarSum version selects (`versioning.go`), the bytes `encodeHeader` writes
for them, the per-file hashing of `tarSum.Read`, and `tarSum.Sum` over the file sums that `SortBySums` orders
(`tarsum.go`, `fileinfosums.go`).

The hash is a parameter: `hash b` is the digest of the bytes `b` written to a `hash.Hash` since its last `Reset`.
- `Read` hashes each entry as its selected headers and then its content, and gives the entries their positions in
  reading order (`readArchive_sums`).
- `encodeHeader` writes each key and value with nothing between them, so the free-text fields run into the keys
  around them. Two headers that differ in their link name and user name, or in their extended attributes, give the
  same bytes (`encodeHeader_collides`).
- `bySum.Less` orders entries of one path by position and all others by digest. When some path is duplicated that is
  no strict weak order, and `sort.Sort` gives orders that depend on the order of the archive
  (`sortBySums_order_dependent`). With no duplicated path, the sums come out in digest order whatever the archive's
  order, for any sort that keeps its documented contract (`sumInput_eq_of_nodup`).
-/
import DockerEngine.Go.Sort

namespace DockerEngine.Tarsum

open scoped List

/-- a Go string or byte slice -/
abbrev Bytes := List UInt8

/-- the bytes of an ASCII literal -/
def lit (s : String) : Bytes := s.toList.map Char.toUInt8

/-- `strconv.FormatInt(i, 10)` -/
def formatInt (i : ℤ) : Bytes := lit (toString i)

/-- `h.Xattrs`, a map from the names of extended attributes to their values -/
abbrev XattrMap := {l : List (Bytes × Bytes) // (l.map Prod.fst).Nodup}

/-- the fields of a `tar.Header` that TarSum reads -/
structure Header where
  name : Bytes
  mode : ℤ
  uid : ℤ
  gid : ℤ
  size : ℤ
  /-- `h.ModTime.UTC().Unix()` -/
  modTime : ℤ
  typeflag : UInt8
  linkname : Bytes
  uname : Bytes
  gname : Bytes
  devmajor : ℤ
  devminor : ℤ
  xattrs : XattrMap
  deriving DecidableEq

/-- the TarSum versions -/
inductive Version
  | version0
  | version1
  | versionDev
  deriving DecidableEq, Repr

/-- `Version.String()`, the label of a checksum -/
def Version.label : Version → Bytes
  | .version0 => lit "tarsum"
  | .version1 => lit "tarsum.v1"
  | .versionDev => lit "tarsum.dev"

/-! ## The headers of each version -/

/-- `v0TarHeaderSelect` -/
def v0TarHeaderSelect (h : Header) : List (Bytes × Bytes) :=
  [(lit "name", h.name), (lit "mode", formatInt h.mode), (lit "uid", formatInt h.uid), (lit "gid", formatInt h.gid),
    (lit "size", formatInt h.size), (lit "mtime", formatInt h.modTime), (lit "typeflag", [h.typeflag]),
    (lit "linkname", h.linkname), (lit "uname", h.uname), (lit "gname", h.gname),
    (lit "devmajor", formatInt h.devmajor), (lit "devminor", formatInt h.devminor)]

/-- `h.Xattrs[k]`: the value of `k`, or `""` -/
def xattr (h : Header) (k : Bytes) : Bytes := ((h.xattrs.1.find? (·.1 = k)).map Prod.snd).getD []

/-- `xAttrKeys` after `sort.Strings`: `make([]string, len(h.Xattrs))` already holds that many empty strings, and
`append` adds the keys after them -/
def xAttrKeys (h : Header) : List Bytes :=
  Go.Sort.sortSort (fun a b => decide (a < b)) (List.replicate h.xattrs.1.length [] ++ h.xattrs.1.map Prod.fst)

/-- `v1TarHeaderSelect`: the headers of version 0 less `mtime`, then the extended attributes in key order -/
def v1TarHeaderSelect (h : Header) : List (Bytes × Bytes) :=
  let v0headers := v0TarHeaderSelect h
  v0headers.take 5 ++ v0headers.drop 6 ++ (xAttrKeys h).map fun k => (k, xattr h k)

/-- `registeredHeaderSelectors` -/
def selectHeaders : Version → Header → List (Bytes × Bytes)
  | .version0 => v0TarHeaderSelect
  | .version1 => v1TarHeaderSelect
  | .versionDev => v1TarHeaderSelect

/-- the bytes `encodeHeader` writes to the hash: each key and then its value, with nothing between -/
def encodeHeader (v : Version) (h : Header) : Bytes := (selectHeaders v h).flatMap fun e => e.1 ++ e.2

/-! ## Reading an archive -/

/-- `hex.EncodeToString` -/
def hexEncode (b : Bytes) : Bytes :=
  let hexByte (n : ℕ) : UInt8 := (if n < 10 then 48 + n else 87 + n).toUInt8
  b.flatMap fun x => [hexByte (x.toNat / 16), hexByte (x.toNat % 16)]

/-- `strings.TrimSuffix(strings.TrimPrefix(name, "./"), "/")` -/
def trimName (name : Bytes) : Bytes :=
  let name := if (lit "./").isPrefixOf name then name.drop 2 else name
  if (lit "/").isSuffixOf name then name.dropLast else name

/-- a `fileInfoSum` -/
structure FileInfoSum where
  name : Bytes
  sum : Bytes
  pos : ℕ
  deriving DecidableEq, Repr

/-- the state of a `tarSum` that `Read` changes, less the copy of the archive it writes out -/
structure TarSumState where
  /-- the bytes written to `ts.h` since its last `Reset` -/
  hashed : Bytes
  first : Bool
  sums : List FileInfoSum
  fileCounter : ℕ
  currentFile : Bytes
  finished : Bool

/-- the state `initTarSum` sets up -/
def TarSumState.init : TarSumState := ⟨[], true, [], 0, [], false⟩

/-- what `ts.tarR` gives one `tarSum.Read` -/
inductive ReadEvent
  /-- bytes of the current entry -/
  | data (chunk : Bytes)
  /-- the last bytes of the current entry with `io.EOF`, and then what `ts.tarR.Next()` returns: the next header, or
  `none` for `io.EOF` -/
  | eof (chunk : Bytes) (next : Option Header)

/-- one `tarSum.Read` -/
def readStep (hash : Bytes → Bytes) (v : Version) (s : TarSumState) : ReadEvent → TarSumState
  | .data chunk => if s.finished then s else { s with hashed := s.hashed ++ chunk }
  | .eof chunk next =>
    if s.finished then s
    else
      let s := { s with hashed := s.hashed ++ chunk }
      -- the entry that ends here gets its sum, and the hash starts again
      let s :=
        if !s.first then
          { s with sums := s.sums ++ [⟨s.currentFile, hexEncode (hash s.hashed), s.fileCounter⟩],
                   fileCounter := s.fileCounter + 1, hashed := [] }
        else { s with first := false }
      match next with
      | none => { s with finished := true }
      | some h => { s with currentFile := trimName h.name, hashed := s.hashed ++ encodeHeader v h }

/-- an entry of an archive: its header, the chunks the reads of its content return, and the bytes the read that
returns `io.EOF` gives -/
structure Entry where
  header : Header
  chunks : List Bytes
  last : Bytes

/-- the content of an entry -/
def Entry.content (e : Entry) : Bytes := e.chunks.flatten ++ e.last

/-- the reads of the entries from the start of the first one on -/
def entriesEvents : List Entry → List ReadEvent
  | [] => []
  | e :: es => e.chunks.map .data ++ .eof e.last (es.head?.map Entry.header) :: entriesEvents es

/-- the reads of a whole archive: the first `Read` finds no entry yet, since `tar.Reader.Read` before `Next` gives
`io.EOF` -/
def archiveEvents (es : List Entry) : List ReadEvent := .eof [] (es.head?.map Entry.header) :: entriesEvents es

/-- the sums the entries should get from position `k` on: each hashes its selected headers and its content -/
def fileSums (hash : Bytes → Bytes) (v : Version) (k : ℕ) : List Entry → List FileInfoSum
  | [] => []
  | e :: es => ⟨trimName e.header.name, hexEncode (hash (encodeHeader v e.header ++ e.content)), k⟩ ::
    fileSums hash v (k + 1) es

/-! ## `Sum` -/

/-- one turn of the loop of `GetDuplicatePaths`, over the names seen so far and the duplicates -/
def dupStep (acc : List Bytes × List FileInfoSum) (f : FileInfoSum) : List Bytes × List FileInfoSum :=
  if f.name ∈ acc.1 then (acc.1, acc.2 ++ [f]) else (acc.1 ++ [f.name], acc.2)

/-- `GetDuplicatePaths`: each entry whose name an earlier entry has -/
def getDuplicatePaths (fis : List FileInfoSum) : List FileInfoSum := (fis.foldl dupStep ([], [])).2

/-- `bySum.Less`, where `dups` is whether `bs.dups != nil` -/
def bySumLess (dups : Bool) (x y : FileInfoSum) : Bool :=
  if dups ∧ x.name = y.name then decide (x.pos < y.pos) else decide (x.sum < y.sum)

/-- `SortBySums`, with `sort` for `sort.Sort` -/
def sortBySumsWith (sort : (FileInfoSum → FileInfoSum → Bool) → List FileInfoSum → List FileInfoSum)
    (fis : List FileInfoSum) : List FileInfoSum :=
  sort (bySumLess (getDuplicatePaths fis ≠ [])) fis

/-- `SortBySums` -/
def sortBySums (fis : List FileInfoSum) : List FileInfoSum := sortBySumsWith Go.Sort.sortSort fis

/-- the bytes `Sum(extra)` writes to a fresh hash: the extra payload, then the sorted file sums -/
def sumInput (sort : (FileInfoSum → FileInfoSum → Bool) → List FileInfoSum → List FileInfoSum) (extra : Bytes)
    (fis : List FileInfoSum) : Bytes :=
  extra ++ (sortBySumsWith sort fis).flatMap FileInfoSum.sum

/-- `tarSum.Sum(extra)`, for a hash named `hashName` -/
def tarSumSum (hash : Bytes → Bytes) (hashName : Bytes) (v : Version) (extra : Bytes) (fis : List FileInfoSum) :
    Bytes :=
  v.label ++ lit "+" ++ hashName ++ lit ":" ++ hexEncode (hash (sumInput Go.Sort.sortSort extra fis))

/-! ## What the headers encode -/

/-- a symbolic link `f` with an empty target, owned by the user `unamex` -/
def linkHeader : Header :=
  { name := lit "f", mode := 511, uid := 0, gid := 0, size := 0, modTime := 0, typeflag := '2'.toUInt8,
    linkname := [], uname := lit "unamex", gname := [], devmajor := 0, devminor := 0, xattrs := ⟨[], List.nodup_nil⟩ }

theorem encodeHeader_collides :
    linkHeader ≠ { linkHeader with linkname := lit "uname", uname := lit "x" } ∧
      (∀ v, encodeHeader v linkHeader = encodeHeader v { linkHeader with linkname := lit "uname", uname := lit "x" }) ∧
      encodeHeader .version1 { linkHeader with xattrs := ⟨[(lit "a", lit "bc")], by decide⟩ } =
        encodeHeader .version1 { linkHeader with xattrs := ⟨[(lit "ab", lit "c")], by decide⟩ } ∧
      encodeHeader .version1 { linkHeader with xattrs := ⟨[([], lit "v")], by decide⟩ } =
        encodeHeader .version1 { linkHeader with xattrs := ⟨[(lit "vv", [])], by decide⟩ } := by
  refine ⟨by decide, ?_, rfl, rfl⟩
  -- `linkname` then `uname`: `""` and `unamex` read as `uname` and `x`
  intro v
  cases v <;> rfl

/-! ## What `Read` hashes -/

section Read

variable (hash : Bytes → Bytes) (v : Version)

theorem run_data (chunks : List Bytes) (s : TarSumState) (hs : s.finished = false) :
    (chunks.map ReadEvent.data).foldl (readStep hash v) s = { s with hashed := s.hashed ++ chunks.flatten } := by
  induction chunks generalizing s with
  | nil => simp
  | cons c cs ih =>
    have hstep : readStep hash v s (.data c) = { s with hashed := s.hashed ++ c } := by simp [readStep, hs]
    rw [List.map_cons, List.foldl_cons, hstep, ih { s with hashed := s.hashed ++ c } hs]
    simp

/-- reading the entries from the start of the first one, whose header is hashed already -/
theorem run_entriesEvents : ∀ (es : List Entry) (e : Entry) (s : TarSumState), s.finished = false → s.first = false →
    s.hashed = encodeHeader v e.header → s.currentFile = trimName e.header.name →
      ((entriesEvents (e :: es)).foldl (readStep hash v) s).sums = s.sums ++ fileSums hash v s.fileCounter (e :: es) ∧
        ((entriesEvents (e :: es)).foldl (readStep hash v) s).finished = true := by
  intro es
  induction es with
  | nil =>
    intro e s hf h1 hh hc
    simp [entriesEvents, run_data hash v _ s hf, readStep, hf, h1, hh, hc, fileSums, Entry.content]
  | cons e' es ih =>
    intro e s hf h1 hh hc
    -- the entry's reads, then its end, which gives it its sum and hashes the next header
    set s' := readStep hash v { s with hashed := s.hashed ++ e.chunks.flatten } (.eof e.last (some e'.header))
      with hs'
    have hrun : (entriesEvents (e :: e' :: es)).foldl (readStep hash v) s =
        (entriesEvents (e' :: es)).foldl (readStep hash v) s' := by
      simp only [entriesEvents, List.head?_cons, Option.map_some, List.foldl_append, List.foldl_cons,
        run_data hash v _ s hf, hs']
    obtain ⟨hsums, hfin⟩ := ih e' s' (by simp [hs', readStep, hf, h1]) (by simp [hs', readStep, hf, h1])
      (by simp [hs', readStep, hf, h1]) (by simp [hs', readStep, hf, h1])
    rw [hrun, hsums]
    refine ⟨?_, hfin⟩
    simp [hs', readStep, hf, h1, hh, hc, fileSums, Entry.content]

/-- reading an archive to its end gives each entry, at its position, the sum of its selected headers and its
content -/
theorem readArchive_sums (es : List Entry) :
    ((archiveEvents es).foldl (readStep hash v) .init).sums = fileSums hash v 0 es ∧
      ((archiveEvents es).foldl (readStep hash v) .init).finished = true := by
  cases es with
  | nil => exact ⟨rfl, rfl⟩
  | cons e es =>
    -- the first `Read` only opens the first entry
    have h := run_entriesEvents hash v es e ⟨encodeHeader v e.header, false, [], 0, trimName e.header.name, false⟩
      rfl rfl rfl rfl
    simpa [archiveEvents, readStep, TarSumState.init] using h

end Read

/-! ## The order of the sums -/

/-- the file sums of three entries read in the order `x`, `y`, `x`, with the digests `03`, `02` and `01` -/
def xyxSums : List FileInfoSum := [⟨lit "x", lit "03", 0⟩, ⟨lit "y", lit "02", 1⟩, ⟨lit "x", lit "01", 2⟩]

/-- the same entries read in the order `x`, `x`, `y`, where the two `x` keep their order -/
def xxySums : List FileInfoSum := [⟨lit "x", lit "03", 0⟩, ⟨lit "x", lit "01", 1⟩, ⟨lit "y", lit "02", 2⟩]

theorem sortBySums_order_dependent :
    (xyxSums.map fun f => (f.name, f.sum)) ~ (xxySums.map fun f => (f.name, f.sum)) ∧
      (xyxSums.filter fun f => f.name = lit "x").map FileInfoSum.sum =
        (xxySums.filter fun f => f.name = lit "x").map FileInfoSum.sum ∧
      (sortBySums xyxSums).map FileInfoSum.sum = [lit "02", lit "03", lit "01"] ∧
      (sortBySums xxySums).map FileInfoSum.sum = [lit "03", lit "01", lit "02"] ∧
      ∀ extra, sumInput Go.Sort.sortSort extra xyxSums ≠ sumInput Go.Sort.sortSort extra xxySums := by
  refine ⟨by decide, rfl, rfl, rfl, fun extra h => ?_⟩
  -- the extra payload comes first in both, so the sorted sums would have to agree
  have hsorted := List.append_cancel_left h
  revert hsorted
  decide

theorem foldl_dupStep_nil : ∀ (fis : List FileInfoSum) (seen : List Bytes), (fis.map FileInfoSum.name).Nodup →
    (∀ f ∈ fis, f.name ∉ seen) → (fis.foldl dupStep (seen, [])).2 = []
  | [], _, _, _ => rfl
  | f :: fis, seen, hnodup, hseen => by
    rw [List.map_cons, List.nodup_cons] at hnodup
    have hstep : dupStep (seen, []) f = (seen ++ [f.name], []) := by
      simp [dupStep, hseen f List.mem_cons_self]
    rw [List.foldl_cons, hstep]
    refine foldl_dupStep_nil fis _ hnodup.2 fun g hg => ?_
    -- `g` is new to `seen`, and is not `f` either
    rw [List.mem_append, List.mem_singleton, not_or]
    exact ⟨hseen g (List.mem_cons_of_mem f hg), fun he => hnodup.1 (he ▸ List.mem_map_of_mem hg)⟩

theorem getDuplicatePaths_eq_nil {fis : List FileInfoSum} (h : (fis.map FileInfoSum.name).Nodup) :
    getDuplicatePaths fis = [] :=
  foldl_dupStep_nil fis [] h fun _ _ => List.not_mem_nil

/-- with no duplicated path, `Sum` depends only on the digests, for any sort that keeps the contract of `sort.Sort` -/
theorem sumInput_eq_of_nodup {sort : (FileInfoSum → FileInfoSum → Bool) → List FileInfoSum → List FileInfoSum}
    (hsort : Go.Sort.Contract (bySumLess false) (sort (bySumLess false))) {fis₁ fis₂ : List FileInfoSum}
    (h₁ : (fis₁.map FileInfoSum.name).Nodup) (h₂ : (fis₂.map FileInfoSum.name).Nodup)
    (hsums : fis₁.map FileInfoSum.sum ~ fis₂.map FileInfoSum.sum) (extra : Bytes) :
    sumInput sort extra fis₁ = sumInput sort extra fis₂ := by
  -- without duplicates `bySum.Less` compares the digests only
  have hless : bySumLess false = fun x y => decide (x.sum < y.sum) := by
    funext x y
    simp [bySumLess]
  have : Std.Antisymm fun a b : Bytes => ¬b < a := (inferInstance : Std.Antisymm (· ≤ · : Bytes → Bytes → Prop))
  have hmap := Go.Sort.Contract.map_eq (hless ▸ hsort) hsums
  simp only [sumInput, sortBySumsWith, getDuplicatePaths_eq_nil h₁, getDuplicatePaths_eq_nil h₂, ne_eq,
    not_true_eq_false, decide_false, hless]
  rw [List.flatMap_def, List.flatMap_def, hmap]

end DockerEngine.Tarsum
