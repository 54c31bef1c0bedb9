/-
Lean model of `Driver.aufsMount` in `daemon/graphdriver/aufs/aufs.go`: the `mount` calls that put the branches of a
layer together, with the data strings of `label.FormatMountLabel` (the SELinux build, which adds the quoted context).

The options fit in a buffer of `Getpagesize() - len(mountLabel) - offset` bytes. The first pass of the loop copies the
rw branch and then the read-only layers, in order, while they fit, and makes the first mount; the layers that did not
fit are then added one at a time with `MS_REMOUNT` and `append:`. The outer loop of the source runs these two passes:
after the first mount the inner loop runs to the end. A negative buffer size makes `make` panic (`none`). Each `mount`
call succeeds or fails as `ok` says, by the number of calls made before it; a failure ends the function, and its
deferred `Unmount(target)` runs.

`strconv.Quote` (the `%q` of the label) is modelled on ASCII: a label with a rune past ASCII is left out.

`aufsMount_spec`: with room in the buffer for the rw branch, the calls are those of `mounts`, made in turn until one
fails (`Machine.untilFail`), where `k` is the largest number of layers that fit after the rw branch (`fitLoop_spec`);
and the data of the first mount, context included, fits in the page.
-/
import DockerEngine.Lib.Bytes
import DockerEngine.Lib.Machine

namespace DockerEngine.Graphdriver.Aufs

open DockerEngine.Bytes DockerEngine.Machine

abbrev Bytes := List UInt8

/-- `syscall.MS_REMOUNT` -/
def msRemount : ℕ := 0x20

/-- the lower-case hexadecimal digit of `n < 16` -/
def lowerhex (n : ℕ) : UInt8 := ("0123456789abcdef".toList.getD n '0').toUInt8

/-- `strconv.Quote` of one byte of ASCII, as `appendEscapedRune` writes it -/
def quoteByte (b : UInt8) : Bytes :=
  if b = '"'.toUInt8 ∨ b = '\\'.toUInt8 then ['\\'.toUInt8, b]
  else if 0x20 ≤ b ∧ b < 0x7F then [b]
  else if b = 7 then lit "\\a"
  else if b = 8 then lit "\\b"
  else if b = 12 then lit "\\f"
  else if b = 10 then lit "\\n"
  else if b = 13 then lit "\\r"
  else if b = 9 then lit "\\t"
  else if b = 11 then lit "\\v"
  else lit "\\x" ++ [lowerhex (b.toNat / 16), lowerhex (b.toNat % 16)]

/-- `strconv.Quote(s)` for `s` of ASCII -/
def quote (s : Bytes) : Bytes := '"'.toUInt8 :: s.flatMap quoteByte ++ ['"'.toUInt8]

/-- `label.FormatMountLabel(src, mountLabel)` -/
def formatMountLabel (src mountLabel : Bytes) : Bytes :=
  if mountLabel ≠ [] then
    if src = [] then lit "context=" ++ quote mountLabel
    else src ++ lit ",context=" ++ quote mountLabel
  else src

/-- one `mount("none", target, "aufs", flags, data)` call -/
structure Mount where
  target : Bytes
  flags : ℕ
  data : Bytes
  deriving DecidableEq, Repr

/-- the branch of a read-only layer, `fmt.Sprintf(":%s=ro+wh", ro[i])` -/
def layer (ro : Bytes) : Bytes := lit ":" ++ ro ++ lit "=ro+wh"

/-- `fmt.Sprintf("br:%s=rw", rw)` -/
def rwBranch (rw : Bytes) : Bytes := lit "br:" ++ rw ++ lit "=rw"

/-- `offset`: the room kept for the options of the first mount -/
def mountOffset (dirperm : Bool) : ℕ := if dirperm then 54 + (lit "dirperm1").length else 54

/-- `opts` of the first mount -/
def mountOpts (dirperm : Bool) : Bytes :=
  if dirperm then lit "dio,xino=/dev/shm/aufs.xino" ++ lit ",dirperm1" else lit "dio,xino=/dev/shm/aufs.xino"

/-- the first mount, of the branches `br` copied into the buffer -/
def firstMount (dirperm : Bool) (target mountLabel br : Bytes) : Mount :=
  ⟨target, 0, formatMountLabel (br ++ lit "," ++ mountOpts dirperm) mountLabel⟩

/-- the remount that appends the layer `ro` -/
def appendMount (target mountLabel ro : Bytes) : Mount :=
  ⟨target, msRemount, formatMountLabel (lit "append" ++ layer ro) mountLabel⟩

/-- the first pass of the inner loop: the layers copied into the buffer of length `len` while they fit, after `bp`;
what is copied, and the layers left -/
def fitLoop (len : ℕ) (bp : Bytes) : List Bytes → Bytes × List Bytes
  | [] => (bp, [])
  | ro :: ros => if len < bp.length + (layer ro).length then (bp, ro :: ros) else fitLoop len (bp ++ layer ro) ros

/-- the second pass: one remount per layer left, after `n` calls; the calls made, and whether one failed -/
def appendLoop (ok : ℕ → Bool) (target mountLabel : Bytes) (n : ℕ) : List Bytes → List Mount × Bool
  | [] => ([], false)
  | ro :: ros =>
    if ok n then
      let rest := appendLoop ok target mountLabel (n + 1) ros
      (appendMount target mountLabel ro :: rest.1, rest.2)
    else ([appendMount target mountLabel ro], true)

/-- `a.aufsMount(ro, rw, target, mountLabel)` with `Getpagesize() = pageSize` and `useDirperm() = dirperm`: the
`mount` calls made, and whether it failed (and so called `Unmount(target)`); none for the panic of `make` -/
def aufsMount (pageSize : ℕ) (dirperm : Bool) (ok : ℕ → Bool) (ro : List Bytes) (rw target mountLabel : Bytes) :
    Option (List Mount × Bool) :=
  if pageSize < mountLabel.length + mountOffset dirperm then none
  else
    let len := pageSize - mountLabel.length - mountOffset dirperm
    -- `copy` stops at the end of the buffer
    let pass := fitLoop len ((rwBranch rw).take len) ro
    if ok 0 then
      let rest := appendLoop ok target mountLabel 1 pass.2
      some (firstMount dirperm target mountLabel pass.1 :: rest.1, rest.2)
    else some ([firstMount dirperm target mountLabel pass.1], true)

/-! ## The two passes -/

theorem appendLoop_eq (ok : ℕ → Bool) (target mountLabel : Bytes) : ∀ (n : ℕ) (ros : List Bytes),
    appendLoop ok target mountLabel n ros = untilFail ok n (ros.map (appendMount target mountLabel))
  | _, [] => rfl
  | n, ro :: ros => by
    rw [appendLoop, List.map_cons, untilFail, appendLoop_eq ok target mountLabel (n + 1) ros]

/-- the layers after `bp`, up to `j` of them -/
theorem length_take_flatMap_layer_le (bp : Bytes) (ro : Bytes) (ros : List Bytes) (j : ℕ) :
    bp.length + (layer ro).length ≤ (bp ++ ((ro :: ros).take (j + 1)).flatMap layer).length := by
  simp

/-- the first pass copies the longest run of layers that fits after what is in the buffer -/
theorem fitLoop_spec (len : ℕ) : ∀ (bp : Bytes) (ro : List Bytes), bp.length ≤ len →
    ∃ k ≤ ro.length, fitLoop len bp ro = (bp ++ (ro.take k).flatMap layer, ro.drop k) ∧
      ∀ j ≤ ro.length, ((bp ++ (ro.take j).flatMap layer).length ≤ len ↔ j ≤ k)
  | bp, [], hbp => ⟨0, le_refl _, by simp [fitLoop], fun j hj => by simp at hj; simp [hj, hbp]⟩
  | bp, ro :: ros, hbp => by
    by_cases hfit : len < bp.length + (layer ro).length
    · -- the next layer does not fit: nothing is copied
      refine ⟨0, by simp, by simp [fitLoop, hfit], fun j _ => ?_⟩
      rcases j with _ | j
      · simp [hbp]
      · have := length_take_flatMap_layer_le bp ro ros j
        constructor <;> intro h <;> omega
    · obtain ⟨k, hk, hloop, hlargest⟩ := fitLoop_spec len (bp ++ layer ro) ros (by simp at hfit ⊢; omega)
      refine ⟨k + 1, by simp; omega, ?_, fun j hj => ?_⟩
      · rw [fitLoop, if_neg hfit, hloop]
        simp
      · rcases j with _ | j
        · simp [hbp]
        · have := hlargest j (by simp at hj; omega)
          simp only [List.take_succ_cons, List.flatMap_cons, List.append_assoc] at this ⊢
          omega

/-! ## The label -/

/-- a label `%q` writes as it is, between quotes -/
def PlainLabel (mountLabel : Bytes) : Prop :=
  ∀ c ∈ mountLabel, 0x20 ≤ c ∧ c < 0x7F ∧ c ≠ '"'.toUInt8 ∧ c ≠ '\\'.toUInt8

theorem quote_of_plain {mountLabel : Bytes} (h : PlainLabel mountLabel) :
    quote mountLabel = '"'.toUInt8 :: mountLabel ++ ['"'.toUInt8] := by
  have hbytes : mountLabel.flatMap quoteByte = mountLabel := by
    conv_rhs => rw [← List.flatMap_singleton' mountLabel]
    refine List.flatMap_congr fun c hc => ?_
    obtain ⟨hsp, hlt, hq, hb⟩ := h c hc
    simp [quoteByte, hq, hb, hsp, hlt]
  rw [quote, hbytes]

/-- the context option adds at most the label and eleven bytes -/
theorem length_formatMountLabel_le {mountLabel : Bytes} (h : PlainLabel mountLabel) (src : Bytes) :
    (formatMountLabel src mountLabel).length ≤ src.length + mountLabel.length + 11 := by
  rw [formatMountLabel]
  split_ifs with hne hsrc
  · simp [hsrc, quote_of_plain h, lit]
  · simp [quote_of_plain h, lit]
    omega
  · omega

/-! ## `aufsMount` -/

/-- the calls of a mount that succeeds: the first mount of the rw branch and the first `k` layers, then one remount
per layer left, in order -/
def mounts (dirperm : Bool) (target mountLabel rw : Bytes) (ro : List Bytes) (k : ℕ) : List Mount :=
  firstMount dirperm target mountLabel (rwBranch rw ++ (ro.take k).flatMap layer) ::
    (ro.drop k).map (appendMount target mountLabel)

/-- the options and the context leave room in the bytes kept for them -/
theorem length_mountOpts (dirperm : Bool) : (mountOpts dirperm).length + 12 ≤ mountOffset dirperm := by
  cases dirperm <;> decide

/-- with room for the rw branch in the buffer, `aufsMount` makes the calls of `mounts` until one fails, where `k` is
the largest number of layers that fit in the buffer after the rw branch; and the data of the first mount is no longer
than a page -/
theorem aufsMount_spec (pageSize : ℕ) (dirperm : Bool) (ro : List Bytes) (rw target mountLabel : Bytes)
    (hlabel : PlainLabel mountLabel)
    (hroom : (rwBranch rw).length + mountLabel.length + mountOffset dirperm ≤ pageSize) :
    ∃ k ≤ ro.length,
      (∀ j ≤ ro.length, (rwBranch rw ++ (ro.take j).flatMap layer).length + mountLabel.length + mountOffset dirperm ≤
        pageSize ↔ j ≤ k) ∧
      (∀ ok : ℕ → Bool, aufsMount pageSize dirperm ok ro rw target mountLabel =
        some (untilFail ok 0 (mounts dirperm target mountLabel rw ro k))) ∧
      (firstMount dirperm target mountLabel (rwBranch rw ++ (ro.take k).flatMap layer)).data.length ≤ pageSize := by
  set len := pageSize - mountLabel.length - mountOffset dirperm with hlen
  have hbr : (rwBranch rw).take len = rwBranch rw := List.take_of_length_le (by omega)
  obtain ⟨k, hk, hloop, hlargest⟩ := fitLoop_spec len (rwBranch rw) ro (by omega)
  refine ⟨k, hk, fun j hj => ?_, ?_, ?_⟩
  · have hj' := hlargest j hj
    constructor
    · intro h
      exact hj'.mp (by omega)
    · intro h
      have := hj'.mpr h
      omega
  · intro ok
    rw [aufsMount, if_neg (by omega)]
    simp only [← hlen, hbr, hloop]
    split_ifs with h0
    · rw [appendLoop_eq, mounts, untilFail, if_pos h0]
    · rw [mounts, untilFail, if_neg h0]
  · -- the branches fit in the buffer, and the options and the context fit in the room kept for them
    have hfirst := (hlargest k hk).mpr le_rfl
    have hdata := length_formatMountLabel_le hlabel (rwBranch rw ++ (ro.take k).flatMap layer ++ lit "," ++
      mountOpts dirperm)
    have hopts := length_mountOpts dirperm
    simp only [firstMount]
    simp only [List.length_append] at hdata hfirst
    simp only [show (lit ",").length = 1 from rfl] at hdata
    omega

theorem length_mounts (dirperm : Bool) (target mountLabel rw : Bytes) (ro : List Bytes) (k : ℕ) :
    (mounts dirperm target mountLabel rw ro k).length = 1 + (ro.length - k) := by
  simp [mounts, Nat.add_comm]

/-- every read-only layer is mounted once, in order: the first `k`, as many as fit in the page, with the first mount,
and each one after them with its own remount; the first mount's data fits in the page; and the calls stop at the
first that fails, after which `Unmount(target)` runs -/
theorem aufsMount_mounts_each_layer_once (pageSize : ℕ) (dirperm : Bool) (ro : List Bytes) (rw target mountLabel : Bytes)
    (hlabel : PlainLabel mountLabel)
    (hroom : (rwBranch rw).length + mountLabel.length + mountOffset dirperm ≤ pageSize) :
    ∃ k ≤ ro.length,
      (∀ j ≤ ro.length, (rwBranch rw ++ (ro.take j).flatMap layer).length + mountLabel.length + mountOffset dirperm ≤
        pageSize ↔ j ≤ k) ∧
      aufsMount pageSize dirperm (fun _ => true) ro rw target mountLabel =
        some (mounts dirperm target mountLabel rw ro k, false) ∧
      (mounts dirperm target mountLabel rw ro k).length = 1 + (ro.length - k) ∧
      (firstMount dirperm target mountLabel (rwBranch rw ++ (ro.take k).flatMap layer)).data.length ≤ pageSize ∧
      ∀ (ok : ℕ → Bool) (i : ℕ), i < (mounts dirperm target mountLabel rw ro k).length → ok i = false →
        (∀ j < i, ok j) → aufsMount pageSize dirperm ok ro rw target mountLabel =
          some ((mounts dirperm target mountLabel rw ro k).take (i + 1), true) := by
  obtain ⟨k, hk, hlargest, hrun, hdata⟩ := aufsMount_spec pageSize dirperm ro rw target mountLabel hlabel hroom
  refine ⟨k, hk, hlargest, ?_, length_mounts .., hdata, fun ok i hi hfail hbefore => ?_⟩
  · rw [hrun, untilFail_of_ok _ 0 _ (fun _ _ => rfl)]
  · rw [hrun, untilFail_of_fail ok 0 _ i hi (by simpa using hfail) (by simpa using hbefore)]

set_option maxRecDepth 8192 in
theorem aufsMount_two_layers :
    PlainLabel (lit "s0") ∧ (rwBranch (lit "/r")).length + (lit "s0").length + mountOffset false ≤ 4096 ∧
      aufsMount 4096 false (fun _ => true) [lit "/a", lit "/b"] (lit "/r") (lit "/t") (lit "s0") =
        some (mounts false (lit "/t") (lit "s0") (lit "/r") [lit "/a", lit "/b"] 2, false) := by
  have hlabel : PlainLabel (lit "s0") := by
    unfold PlainLabel
    decide
  have hroom : (rwBranch (lit "/r")).length + (lit "s0").length + mountOffset false ≤ 4096 := by decide
  obtain ⟨k, hk, hlargest, hrun, -⟩ :=
    aufsMount_mounts_each_layer_once 4096 false [lit "/a", lit "/b"] (lit "/r") (lit "/t") (lit "s0") hlabel hroom
  -- both layers fit in the page
  have h2 : 2 ≤ k := (hlargest 2 (by decide)).mp (by decide)
  have hk2 : k = 2 := by simp at hk; omega
  exact ⟨hlabel, hroom, hk2 ▸ hrun⟩

end DockerEngine.Graphdriver.Aufs
