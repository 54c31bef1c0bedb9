/-
Lean model of `Link.ToEnv` in `daemon/links/links.go`: the environment variables a container gets for a linked
container, with the ports of `go-connections/nat` (`Port`, `SplitProtoPort`, `Port.Int`) and `nat.Sort` as
`sort.Sort` (`Go.Sort.sortSort`) with the order `ToEnv` gives it.

After the sort, the loop of `ToEnv` bulks runs of ports: from index `i`, `nextContiguous` walks on while each port's
number is at most one more than a counter that starts at the number of port `i` and goes up by one per port, not per
number, and a run of more than two ports gives the variables `_START` and `_END`.

`nextContiguous_spec` says what the walk returns: the ports up to it are within one per index of the first, and the
next one is further. `rangeLoop_spec` lifts it to every run the loop bulks. With two ports of one number, a run has a
gap: the ports `80/tcp`, `80/udp` and `82/tcp` get the range from 80 to 82, with no port 81. And a run of two ports
is not bulked: `80/tcp` and `81/tcp` get no range (`toEnv_ranges_break`).
-/
import DockerEngine.Go.Sort
import DockerEngine.Go.Strconv
import Mathlib.Tactic

namespace DockerEngine.Daemon.Links

open Go Go.Strconv

/-! ## Ports -/

/-- `nat.Port`, a string such as `80/tcp` -/
structure Port where
  raw : Text
  deriving DecidableEq, Repr

/-- `nat.SplitProtoPort(rawPort)`: the protocol and the port -/
def splitProtoPort (rawPort : Text) : Text × Text :=
  let parts := split rawPort '/'
  if rawPort = [] ∨ parts.length = 0 ∨ parts.getD 0 [] = [] then ([], [])
  else if parts.length = 1 then ("tcp".toList, rawPort)
  else if parts.getD 1 [] = [] then ("tcp".toList, parts.getD 0 [])
  else (parts.getD 1 [], parts.getD 0 [])

/-- `Port.Proto()` -/
def Port.proto (p : Port) : Text := (splitProtoPort p.raw).1

/-- `Port.Port()` -/
def Port.port (p : Port) : Text := (splitProtoPort p.raw).2

/-- `Port.Int()`: the number, with the error of `ParseUint(portStr, 10, 16)` dropped -/
def Port.int (p : Port) : ℤ :=
  if p.port = [] then 0 else intOfUint64 (parseUintBits p.port 16).1

/-- `strings.ToUpper` on ASCII text -/
def toUpper (s : Text) : Text := s.map Char.toUpper

/-- `strings.ToLower` on ASCII text -/
def toLower (s : Text) : Text := s.map Char.toLower

/-- the order `ToEnv` and `getDefaultPort` sort by: by number, and tcp first among the ports of one number -/
def portLess (ip jp : Port) : Bool :=
  ip.int < jp.int || (ip.int == jp.int && toLower ip.proto == "tcp".toList)

/-! ## The link -/

/-- the fields of `Link` that `ToEnv` reads -/
structure Link where
  childIP : Text
  name : Text
  childEnvironment : List Text
  ports : List Port
  deriving DecidableEq, Repr

/-- `getDefaultPort()`: the first port after sorting, and the ports as it leaves them (it sorts `l.Ports` in place
when there are two or more) -/
def getDefaultPort (ports : List Port) : Option Port × List Port :=
  if ports.length = 0 then (none, ports)
  else
    let ports := if 1 < ports.length then Sort.sortSort portLess ports else ports
    (ports.head?, ports)

/-- the loop of `nextContiguous` at index `i`, over the ports from `i` on, with `value` the counter -/
def nextContiguousLoop (n : ℕ) : List Port → ℤ → ℕ → ℕ
  | [], _, _ => n - 1
  | p :: ports, value, i => if value + 1 < p.int then i - 1 else nextContiguousLoop n ports (value + 1) (i + 1)

/-- `nextContiguous(ports, value, index)` -/
def nextContiguous (ports : List Port) (value : ℤ) (index : ℕ) : ℕ :=
  if index + 1 = ports.length then index
  else nextContiguousLoop ports.length (ports.drop (index + 1)) value (index + 1)

/-- the loop `for i := 0; i < len(l.Ports); {...}` of `ToEnv` from `i`: the first and the last port of each run it
bulks, in order. `fuel`, at least `len(l.Ports) - i`, bounds its turns -/
def rangeLoop (ports : List Port) : ℕ → ℕ → List (Port × Port)
  | 0, _ => []
  | fuel + 1, i =>
    if h : i < ports.length then
      let p := ports[i]
      let j := nextContiguous ports p.int i
      -- `l.Ports[j]`: `nextContiguous` stays below the length (`nextContiguous_spec`)
      if i + 1 < j then (p, ports.getD j p) :: rangeLoop ports fuel (j + 1)
      else rangeLoop ports fuel (i + 1)
    else []

/-! ## What `nextContiguous` passes -/

/-- from index `i ≥ 1`, over the ports `rest` left, the walk stops at `j` below `i + rest.length`: every port it
passes has a number at most one more than the counter, and the port after `j`, if any, has a larger one -/
theorem nextContiguousLoop_spec (n : ℕ) : ∀ (rest : List Port) (value : ℤ) (i j : ℕ), 1 ≤ i →
    n = i + rest.length → nextContiguousLoop n rest value i = j →
    i ≤ j + 1 ∧ j < n ∧ (∀ (k : ℕ) (p : Port), k + i ≤ j → rest[k]? = some p → p.int ≤ value + k + 1) ∧
      ∀ p : Port, rest[j + 1 - i]? = some p → value + (j + 1 - i : ℕ) + 1 < p.int
  | [], value, i, j, hi, hn, hj => by
    simp only [nextContiguousLoop, List.length_nil, Nat.add_zero] at hj hn
    subst hn hj
    exact ⟨by omega, by omega, fun k p hk _ => by omega, fun p hp => by simp at hp⟩
  | p :: rest, value, i, j, hi, hn, hj => by
    simp only [List.length_cons] at hn
    simp only [nextContiguousLoop] at hj
    split_ifs at hj with hstop
    · -- the walk stops before `p`
      subst hj
      have hzero : i - 1 + 1 - i = 0 := by omega
      refine ⟨by omega, by omega, fun k q hk _ => by omega, fun q hq => ?_⟩
      rw [hzero, List.getElem?_cons_zero, Option.some.injEq] at hq
      subst hq
      rw [hzero]
      simpa using hstop
    · obtain ⟨hij, hjn, hle, hnext⟩ :=
        nextContiguousLoop_spec n rest (value + 1) (i + 1) j (by omega) (by omega) hj
      refine ⟨by omega, hjn, fun k q hk hq => ?_, fun q hq => ?_⟩
      · cases k with
        | zero =>
          rw [List.getElem?_cons_zero, Option.some.injEq] at hq
          subst hq
          simpa using not_lt.mp hstop
        | succ k =>
          have hq' := hle k q (by omega) hq
          push_cast
          linarith
      · have hidx : j + 1 - i = (j + 1 - (i + 1)) + 1 := by omega
        rw [hidx, List.getElem?_cons_succ] at hq
        have hq' := hnext q hq
        rw [hidx]
        push_cast at hq' ⊢
        linarith

/-- `nextContiguous ports value i` for `i` a port of the list and `value` its number stops at `j`, at or after `i`
and below the length: the ports from `i` to `j` have numbers at most the first one's plus their distance from it,
and the port after `j`, if any, has a larger one -/
theorem nextContiguous_spec {ports : List Port} {i : ℕ} {p : Port} (hp : ports[i]? = some p) :
    let j := nextContiguous ports p.int i
    i ≤ j ∧ j < ports.length ∧
      (∀ (k : ℕ) (q : Port), i ≤ k → k ≤ j → ports[k]? = some q → q.int ≤ p.int + (k - i : ℕ)) ∧
      ∀ q : Port, ports[j + 1]? = some q → p.int + (j + 1 - i : ℕ) < q.int := by
  intro j
  have hi : i < ports.length := (List.getElem?_eq_some_iff.mp hp).1
  by_cases hlast : i + 1 = ports.length
  · -- the last port is a run of its own
    have hj : j = i := if_pos hlast
    rw [hj]
    refine ⟨le_rfl, hi, fun k q hik hki hq => ?_, fun q hq => ?_⟩
    · obtain rfl : k = i := by omega
      rw [hp, Option.some.injEq] at hq
      simp [hq]
    · simp [List.getElem?_eq_none (by omega : ports.length ≤ i + 1)] at hq
  · have hj : nextContiguousLoop ports.length (ports.drop (i + 1)) p.int (i + 1) = j := (if_neg hlast).symm
    obtain ⟨hij, hjn, hle, hnext⟩ :=
      nextContiguousLoop_spec ports.length (ports.drop (i + 1)) p.int (i + 1) j (by omega) (by simp; omega) hj
    refine ⟨by omega, hjn, fun k q hik hkj hq => ?_, fun q hq => ?_⟩
    · rcases Nat.eq_or_lt_of_le hik with rfl | hlt
      · rw [hp, Option.some.injEq] at hq
        simp [hq]
      · -- a port after `i` is read in the rest of the walk
        have hq' := hle (k - (i + 1)) q (by omega) (by rw [List.getElem?_drop]; convert hq using 2; omega)
        have hk : ((k - i : ℕ) : ℤ) = ((k - (i + 1) : ℕ) : ℤ) + 1 := by omega
        rw [hk]
        linarith
    · have hq' := hnext q (by rw [List.getElem?_drop]; convert hq using 2; omega)
      have hk : ((j + 1 - i : ℕ) : ℤ) = ((j + 1 - (i + 1) : ℕ) : ℤ) + 1 := by omega
      rw [hk]
      linarith

/-- every run the loop bulks, from port `a` at index `s` to port `b` at index `e`, has more than two ports, the ports
in it have numbers at most `a`'s plus their distance from `s`, and the port after it has a larger one -/
theorem rangeLoop_spec (ports : List Port) : ∀ (fuel i : ℕ) (a b : Port), (a, b) ∈ rangeLoop ports fuel i →
    ∃ s e, i ≤ s ∧ s + 1 < e ∧ ports[s]? = some a ∧ ports[e]? = some b ∧
      (∀ (k : ℕ) (q : Port), s ≤ k → k ≤ e → ports[k]? = some q → q.int ≤ a.int + (k - s : ℕ)) ∧
      ∀ q : Port, ports[e + 1]? = some q → a.int + (e + 1 - s : ℕ) < q.int
  | 0, _, _, _, h => by simp [rangeLoop] at h
  | fuel + 1, i, a, b, h => by
    simp only [rangeLoop] at h
    split_ifs at h with hi hrun
    · rcases List.mem_cons.mp h with hab | htail
      · -- the run that starts at `i`
        obtain ⟨rfl, rfl⟩ := Prod.mk.injEq _ _ _ _ ▸ hab
        obtain ⟨-, hjn, hle, hnext⟩ := nextContiguous_spec (List.getElem?_eq_getElem hi)
        exact ⟨i, _, le_rfl, hrun, List.getElem?_eq_getElem hi, by simp [List.getD_eq_getElem?_getD, hjn], hle,
          hnext⟩
      · obtain ⟨s, e, hs, rest⟩ := rangeLoop_spec ports fuel _ a b htail
        exact ⟨s, e, by omega, rest⟩
    · obtain ⟨s, e, hs, rest⟩ := rangeLoop_spec ports fuel _ a b h
      exact ⟨s, e, by omega, rest⟩
    · simp at h

/-- ports with strictly increasing numbers are at least their distance apart -/
theorem int_add_le_of_pairwise {ports : List Port} (hsorted : ports.Pairwise fun p q => p.int < q.int)
    {s : ℕ} {a : Port} (ha : ports[s]? = some a) :
    ∀ (d : ℕ) (q : Port), ports[s + d]? = some q → a.int + d ≤ q.int
  | 0, q, hq => by
    rw [Nat.add_zero, ha, Option.some.injEq] at hq
    simp [hq]
  | d + 1, q, hq => by
    have hlt : s + d < ports.length := by have := (List.getElem?_eq_some_iff.mp hq).1; omega
    have hprev := int_add_le_of_pairwise hsorted ha d ports[s + d] (List.getElem?_eq_getElem hlt)
    obtain ⟨hq_lt, rfl⟩ := List.getElem?_eq_some_iff.mp hq
    have hstep : ports[s + d].int < ports[s + (d + 1)].int :=
      List.pairwise_iff_getElem.mp hsorted _ _ hlt hq_lt (by omega)
    push_cast
    linarith

/-- with no two ports of one number, in order, every run the loop bulks goes up from its first port to its last
one by one number per port: `a < b`, and every number from `a` to `b` is a port's -/
theorem rangeLoop_gapFree {ports : List Port} (hsorted : ports.Pairwise fun p q => p.int < q.int) {fuel i : ℕ}
    {a b : Port} (h : (a, b) ∈ rangeLoop ports fuel i) :
    a.int < b.int ∧ ∀ x : ℤ, a.int ≤ x → x ≤ b.int → ∃ p ∈ ports, p.int = x := by
  obtain ⟨s, e, -, hse, ha, hb, hle, -⟩ := rangeLoop_spec ports fuel i a b h
  -- each port of the run is exactly its distance above the first
  have hexact : ∀ (d : ℕ) (q : Port), s + d ≤ e → ports[s + d]? = some q → q.int = a.int + d := by
    intro d q hd hq
    have hup := hle (s + d) q (by omega) hd hq
    have hdown := int_add_le_of_pairwise hsorted ha d q hq
    rw [Nat.add_sub_cancel_left] at hup
    exact le_antisymm hup hdown
  have hse' : s + (e - s) = e := by omega
  have hbe : b.int = a.int + (e - s : ℕ) := hexact (e - s) b (by omega) (by rw [hse']; exact hb)
  refine ⟨by rw [hbe]; omega, fun x hax hxb => ?_⟩
  obtain ⟨d, rfl⟩ : ∃ d : ℕ, x = a.int + d := ⟨(x - a.int).toNat, by omega⟩
  have hd : s + d ≤ e := by omega
  have hlt : s + d < ports.length := by have := (List.getElem?_eq_some_iff.mp hb).1; omega
  exact ⟨ports[s + d], List.getElem_mem hlt, hexact d _ hd (List.getElem?_eq_getElem hlt)⟩

/-- `80/tcp`, `81/tcp` and `82/tcp` make one run, from `80` to `82` -/
theorem rangeLoop_gapFree_three :
    rangeLoop [⟨"80/tcp".toList⟩, ⟨"81/tcp".toList⟩, ⟨"82/tcp".toList⟩] 3 0 = [(⟨"80/tcp".toList⟩, ⟨"82/tcp".toList⟩)] ∧
      Port.int ⟨"80/tcp".toList⟩ < Port.int ⟨"82/tcp".toList⟩ ∧ ∀ x : ℤ, Port.int ⟨"80/tcp".toList⟩ ≤ x →
        x ≤ Port.int ⟨"82/tcp".toList⟩ → ∃ p ∈ [(⟨"80/tcp".toList⟩ : Port), ⟨"81/tcp".toList⟩, ⟨"82/tcp".toList⟩],
          p.int = x := by
  have h : rangeLoop [⟨"80/tcp".toList⟩, ⟨"81/tcp".toList⟩, ⟨"82/tcp".toList⟩] 3 0 =
      [(⟨"80/tcp".toList⟩, ⟨"82/tcp".toList⟩)] := by decide
  exact ⟨h, rangeLoop_gapFree (by decide) (h ▸ List.mem_singleton_self _)⟩

section Env

variable (aliasName childIP : Text)

/-- the variables of a run from `p` to `q` -/
def rangeEnv : Port × Port → List Text
  | (p, q) =>
    let pre := aliasName ++ "_PORT_".toList ++ p.port ++ ['_']
    [pre ++ toUpper p.proto ++ "_START=".toList ++ p.proto ++ "://".toList ++ childIP ++ [':'] ++ p.port,
      pre ++ toUpper p.proto ++ "_ADDR=".toList ++ childIP,
      pre ++ toUpper p.proto ++ "_PROTO=".toList ++ p.proto,
      pre ++ toUpper p.proto ++ "_PORT_START=".toList ++ p.port,
      pre ++ toUpper q.proto ++ "_END=".toList ++ q.proto ++ "://".toList ++ childIP ++ [':'] ++ q.port,
      pre ++ toUpper q.proto ++ "_PORT_END=".toList ++ q.port]

/-- the variables of one port -/
def portEnv (p : Port) : List Text :=
  let pre := aliasName ++ "_PORT_".toList ++ p.port ++ ['_'] ++ toUpper p.proto
  [pre ++ ['='] ++ p.proto ++ "://".toList ++ childIP ++ [':'] ++ p.port,
    pre ++ "_ADDR=".toList ++ childIP,
    pre ++ "_PORT=".toList ++ p.port,
    pre ++ "_PROTO=".toList ++ p.proto]

/-- the variable of one entry `key=value` of the child's environment; `HOME`, `PATH` and entries without `=` give
none -/
def childEnv (v : Text) : List Text :=
  match cutRune '=' v with
  | none => []
  | some (key, value) =>
    if key = "HOME".toList ∨ key = "PATH".toList then [] else [aliasName ++ "_ENV_".toList ++ key ++ ['='] ++ value]

end Env

/-- `path.Split(name)`: the part after the last slash -/
def baseName (name : Text) : Text :=
  match cutLastRune '/' name with
  | some (_, file) => file
  | none => name

/-- `l.ToEnv()` -/
def toEnv (l : Link) : List Text :=
  let aliasName := (toUpper (baseName l.name)).map fun c => if c = '-' then '_' else c
  let (defaultPort, ports) := getDefaultPort l.ports
  let env := match defaultPort with
    | some p => [aliasName ++ "_PORT=".toList ++ p.proto ++ "://".toList ++ l.childIP ++ [':'] ++ p.port]
    | none => []
  let ports := Sort.sortSort portLess ports
  env ++ (rangeLoop ports ports.length 0).flatMap (rangeEnv aliasName l.childIP) ++
    ports.flatMap (portEnv aliasName l.childIP) ++ [aliasName ++ "_NAME=".toList ++ l.name] ++
    l.childEnvironment.flatMap (childEnv aliasName)

/-! ## Two links whose ranges break -/

/-- container `web` exposing `80/tcp`, `82/tcp` and `80/udp` -/
def gapLink : Link := ⟨"172.17.0.2".toList, "/web".toList, [], [⟨"80/tcp".toList⟩, ⟨"82/tcp".toList⟩, ⟨"80/udp".toList⟩]⟩

/-- container `web` exposing `80/tcp` and `81/tcp` -/
def pairLink : Link := ⟨"172.17.0.2".toList, "/web".toList, [], [⟨"80/tcp".toList⟩, ⟨"81/tcp".toList⟩]⟩

theorem toEnv_ranges_break :
    (gapLink.ports.map fun p => (p.int, p.proto)).Nodup ∧
      "WEB_PORT_80_TCP_START=tcp://172.17.0.2:80".toList ∈ toEnv gapLink ∧
      "WEB_PORT_80_TCP_END=tcp://172.17.0.2:82".toList ∈ toEnv gapLink ∧ (∀ p ∈ gapLink.ports, p.int ≠ 81) ∧
      pairLink.ports.map Port.int = [80, 81] ∧ ∀ e ∈ toEnv pairLink, ¬ List.IsInfix "_START".toList e := by
  refine ⟨by decide, by decide, by decide, by decide, by decide, by decide⟩

end DockerEngine.Daemon.Links
