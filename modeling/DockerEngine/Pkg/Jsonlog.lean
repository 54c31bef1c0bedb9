/-
Lean model of `pkg/jsonlog`: the entry `JSONLogs.MarshalJSONBuf` writes for one log message, with the strings of
`ffjsonWriteJSONBytesAsString` and `ffjsonWriteJSONString` and the time of `FastTimeMarshalJSON`, and `JSONLog` as
`json.Decoder.Decode` fills it from such an entry.

The two string writers are one loop over the bytes of the string (a Go string is its bytes): a byte of ASCII is
written as it is, or escaped when it is a control character, a quote, a backslash or one of `<`, `>` and `&`; an
invalid byte is written as the escape of U+FFFD; U+2028 and U+2029 are escaped; every other rune is written as it
is. `Decode` fills the fields whose names match the keys, ignoring ASCII case (the folds of `ſ` and the Kelvin sign,
which Go also matches to `s` and `k`, are left out), and skips the other keys. A type the field cannot hold is an
error, and so is a time `Parse` refuses.
-/
import DockerEngine.Go.Json
import DockerEngine.Go.Time

namespace DockerEngine.Jsonlog

open Go Utf8 Json

/-- the bytes of a literal of ASCII -/
def lit (s : String) : Bytes := s.toList.map Char.toUInt8

/-! ## Writing -/

/-- `hex[n]` of the string writers -/
def hex (n : ℕ) : UInt8 := ("0123456789abcdef".toList.getD n '0').toUInt8

/-- whether the string writers write an ASCII byte as it is -/
def plainASCII (b : UInt8) : Bool :=
  0x20 ≤ b ∧ b ≠ '\\'.toUInt8 ∧ b ≠ '"'.toUInt8 ∧ b ≠ '<'.toUInt8 ∧ b ≠ '>'.toUInt8 ∧ b ≠ '&'.toUInt8

/-- the escape the string writers write for an ASCII byte that is not written as it is -/
def escapeASCII (b : UInt8) : Bytes :=
  if b = '\\'.toUInt8 ∨ b = '"'.toUInt8 then ['\\'.toUInt8, b]
  else if b = '\n'.toUInt8 then lit "\\n"
  else if b = '\r'.toUInt8 then lit "\\r"
  else lit "\\u00" ++ [hex (b.toNat / 16), hex (b.toNat % 16)]

/-- the loop of `ffjsonWriteJSONBytesAsString(buf, s)`: what it writes for `s` between the quotes; the code writes a
run of bytes that need no escape at once, which gives the same bytes -/
def writeJSONBytes : Bytes → Bytes
  | [] => []
  | b :: rest =>
    if b < 0x80 then
      if plainASCII b then b :: writeJSONBytes rest else escapeASCII b ++ writeJSONBytes rest
    else if decodeRune (b :: rest) = (runeError, 1) then lit "\\ufffd" ++ writeJSONBytes rest
    else if (decodeRune (b :: rest)).1 = 0x2028 ∨ (decodeRune (b :: rest)).1 = 0x2029 then
      lit "\\u202" ++ [hex ((decodeRune (b :: rest)).1 % 16)] ++
        writeJSONBytes ((b :: rest).drop (decodeRune (b :: rest)).2)
    else (b :: rest).take (decodeRune (b :: rest)).2 ++ writeJSONBytes ((b :: rest).drop (decodeRune (b :: rest)).2)
termination_by s => s.length
decreasing_by
  all_goals (try simp_wf)
  all_goals (have hsize := (decodeRune_size b rest).1; omega)

/-- `ffjsonWriteJSONBytesAsString(buf, s)` -/
def ffjsonWriteJSONBytesAsString (s : Bytes) : Bytes := '"'.toUInt8 :: writeJSONBytes s ++ ['"'.toUInt8]

/-- `ffjsonWriteJSONString(buf, s)`: the same loop over the bytes of the string -/
def ffjsonWriteJSONString (s : Bytes) : Bytes := ffjsonWriteJSONBytesAsString s

/-- `JSONLogs`: the log line, the stream, the time already marshalled, and the extra attributes already encoded -/
structure JSONLogs where
  log : Bytes
  stream : Bytes
  created : Bytes
  rawAttrs : Bytes
  deriving DecidableEq, Repr

/-- `mj.MarshalJSONBuf(buf)`: each field that is not empty, in order, then the time; every field written before the
time is followed by a comma -/
def marshalJSONBuf (mj : JSONLogs) : Bytes :=
  let fields : List Bytes :=
    (if mj.log ≠ [] then [lit "\"log\":" ++ ffjsonWriteJSONBytesAsString mj.log] else []) ++
      (if mj.stream ≠ [] then [lit "\"stream\":" ++ ffjsonWriteJSONString mj.stream] else []) ++
      (if mj.rawAttrs ≠ [] then [lit "\"attrs\":" ++ mj.rawAttrs] else [])
  -- the braces of the object
  0x7B :: (fields.map (· ++ lit ",")).flatten ++ lit "\"time\":" ++ mj.created ++ [0x7D]

/-- `FastTimeMarshalJSON(t)`: the quoted time, for a year of `[0, 9999]` -/
def fastTimeMarshalJSON (t : Time) : Except Text Text :=
  if t.year < 0 ∨ 10000 ≤ t.year then .error "time.MarshalJSON: year outside of range [0,9999]".toList
  else .ok (Time.formatRFC3339Nano t)

/-! ## Reading -/

/-- the zero `time.Time`, January 1 of year 1, UTC -/
def zeroTime : Time := ⟨-62135596800, 0, 0⟩

/-- `JSONLog`: the fields `decodeLogLine` reads -/
structure JSONLog where
  log : Bytes
  stream : Bytes
  created : Time
  deriving DecidableEq, Repr

/-- `l.Reset()` -/
def JSONLog.reset : JSONLog := ⟨[], [], zeroTime⟩

/-- `mj.MarshalJSONBuf(buf)` of a `JSONLog`: the log and the stream when they are not empty, each followed by a comma,
then the time; an error of `FastTimeMarshalJSON` is returned -/
def JSONLog.marshalJSONBuf (mj : JSONLog) : Except Text Bytes := do
  let fields : List Bytes :=
    (if mj.log ≠ [] then [lit "\"log\":" ++ ffjsonWriteJSONString mj.log] else []) ++
      (if mj.stream ≠ [] then [lit "\"stream\":" ++ ffjsonWriteJSONString mj.stream] else [])
  let timestamp ← fastTimeMarshalJSON mj.created
  -- `buf.WriteString(timestamp)`: the time is ASCII
  pure (0x7B :: (fields.map (· ++ lit ",")).flatten ++ lit "\"time\":" ++ timestamp.map Char.toUInt8 ++ [0x7D])

/-- `mj.MarshalJSON()`: the bytes of the buffer -/
def JSONLog.marshalJSON (mj : JSONLog) : Except Text Bytes := mj.marshalJSONBuf

/-- an ASCII letter in lower case -/
def lower (b : UInt8) : UInt8 := if 'A'.toUInt8 ≤ b ∧ b ≤ 'Z'.toUInt8 then b + 0x20 else b

/-- whether a key names a field, ignoring ASCII case -/
def keyMatches (key name : Bytes) : Bool := key.map lower = name.map lower

/-- what a value stores into a string field: the string, nothing for `null`, and an error for another type -/
def storeString (v : Value) : Option (Option Bytes) :=
  match v with
  | .str body => (unquote body).map some
  | .null => some none
  | _ => none

/-- the member `key: v` stored into `l`; none for an error -/
def storeMember (l : JSONLog) (key : Bytes) (v : Value) : Option JSONLog :=
  if keyMatches key (lit "log") then (storeString v).map fun s => { l with log := s.getD l.log }
  else if keyMatches key (lit "stream") then (storeString v).map fun s => { l with stream := s.getD l.stream }
  else if keyMatches key (lit "time") then
    -- `Time.UnmarshalJSON` gets the bytes of the value, which parse only as a string
    match v with
    | .str body => (Time.parseRFC3339 ((0x22 :: body ++ [0x22]).map fun (b : UInt8) => Char.ofNat b.toNat)).map
        fun t => { l with created := t }
    | _ => none
  else some l

/-- `d.unmarshal(l)` of one value into `l`: the members of an object in order, nothing for `null`; none for an error -/
def unmarshalJSONLog (l : JSONLog) : Value → Option JSONLog
  | .obj members =>
    members.foldlM (fun l m => match unquote m.1 with
      | some key => storeMember l key m.2
      | none => none) l
  | .null => some l
  | _ => none

/-- `json.Unmarshal(data, &l)` into a zero `JSONLog`: `data` is one value, with only white space after it -/
def unmarshal (data : Bytes) : Option JSONLog :=
  match decodeValue data with
  | .ok v rest => if rest.all isSpace then unmarshalJSONLog JSONLog.reset v else none
  | _ => none

/-! ## The strings read back -/

theorem hexVal?_hex : ∀ n < 16, hexVal? (hex n) = some n := by decide

/-- what the string writers write for the rune at the start of `b :: rest`: the byte or its escape for ASCII, the
escape of U+FFFD for an invalid byte, the escape of U+2028 and U+2029, and the bytes of any other rune -/
def runeText (b : UInt8) (rest : Bytes) : Bytes :=
  if b < 0x80 then (if plainASCII b then [b] else escapeASCII b)
  else if decodeRune (b :: rest) = (runeError, 1) then lit "\\ufffd"
  else if (decodeRune (b :: rest)).1 = 0x2028 ∨ (decodeRune (b :: rest)).1 = 0x2029 then
    lit "\\u202" ++ [hex ((decodeRune (b :: rest)).1 % 16)]
  else (b :: rest).take (decodeRune (b :: rest)).2

/-- the loop writes one rune's text and goes on after the bytes `DecodeRune` read -/
theorem writeJSONBytes_cons (b : UInt8) (rest : Bytes) :
    writeJSONBytes (b :: rest) = runeText b rest ++ writeJSONBytes ((b :: rest).drop (decodeRune (b :: rest)).2) := by
  rw [writeJSONBytes, runeText]
  split_ifs with ha hp herr
  · rw [decodeRune_of_lt ha]
    rfl
  · rw [decodeRune_of_lt ha]
    rfl
  · rw [herr]
    rfl
  · rfl
  · rfl

theorem isSome_hexVal?_hex {n : ℕ} (h : n < 16) : (hexVal? (hex n)).isSome := by
  rw [hexVal?_hex n h]
  rfl

/-- a byte of a rune past ASCII is passed over inside a string -/
theorem plain_of_high {c : UInt8} (h : 0x80 ≤ c.toNat) : 0x20 ≤ c ∧ c ≠ '"'.toUInt8 ∧ c ≠ '\\'.toUInt8 := by
  refine ⟨UInt8.le_iff_toNat_le.mpr (by simp; omega), ?_, ?_⟩ <;> rintro rfl <;> exact absurd h (by decide)

/-- each rune's text is read by the scanner as part of the string -/
theorem scanString_runeText (b : UInt8) (rest t : Bytes) :
    scanString (runeText b rest ++ t) = (scanString t).map fun p => (runeText b rest ++ p.1, p.2) := by
  rw [runeText]
  split_ifs with ha hp herr hsep
  · -- a byte written as it is
    refine scanString_plain (fun c hc => ?_) t
    obtain rfl := List.mem_singleton.mp hc
    simp only [plainASCII, decide_eq_true_eq] at hp
    exact ⟨hp.1, hp.2.2.1, hp.2.1⟩
  · rw [escapeASCII]
    split_ifs with hbq hn hr
    · rw [List.cons_append, List.singleton_append, scanString_escape (by rcases hbq with rfl | rfl <;> decide)]
      rfl
    · rw [show lit "\\n" = ['\\'.toUInt8, 'n'.toUInt8] from rfl, List.cons_append, List.singleton_append,
        scanString_escape (by decide)]
      rfl
    · rw [show lit "\\r" = ['\\'.toUInt8, 'r'.toUInt8] from rfl, List.cons_append, List.singleton_append,
        scanString_escape (by decide)]
      rfl
    · have hb := UInt8.lt_iff_toNat_lt.mp ha
      simp only [UInt8.reduceToNat] at hb
      rw [show lit "\\u00" = ['\\'.toUInt8, 'u'.toUInt8, '0'.toUInt8, '0'.toUInt8] from rfl]
      simp only [List.cons_append, List.nil_append]
      rw [scanString_escape_u (by simp [isSome_hexVal?_hex (show b.toNat / 16 < 16 by omega),
        isSome_hexVal?_hex (show b.toNat % 16 < 16 by omega)]; decide)]
  · rw [show lit "\\ufffd" = ['\\'.toUInt8, 'u'.toUInt8, 'f'.toUInt8, 'f'.toUInt8, 'f'.toUInt8, 'd'.toUInt8] from rfl]
    simp only [List.cons_append, List.nil_append]
    rw [scanString_escape_u (by decide)]
  · rw [show lit "\\u202" = ['\\'.toUInt8, 'u'.toUInt8, '2'.toUInt8, '0'.toUInt8, '2'.toUInt8] from rfl]
    simp only [List.cons_append, List.nil_append]
    rw [scanString_escape_u (by simp [isSome_hexVal?_hex (Nat.mod_lt _ (show 16 > 0 by norm_num))]; decide)]
  · -- the bytes of a rune past ASCII
    obtain ⟨-, htake⟩ := decodeRune_valid herr
    refine scanString_plain (fun c hc => plain_of_high ?_) t
    rw [htake] at hc
    exact runeSelf_le_of_mem_encodeRune (runeSelf_le_of_decodeRune ha herr) hc

/-- the decoder turns each rune's text back into the rune `DecodeRune` read, with an invalid byte read as U+FFFD -/
theorem unquote_runeText (b : UInt8) (rest t : Bytes) :
    unquote (runeText b rest ++ t) = (encodeRune (decodeRune (b :: rest)).1 ++ ·) <$> unquote t := by
  rw [runeText]
  split_ifs with ha hp herr hsep
  · -- a byte written as it is
    simp only [plainASCII, decide_eq_true_eq] at hp
    rw [decodeRune_of_lt ha, encodeRune_toNat_of_lt ha, List.singleton_append,
      unquote_plain hp.1 ha hp.2.2.1 hp.2.1]
    rfl
  · rw [decodeRune_of_lt ha, encodeRune_toNat_of_lt ha, escapeASCII]
    split_ifs with hbq hn hr
    · rw [List.cons_append, List.singleton_append,
        unquote_escape (b := b) (by rcases hbq with rfl | rfl <;> decide) (by rcases hbq with rfl | rfl <;> decide)]
      rfl
    · subst hn
      rw [show lit "\\n" = ['\\'.toUInt8, 'n'.toUInt8] from rfl, List.cons_append, List.singleton_append,
        unquote_escape (b := '\n'.toUInt8) (by decide) (by decide)]
      rfl
    · subst hr
      rw [show lit "\\r" = ['\\'.toUInt8, 'r'.toUInt8] from rfl, List.cons_append, List.singleton_append,
        unquote_escape (b := '\r'.toUInt8) (by decide) (by decide)]
      rfl
    · have hb := UInt8.lt_iff_toNat_lt.mp ha
      simp only [UInt8.reduceToNat] at hb
      have hu : getu4 ['\\'.toUInt8, 'u'.toUInt8, '0'.toUInt8, '0'.toUInt8, hex (b.toNat / 16), hex (b.toNat % 16)] =
          some b.toNat := by
        simp only [getu4, and_self, if_true, hexVal?_hex _ (show b.toNat / 16 < 16 by omega),
          hexVal?_hex _ (show b.toNat % 16 < 16 by omega), show hexVal? '0'.toUInt8 = some 0 from rfl,
          option_some_bind, pure, Option.some.injEq]
        omega
      rw [show lit "\\u00" = ['\\'.toUInt8, 'u'.toUInt8, '0'.toUInt8, '0'.toUInt8] from rfl]
      simp only [List.cons_append, List.nil_append]
      rw [unquote_escape_u hu (by simp [isSurrogate]; omega), encodeRune_toNat_of_lt ha]
      rfl
  · rw [herr, show lit "\\ufffd" = ['\\'.toUInt8, 'u'.toUInt8, 'f'.toUInt8, 'f'.toUInt8, 'f'.toUInt8, 'd'.toUInt8]
      from rfl]
    simp only [List.cons_append, List.nil_append]
    rw [unquote_escape_u (r := 0xFFFD) (by decide) (by decide)]
    rfl
  · rcases hsep with hsep | hsep <;>
    · rw [hsep, show lit "\\u202" = ['\\'.toUInt8, 'u'.toUInt8, '2'.toUInt8, '0'.toUInt8, '2'.toUInt8] from rfl]
      simp only [List.cons_append, List.nil_append]
      rw [unquote_escape_u (r := (decodeRune (b :: rest)).1) (by rw [hsep]; decide) (by rw [hsep]; decide), hsep]
  · -- the bytes of a rune past ASCII, read back as that rune
    obtain ⟨hscalar, htake⟩ := decodeRune_valid herr
    obtain ⟨c, cs, hcs⟩ := List.exists_cons_of_ne_nil (encodeRune_ne_nil (decodeRune (b :: rest)).1)
    have hc : 0x80 ≤ c := by
      have := runeSelf_le_of_mem_encodeRune (runeSelf_le_of_decodeRune ha herr) (b := c)
        (by rw [hcs]; exact List.mem_cons_self)
      rw [UInt8.le_iff_toNat_le]
      simpa [runeSelf] using this
    rw [htake, hcs, List.cons_append, unquote_high hc, ← List.cons_append, ← hcs,
      decodeRune_encodeRune_append hscalar, List.drop_left]

/-- the scanner passes over everything the writer writes, up to the quote after it -/
theorem scanString_writeJSONBytes (t : Bytes) : ∀ s : Bytes,
    scanString (writeJSONBytes s ++ t) = (scanString t).map fun p => (writeJSONBytes s ++ p.1, p.2)
  | [] => by simp [writeJSONBytes]
  | b :: rest => by
    -- one rune's text at a time, the rest by the induction on what is left to write
    have hsize := (decodeRune_size b rest).1
    rw [writeJSONBytes_cons, List.append_assoc, scanString_runeText,
      scanString_writeJSONBytes t ((b :: rest).drop (decodeRune (b :: rest)).2), Option.map_map]
    simp [Function.comp_def]
termination_by s => s.length
decreasing_by simp; omega

/-- the decoder reads back the bytes written, each invalid byte as U+FFFD -/
theorem unquote_writeJSONBytes (t : Bytes) : ∀ s : Bytes,
    unquote (writeJSONBytes s ++ t) = (sanitize s ++ ·) <$> unquote t
  | [] => by simp [writeJSONBytes, sanitize, runes, runesAux]
  | b :: rest => by
    have hsize := (decodeRune_size b rest).1
    rw [writeJSONBytes_cons, List.append_assoc, unquote_runeText,
      unquote_writeJSONBytes t ((b :: rest).drop (decodeRune (b :: rest)).2), sanitize_cons]
    simp [Function.comp_def]
termination_by s => s.length
decreasing_by simp; omega

theorem unquote_writeJSONBytes_self (s : Bytes) : unquote (writeJSONBytes s) = some (sanitize s) := by
  simpa [unquote] using unquote_writeJSONBytes [] s

theorem scanString_writeJSONBytes_quote (s r : Bytes) :
    scanString (writeJSONBytes s ++ 0x22 :: r) = some (writeJSONBytes s, r) := by
  rw [scanString_writeJSONBytes, scanString_quote]
  simp

/-- what the string writers write is one JSON string, whose body is what the loop writes -/
theorem decodeValue_ffjsonWriteJSONBytesAsString (s : Bytes) :
    decodeValue (ffjsonWriteJSONBytesAsString s) = .ok (.str (writeJSONBytes s)) [] :=
  decodeValue_string (scanString_writeJSONBytes_quote s)

theorem scansTo_ffjsonWriteJSONBytesAsString (s : Bytes) :
    ScansTo (ffjsonWriteJSONBytesAsString s) (.str (writeJSONBytes s)) :=
  ScansTo.string (scanString_writeJSONBytes_quote s)

/-! ## The entries read back -/

/-- an optional field of `MarshalJSONBuf`, written as a member followed by a comma -/
theorem map_ite_member (c : Prop) [Decidable c] (key vt : Bytes) (v : Value) :
    (if c then [memberText key vt] else []).map (· ++ lit ",") =
      ((if c then [(key, vt, v)] else []) : List (Bytes × Bytes × Value)).map
        fun f => memberText f.1 f.2.1 ++ [0x2C] := by
  split_ifs <;> rfl

set_option maxRecDepth 8192 in
/-- with `Created` a JSON string and `RawAttrs` empty or an object, `MarshalJSONBuf` writes one object: the log, the
stream and the attributes when they are not empty, and the time -/
theorem decodeValue_marshalJSONBuf {mj : JSONLogs} {body : Bytes} {ms : List (Bytes × Value)} {rest : Bytes}
    (hcreated : decodeValue mj.created = .ok (.str body) [])
    (hattrs : mj.rawAttrs = [] ∨ decodeValue mj.rawAttrs = .ok (.obj ms) rest ∧ ∀ c ∈ rest, isSpace c) :
    decodeValue (marshalJSONBuf mj) = .ok (.obj (
      (if mj.log ≠ [] then [(lit "log", .str (writeJSONBytes mj.log))] else []) ++
      (if mj.stream ≠ [] then [(lit "stream", .str (writeJSONBytes mj.stream))] else []) ++
      (if mj.rawAttrs ≠ [] then [(lit "attrs", .obj ms)] else []) ++ [(lit "time", .str body)])) [] := by
  let fields : List (Bytes × Bytes × Value) :=
    (if mj.log ≠ [] then [(lit "log", ffjsonWriteJSONBytesAsString mj.log, .str (writeJSONBytes mj.log))] else []) ++
      (if mj.stream ≠ [] then [(lit "stream", ffjsonWriteJSONBytesAsString mj.stream,
        .str (writeJSONBytes mj.stream))] else []) ++
      (if mj.rawAttrs ≠ [] then [(lit "attrs", mj.rawAttrs, .obj ms)] else [])
  have htext : marshalJSONBuf mj = 0x7B :: (fields.map fun f => memberText f.1 f.2.1 ++ [0x2C]).flatten ++
      memberText (lit "time") mj.created ++ [0x7D] := by
    simp only [marshalJSONBuf, fields, List.map_append, ffjsonWriteJSONString, List.append_assoc]
    rw [← map_ite_member _ _ _ (.str (writeJSONBytes mj.log)), ← map_ite_member _ _ _ (.str (writeJSONBytes mj.stream)),
      ← map_ite_member _ _ _ (.obj ms)]
    rfl
  have hfields : ∀ f ∈ fields, PlainKey f.1 ∧ ScansTo f.2.1 f.2.2 := by
    intro f hf
    simp only [fields, List.mem_append] at hf
    rcases hf with (hf | hf) | hf <;> split_ifs at hf with hne <;> simp only [List.mem_cons, List.not_mem_nil,
      or_false] at hf <;> subst hf
    · exact ⟨PlainKey.of_plain (k := lit "log") (by decide), scansTo_ffjsonWriteJSONBytesAsString _⟩
    · exact ⟨PlainKey.of_plain (k := lit "stream") (by decide), scansTo_ffjsonWriteJSONBytesAsString _⟩
    · obtain ⟨h, hrest⟩ := hattrs.resolve_left hne
      exact ⟨PlainKey.of_plain (k := lit "attrs") (by decide), ScansTo.of_decodeValue h hrest (fun _ => Value.noConfusion)⟩
  have hvalues : fields.map (fun f => (f.1, f.2.2)) =
      (if mj.log ≠ [] then [(lit "log", .str (writeJSONBytes mj.log))] else []) ++
      (if mj.stream ≠ [] then [(lit "stream", .str (writeJSONBytes mj.stream))] else []) ++
      (if mj.rawAttrs ≠ [] then [(lit "attrs", .obj ms)] else []) := by
    simp only [fields, List.map_append]
    split_ifs <;> rfl
  rw [htext, decodeValue_object hfields (PlainKey.of_plain (by decide))
    (ScansTo.of_decodeValue hcreated (by simp) (fun _ => Value.noConfusion)), hvalues]

/-- the writer of a `JSONLog` is the writer of `JSONLogs`, with the time it marshals and no attributes -/
theorem JSONLog.marshalJSONBuf_eq (mj : JSONLog) :
    mj.marshalJSONBuf = (fastTimeMarshalJSON mj.created).map fun ts =>
      Jsonlog.marshalJSONBuf ⟨mj.log, mj.stream, ts.map Char.toUInt8, []⟩ := by
  rw [JSONLog.marshalJSONBuf]
  cases fastTimeMarshalJSON mj.created with
  | error e => rfl
  | ok ts => simp [Jsonlog.marshalJSONBuf, ffjsonWriteJSONString, Except.map]

theorem storeMember_log (l : JSONLog) (s : Bytes) :
    storeMember l (lit "log") (.str (writeJSONBytes s)) = some { l with log := sanitize s } := by
  simp [storeMember, show keyMatches (lit "log") (lit "log") = true by decide, storeString,
    unquote_writeJSONBytes_self]

theorem storeMember_stream (l : JSONLog) (s : Bytes) :
    storeMember l (lit "stream") (.str (writeJSONBytes s)) = some { l with stream := sanitize s } := by
  simp [storeMember, show keyMatches (lit "stream") (lit "log") = false by decide,
    show keyMatches (lit "stream") (lit "stream") = true by decide, storeString, unquote_writeJSONBytes_self]

theorem toNat_toUInt8 {c : Char} (h : c.toNat < 256) : c.toUInt8.toNat = c.toNat := by
  rw [← Char.toUInt8_val, UInt32.toNat_toUInt8, Char.toNat_val]
  exact Nat.mod_eq_of_lt h

theorem ofNat_toNat_toUInt8 {c : Char} (h : c.toNat < 256) : Char.ofNat c.toUInt8.toNat = c := by
  rw [toNat_toUInt8 h, Char.ofNat_toNat]

theorem toNat_of_rfc3339 {c : Char} (h : c.isDigit ∨ c ∈ "-T:.Z+".toList) : 0x2B ≤ c.toNat ∧ c.toNat ≤ 0x5A := by
  rcases h with h | h
  · have := Char.isDigit_iff_toNat.mp h
    simp at this
    omega
  · simp at h
    rcases h with rfl | rfl | rfl | rfl | rfl | rfl <;> decide

section Rfc3339

variable {body : Text} (hbody : ∀ c ∈ body, c.isDigit ∨ c ∈ "-T:.Z+".toList)
include hbody

/-- the time written between its quotes is a JSON string the scanner passes over -/
theorem decodeValue_quoted :
    decodeValue (('"' :: body ++ ['"']).map Char.toUInt8) = .ok (.str (body.map Char.toUInt8)) [] := by
  have hplain : ∀ b ∈ body.map Char.toUInt8, 0x20 ≤ b ∧ b ≠ '"'.toUInt8 ∧ b ≠ '\\'.toUInt8 := by
    intro b hb
    obtain ⟨c, hc, rfl⟩ := List.mem_map.mp hb
    have hnat := toNat_of_rfc3339 (hbody c hc)
    have hbyte := toNat_toUInt8 (c := c) (by omega)
    refine ⟨UInt8.le_iff_toNat_le.mpr (by simp only [hbyte, UInt8.reduceToNat]; omega), fun h => ?_, fun h => ?_⟩ <;>
    · have := congrArg UInt8.toNat h
      simp only [hbyte] at this
      revert this
      simp only [show ('"' : Char).toUInt8.toNat = 34 from rfl, show ('\\' : Char).toUInt8.toNat = 92 from rfl]
      omega
  have hmap : ('"' :: body ++ ['"']).map Char.toUInt8 = 0x22 :: body.map Char.toUInt8 ++ [0x22] := by simp; rfl
  rw [hmap]
  exact decodeValue_string fun r => by rw [scanString_plain hplain, scanString_quote]; simp

/-- the bytes of the time, read back as characters by `Time.UnmarshalJSON`, are the text `Format` wrote -/
theorem map_ofNat_quoted :
    (0x22 :: body.map Char.toUInt8 ++ [0x22]).map (fun (b : UInt8) => Char.ofNat b.toNat) = '"' :: body ++ ['"'] := by
  simp only [List.map_cons, List.map_append, List.map_map, Function.comp_def, List.map_nil]
  rw [List.map_congr_left fun c hc => ofNat_toNat_toUInt8 (by have := toNat_of_rfc3339 (hbody c hc); omega),
    List.map_id']
  rfl

theorem storeMember_time (l : JSONLog) :
    storeMember l (lit "time") (.str (body.map Char.toUInt8)) =
      (Time.parseRFC3339 ('"' :: body ++ ['"'])).map fun t => { l with created := t } := by
  simp only [storeMember, show keyMatches (lit "time") (lit "log") = false by decide,
    show keyMatches (lit "time") (lit "stream") = false by decide, show keyMatches (lit "time") (lit "time") = true by decide,
    Bool.false_eq_true, if_false, if_true]
  rw [map_ofNat_quoted hbody]

end Rfc3339

set_option maxRecDepth 8192 in
/-- `json.Unmarshal` of what `MarshalJSON` writes: the log and the stream with each invalid byte replaced by U+FFFD,
and the time as `Parse` reads the text `Format` wrote -/
theorem unmarshal_marshalJSON {j : JSONLog} (hyear : 0 ≤ j.created.year ∧ j.created.year < 10000)
    (hnsec : j.created.nsec < 10 ^ 9) (hoff : j.created.offset.natAbs < 360000) :
    ∃ data, j.marshalJSON = .ok data ∧ unmarshal data = some ⟨sanitize j.log, sanitize j.stream,
      ⟨j.created.sec + j.created.offset.tmod 60, j.created.nsec, j.created.offset.tdiv 60 * 60⟩⟩ := by
  obtain ⟨body, hformat, hbody⟩ := Time.formatRFC3339Nano_quoted j.created
  have hmarshal : j.marshalJSON = .ok (Jsonlog.marshalJSONBuf ⟨j.log, j.stream,
      ('"' :: body ++ ['"']).map Char.toUInt8, []⟩) := by
    rw [JSONLog.marshalJSON, JSONLog.marshalJSONBuf_eq, fastTimeMarshalJSON, if_neg (by omega), hformat]
    rfl
  refine ⟨_, hmarshal, ?_⟩
  rw [unmarshal, @decodeValue_marshalJSONBuf _ _ [] [] (decodeValue_quoted hbody) (.inl rfl)]
  simp only [List.all_nil, if_true, unmarshalJSONLog, ne_eq, not_true_eq_false, if_false, List.append_nil]
  have hsanitize : sanitize [] = [] := rfl
  -- the members in order: the log and the stream when written, then the time
  by_cases hlog : j.log = [] <;> by_cases hstream : j.stream = [] <;>
  simp [hlog, hstream, hsanitize, storeMember_log, storeMember_stream, storeMember_time hbody,
    unquote_of_plain (s := lit "log") (by decide), unquote_of_plain (s := lit "stream") (by decide),
    unquote_of_plain (s := lit "time") (by decide), ← hformat,
    Time.parseRFC3339_formatRFC3339Nano hyear hnsec hoff, JSONLog.reset]

/-- the two string writers write the same JSON string, which decodes to the bytes with each invalid one replaced by
U+FFFD; a `JSONLog` comes back with its strings so decoded and its time as `Parse` reads it; and `MarshalJSONBuf`
writes one object with the fields that are not empty and the time -/
theorem jsonlog_writers_read_back :
    (∀ s : Bytes, ffjsonWriteJSONString s = ffjsonWriteJSONBytesAsString s ∧
      decodeValue (ffjsonWriteJSONBytesAsString s) = .ok (.str (writeJSONBytes s)) [] ∧
      unquote (writeJSONBytes s) = some (sanitize s)) ∧
    (∀ j : JSONLog, 0 ≤ j.created.year ∧ j.created.year < 10000 → j.created.nsec < 10 ^ 9 →
      j.created.offset.natAbs < 360000 →
      ∃ data, j.marshalJSON = .ok data ∧ unmarshal data = some ⟨sanitize j.log, sanitize j.stream,
        ⟨j.created.sec + j.created.offset.tmod 60, j.created.nsec, j.created.offset.tdiv 60 * 60⟩⟩) ∧
    (∀ (mj : JSONLogs) (body : Bytes) (ms : List (Bytes × Value)) (rest : Bytes),
      decodeValue mj.created = .ok (.str body) [] →
      (mj.rawAttrs = [] ∨ decodeValue mj.rawAttrs = .ok (.obj ms) rest ∧ ∀ c ∈ rest, isSpace c) →
      decodeValue (marshalJSONBuf mj) = .ok (.obj (
        (if mj.log ≠ [] then [(lit "log", .str (writeJSONBytes mj.log))] else []) ++
        (if mj.stream ≠ [] then [(lit "stream", .str (writeJSONBytes mj.stream))] else []) ++
        (if mj.rawAttrs ≠ [] then [(lit "attrs", .obj ms)] else []) ++ [(lit "time", .str body)])) []) :=
  ⟨fun s => ⟨rfl, decodeValue_ffjsonWriteJSONBytesAsString s, unquote_writeJSONBytes_self s⟩,
    fun _ hyear hnsec hoff => unmarshal_marshalJSON hyear hnsec hoff,
    fun _ _ _ _ hcreated hattrs => decodeValue_marshalJSONBuf hcreated hattrs⟩

theorem jsonlog_writers_read_back_at_epoch :
    (∃ data, (⟨lit "a", lit "stdout", ⟨0, 0, 0⟩⟩ : JSONLog).marshalJSON = .ok data ∧
      unmarshal data = some ⟨sanitize (lit "a"), sanitize (lit "stdout"), ⟨0 + Int.tmod 0 60, 0, Int.tdiv 0 60 * 60⟩⟩) ∧
    decodeValue (marshalJSONBuf ⟨lit "a", [], ffjsonWriteJSONBytesAsString (lit "t"), []⟩) =
      .ok (.obj [(lit "log", .str (writeJSONBytes (lit "a"))), (lit "time", .str (writeJSONBytes (lit "t")))]) [] :=
  ⟨jsonlog_writers_read_back.2.1 ⟨lit "a", lit "stdout", ⟨0, 0, 0⟩⟩ (by decide) (by decide) (by decide),
    jsonlog_writers_read_back.2.2 ⟨lit "a", [], ffjsonWriteJSONBytesAsString (lit "t"), []⟩ (writeJSONBytes (lit "t"))
      [] [] (decodeValue_ffjsonWriteJSONBytesAsString (lit "t")) (.inl rfl)⟩

/-- a zone 30 seconds east of UTC is written as `+00:00`, and the time read back is 30 seconds later -/
theorem unmarshal_marshalJSON_moves_instant :
    ∃ data, (⟨lit "b", lit "stdout", ⟨0, 0, 30⟩⟩ : JSONLog).marshalJSON = .ok data ∧
      ∃ l, unmarshal data = some l ∧ ¬ l.created.Equal ⟨0, 0, 30⟩ := by
  obtain ⟨data, hdata, hread⟩ :=
    unmarshal_marshalJSON (j := ⟨lit "b", lit "stdout", ⟨0, 0, 30⟩⟩) (by decide) (by decide) (by decide)
  exact ⟨data, hdata, _, hread, by decide⟩

end DockerEngine.Jsonlog
