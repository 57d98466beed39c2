import Termwise.Proofs.Codecs
import Termwise.Proofs.Tokenization

/-! Links read back. A document is written as JSON, bytes, compressed bytes and letters, and each of
the four layers is undone by reading, so a link gives back the rows of tokens it was made of. -/
namespace Termwise

theorem Text.hex_succ {width n : Nat} (positive : 0 < width) :
    Text.hex (width + 1) n = Text.hex width (n / 16) ++ [(n % 16).digitChar] := by
  unfold Text.hex
  rw [Nat.toDigits_eq_if (by decide)]
  split
  next small =>
    obtain ⟨width, rfl⟩ := Nat.exists_eq_succ_of_ne_zero (Nat.ne_of_gt positive)
    rw [Nat.div_eq_of_lt small, Nat.mod_eq_of_lt small]
    simp [List.replicate_succ']
  next large => simp

theorem Text.hex_four {n : Nat} (small : n < 65536) :
    Text.hex 4 n =
      [(n / 4096).digitChar, (n / 256 % 16).digitChar, (n / 16 % 16).digitChar,
        (n % 16).digitChar] := by
  have first : Text.hex 1 (n / 16 / 16 / 16) = [(n / 16 / 16 / 16).digitChar] := by
    simp [Text.hex, Nat.toDigits_of_lt_base (b := 16) (n := n / 16 / 16 / 16) (by omega)]
  rw [Text.hex_succ (by decide), Text.hex_succ (by decide), Text.hex_succ (by decide), first]
  simp [Nat.div_div_eq_div_mul]

namespace Json

theorem hexDigit?_digitChar {n : Nat} (small : n < 16) : hexDigit? n.digitChar = some n := by
  revert n
  decide

theorem unit?_hex {n : Nat} (small : n < 65536) (rest : List Char) :
    unit? (Text.hex 4 n ++ rest) = some (n, rest) := by
  rw [Text.hex_four small]
  simp only [List.cons_append, List.nil_append, unit?,
    hexDigit?_digitChar (show n / 4096 < 16 by omega),
    hexDigit?_digitChar (show n / 256 % 16 < 16 by omega),
    hexDigit?_digitChar (show n / 16 % 16 < 16 by omega),
    hexDigit?_digitChar (show n % 16 < 16 by omega), Option.bind_eq_bind, Option.bind_some]
  rw [show (n / 4096 * 16 + n / 256 % 16) * 256 + (n / 16 % 16 * 16 + n % 16) = n by omega]
  rfl

theorem unitChar?_unit {c : Char} (small : c.toNat < 0x10000) (rest : List Char) :
    unitChar? (Text.hex 4 c.toNat ++ rest) = some (c, rest) := by
  have valid : c.toNat < 0xd800 ∨ 0xdfff < c.toNat ∧ c.toNat < 0x110000 := c.valid
  simp only [unitChar?, unit?_hex small, Option.bind_eq_bind, Option.bind_some]
  rw [if_neg (by omega), if_neg (by omega), Char.ofNat_toNat]
  rfl

theorem unitChar?_surrogates {high low : Nat} (first : 0xd800 ≤ high ∧ high < 0xdc00)
    (second : 0xdc00 ≤ low ∧ low < 0xe000) (rest : List Char) :
    unitChar? (Text.hex 4 high ++ (unitEscape low ++ rest)) =
      some (Char.ofNat (0x10000 + (high - 0xd800) * 1024 + (low - 0xdc00)), rest) := by
  simp only [unitChar?, unit?_hex (show high < 65536 by omega),
    unit?_hex (show low < 65536 by omega),
    Option.bind_eq_bind, Option.bind_some, unitEscape, List.cons_append, if_pos first,
    if_pos second]
  rfl

theorem stringBody?_plain (fuel : Nat) {c : Char} (notQuote : c ≠ '"') (notEscape : c ≠ '\\')
    (visible : 0x20 ≤ c.toNat) (rest : List Char) :
    stringBody? (fuel + 1) (c :: rest) = (stringBody? fuel rest).bind fun (body, after) =>
      some (c :: body, after) := by
  rw [stringBody?]
  · rw [if_neg (by simp only [notEscape, or_false]; omega)]
    rfl
  · exact notQuote
  · exact fun _ mark _ => notEscape mark
  · exact fun _ _ mark _ => notEscape mark

theorem stringBody?_short (fuel : Nat) {e c : Char} (other : e ≠ 'u')
    (short : shortEscape? e = some c) (rest : List Char) :
    stringBody? (fuel + 1) ('\\' :: e :: rest) =
      (stringBody? fuel rest).bind fun (body, after) => some (c :: body, after) := by
  rw [stringBody?]
  · rw [short]
    rfl
  · exact other

theorem stringBody?_unit (fuel : Nat) {cs more : List Char} {c : Char}
    (unit : unitChar? cs = some (c, more)) :
    stringBody? (fuel + 1) ('\\' :: 'u' :: cs) =
      (stringBody? fuel more).bind fun (body, after) => some (c :: body, after) := by
  rw [stringBody?, unit]
  rfl

theorem stringBody?_surrogates (fuel : Nat) {c : Char} {high low : Nat}
    (first : 0xd800 ≤ high ∧ high < 0xdc00) (second : 0xdc00 ≤ low ∧ low < 0xe000)
    (value : 0x10000 + (high - 0xd800) * 1024 + (low - 0xdc00) = c.toNat) (rest : List Char) :
    stringBody? (fuel + 1) (unitEscape high ++ unitEscape low ++ rest) =
      (stringBody? fuel rest).bind fun (body, after) => some (c :: body, after) := by
  have unit := unitChar?_surrogates first second rest
  rw [value, Char.ofNat_toNat] at unit
  rw [List.append_assoc]
  exact stringBody?_unit fuel unit

/-- Every character reads back, in whichever way it is written. -/
theorem stringBody?_escapedChar (fuel : Nat) (c : Char) (rest : List Char) :
    stringBody? (fuel + 1) (escapedChar c ++ rest) =
      (stringBody? fuel rest).bind fun (body, after) => some (c :: body, after) := by
  unfold escapedChar
  split
  next mark =>
    rcases mark with rfl | rfl
    · exact stringBody?_short fuel (by decide) rfl rest
    · exact stringBody?_short fuel (by decide) rfl rest
  split
  next mark => exact mark ▸ stringBody?_short fuel (by decide) rfl rest
  split
  next mark => exact mark ▸ stringBody?_short fuel (by decide) rfl rest
  split
  next mark => exact mark ▸ stringBody?_short fuel (by decide) rfl rest
  split
  next mark => exact mark ▸ stringBody?_short fuel (by decide) rfl rest
  split
  next mark => exact mark ▸ stringBody?_short fuel (by decide) rfl rest
  next marks _ _ _ _ _ =>
    split
    next visible =>
      exact stringBody?_plain fuel (fun quote => marks (.inl quote)) (fun mark => marks (.inr mark))
        visible.1 rest
    next =>
      split
      next small => exact stringBody?_unit fuel (unitChar?_unit small rest)
      next large =>
        have valid : c.toNat < 0xd800 ∨ 0xdfff < c.toNat ∧ c.toNat < 0x110000 := c.valid
        exact stringBody?_surrogates fuel (by omega) (by omega) (by omega) rest

theorem stringBody?_written (cs : List Char) (fuel : Nat) (enough : cs.length < fuel)
    (rest : List Char) :
    stringBody? fuel (cs.flatMap escapedChar ++ '"' :: rest) = some (cs, rest) := by
  induction cs generalizing fuel with
  | nil =>
    obtain ⟨fuel, rfl⟩ := Nat.exists_eq_succ_of_ne_zero (Nat.ne_of_gt enough)
    rfl
  | cons c more ih =>
    obtain ⟨fuel, rfl⟩ := Nat.exists_eq_succ_of_ne_zero (Nat.ne_of_gt (Nat.zero_lt_of_lt enough))
    rw [List.flatMap_cons, List.append_assoc, stringBody?_escapedChar,
      ih fuel (Nat.lt_of_succ_lt_succ enough)]
    rfl

theorem length_le_escaped (cs : List Char) : cs.length ≤ (cs.flatMap escapedChar).length := by
  have written : ∀ c, 0 < (escapedChar c).length := by
    intro c
    unfold escapedChar
    repeat' split
    all_goals exact Nat.succ_pos _
  induction cs with
  | nil => exact Nat.le_refl 0
  | cons c rest ih =>
    have first := written c
    rw [List.flatMap_cons, List.length_append, List.length_cons]
    omega

theorem skipBlanks_cons {c : Char} (visible : isBlank c = false) (rest : List Char) :
    skipBlanks (c :: rest) = c :: rest := List.dropWhile_cons_of_neg (by simp [visible])

/-- A value whose written form is read back, whatever follows it. -/
structure Readable (j : Json) : Prop where
  opening : ∃ c rest, j.write = c :: rest ∧ isBlank c = false ∧ c ≠ ']'
  value : ∀ fuel rest, j.write.length < fuel → value? fuel (j.write ++ rest) = some (j, rest)

theorem readable_string (s : String) : Readable (.string s) := by
  refine ⟨⟨'"', _, rfl, rfl, by decide⟩, ?_⟩
  intro fuel rest enough
  obtain ⟨fuel, rfl⟩ := Nat.exists_eq_succ_of_ne_zero (Nat.ne_of_gt (Nat.zero_lt_of_lt enough))
  have long := length_le_escaped s.toList
  simp only [write, writeString, List.length_cons, List.length_append, Nat.succ_eq_add_one]
    at enough
  have body := stringBody?_written s.toList fuel (by omega) rest
  simp only [write, writeString, List.cons_append, List.append_assoc, List.nil_append, value?, body,
    Option.map_some, String.ofList_toList]

theorem writeItems_opening (items : List Json) {first : Json} {c : Char} {more : List Char}
    (opens : first.write = c :: more) : ∃ more, writeItems (first :: items) = c :: more := by
  cases items with
  | nil => exact ⟨more, opens⟩
  | cons other items => exact ⟨_, by rw [writeItems, opens]; rfl⟩

theorem items?_written (first : Json) (items : List Json)
    (readable : ∀ j ∈ first :: items, Readable j) (fuel : Nat)
    (enough : (writeItems (first :: items)).length + 1 < fuel) (rest : List Char) :
    items? fuel (writeItems (first :: items) ++ ']' :: rest) = some (first :: items, rest) := by
  induction items generalizing first fuel with
  | nil =>
    obtain ⟨fuel, rfl⟩ := Nat.exists_eq_succ_of_ne_zero (Nat.ne_of_gt (Nat.zero_lt_of_lt enough))
    rw [writeItems] at enough ⊢
    rw [items?, (readable first (by simp)).value fuel _ (by omega)]
    rfl
  | cons next items ih =>
    obtain ⟨fuel, rfl⟩ := Nat.exists_eq_succ_of_ne_zero (Nat.ne_of_gt (Nat.zero_lt_of_lt enough))
    obtain ⟨c, more, opens, visible, -⟩ := (readable next (by simp)).opening
    rw [writeItems, List.length_append, List.length_cons] at enough
    have later := ih next (fun j member => readable j (List.mem_cons_of_mem _ member))
      fuel (by omega)
    obtain ⟨more, start⟩ := writeItems_opening items opens
    rw [writeItems, List.append_assoc, items?, (readable first (by simp)).value fuel _ (by omega)]
    simp only [Option.bind_eq_bind, Option.bind_some, List.cons_append,
      skipBlanks_cons (c := ',') rfl]
    rw [start, List.cons_append, skipBlanks_cons visible, ← List.cons_append, ← start, later]
    rfl

theorem readable_array {items : List Json} (readable : ∀ j ∈ items, Readable j) :
    Readable (.array items) := by
  refine ⟨⟨'[', _, rfl, rfl, by decide⟩, ?_⟩
  intro fuel rest enough
  obtain ⟨fuel, rfl⟩ := Nat.exists_eq_succ_of_ne_zero (Nat.ne_of_gt (Nat.zero_lt_of_lt enough))
  rw [write, List.cons_append, List.append_assoc, List.cons_append, List.nil_append]
  cases items with
  | nil => rfl
  | cons first items =>
    simp only [write, List.length_cons, List.length_append, Nat.succ_eq_add_one] at enough
    have read := items?_written first items readable fuel (by omega) rest
    obtain ⟨c, more, opens, visible, closes⟩ := (readable first (by simp)).opening
    obtain ⟨more, start⟩ := writeItems_opening items opens
    rw [start] at read ⊢
    rw [value?, List.cons_append, skipBlanks_cons visible]
    split
    next after shape => exact absurd (List.cons.inj shape).1 closes
    next => rw [← List.cons_append, read, Option.map_some]

theorem Readable.read {j : Json} (readable : Readable j) : read? j.write = some j := by
  obtain ⟨c, more, opens, visible, -⟩ := readable.opening
  have value := readable.value (2 * j.write.length + 2) [] (by omega)
  rw [List.append_nil] at value
  have start : skipBlanks j.write = j.write := by rw [opens, skipBlanks_cons visible]
  simp only [read?, start, value, Option.bind_eq_bind, Option.bind_some]
  rfl

end Json

namespace Document

theorem rowsJson_readable (rows : List (List String)) : (rowsJson rows).Readable := by
  refine Json.readable_array fun j member => ?_
  obtain ⟨row, -, rfl⟩ := List.mem_map.mp member
  refine Json.readable_array fun j member => ?_
  obtain ⟨token, -, rfl⟩ := List.mem_map.mp member
  exact Json.readable_string token

theorem rowsOfJson?_rowsJson (rows : List (List String)) :
    rowsOfJson? (rowsJson rows) = some rows := by
  unfold rowsOfJson? rowsJson
  refine mapM_map_eq_some (fun row => ?_) rows
  exact mapM_map_eq_some (f := Json.string) (fun _ => rfl) row

end Document

namespace Codec.Query

theorem unescape_plain {cs : List Char} (plus : '+' ∉ cs) (percent : '%' ∉ cs) :
    unescape cs = cs := by
  have spaced : (cs.map fun c => if c = '+' then ' ' else c) = cs := by
    refine (List.map_congr_left fun c member => if_neg ?_).trans (List.map_id cs)
    rintro rfl
    exact plus member
  simp only [unescape, spaced, if_neg percent]

end Codec.Query

namespace Document

variable {payload : List Char}

/-- Text that means itself as a value of a query string, and ends it nowhere. -/
def Unmarked (payload : List Char) : Prop := ∀ c ∈ payload, c ∉ ['&', '+', '%', '?']

theorem padded_unmarked (bytes : List UInt8) : Unmarked (padded (Codec.Base64.encode bytes)) := by
  intro c member
  rcases List.mem_append.mp member with letter | padding
  · have plain := (Codec.Base64.encode_plain bytes c letter).2
    simp only [List.mem_cons, not_or] at plain ⊢
    exact plain.2
  · obtain rfl := List.eq_of_mem_replicate padding
    decide

theorem encode_unmarked (bytes : List UInt8) : Unmarked (Codec.Base64.encode bytes) := by
  intro c member
  exact padded_unmarked bytes c (List.mem_append_left _ member)

theorem padded_padded (letters : List Char) : padded (padded letters) = padded letters := by
  have full : (padded letters).length % 4 = 0 := by
    rw [padded, List.length_append, List.length_replicate]
    omega
  rw [padded, full]
  exact List.append_nil _

theorem linkStart_toList : linkStart.toList = "v=1".toList ++ '&' :: "d=".toList := by decide

theorem pairs_link (unmarked : Unmarked payload) :
    Codec.Query.pairs (linkStart.toList ++ payload) = [(['v'], ['1']), (['d'], payload)] := by
  have ampersand : '&' ∉ "d=".toList ++ payload := by
    intro member
    rcases List.mem_append.mp member with first | later
    · revert first
      decide
    · exact unmarked _ later (by decide)
  have value : Codec.Query.unescape payload = payload :=
    Codec.Query.unescape_plain (fun member => unmarked _ member (by decide))
      (fun member => unmarked _ member (by decide))
  have second : Codec.Query.pair ("d=".toList ++ payload) = (['d'], Codec.Query.unescape payload) :=
    rfl
  rw [linkStart_toList, List.append_assoc, List.cons_append, Codec.Query.pairs,
    Text.splitAt_append (by decide), Text.splitAt_of_not_mem ampersand]
  rw [value] at second
  exact congrArg (fun field => [(['v'], ['1']), field]) second

theorem queryPart_link (unmarked : Unmarked payload) :
    queryPart (linkStart.toList ++ payload) = linkStart.toList ++ payload := by
  refine if_neg fun member => ?_
  rcases List.mem_append.mp member with first | later
  · revert first
    decide
  · exact unmarked _ later (by decide)

theorem queryPart_url {url : List Char} (absent : '?' ∉ url) (rest : List Char) :
    queryPart (url ++ '?' :: rest) = rest := by
  unfold queryPart
  rw [if_pos (by simp), List.dropWhile_append_of_pos]
  · rfl
  · intro c member
    refine decide_eq_true ?_
    rintro rfl
    exact absent member

theorem payloadJson?_letters {rows : List (List String)} {z : List UInt8}
    (contents : Codec.Zlib.decompress? z = some (Text.Utf8.encode (payloadText rows)))
    (letters : padded payload = padded (Codec.Base64.encode z)) :
    payloadJson? (String.ofList payload) = some (rowsJson rows) := by
  have read : Json.read? (payloadText rows) = some (rowsJson rows) := (rowsJson_readable rows).read
  simp only [payloadJson?, String.toList_ofList, letters, Codec.Base64.decode?_encode, contents,
    Text.Utf8.decode?_encode, read, Option.bind_eq_bind, Option.bind_some]

theorem decodeQuery_of_pairs {query : String} {rows : List (List String)}
    (fields : Codec.Query.pairs (queryPart query.toList) = [(['v'], ['1']), (['d'], payload)])
    (data : payloadJson? (String.ofList payload) = some (rowsJson rows)) :
    decodeQuery query = .ok (some rows) := by
  have version : Codec.Query.value? "v" [(['v'], ['1']), (['d'], payload)] = some formatVersion :=
    rfl
  have given : Codec.Query.value? "d" [(['v'], ['1']), (['d'], payload)] =
      some (String.ofList payload) := rfl
  simp only [decodeQuery, fields, given, version, Option.getD_some, ne_eq, not_true_eq_false,
    if_false, data, rowsOfJson?_rowsJson]

theorem decodeQuery_link {rows : List (List String)} {z : List UInt8}
    (contents : Codec.Zlib.decompress? z = some (Text.Utf8.encode (payloadText rows)))
    (letters : payload = Codec.Base64.encode z ∨ payload = padded (Codec.Base64.encode z)) :
    decodeQuery (linkStart ++ String.ofList payload) = .ok (some rows) ∧
      ∀ url : String, '?' ∉ url.toList →
        decodeQuery (url ++ "?" ++ (linkStart ++ String.ofList payload)) = .ok (some rows) := by
  have unmarked : Unmarked payload := by
    rcases letters with rfl | rfl
    · exact encode_unmarked z
    · exact padded_unmarked z
  have data : payloadJson? (String.ofList payload) = some (rowsJson rows) := by
    apply payloadJson?_letters contents
    rcases letters with rfl | rfl
    · rfl
    · exact padded_padded _
  have fields := pairs_link unmarked
  constructor
  · refine decodeQuery_of_pairs ?_ data
    rw [String.toList_append, String.toList_ofList, queryPart_link unmarked, fields]
  · intro url absent
    refine decodeQuery_of_pairs ?_ data
    have parts : (url ++ "?" ++ (linkStart ++ String.ofList payload)).toList =
        url.toList ++ '?' :: (linkStart.toList ++ payload) := by simp
    rw [parts, queryPart_url absent, fields]

theorem readRow_tokens (tokens : List String) (chance : Chance) :
    (readRow tokens chance).1.map Cell.token = tokens := by
  unfold readRow
  induction tokens generalizing chance with
  | nil => rfl
  | cons token rest ih =>
    rw [List.mapM_cons]
    exact congrArg (token :: ·) (ih _)

theorem ofTokens_tokens (rows : List (List String)) (chance : Chance) :
    (ofTokens rows chance).1.tokens = rows := by
  have read : ∀ chance, ((rows.mapM readRow) chance).1.map (fun row => row.map Cell.token) =
      rows := by
    induction rows with
    | nil => exact fun _ => rfl
    | cons row rest ih =>
      intro chance
      rw [List.mapM_cons]
      exact List.cons_eq_cons.mpr ⟨readRow_tokens row chance, ih _⟩
  exact read chance

/-- Reading the query string gives a document with the same tokens and nothing to undo. -/
def ReadFrom (d : Document) (query : String) : Prop :=
  ∀ strict chance, ∃ read, (ofQuery query strict chance).1 = .ok (some read) ∧
    read.tokens = d.tokens ∧
    read.history.canUndo = false

theorem readFrom_of_decodeQuery {d : Document} {query : String}
    (rows : decodeQuery query = .ok (some d.tokens)) : d.ReadFrom query := by
  intro strict chance
  refine ⟨(ofTokens d.tokens chance).1, ?_, ofTokens_tokens d.tokens chance, rfl⟩
  rw [ofQuery, rows]
  rfl

/-- Rows of tokens are read back from every link that carries them: with or without padding, behind
any address, and however they were compressed. So a document is read back from its own link. -/
theorem query_roundTrip :
    (∀ (rows : List (List String)) (z : List UInt8),
      Codec.Zlib.decompress? z = some (Text.Utf8.encode (payloadText rows)) →
      ∀ payload, payload = Codec.Base64.encode z ∨ payload = padded (Codec.Base64.encode z) →
        decodeQuery (linkStart ++ String.ofList payload) = .ok (some rows) ∧
        ∀ url : String, '?' ∉ url.toList →
          decodeQuery (url ++ "?" ++ (linkStart ++ String.ofList payload)) = .ok (some rows)) ∧
    (∀ (d : Document) (z : List UInt8),
      Codec.Zlib.decompress? z = some (Text.Utf8.encode (payloadText d.tokens)) →
        d.ReadFrom (linkStart ++ String.ofList (Codec.Base64.encode z))) ∧
    ∀ d : Document, d.ReadFrom d.toQuery := by
  refine ⟨fun rows z contents payload letters => decodeQuery_link contents letters, ?_, ?_⟩
  · intro d z contents
    exact readFrom_of_decodeQuery (decodeQuery_link contents (.inl rfl)).1
  · intro d
    have contents := Codec.Zlib.decompress?_compress (Text.Utf8.encode (payloadText d.tokens))
    exact readFrom_of_decodeQuery (decodeQuery_link contents (.inl rfl)).1

/-- A stream with fixed codes and a copied piece, in letters that need padding, behind an
address. -/
theorem query_roundTrip_coded :
    let rows := [["é\"\\", "😀", ""], [], ["fn1/2", "fn1/2"]]
    let z : List UInt8 :=
      [0x78, 0x9c, 0x8b, 0x8e, 0x56, 0x8a, 0x29, 0x35, 0x30, 0x48, 0xb5, 0x8c, 0x51, 0x8a, 0x89,
        0x51, 0xd2, 0x01, 0x72,
        0x52, 0x2c, 0x8c, 0x53, 0x80, 0x64, 0xaa, 0x81, 0x01, 0x90, 0xab, 0x14, 0xab, 0x13, 0x0d,
        0x44, 0x4a, 0x69,
        0x79, 0x86, 0xfa, 0x46, 0x40, 0x3e, 0x84, 0x8e, 0x8d, 0x05, 0x00, 0xaf, 0x4d, 0x0e, 0xe0]
    Codec.Zlib.decompress? z = some (Text.Utf8.encode (payloadText rows)) ∧
      decodeQuery ("host/p#a" ++ "?" ++
        (linkStart ++ String.ofList (padded (Codec.Base64.encode z)))) =
        .ok (some rows) := by
  intro rows z
  have contents : Codec.Zlib.decompress? z = some (Text.Utf8.encode (payloadText rows)) := by
    decide +kernel
  exact ⟨contents, (query_roundTrip.1 rows z contents _ (.inr rfl)).2 "host/p#a" (by decide)⟩

end Document

end Termwise
