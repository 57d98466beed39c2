import Mathlib.Algebra.Group.Nat.Defs
import Termwise.Document.Link

/-! The codecs of a link undo one another: letters and bytes, characters and bytes, and compressed
data and its contents. -/
namespace Termwise

theorem mapM_map_eq_some {α β : Type} {f : α → β} {g : β → Option α} (back : ∀ a, g (f a) = some a)
    (items : List α) : (items.map f).mapM g = some items := by
  induction items with
  | nil => rfl
  | cons a rest ih =>
    rw [List.map_cons, List.mapM_cons, back, ih]
    rfl

namespace Codec.Base64

variable {p q r s : Nat}

theorem byte_of_value {n : Nat} {b : UInt8} (value : n = b.toNat) : UInt8.ofNat n = b := by
  rw [value, UInt8.ofNat_toNat]

theorem sextet?_letter {n : Nat} (small : n < 64) : sextet? (letter n) = some n := by
  revert n
  decide

/-- Letters are not padding, and are nothing that a query string gives a meaning to. -/
theorem letter_plain {n : Nat} (small : n < 64) :
    (letter n).toNat < 128 ∧ letter n ∉ ['=', '&', '+', '%', '?'] := by
  revert n
  decide

theorem letter_ne_padding {n : Nat} (small : n < 64) : letter n ≠ '=' :=
  fun padding => (letter_plain small).2 (by simp [padding])

theorem decodeFrom?_group (hp : p < 64) (hq : q < 64) (hr : r < 64) (hs : s < 64)
    (rest : List Char) :
    decodeFrom? {} (letter p :: letter q :: letter r :: letter s :: rest) =
      (decodeFrom? {} rest).map fun bytes =>
      UInt8.ofNat (p * 4 + q / 16) :: UInt8.ofNat (q % 16 * 16 + r / 4) ::
        UInt8.ofNat (r % 4 * 64 + s) :: bytes := by
  simp [decodeFrom?, sextet?_letter, letter_ne_padding, hp, hq, hr, hs, Option.map_map,
    Function.comp_def]

theorem decodeFrom?_padded (hp : p < 64) (hq : q < 64) (hr : r < 64) :
    decodeFrom? {} [letter p, letter q, letter r, '='] =
      some [UInt8.ofNat (p * 4 + q / 16), UInt8.ofNat (q % 16 * 16 + r / 4)] := by
  simp [decodeFrom?, sextet?_letter, letter_ne_padding, hp, hq, hr]

theorem decodeFrom?_padded_twice (hp : p < 64) (hq : q < 64) :
    decodeFrom? {} [letter p, letter q, '=', '='] = some [UInt8.ofNat (p * 4 + q / 16)] := by
  simp [decodeFrom?, sextet?_letter, letter_ne_padding, hp, hq]

theorem encode_plain (bytes : List UInt8) :
    ∀ c ∈ encode bytes, c.toNat < 128 ∧ c ∉ ['=', '&', '+', '%', '?'] := by
  fun_induction encode bytes with
  | case1 a b c rest n ih =>
    have := a.toNat_lt
    have := b.toNat_lt
    have := c.toNat_lt
    intro letter member
    simp only [List.mem_cons] at member
    rcases member with rfl | rfl | rfl | rfl | later
    · exact letter_plain (by omega)
    · exact letter_plain (by omega)
    · exact letter_plain (by omega)
    · exact letter_plain (by omega)
    · exact ih letter later
  | case2 a b n =>
    have := a.toNat_lt
    have := b.toNat_lt
    intro letter member
    simp only [List.mem_cons, List.not_mem_nil, or_false] at member
    rcases member with rfl | rfl | rfl <;> exact letter_plain (by omega)
  | case3 a =>
    have := a.toNat_lt
    intro letter member
    simp only [List.mem_cons, List.not_mem_nil, or_false] at member
    rcases member with rfl | rfl <;> exact letter_plain (by omega)
  | case4 => simp

theorem decodeFrom?_encode (bytes : List UInt8) :
    decodeFrom? {} (Document.padded (encode bytes)) = some bytes := by
  unfold Document.padded
  fun_induction encode bytes with
  | case1 a b c rest n ih =>
    have := a.toNat_lt
    have := b.toNat_lt
    have := c.toNat_lt
    simp only [List.length_cons, Nat.add_assoc, Nat.reduceAdd, Nat.add_mod_right, List.cons_append]
    rw [decodeFrom?_group (by omega) (by omega) (by omega) (by omega), ih, Option.map_some]
    rw [byte_of_value (b := a) (by omega), byte_of_value (b := b) (by omega),
      byte_of_value (b := c) (by omega)]
  | case2 a b n =>
    have := a.toNat_lt
    have := b.toNat_lt
    refine (decodeFrom?_padded (by omega) (by omega) (by omega)).trans ?_
    rw [byte_of_value (b := a) (by omega), byte_of_value (b := b) (by omega)]
  | case3 a =>
    have := a.toNat_lt
    refine (decodeFrom?_padded_twice (by omega) (by omega)).trans ?_
    rw [byte_of_value (b := a) (by omega)]
  | case4 => rfl

theorem decode?_encode (bytes : List UInt8) :
    decode? (Document.padded (encode bytes)) = some bytes := by
  unfold decode?
  rw [if_pos, decodeFrom?_encode]
  rw [List.all_eq_true]
  intro c member
  rcases List.mem_append.mp member with letter | padding
  · exact decide_eq_true (encode_plain bytes c letter).1
  · obtain rfl := List.eq_of_mem_replicate padding
    decide

end Codec.Base64

namespace Text.Utf8

variable {n : Nat}

theorem pieces_cons (state : Option Pending) (small : n < 256) (rest : List UInt8) :
    pieces state (UInt8.ofNat n :: rest) = (step state n).1 ++ pieces (step state n).2 rest := by
  rw [pieces, UInt8.toNat_ofNat', Nat.mod_eq_of_lt small]

theorem pieces_continue (owed bits : Nat) {k least greatest : Nat}
    (range : least ≤ 0x80 + k % 64 ∧ 0x80 + k % 64 ≤ greatest) (rest : List UInt8) :
    pieces (some ⟨owed + 2, least, greatest, bits⟩) (UInt8.ofNat (0x80 + k % 64) :: rest) =
      pieces (some ⟨owed + 1, 0x80, 0xbf, bits * 64 + k % 64⟩) rest := by
  rw [pieces_cons _ (by omega), step, if_pos range, if_neg (by simp), Nat.add_sub_cancel_left]
  rfl

theorem pieces_last (bits : Nat) {k least greatest : Nat}
    (range : least ≤ 0x80 + k % 64 ∧ 0x80 + k % 64 ≤ greatest) (rest : List UInt8) :
    pieces (some ⟨1, least, greatest, bits⟩) (UInt8.ofNat (0x80 + k % 64) :: rest) =
      .char (Char.ofNat (bits * 64 + k % 64)) :: pieces none rest := by
  rw [pieces_cons _ (by omega), step, if_pos range, if_pos (Nat.le_refl 1), Nat.add_sub_cancel_left]
  rfl

theorem begin_two (low : 0x80 ≤ n) (high : n < 0x800) :
    begin (0xc0 + n / 64) = ([], some ⟨1, 0x80, 0xbf, n / 64⟩) := by
  rw [begin, if_neg (by omega), if_pos (by omega), Nat.add_sub_cancel_left]

/-- The range of the second byte leaves out the short characters and the surrogates, and this is
neither. -/
theorem begin_three (low : 0x800 ≤ n) (high : n < 0x10000) (whole : n < 0xd800 ∨ 0xdfff < n) :
    ∃ least greatest, begin (0xe0 + n / 4096) = ([], some ⟨2, least, greatest, n / 4096⟩) ∧
      least ≤ 0x80 + n / 64 % 64 ∧ 0x80 + n / 64 % 64 ≤ greatest := by
  unfold begin
  rw [if_neg (by omega), if_neg (by omega)]
  by_cases first : n / 4096 = 0
  · exact ⟨_, _, by rw [if_pos (by omega), first], by omega, by omega⟩
  · by_cases surrogates : n / 4096 = 0xd
    · exact ⟨_, _, by rw [if_neg (by omega), if_pos (by omega), surrogates], by omega, by omega⟩
    · refine ⟨0x80, 0xbf, ?_, ?_⟩
      · rw [if_neg (by omega), if_neg (by omega), if_pos (by omega), Nat.add_sub_cancel_left]
      · omega

theorem begin_four (low : 0x10000 ≤ n) (high : n < 0x110000) :
    ∃ least greatest, begin (0xf0 + n / 262144) = ([], some ⟨3, least, greatest, n / 262144⟩) ∧
      least ≤ 0x80 + n / 4096 % 64 ∧ 0x80 + n / 4096 % 64 ≤ greatest := by
  unfold begin
  rw [if_neg (by omega), if_neg (by omega), if_neg (by omega), if_neg (by omega), if_neg (by omega)]
  by_cases first : n / 262144 = 0
  · exact ⟨_, _, by rw [if_pos (by omega), first], by omega, by omega⟩
  · by_cases last : n / 262144 = 4
    · exact ⟨_, _, by rw [if_neg (by omega), if_neg (by omega), if_pos (by omega), last],
        by omega, by omega⟩
    · refine ⟨0x80, 0xbf, ?_, ?_⟩
      · rw [if_neg (by omega), if_pos (by omega), Nat.add_sub_cancel_left]
      · omega

theorem pieces_encodeChar (c : Char) (rest : List UInt8) :
    pieces none (encodeChar c ++ rest) = .char c :: pieces none rest := by
  have valid : c.toNat < 0xd800 ∨ 0xdfff < c.toNat ∧ c.toNat < 0x110000 := c.valid
  have back : Char.ofNat c.toNat = c := Char.ofNat_toNat c
  unfold encodeChar
  generalize c.toNat = n at valid back
  by_cases one : n < 0x80
  · simp only [if_pos one, List.cons_append, List.nil_append]
    rw [pieces_cons none (by omega), step, begin, if_pos one, back]
    rfl
  by_cases two : n < 0x800
  · simp only [if_neg one, if_pos two, List.cons_append, List.nil_append]
    rw [pieces_cons none (by omega), step, begin_two (by omega) two]
    refine (pieces_last (n / 64) (by omega) rest).trans ?_
    rw [show n / 64 * 64 + n % 64 = n by omega, back]
  by_cases three : n < 0x10000
  · obtain ⟨least, greatest, first, range⟩ := begin_three (by omega) three (by omega)
    simp only [if_neg one, if_neg two, if_pos three, List.cons_append, List.nil_append]
    rw [pieces_cons none (by omega), step, first]
    refine (pieces_continue 0 (n / 4096) range _).trans ?_
    rw [pieces_last _ (by omega), show (n / 4096 * 64 + n / 64 % 64) * 64 + n % 64 =
      n by omega, back]
  · obtain ⟨least, greatest, first, range⟩ := begin_four (n := n) (by omega) (by omega)
    simp only [if_neg one, if_neg two, if_neg three, List.cons_append, List.nil_append]
    rw [pieces_cons none (by omega), step, first]
    refine (pieces_continue 1 (n / 262144) range _).trans ?_
    rw [pieces_continue 0 _ (by omega), pieces_last _ (by omega),
      show ((n / 262144 * 64 + n / 4096 % 64) * 64 + n / 64 % 64) * 64 + n % 64 = n by omega, back]

theorem pieces_encode (cs : List Char) : pieces none (encode cs) = cs.map .char := by
  induction cs with
  | nil => rfl
  | cons c rest ih =>
    rw [encode, List.flatMap_cons, pieces_encodeChar, ← encode, ih, List.map_cons]

theorem decode?_encode (cs : List Char) : decode? (encode cs) = some cs := by
  rw [decode?, pieces_encode]
  exact mapM_map_eq_some (f := Piece.char) (fun _ => rfl) cs

end Text.Utf8

namespace Codec

namespace Inflate

theorem byteBits_length (b : UInt8) : (byteBits b).length = 8 := by simp [byteBits]

theorem stream_length (bytes : List UInt8) :
    (bytes.flatMap byteBits).length = 8 * bytes.length := by
  induction bytes with
  | nil => rfl
  | cons b rest ih =>
    rw [List.flatMap_cons, List.length_append, byteBits_length, ih, List.length_cons]
    omega

theorem bits?_range (count n : Nat) (rest : List Bool) :
    bits? count ((List.range count).map (fun i => decide (n / Nat.pow 2 i % 2 = 1)) ++ rest) =
      some (n % 2 ^ count, rest) := by
  induction count generalizing n with
  | zero => simp [bits?, Nat.mod_one]
  | succ count ih =>
    have later : ∀ i, n / Nat.pow 2 (i + 1) = n / 2 / Nat.pow 2 i := by
      intro i
      rw [Nat.div_div_eq_div_mul]
      congr 1
      exact Nat.pow_succ'
    have value : (if n % 2 = 1 then 1 else 0) + 2 * (n / 2 % 2 ^ count) = n % 2 ^ (count + 1) := by
      rw [Nat.pow_succ', Nat.mod_mul]
      split <;> omega
    rw [List.range_succ_eq_map, List.map_cons, List.map_map, List.cons_append, bits?]
    simp only [Function.comp_def, Nat.succ_eq_add_one, later, ih]
    simp [value]

theorem bits?_byte (b : UInt8) (rest : List Bool) :
    bits? 8 (byteBits b ++ rest) = some (b.toNat, rest) := by
  refine (bits?_range 8 b.toNat rest).trans ?_
  rw [Nat.mod_eq_of_lt b.toNat_lt]

theorem bits?_add (k : Nat) {j x : Nat} {stream rest : List Bool}
    (first : bits? j stream = some (x, rest)) :
    bits? (j + k) stream = (bits? k rest).map fun (y, after) => (x + 2 ^ j * y, after) := by
  induction j generalizing stream x with
  | zero =>
    cases first
    simp
  | succ j ih =>
    cases stream with
    | nil => cases first
    | cons b stream =>
      obtain ⟨⟨n, after⟩, read, value⟩ := Option.bind_eq_some_iff.mp first
      cases value
      rw [Nat.add_right_comm, bits?, ih read]
      rcases bits? k rest with _ | ⟨y, after⟩
      · rfl
      · simp [Nat.pow_succ', Nat.mul_add, Nat.add_assoc, Nat.mul_assoc]

theorem bits?_littleEndian {n : Nat} (small : n < 65536) (rest : List Bool) :
    bits? 16 ((Zlib.littleEndian n).flatMap byteBits ++ rest) = some (n, rest) := by
  simp only [Zlib.littleEndian, List.flatMap_cons, List.flatMap_nil, List.append_nil,
    List.append_assoc]
  rw [bits?_add 8 (bits?_byte _ _), bits?_byte]
  simp only [Option.map_some, UInt8.toNat_ofNat', Option.some.injEq, Prod.mk.injEq, and_true]
  omega

theorem bytes?_stream (bytes : List UInt8) (rest : List Bool) (out : Array UInt8) :
    bytes? bytes.length (bytes.flatMap byteBits ++ rest) out = some (rest, out ++ bytes) := by
  induction bytes generalizing out with
  | nil => simp [bytes?]
  | cons b more ih =>
    rw [List.length_cons, List.flatMap_cons, List.append_assoc, bytes?, bits?_byte]
    simp [ih]

/-- What is left of the byte that opens a block is skipped. -/
theorem stored?_stream (opening : List Bool) {bytes : List UInt8} {rest : List Bool}
    (out : Array UInt8) (opened : opening.length < 8) (aligned : rest.length % 8 = 0)
    (small : bytes.length ≤ Zlib.blockSize) :
    stored? (opening ++
      ((Zlib.littleEndian bytes.length ++ Zlib.littleEndian (65535 - bytes.length) ++
        bytes).flatMap byteBits ++ rest)) out = some (rest, out ++ bytes) := by
  unfold Zlib.blockSize at small
  unfold stored?
  rw [List.length_append, List.length_append, stream_length,
    show (opening.length +
      (8 * (Zlib.littleEndian bytes.length ++ Zlib.littleEndian (65535 - bytes.length) ++
        bytes).length + rest.length)) % 8 = opening.length by omega, List.drop_left]
  simp only [List.flatMap_append, List.append_assoc]
  rw [bits?_littleEndian (by omega)]
  simp only [Option.bind_eq_bind, Option.bind_some]
  rw [bits?_littleEndian (by omega), Option.bind_some, if_pos (by omega)]
  exact bytes?_stream bytes rest out

theorem block?_stored (final : Bool) (stream : List Bool) (out : Array UInt8) :
    block? (byteBits (if final then 1 else 0) ++ stream) out =
      (stored? (List.replicate 5 false ++ stream) out).bind fun (rest, out) => some
        (final, rest, out) := by
  cases final <;> rfl

theorem block?_stream (final : Bool) {bytes : List UInt8} {rest : List Bool} (out : Array UInt8)
    (aligned : rest.length % 8 = 0) (small : bytes.length ≤ Zlib.blockSize) :
    block? ((Zlib.storedBlock final bytes).flatMap byteBits ++ rest) out =
      some (final, rest, out ++ bytes) := by
  rw [Zlib.storedBlock, List.flatMap_cons, List.append_assoc, block?_stored,
    stored?_stream _ out (by simp) aligned small, Option.bind_some]

theorem blocks?_stream {rest : List Bool} (aligned : rest.length % 8 = 0) (gas fuel : Nat)
    (bytes : List UInt8) (out : Array UInt8) (enough : fuel < gas)
    (room : bytes.length ≤ Zlib.blockSize * (fuel + 1)) :
    blocks? gas ((Zlib.storedBlocks fuel bytes).flatMap byteBits ++ rest) out =
      some (rest, out ++ bytes) := by
  induction fuel generalizing gas bytes out with
  | zero =>
    obtain ⟨gas, rfl⟩ := Nat.exists_eq_succ_of_ne_zero (Nat.ne_of_gt enough)
    rw [Zlib.storedBlocks, blocks?, block?_stream true out aligned (by omega)]
    rfl
  | succ fuel ih =>
    obtain ⟨gas, rfl⟩ := Nat.exists_eq_succ_of_ne_zero (Nat.ne_of_gt (Nat.zero_lt_of_lt enough))
    rw [Zlib.storedBlocks]
    split
    next small =>
      rw [blocks?, block?_stream true out aligned small]
      rfl
    next large =>
      have later :
          (((Zlib.storedBlocks fuel (bytes.drop Zlib.blockSize)).flatMap byteBits) ++ rest).length
            % 8 = 0 := by
        rw [List.length_append, stream_length]
        omega
      rw [List.flatMap_append, List.append_assoc, blocks?,
        block?_stream false out later (List.length_take_le _ _)]
      refine (ih gas (bytes.drop Zlib.blockSize) (out ++ bytes.take Zlib.blockSize)
        (by omega) ?_).trans ?_
      · rw [Nat.mul_succ] at room
        rw [List.length_drop]
        omega
      · exact congrArg (fun out => some (rest, out)) (Array.ext' (by simp))

theorem length_le_storedBlocks (fuel : Nat) (bytes : List UInt8) :
    bytes.length ≤ (Zlib.storedBlocks fuel bytes).length := by
  have block : ∀ final (bytes : List UInt8), bytes.length ≤
      (Zlib.storedBlock final bytes).length := by
    intro final bytes
    simp only [Zlib.storedBlock, List.length_cons, List.length_append]
    omega
  induction fuel generalizing bytes with
  | zero => exact block true bytes
  | succ fuel ih =>
    rw [Zlib.storedBlocks]
    split
    · exact block true bytes
    · have first := block false (bytes.take Zlib.blockSize)
      have later := ih (bytes.drop Zlib.blockSize)
      rw [List.length_take] at first
      rw [List.length_drop] at later
      rw [List.length_append]
      omega

theorem expand?_storedBlocks (bytes trailer : List UInt8) :
    expand? (Zlib.storedBlocks bytes.length bytes ++ trailer) =
      some (bytes, trailer.flatMap byteBits) := by
  have aligned : (trailer.flatMap byteBits).length % 8 = 0 := by
    rw [stream_length]
    omega
  have blocks := length_le_storedBlocks bytes.length bytes
  have read := blocks?_stream aligned
    (((Zlib.storedBlocks bytes.length bytes).flatMap byteBits ++
      trailer.flatMap byteBits).length + 1)
    bytes.length bytes #[] ?_ (by unfold Zlib.blockSize; omega)
  · simp only [expand?, List.flatMap_append, read, Option.bind_eq_bind, Option.bind_some, aligned,
      List.drop_zero]
    simp
  · rw [List.length_append, stream_length]
    omega

end Inflate

namespace Zlib

theorem checksum_lt (bytes : List UInt8) : checksum bytes < 2 ^ 32 := by
  unfold checksum
  generalize summed : bytes.foldl _ _ = sums
  obtain ⟨low, high⟩ : sums.1 < 65521 ∧ sums.2 < 65521 := by
    rw [← summed]
    apply List.foldlRecOn (motive := fun sums : Nat × Nat => sums.1 < 65521 ∧ sums.2 < 65521)
    · decide
    · intro sums _ b _
      exact ⟨Nat.mod_lt _ (by decide), Nat.mod_lt _ (by decide)⟩
  dsimp only
  omega

theorem word?_bytes (a b c d : UInt8) :
    word? ([a, b, c, d].flatMap Inflate.byteBits) =
      some (((a.toNat * 256 + b.toNat) * 256 + c.toNat) * 256 + d.toNat) := by
  simp only [word?, List.flatMap_cons, List.flatMap_nil, Inflate.bits?_byte, Option.bind_eq_bind,
    Option.bind_some]
  rfl

theorem decompress?_compress (bytes : List UInt8) : decompress? (compress bytes) = some bytes := by
  have small := checksum_lt bytes
  have header : isHeader (UInt8.toNat 0x78) (UInt8.toNat 0x01) = true := by decide
  simp only [compress, List.cons_append, List.nil_append, decompress?,
    Inflate.expand?_storedBlocks, header,
    Bool.not_true, Bool.false_eq_true, if_false, Option.bind_eq_bind, Option.bind_some, word?_bytes,
    UInt8.toNat_ofNat']
  rw [if_pos (by omega)]
  rfl

end Zlib

end Codec

end Termwise
